import StratumServer.Blocks.Orphans

/-!
# The tip that the consumer counts from

`handle_block_connected` raises the shared tip to the height of the block
and promotes the blocks that have enough confirmations below that tip.
Nothing ever lowers the tip, so after a reorganisation it stays above the
chain of the node.

There are three groups.

* What the consumer does in a `BlockConnected` event: `turns_confirmStep`.
* The condition `Rising` on the runs: no block is connected below an earlier
  one, and the immature blocks are on the chain.
* The invariant `TipKnown` and the result, `tip_follows`.  In the run of
  `tip_follows_fails`, a block is promoted below a fork.
-/

namespace StratumServer

open Sql Tasks

/-! ## The events of a connected block -/

/-- Why a block is promoted: it has enough confirmations below the tip that
was read, or a batch of its round is pending. -/
def PromotedBy (minConfirmations : Nat) (done : Done) (id : Nat) : Prop :=
  (∃ tip, ⟨.chainTipGet, tip⟩ ∈ done ∧
    ∃ blocks, ⟨.db (.listBlocks (some .immature)), .ok blocks⟩ ∈ done ∧
      ∃ b ∈ blocks, b.id = id ∧ AccountingService.toI32 minConfirmations ≤
        AccountingService.confirms tip b.height) ∨
    ∃ hash batches, ⟨.db (.getBatchesByBlockHash hash), .ok batches⟩ ∈ done ∧
      batches.any (·.status == .pending) = true

/-- The consumer raises the tip before it reads it, and it promotes after
that. -/
structure ConfirmStep (minConfirmations : Nat) (height : Option Int)
    (done : Done) (o : Op) : Prop where
  raises : ∀ h, o = .updateBlockConnected h → height = some h
  reads : o = .chainTipGet →
    ∃ h r, height = some h ∧ ⟨.updateBlockConnected h, r⟩ ∈ done
  promotes : ∀ id, o = .db (.markMatured id) →
    PromotedBy minConfirmations done id

/-- The operations that the order is about. -/
def Op.confirms : Op → Bool
  | .updateBlockConnected _ | .chainTipGet | .db (.markMatured _) => true
  | _ => false

section Paths

variable {minConfirmations : Nat} {height : Option Int} {done : Done} {o : Op}

theorem confirmStep_of_other (ho : o.confirms = false) :
    ConfirmStep minConfirmations height done o := by
  refine ⟨?_, ?_, ?_⟩
  · rintro h rfl
    cases ho
  · rintro rfl
    cases ho
  · rintro id rfl
    cases ho

/-- The tip was raised and read. -/
def TipRead (h tip : Int) (done : Done) : Prop :=
  (∃ r, ⟨.updateBlockConnected h, r⟩ ∈ done) ∧ ⟨.chainTipGet, tip⟩ ∈ done

theorem TipRead.cons {h tip : Int} (hread : TipRead h tip done)
    (x : (o : Op) × o.Res) : TipRead h tip (x :: done) := by
  obtain ⟨⟨r, hr⟩, hget⟩ := hread
  exact ⟨⟨r, List.mem_cons_of_mem x hr⟩, List.mem_cons_of_mem x hget⟩

theorem reconnectBlock_confirms {h tip : Int} (fb : FoundBlock) :
    Prog.Keeps (ConfirmStep minConfirmations height) (TipRead h tip)
      (reconnectBlock fb) := by
  intro done hread
  refine Prog.paths_bind (paths_db (confirmStep_of_other rfl) fun r => ?_)
  cases r with
  | error e => exact hread.cons _
  | ok batches =>
    dsimp only
    split
    · exact hread.cons _
    · refine Prog.paths_bind (paths_db (confirmStep_of_other rfl) fun r => ?_)
      cases r with
      | error e => exact (hread.cons _).cons _
      | ok u =>
        cases hpending : batches.any (·.status == .pending) with
        | false => exact (hread.cons _).cons _
        | true =>
          refine Prog.paths_bind (paths_db ⟨fun _ => nofun, nofun, ?_⟩
            fun r => ((hread.cons _).cons _).cons _)
          exact fun id _ => Or.inr ⟨fb.blockHash, batches, by simp, hpending⟩

theorem reconnectOrphaned_confirms {h tip : Int} (blockHash : String) :
    Prog.Keeps (ConfirmStep minConfirmations height) (TipRead h tip)
      (reconnectOrphaned blockHash) := by
  intro done hread
  refine Prog.paths_bind (paths_db (confirmStep_of_other rfl) fun r => ?_)
  match r with
  | .error e | .ok none => exact hread.cons _
  | .ok (some fb) =>
    dsimp only
    split
    · exact reconnectBlock_confirms fb _ (hread.cons _)
    · exact hread.cons _

theorem checkMaturation_confirms {h tip : Int} (hread : TipRead h tip done) :
    (AccountingService.checkMaturation tip minConfirmations).run.Paths
      (ConfirmStep minConfirmations height) (fun _ => TipRead h tip) done := by
  refine Prog.paths_exceptBind (paths_db (confirmStep_of_other rfl) fun r => ?_)
  cases r with
  | error e => exact hread.cons _
  | ok immature =>
    refine Prog.paths_mono ?_ (Prog.paths_exceptFoldlM
      (I := fun _ done => TipRead h tip done ∧
        ⟨.db (.listBlocks (some .immature)), .ok immature⟩ ∈ done)
      (E := fun _ => TipRead h tip) ?_ ⟨hread.cons _, List.mem_cons_self⟩)
    · intro r done hr
      cases r with
      | ok matured => exact hr.1
      | error e => exact hr
    · intro matured b hb done ⟨hread, hlist⟩
      unfold AccountingService.matureBlock
      split
      · rename_i henough
        refine Prog.paths_exceptBind (paths_db ⟨fun _ => nofun, nofun, ?_⟩
          fun r => ?_)
        · intro id heq
          cases heq
          exact Or.inl ⟨tip, hread.2, immature, hlist, b, hb, rfl, henough⟩
        · cases r with
          | error e => exact hread.cons _
          | ok u => exact ⟨hread.cons _, List.mem_cons_of_mem _ hlist⟩
      · exact ⟨hread, hlist⟩

theorem announceMatured_confirms {h tip : Int} (hread : TipRead h tip done) :
    (announceMatured tip minConfirmations).Paths
      (ConfirmStep minConfirmations height) (fun _ => TipRead h tip) done := by
  refine Prog.paths_bind (Prog.paths_mono ?_ (checkMaturation_confirms hread))
  intro r done hread
  cases r with
  | error e => exact hread
  | ok matured =>
    refine Prog.keeps_forM (fun b _ => Prog.keeps_perform fun done hread => ?_)
      done hread
    exact ⟨confirmStep_of_other rfl, fun r => hread.cons _⟩

/-- In the end the tip has been raised. -/
theorem handleBlockConnected_confirms (event : BlockEvent) :
    (handleBlockConnected minConfirmations event).Paths
      (ConfirmStep minConfirmations event.height)
      (fun _ done => ∀ h, event.height = some h →
        ∃ r, ⟨.updateBlockConnected h, r⟩ ∈ done) [] := by
  unfold handleBlockConnected
  split
  · rename_i hnone
    intro h hsome
    rw [hnone] at hsome
    cases hsome
  · rename_i h hheight
    refine Prog.paths_bind (Prog.paths_perform ⟨?_, nofun, fun _ => nofun⟩
      fun r => ?_)
    · intro h' heq
      cases heq
      exact hheight
    refine Prog.paths_bind (Prog.paths_perform ⟨fun _ => nofun, ?_,
      fun _ => nofun⟩ fun tip => ?_)
    · exact fun _ => ⟨h, r, hheight, List.mem_cons_self⟩
    have hread : TipRead h tip
        [⟨.chainTipGet, tip⟩, ⟨.updateBlockConnected h, r⟩] :=
      ⟨⟨r, by simp⟩, List.mem_cons_self⟩
    refine Prog.paths_bind (Prog.paths_mono ?_
      (reconnectOrphaned_confirms _ _ hread))
    intro _ done hread
    refine Prog.paths_bind (Prog.paths_mono ?_ (announceMatured_confirms hread))
    intro _ done hread
    refine Prog.paths_perform (confirmStep_of_other rfl) fun r => ?_
    intro h' hsome
    rw [hheight] at hsome
    cases hsome
    exact (hread.cons _).1

end Paths

/-! ### All runs -/

/-- The consumer goes step by step in a `BlockConnected` event, and it does
not touch the tip or promote in another one. -/
def ConfirmOp (minConfirmations : Nat) (t : Task)
    (now : Option Work × Done) (o : Op) : Prop :=
  t = .consumer →
    (∀ event, now.1 = some (.blockConnected event) →
      ConfirmStep minConfirmations event.height now.2 o) ∧
    ((∀ event, now.1 ≠ some (.blockConnected event)) → o.confirms = false)

/-- The consumer has raised the tip in the end. -/
def ConfirmEnd (t : Task) (now : Option Work × Done) : Prop :=
  t = .consumer → ∀ event h, now.1 = some (.blockConnected event) →
    event.height = some h → ∃ r, ⟨.updateBlockConnected h, r⟩ ∈ now.2

section Runs

variable {suite : Suite} {data : ChainData} {config : ServerConfig}

theorem boot_confirms (t : Task) :
    Follows (ConfirmOp config.minConfirmations) ConfirmEnd t (none, [])
      (boot config t) := by
  cases t with
  | consumer => exact fun _ _ _ => nofun
  | _ => exact Prog.paths_of_forall (fun _ _ => nofun) (fun _ _ => nofun) _ _

/-- An event that is not a `BlockConnected`. -/
theorem follows_notConnected {k : Work} {p : Body Unit} {P : Op → Prop}
    (hk : ∀ event, k ≠ .blockConnected event) (hp : p.Only P)
    (hP : ∀ o, P o → o.confirms = false) :
    Follows (ConfirmOp config.minConfirmations) ConfirmEnd .consumer
      (some k, []) p := by
  have hwork : ∀ event, some k ≠ some (.blockConnected event) :=
    fun event heq => hk event (Option.some.inj heq)
  refine Prog.paths_mono (E := fun _ _ => True) ?_
    (hp.keeps (J := fun _ => True) ?_ [] trivial)
  · exact fun _ _ _ _ event _ heq => absurd heq (hwork event)
  · intro o done ho _
    exact ⟨fun _ => ⟨fun event heq => absurd heq (hwork event),
      fun _ => hP o ho⟩, fun _ => trivial⟩

theorem start_confirms {t : Task} {k : Work} {s s' : Pool} {p : Body Unit}
    (hstart : Start suite config t k s p s') :
    Follows (ConfirmOp config.minConfirmations) ConfirmEnd t (some k, []) p := by
  cases hstart with
  | @blockConnected _ event _ _ =>
    refine Prog.paths_imp ?_ (Prog.paths_mono ?_
      (handleBlockConnected_confirms event))
    · intro done o hstep _
      refine ⟨fun event' heq => ?_, fun hne => absurd rfl (hne event)⟩
      cases heq
      exact hstep
    · intro _ done hend _ event' h heq
      cases heq
      exact hend h
  | blockDisconnected =>
    refine follows_notConnected (fun _ => nofun)
      (handleBlockDisconnected_only _) fun o ho => ?_
    unfold Op.orphans at ho
    split at ho
    all_goals first | rfl | cases ho
  | miningWorkChanged =>
    refine follows_notConnected (fun _ => nofun) onMiningWorkChanged_only
      fun o ho => ?_
    unfold Op.changesWork at ho
    split at ho
    all_goals first | rfl | cases ho
  | _ => exact Prog.paths_of_forall (fun _ _ => nofun) (fun _ _ => nofun) _ _

/-- In every run, the consumer goes step by step. -/
theorem turns_confirmStep {ok : PoolWorld → PoolEntry → Prop} :
    (pool suite data config).Turns ok
      (Follow (ConfirmOp config.minConfirmations) ConfirmEnd) :=
  Machine.turns_follow boot_confirms fun hstart => start_confirms hstart

end Runs

/-! ## Chains that rise -/

/-- The heights of the blocks that were connected since the process
started. -/
def connectedHeights : List PoolEntry → List Int
  | [] => []
  | .crashed :: _ => []
  | .began .consumer (.blockConnected event) :: log =>
    event.height.toList ++ connectedHeights log
  | _ :: log => connectedHeights log

/-- The block is on the chain of the node, at its height. -/
def Node.HasAt (n : Node) (b : FoundBlock) : Prop :=
  0 ≤ b.height ∧ n.chain.reverse[b.height.toNat]? = some b.blockHash

instance (n : Node) (b : FoundBlock) : Decidable (n.HasAt b) :=
  inferInstanceAs (Decidable (_ ∧ _))

/-- The confirmations of a block on the chain of the node. -/
def Node.confirmations (n : Node) (b : FoundBlock) : Int :=
  if n.HasAt b then n.tip - b.height + 1 else 0

/-- The event of a `BlockConnected` that the consumer takes up. -/
def connectedEvent : PoolEntry → Option BlockEvent
  | .began .consumer (.blockConnected event) => some event
  | _ => none

/-- The consumer lists the immature blocks. -/
def listsImmature : PoolEntry → Bool
  | .did .consumer (.db (.listBlocks (some .immature))) _ => true
  | _ => false

/-- The hash of an orphaned block that the consumer looks for batches of. -/
def looksForBatches : PoolEntry → Option String
  | .did .consumer (.db (.getBatchesByBlockHash hash)) _ => some hash
  | _ => none

/-- No block is connected below an earlier one; the immature blocks are on
the chain when the consumer lists them; and no batch is pending for an
orphaned block that is connected. -/
structure Rising (w : PoolWorld) (e : PoolEntry) : Prop where
  known : ∀ event ∈ connectedEvent e, event.height.isSome = true
  higher : ∀ event ∈ connectedEvent e, ∀ h ∈ event.height,
    h < 2 ^ 31 - 1 ∧ ∀ h' ∈ connectedHeights w.log, h' ≤ h
  onChain : listsImmature e = true → ∀ b ∈ w.shared.db.foundBlocks.rows,
    b.status = .immature → w.shared.node.HasAt b
  free : ∀ hash ∈ looksForBatches e, ∀ b ∈ w.shared.db.foundBlocks.rows,
    b.blockHash = hash → ∀ p ∈ w.shared.db.payoutBatches.rows,
      p.roundId = b.roundId → p.status ≠ .pending

instance (w : PoolWorld) (e : PoolEntry) : Decidable (Rising w e) :=
  decidable_of_iff
    ((∀ event ∈ connectedEvent e, event.height.isSome = true) ∧
      (∀ event ∈ connectedEvent e, ∀ h ∈ event.height,
        h < 2 ^ 31 - 1 ∧ ∀ h' ∈ connectedHeights w.log, h' ≤ h) ∧
      (listsImmature e = true → ∀ b ∈ w.shared.db.foundBlocks.rows,
        b.status = .immature → w.shared.node.HasAt b) ∧
      ∀ hash ∈ looksForBatches e, ∀ b ∈ w.shared.db.foundBlocks.rows,
        b.blockHash = hash → ∀ p ∈ w.shared.db.payoutBatches.rows,
          p.roundId = b.roundId → p.status ≠ .pending)
    ⟨fun ⟨h₁, h₂, h₃, h₄⟩ => ⟨h₁, h₂, h₃, h₄⟩,
      fun h => ⟨h.known, h.higher, h.onChain, h.free⟩⟩

/-! ## The invariant -/

/-- What is known while the consumer handles a block of height `h`, and after
that until it begins with another event. -/
structure Connecting (w : PoolWorld) (h : Int) : Prop where
  up : w.shared.consumerUp = true
  real : w.shared.node.tip = h
  small : h < 2 ^ 31 - 1
  mem : h ∈ connectedHeights w.log
  highest : ∀ h' ∈ connectedHeights w.log, h' ≤ h
  raised : ∀ r, ⟨.updateBlockConnected h, r⟩ ∈ (current .consumer w.log).2 →
    w.shared.chainTip = h
  read : ∀ tip, ⟨.chainTipGet, tip⟩ ∈ (current .consumer w.log).2 → tip = h
  listed : ∀ blocks, ⟨.db (.listBlocks (some .immature)), .ok blocks⟩ ∈
    (current .consumer w.log).2 → ∀ b ∈ blocks, w.shared.node.HasAt b
  free : ∀ hash batches, ⟨.db (.getBatchesByBlockHash hash), .ok batches⟩ ∈
    (current .consumer w.log).2 →
      batches.any (·.status == .pending) = false

/-- The tip comes from a block that was connected, and it is the tip of the
node once the consumer has raised it. -/
structure TipKnown (w : PoolWorld) : Prop where
  chain : w.shared.node.chain ≠ []
  tip : w.shared.chainTip = 0 ∨ w.shared.chainTip ∈ connectedHeights w.log
  connected : ∀ event, (current .consumer w.log).1 =
    some (.blockConnected event) → ∃ h, event.height = some h ∧ Connecting w h

namespace TipKnown

variable {suite : Suite} {data : ChainData} {config : ServerConfig}
  {w : PoolWorld} {t : Task} {o : Op} {r : o.Res} {s' : Pool}

theorem connecting (h : TipKnown w) {event : BlockEvent} {height : Int}
    (hevent : (current .consumer w.log).1 = some (.blockConnected event))
    (hheight : event.height = some height) : Connecting w height := by
  obtain ⟨height', hheight', hc⟩ := h.connected event hevent
  cases hheight.symm.trans hheight'
  exact hc

theorem tip_nonneg (h : TipKnown w) : 0 ≤ w.shared.node.tip := by
  unfold Node.tip
  have hlength := List.length_pos_iff.2 h.chain
  omega

/-- Raising the tip to the height of the block that is being connected. -/
theorem raise (h : TipKnown w) {height : Int} (hc : Connecting w height) :
    ChainTip.updateBlockConnected w.shared.chainTip height = height := by
  have hnonneg := h.tip_nonneg
  rw [hc.real] at hnonneg
  have hle : w.shared.chainTip ≤ height := by
    rcases h.tip with hzero | hmem
    · omega
    · exact hc.highest _ hmem
  unfold ChainTip.updateBlockConnected
  split_ifs <;> omega

/-- Only the consumer raises the tip, and only to the height of the block
that it handles. -/
theorem chainTip_did (h : TipKnown w)
    (hsem : (pool suite data config).sem o w.shared r s')
    (hby : o.by t = true)
    (hstep : ConfirmOp config.minConfirmations t (current t w.log) o) :
    s'.chainTip = w.shared.chainTip ∨ t = .consumer ∧ ∃ event height,
      (current .consumer w.log).1 = some (.blockConnected event) ∧
        event.height = some height ∧ s'.chainTip = height := by
  rcases sem_chainTip hsem with heq | ⟨height, rfl, heq⟩
  · exact Or.inl heq
  · obtain rfl : t = .consumer := by simpa [Op.by] using hby
    obtain ⟨hconnected, hother⟩ := hstep rfl
    by_cases hwork : ∃ event, (current .consumer w.log).1 =
        some (.blockConnected event)
    · obtain ⟨event, hevent⟩ := hwork
      have hheight := (hconnected event hevent).raises height rfl
      refine Or.inr ⟨rfl, event, height, hevent, hheight, ?_⟩
      rw [heq, h.raise (h.connecting hevent hheight)]
    · cases hother fun event hevent => hwork ⟨event, hevent⟩

/-- A turn that touches neither the chain, nor the tip, nor what the consumer
does. -/
theorem congr {w' : PoolWorld} (h : TipKnown w)
    (hchain : w'.shared.node.chain = w.shared.node.chain)
    (htip : w'.shared.chainTip = w.shared.chainTip)
    (hup : w.shared.consumerUp = true → w'.shared.consumerUp = true)
    (hheights : connectedHeights w'.log = connectedHeights w.log)
    (hcurrent : current .consumer w'.log = current .consumer w.log) :
    TipKnown w' := by
  refine ⟨?_, ?_, ?_⟩
  · rw [hchain]
    exact h.chain
  · rw [htip, hheights]
    exact h.tip
  · intro event hevent
    rw [hcurrent] at hevent
    obtain ⟨height, hheight, hc₁, hc₂, hc₃, hc₄, hc₅, hc₆, hc₇, hc₈, hc₉⟩ :=
      h.connected event hevent
    rw [← hcurrent] at hc₆ hc₇ hc₈ hc₉
    rw [← hheights] at hc₄ hc₅
    rw [← htip] at hc₆
    unfold Node.tip at hc₂
    unfold Node.HasAt at hc₈
    rw [← hchain] at hc₂ hc₈
    exact ⟨height, hheight, hup hc₁, hc₂, hc₃, hc₄, hc₅, hc₆, hc₇, hc₈, hc₉⟩

/-- An operation of the consumer. -/
theorem connecting_self {r : o.Res} (h : TipKnown w)
    (hsem : (pool suite data config).sem o w.shared r s')
    {event : BlockEvent} {height : Int}
    (hevent : (current .consumer w.log).1 = some (.blockConnected event))
    (hheight : event.height = some height)
    (hstep : ConfirmStep config.minConfirmations event.height
      (current .consumer w.log).2 o)
    (hok : Rising w (.did .consumer o r)) :
    Connecting (w.after s' (.did .consumer o r)) height := by
  have hc := h.connecting hevent hheight
  have hraised : s'.chainTip = w.shared.chainTip ∨ s'.chainTip = height := by
    rcases sem_chainTip hsem with heq | ⟨height', rfl, heq⟩
    · exact Or.inl heq
    · cases hheight.symm.trans (hstep.raises height' rfl)
      exact Or.inr (heq.trans (h.raise hc))
  have hchain := sem_chain hsem
  refine ⟨sem_consumerUp hsem hc.up, ?_, hc.small, hc.mem, hc.highest,
    ?_, ?_, ?_, ?_⟩
  · rw [World.after_shared, ← hc.real]
    unfold Node.tip
    rw [hchain]
  all_goals rw [World.after_log, current_did]
  · intro r' hmem
    rw [World.after_shared]
    rcases List.mem_cons.1 hmem with hx | hold
    · cases hx
      cases hsem
      exact h.raise hc
    · rcases hraised with heq | heq
      · exact heq.trans (hc.raised r' hold)
      · exact heq
  · intro tip hmem
    rcases List.mem_cons.1 hmem with hx | hold
    · cases hx
      obtain ⟨height', r', hheight', hmem'⟩ := hstep.reads rfl
      cases hheight.symm.trans hheight'
      exact hsem.1.trans (hc.raised r' hmem')
    · exact hc.read tip hold
  · intro blocks hmem b hb
    rw [World.after_shared]
    unfold Node.HasAt
    rw [hchain]
    rcases List.mem_cons.1 hmem with hx | hold
    · cases hx
      rcases sem_db hsem with ⟨hr, _⟩ | ⟨⟨e, he⟩, _⟩
      · rw [Except.ok.inj hr] at hb
        obtain ⟨hrow, hstatus⟩ := List.mem_filter.1 hb
        exact hok.onChain rfl b (List.mem_reverse.1 hrow) (by simpa using hstatus)
      · cases he
    · exact hc.listed blocks hold b hb
  · intro hash batches hmem
    rcases List.mem_cons.1 hmem with hx | hold
    · cases hx
      rcases sem_db hsem with ⟨hr, _⟩ | ⟨⟨e, he⟩, _⟩
      · rw [Except.ok.inj hr, List.any_eq_false]
        intro p hp hpending
        obtain ⟨p', hp', hmap⟩ := List.mem_flatMap.1 hp
        obtain ⟨b, hb, rfl⟩ := List.mem_map.1 hmap
        obtain ⟨hrow, hmatch⟩ := List.mem_filter.1 hb
        obtain ⟨hround, hhash⟩ := Bool.and_eq_true_iff.1 hmatch
        exact hok.free hash rfl b hrow (eq_of_beq hhash) p' hp'
          (eq_of_beq hround).symm (eq_of_beq hpending)
      · cases he
    · exact hc.free hash batches hold

theorem did (h : TipKnown w)
    (hsem : (pool suite data config).sem o w.shared r s')
    (hby : o.by t = true)
    (hstep : ConfirmOp config.minConfirmations t (current t w.log) o)
    (hok : Rising w (.did t o r)) : TipKnown (w.after s' (.did t o r)) := by
  have htip := h.chainTip_did hsem hby hstep
  by_cases ht : Task.consumer = t
  · subst ht
    refine ⟨?_, ?_, ?_⟩
    · rw [World.after_shared, sem_chain hsem]
      exact h.chain
    · rw [World.after_shared]
      rcases htip with heq | ⟨_, event, height, hevent, hheight, heq⟩
      · rw [heq]
        exact h.tip
      · rw [heq]
        exact Or.inr (h.connecting hevent hheight).mem
    · intro event hevent
      rw [World.after_log, current_did] at hevent
      obtain ⟨height, hheight, _⟩ := h.connected event hevent
      exact ⟨height, hheight, h.connecting_self hsem hevent hheight
        ((hstep rfl).1 event hevent) hok⟩
  · refine h.congr (sem_chain hsem) ?_ (sem_consumerUp hsem) rfl
      (current_did_of_ne ht o r)
    rcases htip with heq | ⟨hconsumer, _⟩
    · exact heq
    · exact absurd hconsumer.symm ht

theorem began {k : Work} {p : Body Unit} (h : TipKnown w)
    (hstart : Start suite config t k w.shared p s')
    (hok : Rising w (.began t k)) : TipKnown (w.after s' (.began t k)) := by
  cases hstart with
  | @blockConnected _ event hup hheight =>
    obtain ⟨height, hsome⟩ := Option.isSome_iff_exists.1 (hok.known event rfl)
    obtain ⟨hsmall, hhigher⟩ := hok.higher event rfl height hsome
    have hreal : height = w.shared.node.tip + 1 := by
      rcases hheight with hnone | heq
      · cases hsome.symm.trans hnone
      · exact Option.some.inj (hsome.symm.trans heq)
    have hheights : connectedHeights
        (.began .consumer (.blockConnected event) :: w.log) =
        height :: connectedHeights w.log := by
      simp [connectedHeights, hsome]
    refine ⟨List.cons_ne_nil _ _, ?_, ?_⟩
    · rw [World.after_log, hheights]
      exact h.tip.imp id (List.mem_cons_of_mem _)
    · intro event' hevent
      rw [World.after_log, current_began] at hevent
      cases hevent
      refine ⟨height, hsome, hup, ?_, hsmall, ?_, ?_, ?_, ?_, ?_, ?_⟩
      · rw [hreal]
        unfold Node.tip
        simp
      · rw [World.after_log, hheights]
        exact List.mem_cons_self
      · rw [World.after_log, hheights]
        exact List.forall_mem_cons.2 ⟨le_refl height, hhigher⟩
      all_goals
        rw [World.after_log, current_began]
        nofun
  | blockDisconnected _ _ hrest =>
    refine ⟨hrest, h.tip, ?_⟩
    intro event hevent
    rw [World.after_log, current_began] at hevent
    cases hevent
  | miningWorkChanged =>
    refine ⟨h.chain, h.tip, ?_⟩
    intro event hevent
    rw [World.after_log, current_began] at hevent
    cases hevent
  | _ => exact h.congr rfl rfl id rfl rfl

theorem env (h : TipKnown w) (henv : Env w.shared s') :
    TipKnown (w.after s' .env) := by
  rcases henv with ⟨now, _, rfl⟩ | ⟨hdown, chain, hchain, rfl⟩
  · exact h.congr rfl rfl id rfl rfl
  · refine ⟨hchain, h.tip, ?_⟩
    intro event hevent
    obtain ⟨height, hheight, hc⟩ := h.connected event hevent
    have hup := hc.up
    rw [hdown] at hup
    cases hup

end TipKnown

/-! ## The result -/

section Result

variable {suite : Suite} {data : ChainData} {config : ServerConfig}

theorem reach_tipKnown {c : PoolConfig}
    (h : (pool suite data config).Reach Rising c) : TipKnown c.world := by
  refine Machine.Reach.invariant ?_ ?_ ?_ ?_ ?_
    (turns_confirmStep.reach (reach_grounded h))
  · rintro s ⟨now, chain, hchain, rfl⟩
    exact ⟨hchain, Or.inl rfl, fun _ => nofun⟩
  · intro w t o r s' hknown hsem ⟨⟨hok, hground⟩, hstep⟩
    exact hknown.did hsem hground.2.1 hstep hok
  · intro w t k p s' hknown hstart ⟨⟨hok, _⟩, _⟩
    exact hknown.began hstart hok
  · exact fun hknown henv _ => hknown.env henv
  · rintro w s' _ ⟨chain, hchain, rfl⟩ _
    exact ⟨hchain, Or.inl rfl, fun _ => nofun⟩

theorem toI32_of_lt {z : Int} (hlow : -(2 ^ 31) ≤ z) (hhigh : z < 2 ^ 31) :
    AccountingService.toI32 z = z := by
  unfold AccountingService.toI32
  exact Int.bmod_eq_of_le (by omega) (by omega)

/-- The confirmations that the consumer computes for a block on the chain are
those of the node. -/
theorem confirms_eq {n : Node} {b : FoundBlock} (hat : n.HasAt b)
    (hsmall : n.tip < 2 ^ 31 - 1) :
    AccountingService.confirms n.tip b.height = n.confirmations b := by
  have hlt : b.height.toNat < n.chain.reverse.length :=
    (List.getElem?_eq_some_iff.1 hat.2).1
  have hnonneg := hat.1
  have hle : b.height ≤ n.tip := by
    unfold Node.tip
    rw [List.length_reverse] at hlt
    omega
  unfold AccountingService.confirms Node.confirmations
  rw [if_pos hat]
  exact toI32_of_lt (by omega) (by omega)

/-- The id of a block that the consumer promotes. -/
def consumerPromotes : PoolEntry → Option Nat
  | .did .consumer (.db (.markMatured id)) _ => some id
  | _ => none

/-- The consumer promotes a block only when it has the confirmations on the
chain of the node. -/
def PromotesConfirmed (minConfirmations : Nat) (w : PoolWorld)
    (e : PoolEntry) : Prop :=
  ∀ id ∈ consumerPromotes e, ∀ b ∈ w.shared.db.foundBlocks.rows, b.id = id →
    (minConfirmations : Int) ≤ w.shared.node.confirmations b

instance (minConfirmations : Nat) (w : PoolWorld) (e : PoolEntry) :
    Decidable (PromotesConfirmed minConfirmations w e) :=
  inferInstanceAs (Decidable (∀ _ ∈ _, ∀ _ ∈ _, _))

theorem promotes_confirmed {w : PoolWorld} {event : BlockEvent} {id : Nat}
    (hmin : config.minConfirmations < 2 ^ 31) (hknown : TipKnown w)
    (hreads : ReadsKept w.shared.db w.log)
    (hevent : (current .consumer w.log).1 = some (.blockConnected event))
    (hstep : ConfirmStep config.minConfirmations event.height
      (current .consumer w.log).2 (.db (.markMatured id)))
    {height : Int} (hheight : event.height = some height) {b : FoundBlock}
    (hb : b ∈ w.shared.db.foundBlocks.rows) (hid : b.id = id) :
    (config.minConfirmations : Int) ≤ w.shared.node.confirmations b := by
  have hc := hknown.connecting hevent hheight
  rcases hstep.promotes id rfl with
    ⟨tip, htip, blocks, hblocks, b', hb', hid', henough⟩ |
    ⟨hash, batches, hbatches, hpending⟩
  · -- The block was listed, and its row has kept the hash and the height.
    have hread : (b'.blockHash, b') ∈
        blocksRead (current .consumer w.log).2 :=
      List.mem_flatMap.2 ⟨_, hblocks, List.mem_map.2 ⟨b', hb', rfl⟩⟩
    obtain ⟨b'', hb'', hfixed⟩ := (hreads .consumer _ hread).1
    obtain rfl : b'' = b := by
      refine w.shared.db.foundBlocks.eq_of_id hb'' hb ?_
      exact (FoundBlock.id_of_fixed hfixed).trans (hid'.trans hid.symm)
    have hat : w.shared.node.HasAt b'' := by
      have hlisted := hc.listed blocks hblocks b' hb'
      unfold Node.HasAt at hlisted ⊢
      rw [FoundBlock.blockHash_of_fixed hfixed,
        FoundBlock.height_of_fixed hfixed]
      exact hlisted
    have hsmall := hc.small
    rw [← hc.real] at hsmall
    rw [hc.read tip htip, ← hc.real, ← FoundBlock.height_of_fixed hfixed,
      confirms_eq hat hsmall, toI32_of_lt (by omega) (by omega)] at henough
    exact henough
  · have hnone := hc.free hash batches hbatches
    rw [hpending] at hnone
    cases hnone

/-- When the chain only rises, the tip is that of the node after each
`BlockConnected` event, and the consumer promotes a block only when it has
the confirmations. -/
theorem tip_follows (hmin : config.minConfirmations < 2 ^ 31) :
    (∀ c : PoolConfig, (pool suite data config).Reach Rising c →
      c.task .consumer = .ret () → ∀ event,
        (current .consumer c.world.log).1 = some (.blockConnected event) →
        c.world.shared.chainTip = c.world.shared.node.tip) ∧
    (pool suite data config).Turns Rising
      (PromotesConfirmed config.minConfirmations) := by
  constructor
  · intro c h hidle event hevent
    obtain ⟨height, hheight, hc⟩ :=
      (reach_tipKnown h).connected event hevent
    obtain ⟨r, hraised⟩ := h.follows_idle boot_confirms
      (fun hstart => start_confirms hstart) hidle rfl event height hevent hheight
    rw [hc.real]
    exact hc.raised r hraised
  · intro c c' e h hok hturn id hid b hb heq
    have hstep := turns_confirmStep h hok hturn
    unfold consumerPromotes at hid
    split at hid
    · cases hid
      obtain ⟨hconnected, hother⟩ := hstep rfl
      by_cases hwork : ∃ event, (current .consumer c.world.log).1 =
          some (.blockConnected event)
      · obtain ⟨event, hevent⟩ := hwork
        obtain ⟨height, hheight, _⟩ :=
          (reach_tipKnown h).connected event hevent
        exact promotes_confirmed hmin (reach_tipKnown h) (reach_readsKept h)
          hevent (hconnected event hevent) hheight hb heq
      · cases hother fun event hevent => hwork ⟨event, hevent⟩
    · cases hid

end Result

/-- A run in which the second event promotes the block. -/
theorem tip_follows_sample : ∃ c : PoolConfig,
    (pool sampleSuite sampleData sampleConfig).Reach Rising c ∧
    c.world.shared.db.foundBlocks.rows.map (·.status) = [.matured] ∧
    c.world.shared.chainTip = c.world.shared.node.tip ∧
    schedule sampleSuite sampleData sampleConfig (fun w e =>
      decide (Rising w e) &&
        decide (PromotesConfirmed sampleConfig.minConfirmations w e))
      ["genesis"] maturesFirst = some c := by
  have hrun : (schedule sampleSuite sampleData sampleConfig
      (fun w e => decide (Rising w e)) ["genesis"] maturesFirst).any (fun c =>
        decide (c.world.shared.db.foundBlocks.rows.map (·.status) =
            [.matured] ∧ (c.task .consumer).isRet = true ∧
          (current .consumer c.world.log).1 =
            some (.blockConnected ⟨"b2", some 2, []⟩))) = true := by
    decide +kernel
  obtain ⟨c, hc, hreach, hstatus, hidle, hevent⟩ := exists_schedule _ _ _
    (fun _ _ h => of_decide_eq_true h) (by decide) hrun
  obtain ⟨htip, hturns⟩ := @tip_follows sampleSuite sampleData
    sampleConfig (by decide)
  exact ⟨c, hreach, hstatus,
    htip c hreach (Prog.eq_ret_of_isRet hidle) _ hevent,
    turns_schedule _ _ _ hturns (fun _ _ h => of_decide_eq_true h) (by decide)
      hc⟩

/-- The node drops three blocks, and the pool finds the first of the new
branch. -/
def forks : List Scene :=
  let job := sampleJob 7 1 easyTarget
  bootsWith job ++
    connects "a1" 1 ++ connects "a2" 2 ++ connects "a3" 3 ++
    disconnects "a3" 3 ++ disconnects "a2" 2 ++ disconnects "a1" 1 ++
    logsIn 0 "lotus_a.rig" ++ submits 0 (sampleSubmit "lotus_a.rig" job "0a") ++
    connects firstHash 1

/-- After the fork the tip is above that of the node, and the block was
promoted with one confirmation, where two are asked for. -/
theorem tip_follows_fails :
    (∃ c : PoolConfig, schedule sampleSuite sampleData sampleConfig
        (fun _ _ => true) ["genesis"] forks = some c ∧
      (pool sampleSuite sampleData sampleConfig).Reach (fun _ _ => True) c ∧
      c.task .consumer = .ret () ∧
      (current .consumer c.world.log).1 =
        some (.blockConnected ⟨firstHash, some 1, []⟩) ∧
      c.world.shared.chainTip = 3 ∧ c.world.shared.node.tip = 1) ∧
    ¬ (pool sampleSuite sampleData sampleConfig).Turns (fun _ _ => True)
      (PromotesConfirmed sampleConfig.minConfirmations) := by
  have hrun : (schedule sampleSuite sampleData sampleConfig
      (fun _ _ => true) ["genesis"] forks).any (fun c =>
        decide ((c.task .consumer).isRet = true ∧
          (current .consumer c.world.log).1 =
            some (.blockConnected ⟨firstHash, some 1, []⟩) ∧
          c.world.shared.chainTip = 3 ∧ c.world.shared.node.tip = 1)) =
      true := by
    decide +kernel
  constructor
  · obtain ⟨c, hc, hreach, hidle, hend⟩ :=
      exists_schedule _ _ _ (fun _ _ _ => trivial) (by decide) hrun
    exact ⟨c, hc, hreach, Prog.eq_ret_of_isRet hidle, hend⟩
  · exact not_turns _ _ _ ["genesis"] (by decide) forks (by decide +kernel)
      (by decide +kernel)

end StratumServer
