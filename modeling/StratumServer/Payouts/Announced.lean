import StratumServer.Blocks.Orphans
import StratumServer.Payouts.Batches
import StratumServer.System.NodeSide

/-!
# Promoted blocks on their way to a batch

A block is promoted in the database by the maturation check, then its hash
goes through the channel to the payout handler, and the handler creates the
batch.  These are three steps in two tasks, and only immature blocks are
looked at again.

There are four groups.

* What a task of the node side has promoted and announced, and the order in
  which it does so: `turns_announceStep`.
* What the handler has done at the end of a `BlockMatured` event:
  `turns_handled`.
* The condition `MaturationsKept` on the runs.  Without it a promoted block
  can be lost on the way: `announced_fails`.
* The invariant `OnTheWay` and the result, `reach_announced`.
-/

namespace StratumServer

open Sql Tasks

/-! ## What the node side promotes and announces -/

/-- The ids of the blocks that a task has promoted. -/
def promoted (done : Done) : List Nat :=
  done.filterMap fun x =>
    match x with
    | ⟨.db (.markMatured id), .ok _⟩ => some id
    | _ => none

/-- The hashes that a task has announced to the payout handler. -/
def announced (done : Done) : List String :=
  done.filterMap fun x =>
    match x with
    | ⟨.send (.blockMatured hash), _⟩ => some hash
    | _ => none

/-- The promotions before a promotion that was refused: the maturation check
ends there, without announcing any of them. -/
def abandoned : Done → List Nat
  | [] => []
  | ⟨.db (.markMatured _), .error _⟩ :: done => promoted done
  | _ :: done => abandoned done

/-- The operations that the events of a promotion consist of. -/
def Op.announces : Op → Bool
  | .db (.markMatured _) | .send (.blockMatured _) => true
  | _ => false

/-- A promoted block was announced, or it was taken back in because its round
has a batch. -/
def Answered (done : Done) (id : Nat) : Prop :=
  (∃ y ∈ blocksRead done, y.2.id = id ∧ y.1 ∈ announced done) ∨
    ∃ y ∈ blocksRead done, y.2.id = id ∧ ∃ batches, batches ≠ [] ∧
      ⟨.db (.getBatchesByBlockHash y.2.blockHash), .ok batches⟩ ∈ done

/-- All promotions are abandoned or answered, except those of the blocks of
`l`, which the task has read. -/
def Sending (l : List FoundBlock) (done : Done) : Prop :=
  (∀ b ∈ l, (b.blockHash, b) ∈ blocksRead done) ∧
    ∀ id ∈ promoted done, id ∈ abandoned done ∨ Answered done id ∨
      ∃ b ∈ l, b.id = id

/-- Nothing is announced before the last promotion, and only blocks that were
read are announced. -/
structure AnnounceStep (done : Done) (o : Op) : Prop where
  marks : ∀ id, o = .db (.markMatured id) → announced done = []
  sends : ∀ hash, o = .send (.blockMatured hash) →
    ∃ y ∈ blocksRead done, y.1 = hash

section Done

variable {done : Done} {o : Op} {r : o.Res} {x : (o : Op) × o.Res}
  {l : List FoundBlock} {id : Nat}

theorem abandoned_subset : ∀ {done : Done}, abandoned done ⊆ promoted done
  | [] => List.nil_subset _
  | x :: done => by
    have hcons : promoted done ⊆ promoted (x :: done) := by
      unfold promoted
      rw [List.filterMap_cons]
      split
      · exact List.Subset.refl _
      · exact List.subset_cons_self _ _
    refine List.Subset.trans ?_ hcons
    unfold abandoned
    split
    · exact List.nil_subset _
    · rename_i heq
      cases heq
      exact List.Subset.refl _
    · rename_i heq
      cases heq
      exact abandoned_subset

theorem promoted_cons (ho : o.announces = false) :
    promoted (⟨o, r⟩ :: done) = promoted done := by
  unfold promoted
  rw [List.filterMap_cons]
  split
  · rfl
  · rename_i hsome
    split at hsome
    · rename_i heq
      cases heq
      cases ho
    · cases hsome

theorem announced_cons (ho : o.announces = false) :
    announced (⟨o, r⟩ :: done) = announced done := by
  unfold announced
  rw [List.filterMap_cons]
  split
  · rfl
  · rename_i hsome
    split at hsome
    · rename_i heq
      cases heq
      cases ho
    · cases hsome

theorem mem_abandoned_cons (h : id ∈ abandoned done) :
    id ∈ abandoned (x :: done) := by
  unfold abandoned
  split
  · rename_i heq
    cases heq
  · rename_i heq
    cases heq
    exact abandoned_subset h
  · rename_i heq
    cases heq
    exact h

theorem Answered.cons (h : Answered done id) : Answered (x :: done) id := by
  have hannounced : announced done ⊆ announced (x :: done) := by
    unfold announced
    rw [List.filterMap_cons]
    split
    · exact List.Subset.refl _
    · exact List.subset_cons_self _ _
  rcases h with ⟨y, hy, hid, hsent⟩ | ⟨y, hy, hid, batches, hne, hread⟩
  · exact Or.inl ⟨y, mem_blocksRead_cons.2 (Or.inr hy), hid, hannounced hsent⟩
  · exact Or.inr ⟨y, mem_blocksRead_cons.2 (Or.inr hy), hid, batches, hne,
      List.mem_cons_of_mem _ hread⟩

/-- A step without a promotion leaves nothing open. -/
theorem Sending.cons (h : Sending l done)
    (hx : promoted (x :: done) = promoted done) : Sending l (x :: done) := by
  refine ⟨fun b hb => mem_blocksRead_cons.2 (Or.inr (h.1 b hb)), ?_⟩
  rw [hx]
  intro id hid
  exact (h.2 id hid).imp mem_abandoned_cons (Or.imp_left Answered.cons)

theorem announceStep_of_other (ho : o.announces = false) :
    AnnounceStep done o := by
  refine ⟨?_, ?_⟩
  · rintro id rfl
    cases ho
  · rintro hash rfl
    cases ho

end Done

section Paths

variable {α : Type} {p : Body α} {P : Op → Prop}

/-- Nothing is announced yet, and nothing is left to announce. -/
def Quiet (done : Done) : Prop := announced done = [] ∧ Sending [] done

theorem keeps_quiet (hp : p.Only P) (hP : ∀ o, P o → o.announces = false) :
    Prog.Keeps AnnounceStep Quiet p := by
  refine hp.keeps fun o done ho hdone => ?_
  have hother := hP o ho
  refine ⟨announceStep_of_other hother, fun r => ⟨?_, ?_⟩⟩
  · rw [announced_cons hother]
    exact hdone.1
  · exact hdone.2.cons (promoted_cons hother)

theorem keeps_sent (hp : p.Only P) (hP : ∀ o, P o → o.announces = false) :
    Prog.Keeps AnnounceStep (Sending []) p := by
  refine hp.keeps fun o done ho hdone => ?_
  have hother := hP o ho
  exact ⟨announceStep_of_other hother,
    fun r => hdone.cons (promoted_cons hother)⟩

theorem keeps_quietOp {o : Op} (ho : o.announces = false) :
    Prog.Keeps AnnounceStep Quiet (Prog.perform o) :=
  keeps_quiet (P := (·.announces = false)) (Prog.only_perform ho) fun _ h => h

theorem keeps_sentOp {o : Op} (ho : o.announces = false) :
    Prog.Keeps AnnounceStep (Sending []) (Prog.perform o) :=
  keeps_sent (P := (·.announces = false)) (Prog.only_perform ho) fun _ h => h

/-- A promotion that was refused ends the maturation check. -/
theorem sending_of_refused (done : Done) (id : Nat) (e : Error) :
    Sending [] (⟨.db (.markMatured id), .error e⟩ :: done) :=
  ⟨fun _ => nofun, fun _ hid => Or.inl hid⟩

theorem matureBlock_announces {immature matured : List FoundBlock}
    {block : FoundBlock} (hblock : block ∈ immature) (tip : Int)
    (minConfirmations : Nat) {done : Done} (hquiet : announced done = [])
    (hread : ∀ b ∈ immature, (b.blockHash, b) ∈ blocksRead done)
    (h : Sending matured done) :
    (AccountingService.matureBlock tip minConfirmations matured
        block).run.Paths AnnounceStep
      (fun r done => match r with
        | .ok matured => announced done = [] ∧
          (∀ b ∈ immature, (b.blockHash, b) ∈ blocksRead done) ∧
          Sending matured done
        | .error _ => Sending [] done) done := by
  unfold AccountingService.matureBlock
  split
  · refine Prog.paths_exceptBind (Prog.paths_perform
      ⟨fun _ _ => hquiet, fun _ => nofun⟩ fun r => ?_)
    cases r with
    | error e => exact sending_of_refused done block.id e
    | ok u =>
      refine ⟨hquiet, fun b hb => mem_blocksRead_cons.2 (Or.inr (hread b hb)),
        fun b hb => ?_, fun id hid => ?_⟩
      · rcases List.mem_append.1 hb with hold | hnew
        · exact mem_blocksRead_cons.2 (Or.inr (h.1 b hold))
        · rw [List.mem_singleton.1 hnew]
          exact mem_blocksRead_cons.2 (Or.inr (hread block hblock))
      · rcases List.mem_cons.1 hid with rfl | hold
        · exact Or.inr (Or.inr ⟨block, by simp, rfl⟩)
        · refine (h.2 id hold).imp mem_abandoned_cons
            (Or.imp Answered.cons ?_)
          rintro ⟨b, hb, hbid⟩
          exact ⟨b, List.mem_append_left _ hb, hbid⟩
  · exact ⟨hquiet, hread, h⟩

theorem checkMaturation_announces (tip : Int) (minConfirmations : Nat)
    {done : Done} (h : Quiet done) :
    (AccountingService.checkMaturation tip minConfirmations).run.Paths
      AnnounceStep (fun r done => match r with
        | .ok matured => Sending matured done
        | .error _ => Sending [] done) done := by
  refine Prog.paths_exceptBind (Prog.paths_perform
    (announceStep_of_other rfl) fun r => ?_)
  cases r with
  | error e => exact h.2.cons rfl
  | ok immature =>
    have hread : ∀ b ∈ immature, (b.blockHash, b) ∈ blocksRead
        (⟨.db (.listBlocks (some .immature)), .ok immature⟩ :: done) :=
      fun b hb => mem_blocksRead_cons.2 (Or.inl (List.mem_map.2 ⟨b, hb, rfl⟩))
    refine Prog.paths_mono ?_ (Prog.paths_exceptFoldlM
      (I := fun matured done => announced done = [] ∧
        (∀ b ∈ immature, (b.blockHash, b) ∈ blocksRead done) ∧
        Sending matured done) (E := fun _ => Sending []) ?_
      ⟨h.1, hread, h.2.cons rfl⟩)
    · intro r done hr
      cases r with
      | ok matured => exact hr.2.2
      | error e => exact hr
    · intro matured block hblock done hI
      refine Prog.paths_mono ?_ (matureBlock_announces hblock tip
        minConfirmations hI.1 hI.2.1 hI.2.2)
      intro r done hr
      cases r <;> exact hr

theorem announceMatured_announces (tip : Int) (minConfirmations : Nat)
    {done : Done} (h : Quiet done) :
    (announceMatured tip minConfirmations).Paths AnnounceStep
      (fun _ => Sending []) done := by
  refine Prog.paths_bind (Prog.paths_mono ?_
    (checkMaturation_announces tip minConfirmations h))
  intro r done hr
  cases r with
  | error e => exact hr
  | ok matured =>
    refine Prog.paths_forM (I := Sending) ?_ hr
    intro b l done hdone
    have hread := hdone.1 b List.mem_cons_self
    refine Prog.paths_perform ⟨fun _ => nofun, ?_⟩ fun r => ?_
    · intro hash heq
      cases heq
      exact ⟨_, hread, rfl⟩
    · refine ⟨fun b' hb' => mem_blocksRead_cons.2
        (Or.inr (hdone.1 b' (List.mem_cons_of_mem b hb'))), fun id hid => ?_⟩
      rcases hdone.2 id hid with hgone | hanswered | ⟨b', hb', rfl⟩
      · exact Or.inl (mem_abandoned_cons hgone)
      · exact Or.inr (Or.inl hanswered.cons)
      · rcases List.mem_cons.1 hb' with rfl | hlater
        · refine Or.inr (Or.inl (Or.inl ⟨(b'.blockHash, b'),
            mem_blocksRead_cons.2 (Or.inr hread), rfl, List.mem_cons_self⟩))
        · exact Or.inr (Or.inr ⟨b', hlater, rfl⟩)

/-- A block is taken back in as matured when its round has a batch. -/
theorem reconnectBlock_announces {hash : String} {fb : FoundBlock}
    {done : Done} (hread : (hash, fb) ∈ blocksRead done) (h : Quiet done) :
    (reconnectBlock fb).Paths AnnounceStep (fun _ => Quiet) done := by
  refine Prog.paths_bind (paths_db (announceStep_of_other rfl)
    fun r => ?_)
  have hquiet : ∀ r, Quiet
      (⟨.db (.getBatchesByBlockHash fb.blockHash), r⟩ :: done) :=
    fun r => ⟨h.1, h.2.cons rfl⟩
  cases r with
  | error e => exact hquiet _
  | ok batches =>
    dsimp only
    split
    · exact hquiet _
    · refine Prog.paths_bind (paths_db (announceStep_of_other rfl)
        fun r => ?_)
      have hquiet' : ∀ r, Quiet (⟨.db (.unOrphan fb.blockHash), r⟩ ::
          ⟨.db (.getBatchesByBlockHash fb.blockHash), .ok batches⟩ :: done) :=
        fun r => ⟨h.1, (hquiet _).2.cons rfl⟩
      cases r with
      | error e => exact hquiet' _
      | ok u =>
        cases hpending : batches.any (·.status == .pending) with
        | false =>
          exact hquiet' _
        | true =>
          have hne : batches ≠ [] := by
            rintro rfl
            cases hpending
          refine Prog.paths_bind ⟨⟨fun _ _ => h.1, fun _ => nofun⟩,
            fun r => ?_⟩
          refine ⟨h.1, fun _ => nofun, fun id hid => ?_⟩
          cases r with
          | error e => exact Or.inl hid
          | ok u =>
            rcases List.mem_cons.1 hid with rfl | hold
            · refine Or.inr (Or.inl (Or.inr ⟨(hash, fb), ?_, rfl, batches, hne,
                by simp⟩))
              simpa only [mem_blocksRead_cons] using
                Or.inr (Or.inr (Or.inr hread))
            · exact ((hquiet' _).2.2 id hold).imp mem_abandoned_cons
                (Or.imp_left Answered.cons)

theorem reconnectOrphaned_announces (blockHash : String) {done : Done}
    (h : Quiet done) :
    (reconnectOrphaned blockHash).Paths AnnounceStep (fun _ => Quiet) done := by
  refine Prog.paths_bind (paths_db (announceStep_of_other rfl)
    fun r => ?_)
  have hquiet : ∀ r, Quiet (⟨.db (.getByHash blockHash), r⟩ :: done) :=
    fun r => ⟨h.1, h.2.cons rfl⟩
  match r with
  | .error e | .ok none => exact hquiet _
  | .ok (some fb) =>
    dsimp only
    split
    · exact reconnectBlock_announces
        (mem_blocksRead_cons.2 (Or.inl List.mem_cons_self)) (hquiet _)
    · exact hquiet _

theorem handleBlockConnected_announces (minConfirmations : Nat)
    (event : BlockEvent) {done : Done} (h : Quiet done) :
    (handleBlockConnected minConfirmations event).Paths AnnounceStep
      (fun _ => Sending []) done := by
  unfold handleBlockConnected
  split
  · exact h.2
  · refine Prog.paths_bind (Prog.paths_mono ?_ (keeps_quietOp rfl done h))
    intro _ done h
    refine Prog.paths_bind (Prog.paths_mono ?_ (keeps_quietOp rfl done h))
    intro tip done h
    refine Prog.paths_bind (Prog.paths_mono ?_
      (reconnectOrphaned_announces _ h))
    intro _ done h
    refine Prog.paths_bind (Prog.paths_mono ?_
      (announceMatured_announces _ _ h))
    exact fun _ done h => keeps_sentOp rfl done h

theorem Op.orphans_announces {o : Op} (ho : o.orphans = true) :
    o.announces = false := by
  unfold Op.orphans at ho
  split at ho
  all_goals first | rfl | cases ho

theorem handleBlockDisconnected_announces (event : BlockEvent) :
    Prog.Keeps AnnounceStep Quiet (handleBlockDisconnected event) :=
  keeps_quiet (handleBlockDisconnected_only event)
    fun _ => Op.orphans_announces

theorem onMiningWorkChanged_announces :
    Prog.Keeps AnnounceStep Quiet onMiningWorkChanged := by
  refine keeps_quiet onMiningWorkChanged_only fun o ho => ?_
  unfold Op.changesWork at ho
  split at ho
  all_goals first | rfl | cases ho

theorem mainBoot_announces (config : ServerConfig) :
    (mainBoot config).Paths AnnounceStep (fun _ => Sending []) [] := by
  have hquiet : Quiet [] := ⟨rfl, fun _ => nofun, fun _ => nofun⟩
  -- Before the maturation check nothing is announced, and after it nothing
  -- is promoted.
  refine Prog.paths_bind (Prog.paths_mono ?_ (keeps_quietOp rfl [] hquiet))
  intro r done h
  cases r with
  | none => exact h.2
  | some job =>
    refine Prog.paths_bind (Prog.paths_mono ?_ (keeps_quietOp rfl done h))
    intro _ done h
    refine Prog.paths_bind (Prog.paths_mono ?_ (keeps_quietOp rfl done h))
    intro _ done h
    have hreconcile : Prog.Keeps AnnounceStep Quiet startupReconcile := by
      refine Prog.Keeps.bind (keeps_quietOp rfl) fun r => ?_
      cases r with
      | ok tip =>
        exact keeps_dropResult (keeps_quiet
          (AccountingService.reconcileFoundBlocks_only tip)
          fun _ => Op.orphans_announces)
      | error e => exact Prog.keeps_pure _
    refine Prog.paths_bind (Prog.paths_mono ?_ (hreconcile done h))
    intro _ done h
    have hsettle : Prog.Keeps AnnounceStep Quiet
        (dropResult AccountingService.reconcileSubmittedPayouts) := by
      refine keeps_dropResult (keeps_quiet
        AccountingService.reconcileSubmittedPayouts_only fun o ho => ?_)
      unfold Op.settles at ho
      split at ho
      all_goals first | rfl | cases ho
    refine Prog.paths_bind (Prog.paths_mono ?_ (hsettle done h))
    intro _ done h
    refine Prog.paths_bind (Prog.paths_mono ?_ (keeps_quietOp rfl done h))
    intro _ done h
    refine Prog.paths_bind (Prog.paths_mono ?_ (keeps_quietOp rfl done h))
    intro _ done h
    have hmature : (startupMaturation config.minConfirmations).Paths
        AnnounceStep (fun _ => Sending []) done := by
      refine Prog.paths_bind (Prog.paths_mono ?_ (keeps_quietOp rfl done h))
      intro r done h
      cases r with
      | ok tip => exact announceMatured_announces _ _ h
      | error e => exact h.2
    refine Prog.paths_bind (Prog.paths_mono ?_ hmature)
    intro _ done h
    exact Prog.Keeps.bind (keeps_runIf (keeps_sentOp (o := .spawnHandler) rfl))
      (fun _ => keeps_sentOp (o := .spawnStratum) rfl) done h

end Paths

/-! ## What the handler does -/

/-- The handler has looked the block up, and it has seen a batch of the block
or called for one. -/
def Handled (hash : String) (done : Done) : Prop :=
  (∃ e, ⟨.db (.getByHash hash), .error e⟩ ∈ done) ∨
    ⟨.db (.getByHash hash), .ok none⟩ ∈ done ∨
    ∃ b, ⟨.db (.getByHash hash), .ok (some b)⟩ ∈ done ∧
      ((∃ batches, ⟨.db (.listBatches none), .ok batches⟩ ∈ done ∧
          batches.any (batchOfBlock b.blockHash) = true) ∨
        ∃ difficulty reward settings r,
          ⟨.db (.createPayout b difficulty reward settings), r⟩ ∈ done)

theorem Handled.cons {hash : String} {done : Done} (h : Handled hash done)
    (x : (o : Op) × o.Res) : Handled hash (x :: done) := by
  rcases h with ⟨e, he⟩ | hnone | ⟨b, hb, ⟨batches, hbatches, hany⟩ |
    ⟨difficulty, reward, settings, r, hcreate⟩⟩
  · exact Or.inl ⟨e, List.mem_cons_of_mem _ he⟩
  · exact Or.inr (Or.inl (List.mem_cons_of_mem _ hnone))
  · exact Or.inr (Or.inr ⟨b, List.mem_cons_of_mem _ hb,
      Or.inl ⟨batches, List.mem_cons_of_mem _ hbatches, hany⟩⟩)
  · exact Or.inr (Or.inr ⟨b, List.mem_cons_of_mem _ hb,
      Or.inr ⟨difficulty, reward, settings, r, List.mem_cons_of_mem _ hcreate⟩⟩)

theorem handleBlockMatured_handled (suite : Suite) (hash : String)
    (settings : PayoutSettings) :
    (handleBlockMatured suite hash settings).Paths (fun _ _ => True)
      (fun _ => Handled hash) [] := by
  have hrest : ∀ {done : Done}, Handled hash done →
      (processPendingPayoutsLocked suite settings).Paths (fun _ _ => True)
        (fun _ => Handled hash) done :=
    fun {done} h => Prog.keeps_of_forall
      (fun _ _ h => ⟨trivial, fun _ => h.cons _⟩) _ done h
  refine Prog.paths_bind (paths_db trivial fun r => ?_)
  match r with
  | .error e => exact Or.inl ⟨e, List.mem_cons_self⟩
  | .ok none => exact Or.inr (Or.inl List.mem_cons_self)
  | .ok (some b) =>
    refine Prog.paths_bind (paths_db trivial fun existing => ?_)
    cases hany : (existing.toOption.getD []).any (batchOfBlock b.blockHash) with
    | true =>
      refine Prog.paths_bind (hrest (Or.inr (Or.inr ⟨b, by simp, Or.inl ?_⟩)))
      cases existing with
      | ok batches => exact ⟨batches, List.mem_cons_self, hany⟩
      | error e => cases hany
    | false =>
      refine Prog.paths_bind (Prog.paths_bind (paths_db (d := .createPayout b
        (AccountingService.networkDifficulty suite b)
        (rewardFromCoinbase b.coinbaseValue) settings) trivial fun r => ?_))
      refine hrest (Or.inr (Or.inr ⟨b, by simp, Or.inr ?_⟩))
      exact ⟨_, _, _, r, List.mem_cons_self⟩

/-- The handler has done its work for the event that it has taken. -/
def HandledEnd (t : Task) (now : Option Work × Done) : Prop :=
  t = .handler → ∀ hash settings,
    now.1 = some (.payoutEvent (.blockMatured hash) settings) →
      Handled hash now.2

/-- The node side announces step by step. -/
def AnnounceOp (t : Task) (now : Option Work × Done) (o : Op) : Prop :=
  t.isNodeSide = true → AnnounceStep now.2 o

/-- The node side leaves nothing to announce. -/
def AnnounceEnd (t : Task) (now : Option Work × Done) : Prop :=
  t.isNodeSide = true → Sending [] now.2

section Turns

variable {suite : Suite} {data : ChainData} {config : ServerConfig}
  {ok : PoolWorld → PoolEntry → Prop}

theorem follows_announceStep {t : Task} {now : Option Work × Done}
    {p : Body Unit} (h : t.isNodeSide = true →
      p.Paths AnnounceStep (fun _ => Sending []) now.2) :
    Follows AnnounceOp AnnounceEnd t now p :=
  follows_guard (fun _ now => AnnounceStep now.2) (fun _ now => Sending [] now.2)
    h

theorem boot_announces (t : Task) :
    Follows AnnounceOp AnnounceEnd t (none, []) (boot config t) := by
  refine follows_announceStep fun ht => ?_
  cases t with
  | main => exact mainBoot_announces config
  | consumer => exact ⟨fun _ => nofun, fun _ => nofun⟩
  | _ => cases ht

theorem start_announces {t : Task} {k : Work} {s s' : Pool} {p : Body Unit}
    (hstart : Start suite config t k s p s') :
    Follows AnnounceOp AnnounceEnd t (some k, []) p := by
  have hquiet : Quiet [] := ⟨rfl, fun _ => nofun, fun _ => nofun⟩
  refine follows_announceStep fun ht => ?_
  cases hstart with
  | blockConnected => exact handleBlockConnected_announces _ _ hquiet
  | blockDisconnected =>
    exact Prog.paths_mono (fun _ _ h => h.2)
      (handleBlockDisconnected_announces _ [] hquiet)
  | miningWorkChanged =>
    exact Prog.paths_mono (fun _ _ h => h.2)
      (onMiningWorkChanged_announces [] hquiet)
  | _ => cases ht

/-- In every run, the node side announces step by step. -/
theorem turns_announceStep : (pool suite data config).Turns ok
    (Follow AnnounceOp AnnounceEnd) :=
  Machine.turns_follow boot_announces fun hstart => start_announces hstart

theorem boot_handled (t : Task) :
    Follows (fun _ _ _ => True) HandledEnd t (none, []) (boot config t) :=
  Prog.paths_of_forall (fun _ _ => trivial) (fun _ _ _ _ _ => nofun) _ _

theorem start_handled {t : Task} {k : Work} {s s' : Pool} {p : Body Unit}
    (hstart : Start suite config t k s p s') :
    Follows (fun _ _ _ => True) HandledEnd t (some k, []) p := by
  cases hstart with
  | @payoutEvent _ settings event rest _ _ =>
    cases event with
    | blockConnected txids =>
      exact Prog.paths_of_forall (fun _ _ => trivial)
        (fun _ _ _ _ _ => nofun) _ _
    | blockMatured hash =>
      refine Prog.paths_mono ?_ (handleBlockMatured_handled suite hash settings)
      intro _ done hdone _ hash' settings' heq
      cases heq
      exact hdone
  | _ =>
    exact Prog.paths_of_forall (fun _ _ => trivial) (fun _ _ _ _ _ => nofun)
      _ _

/-- In every run, the handler comes to the end of its events. -/
theorem turns_handled : (pool suite data config).Turns ok
    (Follow (fun _ _ _ => True) HandledEnd) :=
  Machine.turns_follow boot_handled fun hstart => start_handled hstart

end Turns

/-! ## Maturations that are kept -/

/-- There is a batch for the block with this hash. -/
def Database.Batched (db : Database) (hash : String) : Prop :=
  ∃ p ∈ db.payoutBatches.rows, batchOfBlock hash p = true

instance (db : Database) (hash : String) : Decidable (db.Batched hash) :=
  inferInstanceAs (Decidable (∃ _ ∈ _, _))

/-- The task whose promotion was refused. -/
def refusedPromotion : PoolEntry → Option Task
  | .did t (.db (.markMatured _)) (.error _) => some t
  | _ => none

/-- The hash that a task could not look up. -/
def refusedLookup : PoolEntry → Option (Task × String)
  | .did t (.db (.getByHash hash)) (.error _) => some (t, hash)
  | _ => none

/-- A call for a batch. -/
structure PayoutCall where
  task : Task
  block : FoundBlock
  difficulty : ℚ
  reward : Int
  settings : PayoutSettings
  answer : Except Error Nat

def payoutCall : PoolEntry → Option PayoutCall
  | .did t (.db (.createPayout block difficulty reward settings)) r =>
    some ⟨t, block, difficulty, reward, settings, r⟩
  | _ => none

/-- The call is carried out, and the share of the block is stored. -/
def PayoutCall.Through (db : Database) (x : PayoutCall) : Prop :=
  (foundAt db x.block.blockHash).isSome = true ∧
    x.answer = ((DbOp.createPayout x.block x.difficulty x.reward
      x.settings).run db).1

instance (db : Database) (x : PayoutCall) : Decidable (x.Through db) :=
  inferInstanceAs (Decidable (_ ∧ _))

/-- Every block has a round of its own; the maturation check is not broken
off after it has promoted a block; the handler can look a block up, and its
call for a batch goes through, unless there is a batch; and a crash comes
when every matured block has its batch. -/
structure MaturationsKept (w : PoolWorld) (e : PoolEntry) : Prop where
  own : OwnRound w e
  marks : ∀ t ∈ refusedPromotion e, promoted (current t w.log).2 = []
  looksUp : ∀ x ∈ refusedLookup e, x.1 = .handler → w.shared.db.Batched x.2
  creates : ∀ x ∈ payoutCall e, x.task = .handler →
    w.shared.db.Batched x.block.blockHash ∨ x.Through w.shared.db
  survives : isCrash e = true → ∀ b ∈ w.shared.db.foundBlocks.rows,
    b.status = .matured → w.shared.db.Batched b.blockHash

instance (w : PoolWorld) (e : PoolEntry) : Decidable (MaturationsKept w e) :=
  decidable_of_iff
    (OwnRound w e ∧
      (∀ t ∈ refusedPromotion e, promoted (current t w.log).2 = []) ∧
      (∀ x ∈ refusedLookup e, x.1 = .handler → w.shared.db.Batched x.2) ∧
      (∀ x ∈ payoutCall e, x.task = .handler →
        w.shared.db.Batched x.block.blockHash ∨ x.Through w.shared.db) ∧
      (isCrash e = true → ∀ b ∈ w.shared.db.foundBlocks.rows,
        b.status = .matured → w.shared.db.Batched b.blockHash))
    ⟨fun ⟨h₁, h₂, h₃, h₄, h₅⟩ => ⟨h₁, h₂, h₃, h₄, h₅⟩,
      fun h => ⟨h.own, h.marks, h.looksUp, h.creates, h.survives⟩⟩

section Kept

variable {suite : Suite} {data : ChainData} {config : ServerConfig}

theorem Database.Batched.sem {o : Op} {s s' : Pool} {r : o.Res} {hash : String}
    (h : s.db.Batched hash) (hsem : (pool suite data config).sem o s r s') :
    s'.db.Batched hash := by
  rcases sem_database hsem with heq | ⟨d, rfl, _, rfl⟩
  · rw [heq]
    exact h
  · obtain ⟨p, hp, hkey⟩ := h
    obtain ⟨p', hp', hfix⟩ := d.batches_forward hp
    refine ⟨p', hp', ?_⟩
    unfold batchOfBlock at hkey ⊢
    rw [PayoutBatch.retryKey_of_fixed hfix]
    exact hkey

/-- A call that goes through leaves a batch. -/
theorem batched_createPayout {block : FoundBlock} {difficulty : ℚ}
    {reward : Int} {settings : PayoutSettings} {db : Database} {id : Nat}
    (h : ((DbOp.createPayout block difficulty reward settings).run db).1 =
      .ok id) :
    ((DbOp.createPayout block difficulty reward settings).run db).2.Batched
      block.blockHash := by
  simp only [DbOp.run] at h ⊢
  rcases createPayoutSection_cases block difficulty reward settings db with
    ⟨e, heq⟩ | ⟨found, n, batches, _, _, _, _, _, _, hins, heq⟩
  · rw [heq] at h
    cases h
  · rw [heq]
    obtain ⟨_, rfl, _, hrows⟩ := Table.insert_some hins
    obtain ⟨m, hm⟩ := planFor_retryKey block difficulty reward settings found db
    refine ⟨_, by rw [hrows]; exact List.mem_append_right _ List.mem_cons_self,
      ?_⟩
    change Option.any _ (some (planFor block difficulty reward settings found
      db).2.retryKey) = true
    have hsplit : s!"{block.blockHash}:{m}" =
        block.blockHash ++ (":" ++ m.repr) := String.append_assoc
    rw [hm, Option.any_some, String.startsWith_string_iff, hsplit,
      String.toList_append]
    exact List.prefix_append _ _

/-- The round of the block with this hash has a batch. -/
def Database.RoundBatched (db : Database) (hash : String) : Prop :=
  ∃ p ∈ db.payoutBatches.rows, ∃ b ∈ db.foundBlocks.rows,
    b.blockHash = hash ∧ p.roundId = b.roundId

theorem Database.RoundBatched.sem {o : Op} {s s' : Pool} {r : o.Res}
    {hash : String} (h : s.db.RoundBatched hash)
    (hsem : (pool suite data config).sem o s r s') :
    s'.db.RoundBatched hash := by
  rcases sem_database hsem with heq | ⟨d, rfl, _, rfl⟩
  · rw [heq]
    exact h
  · obtain ⟨p, hp, b, hb, hhash, hround⟩ := h
    obtain ⟨p', hp', hpfix⟩ := d.batches_forward hp
    obtain ⟨b', hb', hbfix⟩ := d.blocks_forward hb
    refine ⟨p', hp', b', hb', ?_, ?_⟩
    · exact (FoundBlock.blockHash_of_fixed hbfix).trans hhash
    · rw [PayoutBatch.roundId_of_fixed hpfix, hround,
        FoundBlock.roundId_of_fixed hbfix]

/-- When every block has a round of its own, a batch of the round is a batch
of the block. -/
theorem Database.RoundBatched.batched {db : Database} {hash : String}
    (h : db.RoundBatched hash) (hone : OneBlock db) (hsound : Sound data db) :
    db.Batched hash := by
  obtain ⟨p, hp, b, hb, rfl, hround⟩ := h
  obtain ⟨b₀, hb₀, _, hround₀, hkey⟩ := hsound.batch_block hp
  refine ⟨p, hp, (hkey b hb).2 ?_⟩
  exact hone b hb b₀ hb₀ (hround.symm.trans hround₀)

/-- What an answer that a task has got says about batches. -/
def Promises (t : Task) (db : Database) : (o : Op) × o.Res → Prop
  | ⟨.db (.getByHash hash), .error _⟩ => t = .handler → db.Batched hash
  | ⟨.db (.listBatches none), .ok batches⟩ =>
    ∀ hash, batches.any (batchOfBlock hash) = true → db.Batched hash
  | ⟨.db (.createPayout block _ _ _), _⟩ =>
    t = .handler → db.Batched block.blockHash
  | ⟨.db (.getBatchesByBlockHash hash), .ok batches⟩ =>
    batches ≠ [] → db.RoundBatched hash
  | _ => True

theorem Promises.mono {t : Task} {db db' : Database} {x : (o : Op) × o.Res}
    (hbatched : ∀ hash, db.Batched hash → db'.Batched hash)
    (hround : ∀ hash, db.RoundBatched hash → db'.RoundBatched hash)
    (h : Promises t db x) : Promises t db' x := by
  unfold Promises at h ⊢
  split at h
  · exact fun ht => hbatched _ (h ht)
  · exact fun hash hany => hbatched _ (h hash hany)
  · exact fun ht => hbatched _ (h ht)
  · exact fun hne => hround _ (h hne)
  · trivial

/-- A call of the handler that meets the condition leaves a batch. -/
theorem MaturationsKept.createPayout {w : PoolWorld} {t : Task}
    {block : FoundBlock} {difficulty : ℚ} {reward : Int}
    {settings : PayoutSettings} {r : Except Error Nat} {s' : Pool}
    (hsound : Sound data w.shared.db) (hblock : w.shared.db.HasBlock block)
    (hok : MaturationsKept w
      (.did t (.db (.createPayout block difficulty reward settings)) r))
    (hsem : (pool suite data config).sem
      (.db (.createPayout block difficulty reward settings)) w.shared r s')
    (ht : t = .handler) : s'.db.Batched block.blockHash := by
  by_cases hbatched : w.shared.db.Batched block.blockHash
  · exact hbatched.sem hsem
  · have hthrough := (hok.creates _ rfl ht).resolve_left hbatched
    obtain ⟨found, hfound⟩ := Option.isSome_iff_exists.1 hthrough.1
    obtain ⟨hash, hhash⟩ := hsound.hash_of_hasBlock hblock
    have hnone : ∀ p ∈ w.shared.db.payoutBatches.rows,
        ¬ CreatedFor p block.blockHash := by
      intro p hp hcreated
      refine hbatched ⟨p, hp, ?_⟩
      rw [hhash] at hcreated ⊢
      exact hcreated.batchOfBlock_iff.2 rfl
    obtain ⟨id, hid⟩ := hsound.createPayout_ok hhash hnone hfound difficulty
      reward settings
    rcases sem_db hsem with ⟨_, rfl⟩ | ⟨⟨e, he⟩, _⟩
    · exact batched_createPayout hid
    · have hanswer : r = .ok id := hthrough.2.trans hid
      rw [he] at hanswer
      cases hanswer

theorem promises_new {w : PoolWorld} {t : Task} {o : Op} {r : o.Res}
    {s' : Pool} (hsound : Sound data w.shared.db)
    (hg : Grounded suite data w t o) (hok : MaturationsKept w (.did t o r))
    (hsem : (pool suite data config).sem o w.shared r s') :
    Promises t s'.db ⟨o, r⟩ := by
  unfold Promises
  split
  · rename_i hash e heq
    cases heq
    exact fun ht => (hok.looksUp _ rfl ht).sem hsem
  · rename_i batches heq
    cases heq
    intro hash hany
    refine Database.Batched.sem ?_ hsem
    obtain ⟨p, hp, hkey⟩ := List.any_eq_true.1 hany
    rcases sem_db hsem with ⟨hr, _⟩ | ⟨⟨e, he⟩, _⟩
    · rw [Except.ok.inj hr] at hp
      exact ⟨p, List.mem_reverse.1 (List.mem_filter.1 hp).1, hkey⟩
    · cases he
  · rename_i heq
    cases heq
    exact fun ht => hok.createPayout hsound hg.2.1 hsem ht
  · rename_i hash batches heq
    cases heq
    intro hne
    refine Database.RoundBatched.sem ?_ hsem
    obtain ⟨p, hp⟩ := List.exists_mem_of_ne_nil batches hne
    rcases sem_db hsem with ⟨hr, _⟩ | ⟨⟨e, he⟩, _⟩
    · rw [Except.ok.inj hr] at hp
      obtain ⟨p', hp', hmem⟩ := List.mem_flatMap.1 hp
      obtain ⟨b, hb, rfl⟩ := List.mem_map.1 hmem
      obtain ⟨hrow, hmatch⟩ := List.mem_filter.1 hb
      obtain ⟨hround, hhash⟩ := Bool.and_eq_true_iff.1 hmatch
      exact ⟨p', hp', b, hrow, eq_of_beq hhash, (eq_of_beq hround).symm⟩
    · cases he
  · trivial

/-- The promises are kept in every run that meets the condition. -/
theorem reach_promises {c : PoolConfig}
    (h : (pool suite data config).Reach MaturationsKept c) :
    ∀ t, ∀ x ∈ (current t c.world.log).2, Promises t c.world.shared.db x := by
  refine reach_answers ?_ ?_ ?_ (reach_grounded h)
  · exact fun hsem _ => Promises.mono (fun _ h => h.sem hsem)
      (fun _ h => h.sem hsem)
  · exact fun now => Promises.mono (fun _ h => h) (fun _ h => h)
  · exact fun hsem hok => promises_new hok.2.1 hok.2.2 hok.1 hsem

theorem turns_promises : (pool suite data config).Turns MaturationsKept
    fun w _ => ∀ t, ∀ x ∈ (current t w.log).2, Promises t w.shared.db x :=
  fun _ _ _ h _ _ => reach_promises h

end Kept

/-! ## The invariant -/

/-- The handler is busy with the event for this hash. -/
def Handling (log : List PoolEntry) (hash : String) : Prop :=
  ∃ settings, (current .handler log).1 =
    some (.payoutEvent (.blockMatured hash) settings)

/-- The task has promoted the block and is still to announce it. -/
def Promoting (done : Done) (b : FoundBlock) : Prop :=
  b.id ∈ promoted done ∧ b.blockHash ∉ announced done

/-- The block is on its way: the event waits in the channel, the handler is
busy with it, or it is still to be sent. -/
def InFlight (w : PoolWorld) (b : FoundBlock) : Prop :=
  .blockMatured b.blockHash ∈ w.shared.channel ∨ Handling w.log b.blockHash ∨
    ∃ t : Task, t.isNodeSide = true ∧ Promoting (current t w.log).2 b

/-- What is known about the promoted blocks. -/
structure OnTheWay (w : PoolWorld) : Prop where
  one : OneBlock w.shared.db
  matured : ∀ b ∈ w.shared.db.foundBlocks.rows, b.status = .matured →
    w.shared.db.Batched b.blockHash ∨ InFlight w b
  queued : ∀ hash, .blockMatured hash ∈ w.shared.channel →
    w.shared.db.HasHash hash
  handling : ∀ hash, Handling w.log hash → w.shared.db.HasHash hash ∧
    ⟨.db (.getByHash hash), .ok none⟩ ∉ (current .handler w.log).2
  kept : ∀ t, abandoned (current t w.log).2 = []

namespace OnTheWay

variable {suite : Suite} {data : ChainData} {config : ServerConfig}
  {w : PoolWorld} {t : Task} {o : Op} {r : o.Res} {s' : Pool}

/-- A task of the node side that has come to its end has announced what it
promoted, or there is a batch. -/
theorem batched_of_sent (h : OnTheWay w) (hsound : Sound data w.shared.db)
    (hreads : ReadsKept w.shared.db w.log)
    (hpromises : ∀ x ∈ (current t w.log).2, Promises t w.shared.db x)
    (hend : Sending [] (current t w.log).2) {b : FoundBlock}
    (hb : b ∈ w.shared.db.foundBlocks.rows)
    (hpromoting : Promoting (current t w.log).2 b) :
    w.shared.db.Batched b.blockHash := by
  have hsame : ∀ y ∈ blocksRead (current t w.log).2, y.2.id = b.id →
      y.2.blockHash = b.blockHash ∧ y.1 = b.blockHash := by
    intro y hy hid
    obtain ⟨⟨b₁, hb₁, hfix⟩, hhash⟩ := hreads t y hy
    have heq : b₁ = b := by
      refine w.shared.db.foundBlocks.eq_of_id hb₁ hb ?_
      exact (FoundBlock.id_of_fixed hfix).trans hid
    have hblock : y.2.blockHash = b.blockHash := by
      rw [← FoundBlock.blockHash_of_fixed hfix, heq]
    exact ⟨hblock, hhash.symm.trans hblock⟩
  rcases hend.2 b.id hpromoting.1 with hgone |
    (⟨y, hy, hid, hsent⟩ | ⟨y, hy, hid, batches, hne, hread⟩) | ⟨_, hnil, _⟩
  · rw [h.kept t] at hgone
    cases hgone
  · rw [(hsame y hy hid).2] at hsent
    exact absurd hsent hpromoting.2
  · have hround : w.shared.db.RoundBatched y.2.blockHash :=
      hpromises _ hread hne
    rw [(hsame y hy hid).1] at hround
    exact hround.batched h.one hsound
  · cases hnil

/-- When the handler has done its work, there is a batch. -/
theorem batched_of_handled (h : OnTheWay w)
    (hreads : ReadsKept w.shared.db w.log)
    (hpromises : ∀ x ∈ (current .handler w.log).2,
      Promises .handler w.shared.db x)
    {hash : String} (hhandling : Handling w.log hash)
    (hend : Handled hash (current .handler w.log).2) :
    w.shared.db.Batched hash := by
  rcases hend with ⟨e, he⟩ | hnone | ⟨b, hb, hseen⟩
  · exact hpromises _ he rfl
  · exact absurd hnone (h.handling hash hhandling).2
  · have hread : (hash, b) ∈ blocksRead (current .handler w.log).2 :=
      List.mem_flatMap.2 ⟨_, hb, List.mem_cons_self⟩
    have hhash : b.blockHash = hash := (hreads .handler _ hread).2
    rcases hseen with ⟨batches, hbatches, hany⟩ |
      ⟨difficulty, reward, settings, r, hcreate⟩
    · rw [hhash] at hany
      exact hpromises _ hbatches hash hany
    · rw [← hhash]
      exact hpromises _ hcreate rfl

/-- An operation does not change what the handler is busy with. -/
theorem handling_did {hash : String} {log : List PoolEntry} :
    Handling (.did t o r :: log) hash ↔ Handling log hash := by
  unfold Handling
  by_cases ht : Task.handler = t
  · subst ht
    rw [current_did]
  · rw [current_did_of_ne ht]

theorem announced_cons_cases {x : (o : Op) × o.Res} {done : Done}
    {hash : String} (h : hash ∈ announced (x :: done)) :
    hash ∈ announced done ∨ ∃ r, x = ⟨.send (.blockMatured hash), r⟩ := by
  unfold announced at h
  rw [List.filterMap_cons] at h
  split at h
  · exact Or.inl h
  · rename_i hash' hsome
    split at hsome
    · rename_i sent r
      cases hsome
      rcases List.mem_cons.1 h with rfl | hold
      · exact Or.inr ⟨r, rfl⟩
      · exact Or.inl hold
    · cases hsome

theorem promoted_subset_cons (x : (o : Op) × o.Res) (done : Done) :
    promoted done ⊆ promoted (x :: done) := by
  unfold promoted
  rw [List.filterMap_cons]
  split
  · exact List.Subset.refl _
  · exact List.subset_cons_self _ _

/-- A block stays on its way while an operation is performed. -/
theorem inFlight_did (hsem : (pool suite data config).sem o w.shared r s')
    {b b' : FoundBlock} (hfix : b.fixed = b'.fixed) (h : InFlight w b) :
    InFlight (w.after s' (.did t o r)) b' := by
  have hid := FoundBlock.id_of_fixed hfix
  have hhash := FoundBlock.blockHash_of_fixed hfix
  unfold InFlight Promoting at h ⊢
  rw [World.after_shared, World.after_log, ← hid, ← hhash]
  rcases h with hqueued | hhandling | ⟨u, hside, hpromoted, hopen⟩
  · refine Or.inl ?_
    rcases sem_channel hsem with heq | ⟨event, _, heq⟩
    · rw [heq]
      exact hqueued
    · rw [heq]
      exact List.mem_append_left _ hqueued
  · exact Or.inr (Or.inl (handling_did.2 hhandling))
  · by_cases hu : u = t
    · subst hu
      by_cases hsent : b.blockHash ∈
          announced (⟨o, r⟩ :: (current u w.log).2)
      · -- The event is sent now, so it waits in the channel.
        refine Or.inl ?_
        rcases announced_cons_cases hsent with hold | ⟨r', hx⟩
        · exact absurd hold hopen
        · cases hx
          rcases sem_channel hsem with heq | ⟨event, hevent, heq⟩
          · cases hsem
            exact List.mem_append_right _ List.mem_cons_self
          · cases hevent
            rw [heq]
            exact List.mem_append_right _ List.mem_cons_self
      · refine Or.inr (Or.inr ⟨u, hside, ?_, ?_⟩)
        · rw [current_did]
          exact promoted_subset_cons _ _ hpromoted
        · rw [current_did]
          exact hsent
    · refine Or.inr (Or.inr ⟨u, hside, ?_⟩)
      rw [current_did_of_ne hu]
      exact ⟨hpromoted, hopen⟩

section Did

variable (h : OnTheWay w)
  (hsem : (pool suite data config).sem o w.shared r s')
  (hby : o.by t = true)
  (hstep : AnnounceOp t (current t w.log) o)

include h hsem hby hstep

theorem matured_did : ∀ b ∈ s'.db.foundBlocks.rows, b.status = .matured →
    s'.db.Batched b.blockHash ∨ InFlight (w.after s' (.did t o r)) b := by
  intro b' hb' hstatus
  rcases sem_blockStep hsem b' hb' with ⟨b, hb, hfix, hchange⟩ | ⟨hnew, _⟩
  · cases hchange with
    | same hsame =>
      rcases h.matured b hb (hsame.symm.trans hstatus) with hbatched | hflight
      · rw [← FoundBlock.blockHash_of_fixed hfix]
        exact Or.inl (hbatched.sem hsem)
      · exact Or.inr (inFlight_did hsem hfix hflight)
    | matured hx =>
      cases hx
      have hside : t.isNodeSide = true := by
        cases t with
        | consumer | main => rfl
        | _ => cases hby
      refine Or.inr (Or.inr (Or.inr ⟨t, hside, ?_⟩))
      rw [World.after_log, current_did]
      have hquiet := (hstep hside).marks b'.id rfl
      refine ⟨List.mem_cons_self, ?_⟩
      change b'.blockHash ∉ announced (current t w.log).2
      rw [hquiet]
      exact List.not_mem_nil
    | orphaned _ _ hnew | unOrphaned _ _ hnew =>
      rw [hnew] at hstatus
      cases hstatus
    | updated status hx hnew =>
      cases hx
      obtain rfl : status = .matured := hnew.symm.trans hstatus
      cases hby
  · rw [hnew] at hstatus
    cases hstatus

theorem queued_did (hreads : ReadsKept w.shared.db w.log) :
    ∀ hash, .blockMatured hash ∈ s'.channel → s'.db.HasHash hash := by
  intro hash hmem
  refine Acknowledging.hasHash_sem hsem ?_
  rcases sem_channel hsem with heq | ⟨event, rfl, heq⟩
  · rw [heq] at hmem
    exact h.queued hash hmem
  · rw [heq] at hmem
    rcases List.mem_append.1 hmem with hold | hnew
    · exact h.queued hash hold
    · cases List.mem_singleton.1 hnew
      have hside : t.isNodeSide = true := by
        cases t with
        | consumer | main => rfl
        | _ => cases hby
      obtain ⟨y, hy, rfl⟩ := (hstep hside).sends hash rfl
      obtain ⟨⟨b, hb, hfix⟩, hhash⟩ := hreads t y hy
      exact ⟨b, hb, (FoundBlock.blockHash_of_fixed hfix).trans hhash⟩

omit hby hstep in
theorem handling_did' : ∀ hash, Handling (.did t o r :: w.log) hash →
    s'.db.HasHash hash ∧ ⟨.db (.getByHash hash), .ok none⟩ ∉
      (current .handler (.did t o r :: w.log)).2 := by
  intro hash hhandling
  obtain ⟨hhash, hnone⟩ := h.handling hash (handling_did.1 hhandling)
  refine ⟨Acknowledging.hasHash_sem hsem hhash, ?_⟩
  by_cases ht : Task.handler = t
  · subst ht
    rw [current_did]
    intro hmem
    rcases List.mem_cons.1 hmem with hx | hold
    · -- The block is there, so it is found.
      cases hx
      obtain ⟨b, hb, hbhash⟩ := hhash
      rcases sem_db hsem with ⟨hr, _⟩ | ⟨⟨e, he⟩, _⟩
      · have hfind := List.find?_eq_none.1 (Except.ok.inj hr).symm b hb
        exact hfind (beq_iff_eq.2 hbhash)
      · cases he
    · exact hnone hold
  · rw [current_did_of_ne ht]
    exact hnone

omit hsem hby hstep in
theorem kept_did (hok : MaturationsKept w (.did t o r)) (u : Task) :
    abandoned (current u (.did t o r :: w.log)).2 = [] := by
  by_cases hu : u = t
  · subst hu
    rw [current_did]
    unfold abandoned
    split
    · rfl
    · rename_i id e done heq
      cases heq
      exact hok.marks u rfl
    · rename_i x done _ heq
      cases heq
      exact h.kept u
  · rw [current_did_of_ne hu]
    exact h.kept u

theorem did (hreads : ReadsKept w.shared.db w.log)
    (hok : MaturationsKept w (.did t o r)) :
    OnTheWay (w.after s' (.did t o r)) where
  one := h.one.sem hsem hok.own
  matured := h.matured_did hsem hby hstep
  queued := h.queued_did hsem hby hstep hreads
  handling := h.handling_did' hsem
  kept := h.kept_did hok

end Did

/-! A task that begins new work has done what it had to do. -/

section Began

variable {k : Work} {p : Body Unit} (h : OnTheWay w)
  (hstart : Start suite config t k w.shared p s')

include h hstart

theorem matured_began (hsound : Sound data w.shared.db)
    (hreads : ReadsKept w.shared.db w.log)
    (hpromises : ∀ t, ∀ x ∈ (current t w.log).2, Promises t w.shared.db x)
    (hsent : AnnounceEnd t (current t w.log))
    (hhandled : HandledEnd t (current t w.log)) {b : FoundBlock}
    (hb : b ∈ w.shared.db.foundBlocks.rows) (hstatus : b.status = .matured) :
    w.shared.db.Batched b.blockHash ∨
      InFlight (w.after s' (.began t k)) b := by
  rcases h.matured b hb hstatus with hbatched | hqueued | hhandling |
    ⟨u, hside, hpromoting⟩
  · exact Or.inl hbatched
  · refine Or.inr ?_
    rcases start_channel hstart with ⟨heq, _⟩ |
      ⟨event, settings, rfl, rfl, heq⟩
    · refine Or.inl ?_
      rw [World.after_shared, heq]
      exact hqueued
    · rw [heq] at hqueued
      rcases List.mem_cons.1 hqueued with rfl | hrest
      · refine Or.inr (Or.inl ⟨settings, ?_⟩)
        rw [World.after_log, current_began]
      · exact Or.inl hrest
  · by_cases ht : Task.handler = t
    · subst ht
      obtain ⟨settings, hwork⟩ := hhandling
      exact Or.inl (h.batched_of_handled hreads (hpromises .handler)
        ⟨settings, hwork⟩ (hhandled rfl b.blockHash settings hwork))
    · refine Or.inr (Or.inr (Or.inl ?_))
      unfold Handling
      rw [World.after_log, current_began_of_ne ht]
      exact hhandling
  · by_cases hu : u = t
    · subst hu
      exact Or.inl (h.batched_of_sent hsound hreads (hpromises u)
        (hsent hside) hb hpromoting)
    · refine Or.inr (Or.inr (Or.inr ⟨u, hside, ?_⟩))
      rw [World.after_log, current_began_of_ne hu]
      exact hpromoting

theorem queued_began {hash : String} (hmem : .blockMatured hash ∈ s'.channel) :
    w.shared.db.HasHash hash := by
  rcases start_channel hstart with ⟨heq, _⟩ | ⟨event, _, _, _, heq⟩
  · rw [heq] at hmem
    exact h.queued hash hmem
  · refine h.queued hash ?_
    rw [heq]
    exact List.mem_cons_of_mem _ hmem

theorem handling_began {hash : String}
    (hhandling : Handling (.began t k :: w.log) hash) :
    w.shared.db.HasHash hash ∧ ⟨.db (.getByHash hash), .ok none⟩ ∉
      (current .handler (.began t k :: w.log)).2 := by
  unfold Handling at hhandling
  by_cases ht : Task.handler = t
  · subst ht
    rw [current_began] at hhandling ⊢
    refine ⟨?_, List.not_mem_nil⟩
    obtain ⟨settings, hk⟩ := hhandling
    rcases start_channel hstart with ⟨_, hne⟩ | ⟨event, settings', _, hk', heq⟩
    · exact absurd (Option.some.inj hk) (hne _ _)
    · cases hk'.symm.trans (Option.some.inj hk)
      refine h.queued hash ?_
      rw [heq]
      exact List.mem_cons_self
  · rw [current_began_of_ne ht] at hhandling ⊢
    exact h.handling hash hhandling

omit hstart in
theorem kept_began (u : Task) :
    abandoned (current u (.began t k :: w.log)).2 = [] := by
  by_cases hu : u = t
  · subst hu
    rw [current_began]
    rfl
  · rw [current_began_of_ne hu]
    exact h.kept u

theorem began (hsound : Sound data w.shared.db)
    (hreads : ReadsKept w.shared.db w.log)
    (hpromises : ∀ t, ∀ x ∈ (current t w.log).2, Promises t w.shared.db x)
    (hsent : AnnounceEnd t (current t w.log))
    (hhandled : HandledEnd t (current t w.log)) :
    OnTheWay (w.after s' (.began t k)) := by
  have hdb : (w.after s' (.began t k)).shared.db = w.shared.db :=
    start_database hstart
  constructor
  · rw [hdb]
    exact h.one
  · rw [hdb]
    exact fun b => h.matured_began hstart hsound hreads hpromises hsent hhandled
  · rw [hdb]
    exact fun hash => h.queued_began hstart
  · rw [hdb]
    exact fun hash => h.handling_began hstart
  · exact h.kept_began

end Began

end OnTheWay

section Result

variable {suite : Suite} {data : ChainData} {config : ServerConfig}
  {c : PoolConfig}

theorem reach_onTheWay
    (h : (pool suite data config).Reach MaturationsKept c) :
    OnTheWay c.world := by
  refine Machine.Reach.invariant ?_ ?_ ?_ ?_ ?_ (turns_readsKept.reach
    (turns_handled.reach (turns_announceStep.reach
      (turns_grounded.reach (turns_promises.reach h)))))
  · rintro s ⟨now, chain, _, rfl⟩
    exact ⟨fun _ => nofun, fun _ => nofun, fun _ => nofun, fun _ => nofun,
      fun _ => rfl⟩
  · intro w t o r s' hw hsem hok
    exact hw.did hsem hok.1.1.1.2.2.1 hok.1.1.2 hok.2 hok.1.1.1.1.1
  · intro w t k p s' hw hstart hok
    exact hw.began hstart hok.1.1.1.2.1 hok.2 hok.1.1.1.1.2 hok.1.1.2 hok.1.2
  · rintro w s' hw (⟨now, _, rfl⟩ | ⟨_, chain, _, rfl⟩) _
    · exact ⟨hw.one, hw.matured, hw.queued, hw.handling, hw.kept⟩
    · exact ⟨hw.one, hw.matured, hw.queued, hw.handling, hw.kept⟩
  · rintro w s' hw ⟨chain, _, rfl⟩ hok
    refine ⟨hw.one, fun b hb hstatus => ?_, fun _ => nofun, ?_, fun _ => rfl⟩
    · exact Or.inl (hok.1.1.1.1.1.survives rfl b hb hstatus)
    · rintro hash ⟨settings, hnone⟩
      cases hnone

/-- The event for the block waits in the channel, or the handler is busy with
it, or the task that has promoted the block is about to send it. -/
def Waiting (c : PoolConfig) (b : FoundBlock) : Prop :=
  .blockMatured b.blockHash ∈ c.world.shared.channel ∨
    (Handling c.world.log b.blockHash ∧ c.task .handler ≠ .ret ()) ∨
    ∃ t : Task, t.isNodeSide = true ∧ Promoting (current t c.world.log).2 b ∧
      c.task t ≠ .ret ()

/-- In every run that meets the condition, a matured block has a batch, or
its event is waiting. -/
theorem reach_announced
    (h : (pool suite data config).Reach MaturationsKept c) :
    ∀ b ∈ c.world.shared.db.foundBlocks.rows, b.status = .matured →
      c.world.shared.db.Batched b.blockHash ∨ Waiting c b := by
  intro b hb hstatus
  have hway := reach_onTheWay h
  have hreads := reach_readsKept h
  have hpromises := reach_promises h
  have hsound : Sound data c.world.shared.db :=
    (grounding_valid.reach (h.mono fun _ _ _ => trivial)).1
  rcases hway.matured b hb hstatus with hbatched | hqueued |
    ⟨settings, hwork⟩ | ⟨t, hside, hpromoting⟩
  · exact Or.inl hbatched
  · exact Or.inr (Or.inl hqueued)
  · by_cases hidle : c.task .handler = .ret ()
    · have hend := h.follows_idle boot_handled
        (fun hstart => start_handled hstart) hidle
      exact Or.inl (hway.batched_of_handled hreads (hpromises .handler)
        ⟨settings, hwork⟩ (hend rfl b.blockHash settings hwork))
    · exact Or.inr (Or.inr (Or.inl ⟨⟨settings, hwork⟩, hidle⟩))
  · by_cases hidle : c.task t = .ret ()
    · have hend := h.follows_idle boot_announces
        (fun hstart => start_announces hstart) hidle
      exact Or.inl (hway.batched_of_sent hsound hreads (hpromises t)
        (hend hside) hb hpromoting)
    · exact Or.inr (Or.inr (Or.inr ⟨t, hside, hpromoting, hidle⟩))

end Result

/-- A run in which the handler creates the batch of the block. -/
theorem reach_announced_sample : ∃ c : PoolConfig,
    (pool sampleSuite sampleData sampleConfig).Reach MaturationsKept c ∧
    c.world.shared.db.foundBlocks.rows.map (·.status) = [.matured] ∧
    ∀ b ∈ c.world.shared.db.foundBlocks.rows, b.status = .matured →
      c.world.shared.db.Batched b.blockHash ∨ Waiting c b := by
  have hrun : (schedule sampleSuite sampleData sampleConfig
      (fun w e => decide (MaturationsKept w e)) ["genesis"]
      (maturesFirst ++ handles (.blockConnected []) {} ++
        handles (.blockMatured firstHash) {})).map (fun c =>
          c.world.shared.db.foundBlocks.rows.map (·.status)) =
      some [.matured] := by
    decide +kernel
  obtain ⟨c, hc, hstatus⟩ := Option.map_eq_some_iff.1 hrun
  have hreach := reach_schedule _ _ _
    (fun _ _ h => of_decide_eq_true h) (by decide) hc
  exact ⟨c, hreach, hstatus, reach_announced hreach⟩

/-- Every matured block has a batch or an event in the channel. -/
def Announced (s : Pool) : Prop :=
  ∀ b ∈ s.db.foundBlocks.rows, b.status = .matured →
    s.db.Batched b.blockHash ∨ .blockMatured b.blockHash ∈ s.channel

instance (s : Pool) : Decidable (Announced s) :=
  inferInstanceAs (Decidable (∀ _ ∈ _, _))

/-- Runs in which the event of a promoted block is lost: a crash comes before
the handler has taken it, the handler cannot look the block up, or its call
for a batch is refused. -/
def losses : List (List Scene) :=
  let taken : List Scene := handles (.blockConnected []) {} ++
    [.begin .handler (.payoutEvent (.blockMatured firstHash) sampleSettings)]
  [maturesFirst ++ [.crash ["b2", firstHash, "genesis"],
      .run .main 100 { template := some (sampleJob 8 3 hardTarget),
                       blockCount := .ok 2 }],
    maturesFirst ++ taken ++ [.run .handler 1 { dbFails := true },
      .run .handler 50 {}],
    maturesFirst ++ taken ++ [.run .handler 2 {},
      .run .handler 1 { dbFails := true }, .run .handler 50 {}]]

/-- In the end of each of these runs all of the tasks are idle, and the block
has no batch and no event. -/
theorem announced_fails : losses.Forall fun scenes => ∃ c : PoolConfig,
    schedule sampleSuite sampleData sampleConfig (fun _ _ => true) ["genesis"]
        scenes = some c ∧
      (pool sampleSuite sampleData sampleConfig).Reach (fun _ _ => True) c ∧
      c.task .main = .ret () ∧ c.task .consumer = .ret () ∧
      c.task .handler = .ret () ∧ ¬ Announced c.world.shared := by
  have hruns : ∀ scenes ∈ losses, (schedule sampleSuite sampleData sampleConfig
      (fun _ _ => true) ["genesis"] scenes).any (fun c : PoolConfig =>
        decide ((c.task Task.main).isRet = true ∧
          (c.task .consumer).isRet = true ∧ (c.task .handler).isRet = true ∧
          ¬ Announced c.world.shared)) = true := by
    decide +kernel
  refine List.forall_iff_forall_mem.2 fun scenes hscenes => ?_
  obtain ⟨c, hc, hreach, hmain, hconsumer, hhandler, hfails⟩ :=
    exists_schedule _ _ _ (fun _ _ _ => trivial) (by decide)
      (hruns scenes hscenes)
  exact ⟨c, hc, hreach, Prog.eq_ret_of_isRet hmain,
    Prog.eq_ret_of_isRet hconsumer, Prog.eq_ret_of_isRet hhandler, hfails⟩

end StratumServer
