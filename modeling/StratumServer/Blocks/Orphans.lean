import StratumServer.Blocks.Acknowledged
import StratumServer.Blocks.Rounds
import StratumServer.System.NodeSide

/-!
# Orphaned blocks and their rounds

A block that leaves the chain is marked as orphaned, and then its round is
closed as orphaned, with the template 0 as its end.  These are two sections,
in the consumer and in the startup sequence.  When the block comes back it
is un-orphaned, and the round stays as it is.  So a round tells whether its
block has been orphaned at some time, not whether it is now.

There are three groups.

* The order of the two sections, for every path of the node side:
  `turns_orphanStep`.
* The condition `OrphansThrough` on the runs: both sections of an orphaning
  go through, and no request closes the round of an orphaned block.
* The invariant `OrphansAgree` and the result, `reach_roundOrphaned`.  In the
  runs of `roundsAgree_fails`, round and block disagree in the end.
-/

namespace StratumServer

open Sql Tasks

/-! ## The order of the sections -/

/-- The consumer and the startup sequence. -/
def Task.isNodeSide : Task → Bool
  | .consumer | .main => true
  | _ => false

/-- The hash of the block that was marked in the last section, if the round
is still to be closed. -/
def orphaning : Done → Option String
  | ⟨.db (.markOrphaned hash _), .ok _⟩ :: _ => some hash
  | _ => none

/-- A section of an orphaning. -/
def Op.isOrphaning : Op → Bool
  | .db (.markOrphaned ..) | .db (.closeRound ..) => true
  | _ => false

/-- How a task orphans: it marks a block that it has read, and the round of
the block comes right after it.  At startup it comes also when the block
could not be marked. -/
structure OrphanStep (t : Task) (done : Done) (o : Op) : Prop where
  next : ∀ hash, orphaning done = some hash →
    ∃ id endTemplateId, o = .db (.closeRound id endTemplateId .orphaned)
  marks : ∀ hash reason, o = .db (.markOrphaned hash reason) →
    ∃ y ∈ blocksRead done, y.1 = hash
  closes : ∀ id endTemplateId status,
    o = .db (.closeRound id endTemplateId status) →
    ∃ y ∈ blocksRead done, y.2.roundId = id ∧
      (orphaning done = some y.1 ∨ t = .main ∧ ∃ reason e rest,
        done = ⟨.db (.markOrphaned y.1 reason), .error e⟩ :: rest)

section Paths

variable {t : Task} {done : Done} {o : Op}

theorem orphaning_cons (ho : o.isOrphaning = false) (r : o.Res) :
    orphaning (⟨o, r⟩ :: done) = none := by
  unfold orphaning
  split
  · rename_i heq
    cases heq
    cases ho
  · rfl

theorem orphanStep_of_other (ho : o.isOrphaning = false)
    (h : orphaning done = none) : OrphanStep t done o := by
  refine ⟨fun hash hhash => ?_, ?_, ?_⟩
  · rw [h] at hhash
    cases hhash
  · rintro hash reason rfl
    cases ho
  · rintro id endTemplateId status rfl
    cases ho

/-- Nothing is being orphaned, and the blocks of `l` have been read. -/
def HasRead (l : List FoundBlock) (done : Done) : Prop :=
  orphaning done = none ∧ ∀ b ∈ l, (b.blockHash, b) ∈ blocksRead done

theorem HasRead.cons {l : List FoundBlock} (h : HasRead l done)
    {x : (o : Op) × o.Res} (hx : orphaning (x :: done) = none) :
    HasRead l (x :: done) :=
  ⟨hx, fun b hb => mem_blocksRead_cons.2 (Or.inr (h.2 b hb))⟩

variable {l : List FoundBlock} {α : Type}

/-- A body that orphans nothing. -/
theorem keeps_notOrphaning {p : Body α} {P : Op → Prop} (hp : p.Only P)
    (hP : ∀ o, P o → o.isOrphaning = false) :
    Prog.Keeps (OrphanStep t) (HasRead l) p := by
  refine hp.keeps fun o done ho hdone => ?_
  have hother := hP o ho
  exact ⟨orphanStep_of_other hother hdone.1,
    fun r => hdone.cons (orphaning_cons hother r)⟩

theorem keeps_otherOp (ho : o.isOrphaning = false) :
    Prog.Keeps (OrphanStep t) (HasRead l) (Prog.perform o) :=
  keeps_notOrphaning (P := (·.isOrphaning = false)) (Prog.only_perform ho)
    fun _ h => h

theorem keeps_otherDb {d : DbOp} (hd : (Op.db d).isOrphaning = false) :
    Prog.Keeps (OrphanStep t) (HasRead l) (db d).run :=
  keeps_otherOp hd

/-- Closing the round of the block that was marked. -/
theorem closeRound_orphaning {y : String × FoundBlock}
    (hl : ∀ b ∈ l, (b.blockHash, b) ∈ blocksRead done)
    (hy : y ∈ blocksRead done)
    (h : orphaning done = some y.1 ∨ t = .main ∧ ∃ reason e rest,
      done = ⟨.db (.markOrphaned y.1 reason), .error e⟩ :: rest) :
    (AccountingService.closeRound y.2.roundId 0 .orphaned).run.Paths
      (OrphanStep t) (fun _ => HasRead l) done := by
  have hread : ∀ r, HasRead l
      (⟨.db (.closeRound y.2.roundId 0 .orphaned), r⟩ :: done) :=
    fun r => ⟨rfl, fun b hb => mem_blocksRead_cons.2 (Or.inr (hl b hb))⟩
  refine Prog.paths_exceptBind (Prog.paths_perform ?_ fun r => ?_)
  · refine ⟨fun _ _ => ⟨_, _, rfl⟩, fun _ _ => nofun, ?_⟩
    intro id endTemplateId status heq
    cases heq
    exact ⟨y, hy, rfl, h⟩
  · cases r with
    | error e => exact hread _
    | ok u =>
      exact keeps_liftM (keeps_dropResult (keeps_otherDb rfl)) _ (hread _)

theorem handleBlockDisconnected_orphaning (event : BlockEvent) :
    (handleBlockDisconnected event).Paths (OrphanStep .consumer)
      (fun _ => HasRead []) [] := by
  refine Prog.paths_bind ⟨orphanStep_of_other rfl rfl, fun r => ?_⟩
  match r with
  | .ok none | .error e => exact ⟨rfl, fun _ => nofun⟩
  | .ok (some found) =>
    have hread : (event.blockHash, found) ∈
        blocksRead [⟨.db (.getByHash event.blockHash), .ok (some found)⟩] :=
      mem_blocksRead_cons.2 (Or.inl List.mem_cons_self)
    refine Prog.paths_bind ⟨⟨fun _ => nofun, ?_, fun _ _ _ => nofun⟩,
      fun r => ?_⟩
    · intro hash reason heq
      cases heq
      exact ⟨_, hread, rfl⟩
    · cases r with
      | error e => exact ⟨rfl, fun _ => nofun⟩
      | ok u =>
        refine Prog.paths_bind (Prog.paths_mono ?_ (closeRound_orphaning
          (l := []) (y := (event.blockHash, found)) (fun _ => nofun)
          (mem_blocksRead_cons.2 (Or.inr hread)) (Or.inl rfl)))
        intro r done hdone
        cases r with
        | error e => exact hdone
        | ok u => exact keeps_dropResult (keeps_otherDb rfl) _ hdone

namespace AccountingService

theorem orphanBlock_orphaning {b : FoundBlock} (hb : b ∈ l)
    (reason : OrphanReason) :
    Prog.Keeps (OrphanStep .main) (HasRead l) (orphanBlock b reason) := by
  intro done hdone
  refine Prog.paths_bind (Prog.paths_bind ⟨⟨?_, ?_, fun _ _ _ => nofun⟩,
    fun r => ?_⟩)
  · intro hash hhash
    rw [hdone.1] at hhash
    cases hhash
  · intro hash reason heq
    cases heq
    exact ⟨_, hdone.2 b hb, rfl⟩
  · -- At startup the round is closed also when the block was not marked.
    have hread : ∀ b ∈ l, (b.blockHash, b) ∈
        blocksRead (⟨.db (.markOrphaned b.blockHash reason), r⟩ :: done) :=
      fun b hb => mem_blocksRead_cons.2 (Or.inr (hdone.2 b hb))
    refine Prog.paths_bind (closeRound_orphaning (y := (b.blockHash, b))
      hread (hread b hb) ?_)
    cases r with
    | ok u => exact Or.inl rfl
    | error e => exact Or.inr ⟨rfl, reason, e, done, rfl⟩

theorem reconcileFoundBlocks_orphaning (tipHeight : Int) :
    Prog.Keeps (OrphanStep .main) (HasRead [])
      (reconcileFoundBlocks tipHeight).run := by
  intro done hdone
  refine Prog.paths_exceptBind (Prog.paths_perform
    (orphanStep_of_other rfl hdone.1) fun r => ?_)
  cases r with
  | error e => exact ⟨rfl, fun _ => nofun⟩
  | ok confirmed =>
    have hread : HasRead confirmed
        (⟨.db (.listBlocks (some .immature)), .ok confirmed⟩ :: done) := by
      refine ⟨rfl, fun b hb => mem_blocksRead_cons.2 (Or.inl ?_)⟩
      exact List.mem_map.2 ⟨b, hb, rfl⟩
    refine Prog.paths_mono (fun _ done hdone => ⟨hdone.1, fun _ => nofun⟩)
      (keeps_liftM (Prog.keeps_forM fun b hb => ?_) _ hread)
    unfold reconcileBlock
    split
    · exact orphanBlock_orphaning hb _
    · refine Prog.Keeps.bind (keeps_otherOp rfl) fun r => ?_
      match r with
      | .ok (some canonicalHash) =>
        dsimp only
        split
        · exact orphanBlock_orphaning hb _
        · exact Prog.keeps_pure _
      | .ok none | .error e => exact Prog.keeps_pure _

end AccountingService

theorem announceMatured_orphaning (tip : Int) (minConfirmations : Nat) :
    Prog.Keeps (OrphanStep t) (HasRead l)
      (announceMatured tip minConfirmations) := by
  refine keeps_notOrphaning (announceMatured_only _ _) fun o ho => ?_
  unfold Op.matures at ho
  split at ho
  all_goals first | rfl | cases ho

theorem handleBlockConnected_orphaning (minConfirmations : Nat)
    (event : BlockEvent) : Prog.Keeps (OrphanStep .consumer) (HasRead [])
      (handleBlockConnected minConfirmations event) := by
  unfold handleBlockConnected
  split
  · exact Prog.keeps_pure _
  · refine Prog.Keeps.bind (keeps_otherOp rfl) fun _ => ?_
    refine Prog.Keeps.bind (keeps_otherOp rfl) fun tip => ?_
    refine Prog.Keeps.bind (keeps_notOrphaning (reconnectOrphaned_only _)
      fun o ho => ?_) fun _ => ?_
    · unfold Op.reconnects at ho
      split at ho
      all_goals first | rfl | cases ho
    · exact Prog.Keeps.bind (announceMatured_orphaning _ _) fun _ =>
        keeps_otherOp rfl

theorem onMiningWorkChanged_orphaning :
    Prog.Keeps (OrphanStep .consumer) (HasRead []) onMiningWorkChanged := by
  refine keeps_notOrphaning onMiningWorkChanged_only fun o ho => ?_
  unfold Op.changesWork at ho
  split at ho
  all_goals first | rfl | cases ho

theorem mainBoot_orphaning (config : ServerConfig) :
    Prog.Keeps (OrphanStep .main) (HasRead []) (mainBoot config) := by
  refine Prog.Keeps.bind (keeps_otherOp rfl) fun r => ?_
  cases r with
  | none => exact Prog.keeps_pure _
  | some job =>
    refine Prog.Keeps.bind (keeps_otherOp rfl) fun _ => ?_
    refine Prog.Keeps.bind (keeps_otherOp rfl) fun _ => ?_
    refine Prog.Keeps.bind ?reconcile fun _ => ?_
    case reconcile =>
      refine Prog.Keeps.bind (keeps_otherOp rfl) fun r => ?_
      cases r with
      | ok tip =>
        exact keeps_dropResult
          (AccountingService.reconcileFoundBlocks_orphaning tip)
      | error e => exact Prog.keeps_pure _
    refine Prog.Keeps.bind (keeps_dropResult (keeps_notOrphaning
      AccountingService.reconcileSubmittedPayouts_only fun o ho => ?settles))
      fun _ => ?_
    case settles =>
      unfold Op.settles at ho
      split at ho
      all_goals first | rfl | cases ho
    refine Prog.Keeps.bind (keeps_otherOp rfl) fun _ => ?_
    refine Prog.Keeps.bind (keeps_otherOp rfl) fun _ => ?_
    refine Prog.Keeps.bind ?matures fun _ => ?_
    case matures =>
      refine Prog.Keeps.bind (keeps_otherOp rfl) fun r => ?_
      cases r with
      | ok tip => exact announceMatured_orphaning _ _
      | error e => exact Prog.keeps_pure _
    exact Prog.Keeps.bind (keeps_runIf (keeps_otherOp rfl)) fun _ =>
      keeps_otherOp rfl

end Paths

/-! ### All runs -/

/-- The node side orphans step by step. -/
def OrphanOp (t : Task) (now : Option Work × Done) (o : Op) : Prop :=
  t.isNodeSide = true → OrphanStep t now.2 o

/-- The node side does not stop in the middle of an orphaning. -/
def OrphanEnd (t : Task) (now : Option Work × Done) : Prop :=
  t.isNodeSide = true → orphaning now.2 = none

section Runs

variable {suite : Suite} {data : ChainData} {config : ServerConfig}

/-- Only the node side has to be looked at. -/
theorem follows_nodeSide {t : Task} {now : Option Work × Done} {p : Body Unit}
    (h : t.isNodeSide = true →
      p.Paths (OrphanStep t) (fun _ => HasRead []) now.2) :
    Follows OrphanOp OrphanEnd t now p :=
  follows_guard (fun t now => OrphanStep t now.2)
    (fun _ now => orphaning now.2 = none)
    fun ht => Prog.paths_mono (fun _ _ hread => hread.1) (h ht)

/-- In every run, the node side orphans step by step. -/
theorem turns_orphanStep {ok : PoolWorld → PoolEntry → Prop} :
    (pool suite data config).Turns ok (Follow OrphanOp OrphanEnd) := by
  have hnil : HasRead [] [] := ⟨rfl, fun _ => nofun⟩
  refine Machine.turns_follow (fun t => follows_nodeSide fun ht => ?_) ?_
  · cases t with
    | main => exact mainBoot_orphaning config [] hnil
    | consumer => exact hnil
    | _ => cases ht
  · intro t k s p s' hstart
    refine follows_nodeSide fun ht => ?_
    cases hstart with
    | blockConnected => exact handleBlockConnected_orphaning _ _ [] hnil
    | blockDisconnected => exact handleBlockDisconnected_orphaning _
    | miningWorkChanged => exact onMiningWorkChanged_orphaning [] hnil
    | _ => cases ht

end Runs

/-! ## Orphanings that go through -/

/-- A block with this hash has been marked as orphaned. -/
def wasOrphaned (log : List PoolEntry) (hash : String) : Bool :=
  log.any fun e =>
    match e with
    | .did _ (.db (.markOrphaned marked _)) (.ok _) => marked == hash
    | _ => false

/-- A section of an orphaning was refused, and the other one goes through. -/
def halfOrphaned : PoolEntry → Bool
  | .did t (.db (.markOrphaned ..)) (.error _) => t == .main
  | .did _ (.db (.closeRound _ _ .orphaned)) (.error _) => true
  | _ => false

/-- The round that was closed for a found block. -/
def closedFound : PoolEntry → Option Nat
  | .did _ (.db (.closeRound id _ .found)) _ => some id
  | _ => none

/-- Every block has a round of its own; an orphaning goes through, with no
crash between the block and the round; and no request closes a round whose
block has been orphaned in the meantime. -/
structure OrphansThrough (w : PoolWorld) (e : PoolEntry) : Prop where
  own : OwnRound w e
  both : halfOrphaned e = false
  whole : isCrash e = true →
    ∀ t ∈ [Task.consumer, .main], orphaning (current t w.log).2 = none
  late : ∀ id ∈ closedFound e, ∀ b ∈ w.shared.db.foundBlocks.rows,
    b.roundId = id → wasOrphaned w.log b.blockHash = false

instance (w : PoolWorld) (e : PoolEntry) : Decidable (OrphansThrough w e) :=
  decidable_of_iff
    (OwnRound w e ∧ halfOrphaned e = false ∧
      (isCrash e = true →
        ∀ t ∈ [Task.consumer, .main], orphaning (current t w.log).2 = none) ∧
      ∀ id ∈ closedFound e, ∀ b ∈ w.shared.db.foundBlocks.rows,
        b.roundId = id → wasOrphaned w.log b.blockHash = false)
    ⟨fun ⟨h₁, h₂, h₃, h₄⟩ => ⟨h₁, h₂, h₃, h₄⟩,
      fun h => ⟨h.own, h.both, h.whole, h.late⟩⟩

section Log

variable {log : List PoolEntry} {t : Task} {o : Op} {r : o.Res} {hash : String}

theorem wasOrphaned_did
    (h : wasOrphaned (.did t o r :: log) hash = true) :
    wasOrphaned log hash = true ∨ ∃ reason,
      (⟨o, r⟩ : (o : Op) × o.Res) = ⟨.db (.markOrphaned hash reason), .ok ()⟩ := by
  unfold wasOrphaned at h
  rw [List.any_cons, Bool.or_eq_true] at h
  rcases h with hnew | hold
  · split at hnew
    · rename_i u marked reason res heq
      cases heq
      exact Or.inr ⟨reason, by rw [← eq_of_beq hnew]⟩
    · cases hnew
  · exact Or.inl hold

theorem wasOrphaned_cons {e : PoolEntry} (h : wasOrphaned log hash = true) :
    wasOrphaned (e :: log) hash = true := by
  unfold wasOrphaned at h ⊢
  rw [List.any_cons, h, Bool.or_true]

theorem wasOrphaned_mark (t : Task) (hash : String) (reason : OrphanReason)
    (u : Unit) : wasOrphaned
      (.did t (.db (.markOrphaned hash reason)) (.ok u) :: log) hash = true := by
  simp [wasOrphaned]

/-- What was marked last has been marked. -/
theorem wasOrphaned_of_orphaning
    (h : orphaning (current t log).2 = some hash) :
    wasOrphaned log hash = true := by
  unfold orphaning at h
  split at h
  · rename_i marked reason u rest heq
    cases h
    have hmem : .did t (.db (.markOrphaned hash reason)) (.ok u) ∈ log := by
      have hdone : (⟨.db (.markOrphaned hash reason), .ok u⟩ :
          (o : Op) × o.Res) ∈ (current t log).2 := by simp [heq]
      exact mem_of_current hdone
    exact List.any_eq_true.2 ⟨_, hmem, beq_self_eq_true hash⟩
  · cases h

end Log

/-! ## What a step does to the rounds -/

section Rounds

variable {suite : Suite} {data : ChainData} {config : ServerConfig}

/-- A round was there before and is not closed now, or it is closed now, or
it is new. -/
def RoundChange (x : (o : Op) × o.Res) (db : Database) (r' : Round) : Prop :=
  (r' ∈ db.rounds.rows ∧ ∀ endTemplateId status,
      x ≠ ⟨.db (.closeRound r'.id endTemplateId status), .ok ()⟩) ∨
    (∃ endTemplateId status,
      x = ⟨.db (.closeRound r'.id endTemplateId status), .ok ()⟩ ∧
        r'.endTemplateId = some endTemplateId ∧ r'.status = status) ∨
    r'.id = db.rounds.seq + 1 ∧ r'.status = .opened

theorem DbOp.roundChange (d : DbOp) (db : Database) :
    ∀ r' ∈ (d.run db).2.rounds.rows,
      RoundChange ⟨.db d, (d.run db).1⟩ db r' := by
  intro r' hr'
  cases d with
  | closeRound id endTemplateId status =>
    obtain ⟨r, hr, rfl⟩ := List.mem_map.1 hr'
    by_cases hmatch : (r.id == id) = true
    · rw [if_pos hmatch]
      refine Or.inr (Or.inl ⟨endTemplateId, status, ?_, rfl, rfl⟩)
      rw [← eq_of_beq hmatch]
      rfl
    · rw [if_neg hmatch]
      refine Or.inl ⟨hr, fun endTemplateId' status' heq => hmatch ?_⟩
      cases heq
      exact beq_self_eq_true _
  | getOrCreateCurrentRound templateId =>
    rcases (DbOp.getOrCreateCurrentRound templateId).rounds_cases db with
      heq | ⟨_, n, table, hd, hins, heq⟩ | ⟨_, _, _, hd, _⟩
    · exact Or.inl ⟨heq ▸ hr', fun _ _ => nofun⟩
    · obtain ⟨_, rfl, _, hrows⟩ := Table.insert_some hins
      rw [heq, hrows] at hr'
      rcases List.mem_append.1 hr' with hold | hnew
      · exact Or.inl ⟨hold, fun _ _ => nofun⟩
      · rw [List.mem_singleton.1 hnew]
        exact Or.inr (Or.inr ⟨rfl, rfl⟩)
    · cases hd
  | _ =>
    rw [(DbOp.frame _ db).rounds rfl] at hr'
    exact Or.inl ⟨hr', fun _ _ => nofun⟩

theorem sem_roundChange {o : Op} {s s' : Pool} {r : o.Res}
    (hsem : (pool suite data config).sem o s r s') :
    ∀ r' ∈ s'.db.rounds.rows, RoundChange ⟨o, r⟩ s.db r' := by
  cases o with
  | db d =>
    rcases sem_db hsem with ⟨rfl, rfl⟩ | ⟨⟨e, rfl⟩, rfl⟩
    · exact d.roundChange s.db
    · refine fun r' hr' => Or.inl ⟨hr', fun _ _ heq => ?_⟩
      cases heq
  | _ =>
    rcases sem_database hsem with heq | ⟨d, hd, _⟩
    · rw [heq]
      exact fun r' hr' => Or.inl ⟨hr', fun _ _ => nofun⟩
    · cases hd

end Rounds

/-! ## The invariant -/

/-- The block is marked, and a task is about to close its round. -/
def OrphaningNow (log : List PoolEntry) (hash : String) : Prop :=
  ∃ t : Task, t.isNodeSide = true ∧ orphaning (current t log).2 = some hash

/-- What rounds and blocks say about orphaning. -/
structure OrphansAgree (db : Database) (log : List PoolEntry) : Prop where
  one : OneBlock db
  marked : ∀ b ∈ db.foundBlocks.rows, b.status = .orphaned →
    wasOrphaned log b.blockHash = true
  stored : ∀ hash, wasOrphaned log hash = true → db.HasHash hash
  closed : ∀ r ∈ db.rounds.rows, r.status = .orphaned →
    r.endTemplateId = some 0 ∧ ∃ b ∈ db.foundBlocks.rows,
      b.roundId = r.id ∧ wasOrphaned log b.blockHash = true
  orphaned : ∀ b ∈ db.foundBlocks.rows, wasOrphaned log b.blockHash = true →
    ∀ r ∈ db.rounds.rows, r.id = b.roundId →
      r.status = .orphaned ∨ OrphaningNow log b.blockHash
  through : ∀ e ∈ log, halfOrphaned e = false

namespace OrphansAgree

variable {suite : Suite} {data : ChainData} {config : ServerConfig}
  {w : PoolWorld} {t : Task} {o : Op} {r : o.Res} {s' : Pool}

/-- The round that is closed as orphaned is the one of a block that was
marked. -/
theorem closes (h : OrphansAgree w.shared.db w.log) {id endTemplateId : Nat}
    {status : RoundStatus}
    (hreads : ReadsKept w.shared.db w.log)
    (hstep : OrphanStep t (current t w.log).2
      (.db (.closeRound id endTemplateId status))) :
    ∃ b ∈ w.shared.db.foundBlocks.rows, b.roundId = id ∧
      orphaning (current t w.log).2 = some b.blockHash := by
  obtain ⟨y, hy, hid, hmarked⟩ := hstep.closes id endTemplateId status rfl
  obtain ⟨⟨b, hb, hfix⟩, hhash⟩ := hreads t y hy
  have hbhash : b.blockHash = y.1 :=
    (FoundBlock.blockHash_of_fixed hfix).trans hhash
  refine ⟨b, hb, (FoundBlock.roundId_of_fixed hfix).trans hid, ?_⟩
  rw [hbhash]
  rcases hmarked with hnow | ⟨rfl, reason, e, rest, hdone⟩
  · exact hnow
  · -- A block that could not be marked at startup is ruled out.
    have hmem : .did .main (.db (.markOrphaned y.1 reason)) (.error e) ∈
        w.log := by
      have hcurrent : (⟨.db (.markOrphaned y.1 reason), .error e⟩ :
          (o : Op) × o.Res) ∈ (current .main w.log).2 := by simp [hdone]
      exact mem_of_current hcurrent
    cases h.through _ hmem

section Did

variable (h : OrphansAgree w.shared.db w.log)
  (hreads : ReadsKept w.shared.db w.log)
  (hsem : (pool suite data config).sem o w.shared r s')
  (hby : o.by t = true)
  (hstep : OrphanOp t (current t w.log) o)

include h hsem hby

theorem marked_did : ∀ b ∈ s'.db.foundBlocks.rows, b.status = .orphaned →
    wasOrphaned (.did t o r :: w.log) b.blockHash = true := by
  intro b' hb' hstatus
  rcases sem_blockStep hsem b' hb' with ⟨b, hb, hfix, hchange⟩ | ⟨hnew, _⟩
  · cases hchange with
    | same hsame =>
      rw [← FoundBlock.blockHash_of_fixed hfix]
      exact wasOrphaned_cons (h.marked b hb (hsame.symm.trans hstatus))
    | orphaned reason hx =>
      cases hx
      exact wasOrphaned_mark t b'.blockHash reason ()
    | unOrphaned _ _ hnew | matured _ hnew =>
      rw [hnew] at hstatus
      cases hstatus
    | updated status hx hnew =>
      -- No task sets this status in that way.
      cases hx
      obtain rfl : status = .orphaned := hnew.symm.trans hstatus
      cases hby
  · rw [hnew] at hstatus
    cases hstatus

include hreads hstep

theorem stored_did : ∀ hash, wasOrphaned (.did t o r :: w.log) hash = true →
    s'.db.HasHash hash := by
  intro hash hmarked
  refine Acknowledging.hasHash_sem hsem ?_
  rcases wasOrphaned_did hmarked with hold | ⟨reason, hx⟩
  · exact h.stored hash hold
  · cases hx
    have hside : t.isNodeSide = true := by
      cases t with
      | consumer | main => rfl
      | _ => cases hby
    obtain ⟨y, hy, rfl⟩ := (hstep hside).marks hash reason rfl
    obtain ⟨⟨b, hb, hfix⟩, hhash⟩ := hreads t y hy
    exact ⟨b, hb, (FoundBlock.blockHash_of_fixed hfix).trans hhash⟩

theorem closed_did : ∀ round ∈ s'.db.rounds.rows, round.status = .orphaned →
    round.endTemplateId = some 0 ∧ ∃ b ∈ s'.db.foundBlocks.rows,
      b.roundId = round.id ∧
        wasOrphaned (.did t o r :: w.log) b.blockHash = true := by
  intro round hround hstatus
  -- A marked block stays in the table, and it stays marked.
  have hkeep : ∀ b ∈ w.shared.db.foundBlocks.rows, b.roundId = round.id →
      wasOrphaned w.log b.blockHash = true → ∃ b' ∈ s'.db.foundBlocks.rows,
        b'.roundId = round.id ∧
          wasOrphaned (.did t o r :: w.log) b'.blockHash = true := by
    intro b hb hid hmarked
    obtain ⟨b', hb', hfix⟩ := hasBlock_sem hsem (.of_mem hb)
    refine ⟨b', hb', (FoundBlock.roundId_of_fixed hfix).trans hid, ?_⟩
    rw [FoundBlock.blockHash_of_fixed hfix]
    exact wasOrphaned_cons hmarked
  rcases sem_roundChange hsem round hround with
    ⟨hold, _⟩ | ⟨endTemplateId, status, hx, hend, hclosed⟩ | ⟨_, hopen⟩
  · obtain ⟨hend, b, hb, hid, hmarked⟩ := h.closed round hold hstatus
    exact ⟨hend, hkeep b hb hid hmarked⟩
  · cases hx
    obtain rfl : status = .orphaned := hclosed.symm.trans hstatus
    have hzero : endTemplateId = 0 ∧ t.isNodeSide = true := by
      cases t with
      | consumer | main => simpa [Op.by, DbOp.by, Task.isNodeSide] using hby
      | _ => simp [Op.by, DbOp.by] at hby
    obtain ⟨b, hb, hid, hnow⟩ := h.closes hreads (hstep hzero.2)
    rw [hzero.1] at hend
    exact ⟨hend, hkeep b hb hid (wasOrphaned_of_orphaning hnow)⟩
  · rw [hopen] at hstatus
    cases hstatus

theorem orphaned_did (hexist : RoundsExist suite w)
    (hok : OrphansThrough w (.did t o r)) :
    ∀ b ∈ s'.db.foundBlocks.rows,
      wasOrphaned (.did t o r :: w.log) b.blockHash = true →
        ∀ round ∈ s'.db.rounds.rows, round.id = b.roundId →
          round.status = .orphaned ∨
            OrphaningNow (.did t o r :: w.log) b.blockHash := by
  intro b' hb' hmarked' round hround hid
  rcases wasOrphaned_did hmarked' with hmarked | ⟨reason, hx⟩
  · rcases sem_blockStep hsem b' hb' with ⟨b, hb, hfix, _⟩ | ⟨_, hnew, _⟩
    · have hhash := FoundBlock.blockHash_of_fixed hfix
      have hroundId := FoundBlock.roundId_of_fixed hfix
      rw [← hhash] at hmarked ⊢
      rw [← hroundId] at hid
      rcases sem_roundChange hsem round hround with ⟨hold, hopen⟩ |
        ⟨endTemplateId, status, hx, _, hclosed⟩ | ⟨hnew, _⟩
      · rcases h.orphaned b hb hmarked round hold hid with hdone |
          ⟨u, hside, hnow⟩
        · exact Or.inl hdone
        · refine Or.inr ⟨u, hside, ?_⟩
          by_cases hu : u = t
          · -- The task that is about to close the round closes it now.
            subst hu
            obtain ⟨id, endTemplateId, rfl⟩ := (hstep hside).next _ hnow
            obtain ⟨b₁, hb₁, hid₁, hnow₁⟩ := h.closes hreads (hstep hside)
            have heq : b₁ = b := by
              have hhash₁ := Option.some.inj (hnow₁.symm.trans hnow)
              exact w.shared.db.foundBlocks.eq_of_key hb₁ hb
                (congrArg some hhash₁) rfl
            have hround₁ : id = round.id := by rw [← hid₁, heq, hid]
            cases r with
            | error e => cases hok.both
            | ok u =>
              rw [hround₁] at hopen
              exact absurd rfl (hopen endTemplateId .orphaned)
          · rw [current_did_of_ne hu]
            exact hnow
      · cases hx
        cases status with
        | orphaned => exact Or.inl hclosed
        | found =>
          have hlate := hok.late round.id rfl b hb hid.symm
          rw [hmarked] at hlate
          cases hlate
        | _ => cases hby
      · exact absurd (hid.symm.trans hnew) (hexist.ne_new hb)
    · obtain ⟨b, hb, hhash⟩ := h.stored _ hmarked
      exact absurd hhash (hnew b hb)
  · cases hx
    refine Or.inr ⟨t, ?_, ?_⟩
    · cases t with
      | consumer | main => rfl
      | _ => cases hby
    · rw [current_did]
      rfl

theorem did (hexist : RoundsExist suite w)
    (hok : OrphansThrough w (.did t o r)) :
    OrphansAgree s'.db (.did t o r :: w.log) where
  one := h.one.sem hsem hok.own
  marked := h.marked_did hsem hby
  stored := h.stored_did hreads hsem hby hstep
  closed := h.closed_did hreads hsem hby hstep
  orphaned := h.orphaned_did hreads hsem hby hstep hexist hok
  through := by
    intro e he
    rcases List.mem_cons.1 he with rfl | hold
    · exact hok.both
    · exact h.through e hold

end Did

/-- A turn that leaves the tables as they are, and in which no orphaning is
broken off. -/
theorem cons {db : Database} {log : List PoolEntry} (h : OrphansAgree db log)
    {e : PoolEntry} (he : ∀ t o r, e ≠ .did t o r)
    (hnow : ∀ t : Task, t.isNodeSide = true →
      orphaning (current t (e :: log)).2 = orphaning (current t log).2) :
    OrphansAgree db (e :: log) := by
  have hlog : ∀ hash, wasOrphaned (e :: log) hash = wasOrphaned log hash := by
    intro hash
    cases e with
    | did t o r => exact absurd rfl (he t o r)
    | _ => rfl
  refine ⟨h.one, ?_, ?_, ?_, ?_, ?_⟩
  · simpa only [hlog] using h.marked
  · simpa only [hlog] using h.stored
  · simpa only [hlog] using h.closed
  · intro b hb hmarked round hround hid
    rw [hlog] at hmarked
    refine (h.orphaned b hb hmarked round hround hid).imp_right ?_
    rintro ⟨t, hside, ht⟩
    exact ⟨t, hside, (hnow t hside).trans ht⟩
  · intro e' he'
    rcases List.mem_cons.1 he' with rfl | hold
    · cases e' with
      | did t o r => exact absurd rfl (he t o r)
      | _ => rfl
    · exact h.through e' hold

end OrphansAgree

section Result

variable {suite : Suite} {data : ChainData} {config : ServerConfig}

theorem reach_orphansAgree {c : PoolConfig}
    (h : (pool suite data config).Reach OrphansThrough c) :
    OrphansAgree c.world.shared.db c.world.log := by
  refine reach_history ?_ ?_ ?_ ?_ ?_ (turns_readsKept.reach
    (turns_roundsExist.reach (turns_orphanStep.reach (reach_grounded h))))
  · exact fun now => ⟨fun _ => nofun, fun _ => nofun, fun _ => nofun,
      fun _ => nofun, fun _ => nofun, fun _ => nofun⟩
  · intro w t o r s' hw hsem hok
    exact hw.did hok.2 hsem hok.1.1.1.2.2.1 hok.1.1.2 hok.1.2 hok.1.1.1.1
  · intro w u k p s' hw _ hok
    refine hw.cons (fun _ _ _ => nofun) fun t hside => ?_
    by_cases ht : t = u
    · subst ht
      rw [current_began]
      exact (hok.1.1.2 hside).symm
    · rw [current_began_of_ne ht]
  · intro db log now hw
    have hcons := hw.cons (e := .env) (fun _ _ _ => nofun) fun _ _ => rfl
    exact ⟨hcons.one, hcons.marked, hcons.stored, hcons.closed,
      hcons.orphaned, hcons.through⟩
  · intro w hw hok
    refine hw.cons (fun _ _ _ => nofun) fun t hside => ?_
    refine (hok.1.1.1.1.whole rfl t ?_).symm
    cases t with
    | consumer | main => simp
    | _ => cases hside

/-- A round is orphaned when its block has been orphaned at some time, and
then it ends at the template 0.  The only exception is the moment between
the two sections of an orphaning. -/
theorem reach_roundOrphaned {c : PoolConfig}
    (h : (pool suite data config).Reach OrphansThrough c) :
    ∀ b ∈ c.world.shared.db.foundBlocks.rows,
      ∀ r ∈ c.world.shared.db.rounds.rows, r.id = b.roundId →
        (r.status = .orphaned → r.endTemplateId = some 0 ∧
          wasOrphaned c.world.log b.blockHash = true) ∧
        (wasOrphaned c.world.log b.blockHash = true →
          r.status = .orphaned ∨ OrphaningNow c.world.log b.blockHash) ∧
        (b.status = .orphaned →
          wasOrphaned c.world.log b.blockHash = true) := by
  have hagree := reach_orphansAgree h
  intro b hb r hr hid
  refine ⟨fun hstatus => ?_, fun hmarked => ?_, hagree.marked b hb⟩
  · obtain ⟨hend, b', hb', hid', hmarked⟩ := hagree.closed r hr hstatus
    have heq := hagree.one b' hb' b hb (hid'.trans hid)
    exact ⟨hend, heq ▸ hmarked⟩
  · exact hagree.orphaned b hb hmarked r hr hid

end Result

/-- A found block is connected, and the node takes it back again. -/
def comesAndGoes (n : Nat) : List Scene :=
  findsBlock n ++ connects firstHash 1 ++ disconnects firstHash 1

/-- A run in which the block comes back in the end. -/
theorem reach_roundOrphaned_sample : ∃ c : PoolConfig,
    (pool sampleSuite sampleData sampleConfig).Reach OrphansThrough c ∧
    c.world.shared.db.foundBlocks.rows.map (·.status) = [.immature] ∧
    ∀ b ∈ c.world.shared.db.foundBlocks.rows,
      ∀ r ∈ c.world.shared.db.rounds.rows, r.id = b.roundId →
        (r.status = .orphaned → r.endTemplateId = some 0 ∧
          wasOrphaned c.world.log b.blockHash = true) ∧
        (wasOrphaned c.world.log b.blockHash = true →
          r.status = .orphaned ∨ OrphaningNow c.world.log b.blockHash) ∧
        (b.status = .orphaned →
          wasOrphaned c.world.log b.blockHash = true) := by
  have hrun : (schedule sampleSuite sampleData sampleConfig
      (fun w e => decide (OrphansThrough w e)) ["genesis"]
      (comesAndGoes 50 ++ connects firstHash 1)).map (fun c =>
        c.world.shared.db.foundBlocks.rows.map (·.status)) =
      some [.immature] := by
    decide +kernel
  obtain ⟨c, hc, hstatus⟩ := Option.map_eq_some_iff.1 hrun
  have hreach := reach_schedule _ _ _
    (fun _ _ h => of_decide_eq_true h) (by decide) hc
  exact ⟨c, hreach, hstatus, reach_roundOrphaned hreach⟩

/-- The templates at which a round was closed for a found block. -/
def foundEnds (log : List PoolEntry) (id : Nat) : List Nat :=
  log.filterMap fun e =>
    match e with
    | .did _ (.db (.closeRound id' endTemplateId .found)) (.ok _) =>
      if id' = id then some endTemplateId else none
    | _ => none

/-- A round is orphaned just when its block is, and it keeps the end that it
had for the found block. -/
def RoundsAgree (w : PoolWorld) : Prop :=
  (∀ b ∈ w.shared.db.foundBlocks.rows, ∀ r ∈ w.shared.db.rounds.rows,
    r.id = b.roundId → (r.status = .orphaned ↔ b.status = .orphaned)) ∧
  ∀ r ∈ w.shared.db.rounds.rows, r.status = .orphaned →
    ∀ endTemplateId ∈ foundEnds w.log r.id,
      r.endTemplateId = some endTemplateId

instance (w : PoolWorld) : Decidable (RoundsAgree w) :=
  inferInstanceAs (Decidable ((∀ _ ∈ _, ∀ _ ∈ _, _) ∧ ∀ _ ∈ _, _))

/-- Runs in which rounds and blocks disagree although the node side is idle
in the end: the end is overwritten; the block comes back; a crash comes
between the two sections; the second section is refused; the request closes
the round after the block was orphaned. -/
def disagreements : List (List Scene) :=
  let job := sampleJob 7 1 easyTarget
  [comesAndGoes 50,
    comesAndGoes 50 ++ connects firstHash 1,
    findsBlock 50 ++ connects firstHash 1 ++
      [.begin .consumer (.blockDisconnected ⟨firstHash, some 1, []⟩),
        .run .consumer 2 {}, .crash ["genesis"]] ++ bootsWith job,
    findsBlock 50 ++ connects firstHash 1 ++
      [.begin .consumer (.blockDisconnected ⟨firstHash, some 1, []⟩),
        .run .consumer 2 {}, .run .consumer 50 { dbFails := true }],
    comesAndGoes 11 ++ [.run (.session 0) 50 {}]]

/-- Rounds and blocks disagree in the end of each of these runs. -/
theorem roundsAgree_fails : disagreements.Forall fun scenes =>
    ∃ c : PoolConfig, schedule sampleSuite sampleData sampleConfig
        (fun _ _ => true) ["genesis"] scenes = some c ∧
      (pool sampleSuite sampleData sampleConfig).Reach (fun _ _ => True) c ∧
      c.task .consumer = .ret () ∧ c.task .main = .ret () ∧
      ¬ RoundsAgree c.world := by
  have hruns : ∀ scenes ∈ disagreements, (schedule sampleSuite sampleData
      sampleConfig (fun _ _ => true) ["genesis"] scenes).any
        (fun c : PoolConfig => decide ((c.task .consumer).isRet = true ∧
          (c.task Task.main).isRet = true ∧ ¬ RoundsAgree c.world)) =
        true := by
    decide +kernel
  refine List.forall_iff_forall_mem.2 fun scenes hscenes => ?_
  obtain ⟨c, hc, hreach, hconsumer, hmain, hfails⟩ := exists_schedule _ _ _
    (fun _ _ _ => trivial) (by decide) (hruns scenes hscenes)
  exact ⟨c, hc, hreach, Prog.eq_ret_of_isRet hconsumer,
    Prog.eq_ret_of_isRet hmain, hfails⟩

end StratumServer
