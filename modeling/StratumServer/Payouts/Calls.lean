import StratumServer.Accounting.Service
import StratumServer.Lib.Calls
import StratumServer.Payouts.Snapshots

/-!
# Calls that write payouts

`create_payout_for_found_block`, `rebuild_payout_plan_for_batch` and
`delete_payouts_by_batch` are called here one after the other, with any
arguments, and nothing else happens in between.  A run keeps in mind with
which arguments each batch was created.

There are two groups.

* The calls.  `runAlone` runs a body of the service on a database.
* What a call does: `call_create` and `call_rebuild`.  The tables that the
  window is computed from stay as they are.
-/

namespace StratumServer

open Sql Tasks Calls

/-! ## The calls -/

/-- A body that runs alone, on the database.  It stops when it wants
something else. -/
def runAlone {α : Type} : Body α → Database → Option α × Database
  | .ret a, db => (some a, db)
  | .act (.db d) k, db => runAlone (k (d.run db).1) (d.run db).2
  | .act _ _, db => (none, db)

/-- A call that writes payouts. -/
inductive AccountingCall
  | create (block : FoundBlock) (settings : PayoutSettings)
  | deletePayouts (batchId : Nat)
  | rebuild (batchId : Nat) (settings : PayoutSettings)
  deriving DecidableEq, Repr

/-- A batch, with the arguments that it was created with. -/
structure MadeBatch where
  batchId : Nat
  block : FoundBlock
  settings : PayoutSettings
  deriving DecidableEq, Repr

/-- The database, and the batches that were created in the run. -/
structure PayoutRun where
  db : Database
  made : List MadeBatch

/-- The run after a creation, with what it returned. -/
def PayoutRun.created (r : PayoutRun) (block : FoundBlock)
    (settings : PayoutSettings) :
    Option (Except Error Nat) × Database → PayoutRun
  | (some (.ok batchId), db) => ⟨db, ⟨batchId, block, settings⟩ :: r.made⟩
  | (_, db) => { r with db }

variable (suite : Suite)

/-- One call. -/
def PayoutRun.call (r : PayoutRun) : AccountingCall → PayoutRun
  | .create block settings =>
    r.created block settings (runAlone
      (AccountingService.createPayoutForFoundBlock suite block settings).run
        r.db)
  | .deletePayouts batchId =>
    { r with db := (PayoutRepository.deletePayoutsByBatch batchId r.db).2 }
  | .rebuild batchId settings =>
    { r with db := (runAlone (AccountingService.rebuildPayoutPlanForBatch suite
        batchId settings).run r.db).2 }

/-- No payout has been written yet. -/
structure Database.Unpaid (db : Database) : Prop where
  batches : db.payoutBatches.rows = []
  payouts : db.payouts.rows = []
  snapshots : db.payoutShareSnapshots.rows = []

instance (db : Database) : Decidable db.Unpaid :=
  decidable_of_iff (db.payoutBatches.rows = [] ∧ db.payouts.rows = [] ∧
      db.payoutShareSnapshots.rows = [])
    ⟨fun ⟨h₁, h₂, h₃⟩ => ⟨h₁, h₂, h₃⟩,
      fun h => ⟨h.batches, h.payouts, h.snapshots⟩⟩

/-! ## What a call does -/

theorem runAlone_bind {α : Type} (d : DbOp) (f : d.Res → Fallible α)
    (database : Database) :
    runAlone (db d >>= f).run database =
      match (d.run database).1 with
      | .ok a => runAlone (f a).run (d.run database).2
      | .error e => (some (.error e), (d.run database).2) := by
  rw [ExceptT.run_bind]
  change runAlone (_ : Body _) (d.run database).2 = _
  cases (d.run database).1 <;> rfl

/-- A batch is created, or nothing changes. -/
theorem call_create (r : PayoutRun) (block : FoundBlock)
    (settings : PayoutSettings) :
    r.call suite (.create block settings) = r ∨
      ∃ batchId db', createPayoutSection block
          (AccountingService.networkDifficulty suite block)
          (rewardFromCoinbase block.coinbaseValue) settings r.db =
            (.ok batchId, db') ∧
        r.call suite (.create block settings) =
          ⟨db', ⟨batchId, block, settings⟩ :: r.made⟩ := by
  have hcall : r.call suite (.create block settings) =
      r.created block settings (some (createPayoutSection block
          (AccountingService.networkDifficulty suite block)
          (rewardFromCoinbase block.coinbaseValue) settings r.db).1,
        (createPayoutSection block
          (AccountingService.networkDifficulty suite block)
          (rewardFromCoinbase block.coinbaseValue) settings r.db).2) := rfl
  rw [hcall]
  rcases createPayoutSection_cases block
    (AccountingService.networkDifficulty suite block)
    (rewardFromCoinbase block.coinbaseValue) settings r.db with
    ⟨e, heq⟩ | ⟨_, batchId, batches, p, s, d, e, _, _, _, heq⟩
  · rw [heq]
    exact Or.inl rfl
  · rw [heq]
    exact Or.inr ⟨batchId, _, rfl, rfl⟩

/-- The rows of a pending batch are replaced, or nothing changes. -/
theorem call_rebuild (r : PayoutRun) (batchId : Nat)
    (settings : PayoutSettings) :
    r.call suite (.rebuild batchId settings) = r ∨
      ∃ batch block outputs db', batch ∈ r.db.payoutBatches.rows ∧
        batch.id = batchId ∧
        (FoundBlockRepository.getByRoundId batch.roundId r.db).1 =
          .ok (some block) ∧
        rebuildPayoutSection batchId block
          (AccountingService.networkDifficulty suite block)
          (rewardFromCoinbase block.coinbaseValue) settings r.db =
            (.ok outputs, db') ∧
        r.call suite (.rebuild batchId settings) = { r with db := db' } := by
  unfold PayoutRun.call AccountingService.rebuildPayoutPlanForBatch
  dsimp only
  rw [runAlone_bind]
  simp only [DbOp.run, PayoutRepository.getBatchById]
  cases hbatch : r.db.payoutBatches.rows.find? (·.id == batchId) with
  | none => exact Or.inl rfl
  | some batch =>
    have hmem := List.mem_of_find?_eq_some hbatch
    have hid : batch.id = batchId := by
      have heq := List.find?_some hbatch
      exact eq_of_beq heq
    dsimp only
    split
    · exact Or.inl rfl
    · rw [runAlone_bind]
      simp only [DbOp.run]
      cases hblock : (FoundBlockRepository.getByRoundId batch.roundId
          r.db).1 with
      | error e => cases hblock
      | ok found =>
        cases found with
        | none => exact Or.inl rfl
        | some block =>
          cases hrebuild : rebuildPayoutSection batchId block
              (AccountingService.networkDifficulty suite block)
              (rewardFromCoinbase block.coinbaseValue) settings r.db with
          | mk result db' =>
            have hafter : (runAlone (db (.rebuildPayout batchId block
                (AccountingService.networkDifficulty suite block)
                (rewardFromCoinbase block.coinbaseValue) settings)).run
                  r.db).2 = db' := by
              change (rebuildPayoutSection batchId block _ _ settings r.db).2 = _
              rw [hrebuild]
            cases result with
            | error e =>
              refine Or.inl ?_
              change { r with db := (runAlone _ r.db).2 } = r
              rw [hafter, rebuildPayoutSection_error hrebuild]
            | ok outputs =>
              refine Or.inr ⟨batch, block, outputs, db', hmem, hid, hblock,
                hrebuild, ?_⟩
              change { r with db := (runAlone _ r.db).2 } = { r with db := db' }
              rw [hafter]

variable {suite}

/-- The tables that a plan is computed from. -/
def Database.sources (db : Database) : Table Worker × Table Share ×
    Table ShareOutcome × Table Round × Table FoundBlock :=
  (db.workers, db.shares, db.shareOutcomes, db.rounds, db.foundBlocks)

theorem createPayoutSection_sources {block : FoundBlock} {difficulty : ℚ}
    {reward : Int} {settings : PayoutSettings} {db db' : Database}
    {batchId : Nat} (h : createPayoutSection block difficulty reward settings
      db = (.ok batchId, db')) : db'.sources = db.sources := by
  rcases createPayoutSection_cases block difficulty reward settings db with
    ⟨e, heq⟩ | ⟨_, _, _, _, _, _, _, _, _, _, heq⟩
  · cases h.symm.trans heq
  · cases h.symm.trans heq
    rfl

theorem rebuildPayoutSection_sources {batchId : Nat} {block : FoundBlock}
    {difficulty : ℚ} {reward : Int} {settings : PayoutSettings}
    {db db' : Database} {outputs : List PayoutOutput}
    (h : rebuildPayoutSection batchId block difficulty reward settings db =
      (.ok outputs, db')) :
    db'.sources = db.sources ∧ db'.payoutBatches = db.payoutBatches := by
  obtain ⟨p, s, d, hdb'⟩ := rebuildPayoutSection_frame batchId block difficulty
    reward settings db
  rw [h] at hdb'
  dsimp only at hdb'
  rw [hdb']
  exact ⟨rfl, rfl⟩

section Sources

variable {db db' : Database}

theorem foundAt_congr (h : db'.sources = db.sources) (blockHash : String) :
    foundAt db' blockHash = foundAt db blockHash := by
  have houtcomes : db'.shareOutcomes = db.shareOutcomes :=
    congrArg (·.2.2.1) h
  unfold foundAt
  rw [houtcomes]

theorem window_congr (h : db'.sources = db.sources) (found : Nat)
    (nMultiplier networkDifficulty : ℚ) :
    calculatePplnsWindow db' found nMultiplier networkDifficulty =
      calculatePplnsWindow db found nMultiplier networkDifficulty := by
  have hworkers : db'.workers = db.workers := congrArg (·.1) h
  have hshares : db'.shares = db.shares := congrArg (·.2.1) h
  have houtcomes : db'.shareOutcomes = db.shareOutcomes :=
    congrArg (·.2.2.1) h
  have hrounds : db'.rounds = db.rounds := congrArg (·.2.2.2.1) h
  have hentry : pplnsEntry db' = pplnsEntry db := by
    unfold pplnsEntry
    rw [hworkers, hshares, hrounds]
  unfold calculatePplnsWindow
  rw [houtcomes, hentry]

end Sources

/-! ## The payouts of a batch -/

/-- The payouts of a batch. -/
def Database.payoutsOf (db : Database) (batchId : Nat) : List Payout :=
  db.payouts.rows.filter (·.batchId == batchId)

theorem payoutsOf_delete {db : Database} {batchId other : Nat}
    (h : other ≠ batchId) :
    ((PayoutRepository.deletePayoutsByBatch batchId db).2).payoutsOf other =
      db.payoutsOf other := by
  unfold Database.payoutsOf PayoutRepository.deletePayoutsByBatch
  simp only [Table.delete, List.filter_filter]
  refine List.filter_congr fun p _ => ?_
  by_cases heq : p.batchId = other <;> simp [heq, h]

theorem payoutsOf_delete_self {db : Database} {batchId : Nat} :
    ((PayoutRepository.deletePayoutsByBatch batchId db).2).payoutsOf batchId =
      [] := by
  unfold Database.payoutsOf PayoutRepository.deletePayoutsByBatch
  simp [Table.delete, List.filter_filter]

namespace PlanWritten

variable {batchId : Nat} {plan : PayoutPlan} {shares : List PplnsShareEntry}
  {db db' : Database}

/-- The payouts of the other batches. -/
theorem payoutsOf_other (h : PlanWritten batchId plan shares db db')
    {other : Nat} (hne : other ≠ batchId) :
    db'.payoutsOf other = db.payoutsOf other := by
  obtain ⟨new, hrows, hmap⟩ := Table.insertMany_some h.payouts
  have hnew : new.filter (·.batchId == other) = [] := by
    rw [List.filter_eq_nil_iff]
    intro p hp heq
    have hmem : p.batchId ∈ (payoutRows batchId plan).map (·.batchId) :=
      hmap Payout.batchId (fun _ _ => rfl) ▸ List.mem_map_of_mem hp
    obtain ⟨p₀, hp₀, hid⟩ := List.mem_map.1 hmem
    rw [payoutRows_batchId batchId plan p₀ hp₀] at hid
    exact hne ((eq_of_beq heq).symm.trans hid.symm)
  unfold Database.payoutsOf
  rw [hrows, List.filter_append, hnew, List.append_nil]

/-- The payouts of the batch itself are the outputs, when it had none. -/
theorem payoutsOf_self (h : PlanWritten batchId plan shares db db')
    (hnone : db.payoutsOf batchId = []) :
    (db'.payoutsOf batchId).map (·.triple) =
      plan.outputs.map (·.triple) := by
  have hne : ∀ p ∈ db.payouts.rows, p.batchId ≠ batchId := by
    intro p hp heq
    have hmem : p ∈ db.payoutsOf batchId :=
      List.mem_filter.2 ⟨hp, beq_iff_eq.2 heq⟩
    rw [hnone] at hmem
    cases hmem
  have hrows := filter_insertMany (f := Payout.batchId) (fun _ _ => rfl)
    (payoutRows_batchId _ _) hne h.payouts (g := Payout.triple)
    (fun _ _ => rfl)
  unfold payoutRows at hrows
  rwa [List.map_map] at hrows

end PlanWritten

/-- A batch that is new has no payouts. -/
theorem PlanRowsKnown.payoutsOf_new {db : Database} (h : PlanRowsKnown db)
    {row : PayoutBatch} {batchId : Nat} {batches : Table PayoutBatch}
    (hinsert : db.payoutBatches.insert row = some (batchId, batches)) :
    db.payoutsOf batchId = [] := by
  obtain ⟨_, hid, _, _⟩ := Table.insert_some hinsert
  refine List.filter_eq_nil_iff.2 fun p hp heq => ?_
  have hle := h.payouts p hp
  have hbatch := eq_of_beq heq
  omega

theorem PlanRowsKnown.call {r : PayoutRun} (h : PlanRowsKnown r.db)
    (c : AccountingCall) : PlanRowsKnown (r.call suite c).db := by
  cases c with
  | create block settings =>
    rcases call_create suite r block settings with heq |
      ⟨batchId, db', hcreate, heq⟩
    · rw [heq]
      exact h
    · rw [heq]
      exact h.createPayout hcreate
  | deletePayouts batchId =>
    exact ⟨fun p hp => h.payouts p (List.mem_filter.1 hp).1, h.snapshots⟩
  | rebuild batchId settings =>
    rcases call_rebuild suite r batchId settings with heq |
      ⟨batch, block, outputs, db', hbatch, hid, _, hrebuild, heq⟩
    · rw [heq]
      exact h
    · rw [heq]
      refine h.rebuildPayout ?_ hrebuild
      rw [← hid]
      exact r.db.payoutBatches.ids_le batch hbatch

theorem Database.Unpaid.planRowsKnown {db : Database} (h : db.Unpaid) :
    PlanRowsKnown db := by
  refine ⟨?_, ?_⟩
  · simp [h.payouts]
  · simp [h.snapshots]

end StratumServer
