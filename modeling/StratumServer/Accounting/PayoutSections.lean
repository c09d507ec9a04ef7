import StratumServer.Payout.Plan
import StratumServer.Lib.Text

/-!
# The locked sections of payout creation

`create_payout_for_found_block` and `rebuild_payout_plan_for_batch` take the
connection lock themselves and do all of their reading and writing in that
one section.  The two definitions here are those sections.  What the methods
do before they take the lock is in `StratumServer.Accounting.Service`.

The writing goes in one transaction.  `writePlan` is the part that both
transactions share: the payouts, the share snapshots and the dust.

`createPayoutSection_cases` says when a batch is made, and
`rebuildPayoutSection_frame` that a rebuilt plan touches the tables of the
plan only.  The rows that the two leave are in `createPayoutSection_ok` and
`rebuildPayoutSection_ok`.
-/

namespace StratumServer

open Sql

/-- The time of the share that found the block: an accepted outcome that met
the network target and names the block. -/
def foundAt (db : Database) (blockHash : String) : Option Nat :=
  (db.shareOutcomes.rows.find? fun so =>
    so.blockHash == some blockHash && so.status == .accepted &&
      so.networkTargetOk == some true).map (·.createdAt)

/-- `SELECT payout_address, balance FROM dust_balances`. -/
def dustBalances (db : Database) : List (String × Int) :=
  db.dustBalances.rows.map fun d => (d.payoutAddress, d.balance)

/-- The guard of `create_payout_for_found_block`: a batch whose retry key is
`LIKE` the hash followed by `%`. -/
def batchExists (db : Database) (blockHash : String) : Bool :=
  db.payoutBatches.rows.any fun b =>
    b.retryKey.any fun k => Text.like (blockHash.toList ++ ['%']) k.toList

/-- The payout rows of a plan. -/
def payoutRows (batchId : Nat) (plan : PayoutPlan) : List Payout :=
  plan.outputs.map fun o =>
    { batchId, workerId := o.workerId, payoutAddress := o.payoutAddress,
      amount := o.amount, dustCarriedForward := o.dustCarriedForward }

/-- The snapshot rows of a plan: for each output, the shares of its address. -/
def snapshotRows (batchId : Nat) (plan : PayoutPlan)
    (shares : List PplnsShareEntry) : List PayoutShareSnapshot :=
  plan.outputs.flatMap fun o =>
    (shares.filter (·.payoutAddress == o.payoutAddress)).map fun s =>
      { batchId, shareId := s.shareId, shareOutcomeId := s.shareOutcomeId,
        payoutAddress := s.payoutAddress, workUnits := s.difficulty,
        shareCreatedAt := s.createdAt }

/-- The dust of one output added to the balance of its address. -/
def upsertDust (t : Table DustBalance) (o : PayoutOutput) :
    Table DustBalance :=
  if 0 < o.dustCarriedForward then
    match t.insert { payoutAddress := o.payoutAddress,
                     balance := o.dustCarriedForward } with
    | some (_, t') => t'
    | none => t.burn.modify (·.payoutAddress == o.payoutAddress)
        (fun d => { d with balance := d.balance + o.dustCarriedForward })
        fun _ => ⟨rfl, rfl⟩
  else t

/-- The payouts, the snapshots and the dust of a plan. -/
def writePlan (batchId : Nat) (plan : PayoutPlan)
    (shares : List PplnsShareEntry) (db : Database) : Option Database := do
  let payouts ← db.payouts.insertMany (payoutRows batchId plan)
  let payoutShareSnapshots ←
    db.payoutShareSnapshots.insertMany (snapshotRows batchId plan shares)
  return { db with
    payouts, payoutShareSnapshots,
    dustBalances := plan.outputs.foldl upsertDust db.dustBalances }

/-- The batch row of a plan for a block. -/
def batchRow (block : FoundBlock) (plan : PayoutPlan) : PayoutBatch :=
  { roundId := block.roundId, totalAmount := plan.grossReward,
    poolFeeAmount := plan.poolFeeAmount,
    poolFeeAddress := plan.poolFeeAddress,
    minerCount := plan.outputs.length, retryKey := some plan.retryKey }

/-- The transaction of `create_payout_for_found_block`. -/
def createBatch (block : FoundBlock) (plan : PayoutPlan)
    (shares : List PplnsShareEntry) (db : Database) :
    Option (Nat × Database) := do
  let (batchId, payoutBatches) ← db.payoutBatches.insert (batchRow block plan)
  let db ← writePlan batchId plan shares { db with payoutBatches }
  let (_, accountingEvents) ← db.accountingEvents.insert
    { eventType := .payoutBatchCreated, status := .pending,
      roundId := some block.roundId, blockHash := some block.blockHash,
      height := some block.height }
  return (batchId, { db with accountingEvents })

/-- The window and the plan for a block whose share was found at `foundAt`. -/
def planFor (block : FoundBlock) (networkDifficulty : ℚ) (grossReward : Int)
    (settings : PayoutSettings) (foundAt : Nat) (db : Database) :
    List PplnsShareEntry × PayoutPlan :=
  let shares := calculatePplnsWindow db foundAt settings.nMultiplier
    networkDifficulty
  (shares, buildPayoutPlan block networkDifficulty grossReward settings
    (dustBalances db) shares)

/-- The section of `create_payout_for_found_block` under the lock. -/
def createPayoutSection (block : FoundBlock) (networkDifficulty : ℚ)
    (grossReward : Int) (settings : PayoutSettings) (db : Database) :
    DbResult Nat :=
  match foundAt db block.blockHash with
  | none =>
    (.error (.bail s!"no accepted share_outcome with network_target_ok=1 for block hash {block.blockHash}"), db)
  | some found =>
    let (shares, plan) :=
      planFor block networkDifficulty grossReward settings found db
    if batchExists db block.blockHash then
      (.error (.bail s!"payout batch already exists for block hash {block.blockHash}"), db)
    else
      match createBatch block plan shares db with
      | some (batchId, db') => (.ok batchId, db')
      | none => (.error .sqlite, db)

/-- The transaction of `rebuild_payout_plan_for_batch`. -/
def replacePlan (batchId : Nat) (plan : PayoutPlan)
    (shares : List PplnsShareEntry) (db : Database) : Option Database :=
  writePlan batchId plan shares { db with
    payouts := db.payouts.delete (·.batchId == batchId)
    payoutShareSnapshots :=
      db.payoutShareSnapshots.delete (·.batchId == batchId) }

/-- The section of `rebuild_payout_plan_for_batch` under the lock. -/
def rebuildPayoutSection (batchId : Nat) (block : FoundBlock)
    (networkDifficulty : ℚ) (grossReward : Int) (settings : PayoutSettings)
    (db : Database) : DbResult (List PayoutOutput) :=
  match foundAt db block.blockHash with
  | none =>
    (.error (.bail s!"no accepted share_outcome with network_target_ok=1 for block hash {block.blockHash}: Query returned no rows"), db)
  | some found =>
    let (shares, plan) :=
      planFor block networkDifficulty grossReward settings found db
    if shares.isEmpty then
      (.error (.bail s!"PPLNS window is empty for round {block.roundId} — cannot rebuild payout plan"), db)
    else if plan.outputs.isEmpty then
      (.error (.bail s!"rebuild produced empty outputs for batch {batchId} — cannot proceed"), db)
    else
      match replacePlan batchId plan shares db with
      | some db' => (.ok plan.outputs, db')
      | none => (.error .sqlite, db)

/-! ## What the sections leave -/

/-- The rows of a plan are in the database `db'`, on top of what `db` has. -/
structure PlanWritten (batchId : Nat) (plan : PayoutPlan)
    (shares : List PplnsShareEntry) (db db' : Database) : Prop where
  payouts : db.payouts.insertMany (payoutRows batchId plan) = some db'.payouts
  snapshots : db.payoutShareSnapshots.insertMany
    (snapshotRows batchId plan shares) = some db'.payoutShareSnapshots
  dust : db'.dustBalances = plan.outputs.foldl upsertDust db.dustBalances

theorem writePlan_some {batchId : Nat} {plan : PayoutPlan}
    {shares : List PplnsShareEntry} {db db' : Database}
    (h : writePlan batchId plan shares db = some db') :
    PlanWritten batchId plan shares db db' ∧
      ∃ p s d, db' = { db with
        payouts := p, payoutShareSnapshots := s, dustBalances := d } := by
  unfold writePlan at h
  cases hp : db.payouts.insertMany (payoutRows batchId plan) with
  | none => simp [hp] at h
  | some p =>
    cases hs : db.payoutShareSnapshots.insertMany
        (snapshotRows batchId plan shares) with
    | none => simp [hp, hs] at h
    | some s =>
      simp only [hp, hs, Option.bind_eq_bind, Option.bind_some,
        Option.pure_def, Option.some.injEq] at h
      subst h
      exact ⟨⟨hp, hs, rfl⟩, p, s, _, rfl⟩

theorem createBatch_some {block : FoundBlock} {plan : PayoutPlan}
    {shares : List PplnsShareEntry} {db db' : Database} {batchId : Nat}
    (h : createBatch block plan shares db = some (batchId, db')) :
    PlanWritten batchId plan shares db db' ∧ ∃ batches p s d e,
      db.payoutBatches.insert (batchRow block plan) =
        some (batchId, batches) ∧
      db' = { db with
        payoutBatches := batches, payouts := p, payoutShareSnapshots := s,
        dustBalances := d, accountingEvents := e } := by
  unfold createBatch at h
  cases hb : db.payoutBatches.insert (batchRow block plan) with
  | none => simp [hb] at h
  | some b =>
    obtain ⟨id, batches⟩ := b
    simp only [hb, Option.bind_eq_bind, Option.bind_some] at h
    obtain ⟨db₁, hdb₁, h⟩ := Option.bind_eq_some_iff.1 h
    obtain ⟨⟨n, e⟩, he, h⟩ := Option.bind_eq_some_iff.1 h
    obtain ⟨hwritten, p, s, d, rfl⟩ := writePlan_some hdb₁
    cases h
    exact ⟨⟨hwritten.payouts, hwritten.snapshots, hwritten.dust⟩,
      batches, p, s, d, e, rfl, rfl⟩

/-- The transaction only fails when the retry key is taken. -/
theorem createBatch_isSome {block : FoundBlock} {plan : PayoutPlan}
    (shares : List PplnsShareEntry) {db : Database}
    (h : ∀ b ∈ db.payoutBatches.rows, ¬ Conflict b (batchRow block plan)) :
    ∃ r, createBatch block plan shares db = some r := by
  obtain ⟨id, batches, hb⟩ := Table.insert_isSome h
  obtain ⟨p, hp⟩ := Table.insertMany_isSome (fun _ => rfl)
    (payoutRows id plan) db.payouts
  obtain ⟨s, hs⟩ := Table.insertMany_isSome (fun _ => rfl)
    (snapshotRows id plan shares) db.payoutShareSnapshots
  obtain ⟨n, e, he⟩ := Table.insert_isSome (t := db.accountingEvents)
    (r := { eventType := .payoutBatchCreated, status := .pending,
            roundId := some block.roundId, blockHash := some block.blockHash,
            height := some block.height }) (by rintro a _ ⟨k, _⟩; cases k)
  simp only [createBatch, hb, Option.bind_eq_bind, Option.bind_some, writePlan,
    hp, hs, Option.pure_def, he]
  exact ⟨_, rfl⟩

theorem planFor_retryKey (block : FoundBlock) (difficulty : ℚ) (reward : Int)
    (settings : PayoutSettings) (found : Nat) (db : Database) :
    ∃ n : Nat, (planFor block difficulty reward settings found db).2.retryKey =
      s!"{block.blockHash}:{n}" :=
  ⟨_, rfl⟩

/-- Either nothing changes, or the guard has found no batch and there is one
more batch. -/
theorem createPayoutSection_cases (block : FoundBlock) (difficulty : ℚ)
    (reward : Int) (settings : PayoutSettings) (db : Database) :
    (∃ e, createPayoutSection block difficulty reward settings db =
        (.error e, db)) ∨
      ∃ found batchId batches p s d e,
        foundAt db block.blockHash = some found ∧
        batchExists db block.blockHash = false ∧
        db.payoutBatches.insert (batchRow block
            (planFor block difficulty reward settings found db).2) =
          some (batchId, batches) ∧
        createPayoutSection block difficulty reward settings db =
          (.ok batchId, { db with
            payoutBatches := batches, payouts := p, payoutShareSnapshots := s,
            dustBalances := d, accountingEvents := e }) := by
  unfold createPayoutSection
  cases hfound : foundAt db block.blockHash with
  | none => exact Or.inl ⟨_, rfl⟩
  | some found =>
    dsimp only
    cases hexists : batchExists db block.blockHash with
    | true => exact Or.inl ⟨_, rfl⟩
    | false =>
      rw [if_neg Bool.false_ne_true]
      split
      · rename_i batchId db' hcreate
        obtain ⟨_, batches, p, s, d, e, hinsert, rfl⟩ :=
          createBatch_some hcreate
        exact Or.inr ⟨found, batchId, batches, p, s, d, e, rfl, rfl, hinsert,
          rfl⟩
      · exact Or.inl ⟨_, rfl⟩

/-- The rows that a batch is created with. -/
theorem createPayoutSection_ok {block : FoundBlock} {difficulty : ℚ}
    {reward : Int} {settings : PayoutSettings} {db db' : Database}
    {batchId : Nat}
    (h : createPayoutSection block difficulty reward settings db =
      (.ok batchId, db')) :
    ∃ found, foundAt db block.blockHash = some found ∧
      db.payoutBatches.insert (batchRow block
          (planFor block difficulty reward settings found db).2) =
        some (batchId, db'.payoutBatches) ∧
      PlanWritten batchId (planFor block difficulty reward settings found db).2
        (planFor block difficulty reward settings found db).1 db db' := by
  unfold createPayoutSection at h
  cases hfound : foundAt db block.blockHash with
  | none =>
    rw [hfound] at h
    cases h
  | some found =>
    rw [hfound] at h
    dsimp only at h
    split at h
    · cases h
    · split at h
      · rename_i batchId' db'' hcreate
        cases h
        obtain ⟨hwritten, batches, p, s, d, e, hinsert, rfl⟩ :=
          createBatch_some hcreate
        exact ⟨found, rfl, hinsert, hwritten⟩
      · cases h

/-- A rebuilt plan takes the place of the rows of the batch. -/
theorem rebuildPayoutSection_ok {batchId : Nat} {block : FoundBlock}
    {difficulty : ℚ} {reward : Int} {settings : PayoutSettings}
    {db db' : Database} {outputs : List PayoutOutput}
    (h : rebuildPayoutSection batchId block difficulty reward settings db =
      (.ok outputs, db')) :
    ∃ found, foundAt db block.blockHash = some found ∧
      (planFor block difficulty reward settings found db).2.outputs ≠ [] ∧
      PlanWritten batchId (planFor block difficulty reward settings found db).2
        (planFor block difficulty reward settings found db).1
        { db with
          payouts := db.payouts.delete (·.batchId == batchId)
          payoutShareSnapshots :=
            db.payoutShareSnapshots.delete (·.batchId == batchId) } db' := by
  unfold rebuildPayoutSection at h
  cases hfound : foundAt db block.blockHash with
  | none =>
    rw [hfound] at h
    cases h
  | some found =>
    rw [hfound] at h
    dsimp only at h
    split_ifs at h with hshares houtputs
    · cases h
    · cases h
    · split at h
      · rename_i db'' hreplace
        cases h
        exact ⟨found, rfl, fun hnil => houtputs (List.isEmpty_iff.2 hnil),
          (writePlan_some hreplace).1⟩
      · cases h

/-- A section that fails changes nothing. -/
theorem rebuildPayoutSection_error {batchId : Nat} {block : FoundBlock}
    {difficulty : ℚ} {reward : Int} {settings : PayoutSettings}
    {db db' : Database} {e : Error}
    (h : rebuildPayoutSection batchId block difficulty reward settings db =
      (.error e, db')) : db' = db := by
  unfold rebuildPayoutSection at h
  split at h
  · cases h
    rfl
  · dsimp only at h
    split_ifs at h
    · cases h
      rfl
    · cases h
      rfl
    · split at h
      · cases h
      · cases h
        rfl

/-- A rebuilt plan changes the payouts, the snapshots and the dust only. -/
theorem rebuildPayoutSection_frame (batchId : Nat) (block : FoundBlock)
    (difficulty : ℚ) (reward : Int) (settings : PayoutSettings)
    (db : Database) :
    ∃ p s d,
      (rebuildPayoutSection batchId block difficulty reward settings db).2 =
        { db with
          payouts := p, payoutShareSnapshots := s, dustBalances := d } := by
  unfold rebuildPayoutSection
  split
  · exact ⟨_, _, _, rfl⟩
  · dsimp only
    split_ifs
    · exact ⟨_, _, _, rfl⟩
    · exact ⟨_, _, _, rfl⟩
    · split
      · rename_i db' hreplace
        obtain ⟨_, p, s, d, hdb'⟩ := writePlan_some hreplace
        exact ⟨p, s, d, hdb'⟩
      · exact ⟨_, _, _, rfl⟩

end StratumServer
