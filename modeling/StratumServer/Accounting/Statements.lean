import StratumServer.Lib.Statements
import StratumServer.System.Operations

/-!
# The sections as statements

A section under the connection lock is one step of a task in `DbOp.run`.
Here it is a program that sends its statements one by one, so that each of
them may fail.  Four sections have several statements, and three of these
write in a transaction.

When nothing is made to fail, the statements do what `DbOp.run` computes:
`DbOp.eval_script`.  Whatever fails, they do that or change nothing, unless
the `COMMIT` fails and leaves the transaction open: `DbOp.atomic`.  So what
`Op.sem` has as one step of a task is what its statements can do,
`DbOp.sem_script`.
-/

namespace StratumServer

open Sql Tasks

/-! ## The statements -/

/-- The statements that are prepared before a loop. -/
inductive Prepared
  | payouts
  | payoutShareSnapshots
  | dustBalances
  deriving DecidableEq

/-- The SQL statements. -/
inductive Stmt
  /-- The only statement of a section. -/
  | single (d : DbOp)
  | selectOpenRound
  | insertRound (startTemplateId : Nat)
  /-- `INSERT OR IGNORE INTO shares`. -/
  | insertShare (share : Share)
  | selectShareId (dedupeKey : String)
  /-- `INSERT OR IGNORE INTO share_outcomes`. -/
  | insertOutcome (outcome : ShareOutcome)
  | selectOutcomeId (dedupeKey : String)
  | selectFoundAt (blockHash : String)
  | selectWindow (foundAt : Nat)
  | selectDustBalances
  | countBatches (blockHash : String)
  | insertBatch (batch : PayoutBatch)
  | prepare (p : Prepared)
  | insertPayout (payout : Payout)
  | insertSnapshot (snapshot : PayoutShareSnapshot)
  | upsertDust (output : PayoutOutput)
  | deletePayouts (batchId : Nat)
  | deleteSnapshots (batchId : Nat)
  deriving DecidableEq

/-- What a statement returns: the rows of a query, or the id of an inserted
row, where there is one. -/
@[reducible] def Stmt.Res : Stmt → Type
  | .single d => d.Res
  | .selectOpenRound => Option Round
  | .insertShare .. | .insertOutcome .. => Option Nat
  | .insertRound .. | .selectShareId .. | .selectOutcomeId ..
  | .countBatches .. | .insertBatch .. => Nat
  | .selectFoundAt .. => Option Nat
  | .selectWindow .. => List PplnsShareEntry
  | .selectDustBalances => List (String × Int)
  | .prepare .. | .insertPayout .. | .insertSnapshot .. | .upsertDust ..
  | .deletePayouts .. | .deleteSnapshots .. => Unit

/-- What a section means: its result and the new database, or its error. -/
def DbOp.meaning (d : DbOp) (db : Database) : Except Error (d.Res × Database) :=
  match d.run db with
  | (.ok a, db') => .ok (a, db')
  | (.error e, _) => .error e

theorem DbOp.run_of_meaning (d : DbOp) {a : d.Res} {db db' : Database}
    (h : d.meaning db = .ok (a, db')) : d.run db = (.ok a, db') := by
  unfold DbOp.meaning at h
  split at h
  · rename_i hrun
    cases h
    exact hrun
  · cases h

/-- The rows of the query of `calculate_pplns_window`. -/
def windowRows (db : Database) (foundAt : Nat) : List PplnsShareEntry :=
  ((db.shareOutcomes.rows.filter fun so =>
    so.status == .accepted && decide (so.createdAt ≤ foundAt)).filterMap
      (pplnsEntry db)).insertionSort fun a b => b.createdAt ≤ a.createdAt

/-- `SELECT COUNT(*)` of the batches whose retry key is `LIKE` the hash
followed by `%`. -/
def batchCount (db : Database) (blockHash : String) : Nat :=
  db.payoutBatches.rows.countP fun b =>
    b.retryKey.any fun k => Text.like (blockHash.toList ++ ['%']) k.toList

/-- An `INSERT` that fails when a `UNIQUE` constraint does not hold. -/
def inserted {ρ : Type} [Record ρ] (t : Table ρ) (row : ρ)
    (put : Table ρ → Database) : Except Error (Nat × Database) :=
  match t.insert row with
  | some (id, t') => .ok (id, put t')
  | none => .error .sqlite

/-- An `INSERT OR IGNORE`: the new id, if there is one. -/
def insertedOrIgnored {ρ : Type} [Record ρ] (t : Table ρ) (row : ρ)
    (put : Table ρ → Database) : Option Nat × Database :=
  match t.insert row with
  | some (id, t') => (some id, put t')
  | none => (none, put t.burn)

/-- `query_row`: no row is an error. -/
def queryRow {ρ : Type} (db : Database) (row : Option ρ) (id : ρ → Nat) :
    Except Error (Nat × Database) :=
  match row with
  | some r => .ok (id r, db)
  | none => .error .sqlite

/-- What a statement does to the database. -/
def Stmt.exec : (s : Stmt) → Database → Except Error (s.Res × Database)
  | .single d, db => d.meaning db
  | .selectOpenRound, db =>
    .ok (db.rounds.rows.find? (·.status == .opened), db)
  | .insertRound startTemplateId, db =>
    inserted db.rounds { startTemplateId } fun rounds => { db with rounds }
  | .insertShare share, db =>
    .ok (insertedOrIgnored db.shares share fun shares => { db with shares })
  | .selectShareId dedupeKey, db =>
    queryRow db (db.shares.rows.find? (·.dedupeKey == dedupeKey)) Share.id
  | .insertOutcome outcome, db =>
    .ok (insertedOrIgnored db.shareOutcomes
      { outcome with createdAt := db.now } fun shareOutcomes =>
        { db with shareOutcomes })
  | .selectOutcomeId dedupeKey, db =>
    queryRow db (db.shareOutcomes.rows.find? (·.dedupeKey == dedupeKey))
      ShareOutcome.id
  | .selectFoundAt blockHash, db => .ok (foundAt db blockHash, db)
  | .selectWindow foundAt, db => .ok (windowRows db foundAt, db)
  | .selectDustBalances, db => .ok (dustBalances db, db)
  | .countBatches blockHash, db => .ok (batchCount db blockHash, db)
  | .insertBatch batch, db =>
    inserted db.payoutBatches batch fun payoutBatches =>
      { db with payoutBatches }
  | .prepare _, db => .ok ((), db)
  | .insertPayout payout, db =>
    (inserted db.payouts payout fun payouts => { db with payouts }).map
      fun x => ((), x.2)
  | .insertSnapshot snapshot, db =>
    (inserted db.payoutShareSnapshots snapshot fun payoutShareSnapshots =>
      { db with payoutShareSnapshots }).map fun x => ((), x.2)
  | .upsertDust output, db =>
    .ok ((), { db with
      dustBalances := StratumServer.upsertDust db.dustBalances output })
  | .deletePayouts batchId, db =>
    .ok ((), { db with
      payouts := db.payouts.delete (·.batchId == batchId) })
  | .deleteSnapshots batchId, db =>
    .ok ((), { db with
      payoutShareSnapshots :=
        db.payoutShareSnapshots.delete (·.batchId == batchId) })

/-- SQLite. -/
def sqlite : Engine Database Stmt Error Stmt.Res where
  exec := Stmt.exec
  failure := .sqlite

/-! ## The sections -/

/-- The body of a section. -/
abbrev Section (α : Type) := Script Stmt Error Stmt.Res α

/-- One statement of a section. -/
def sql (s : Stmt) : Section s.Res := statement s

namespace Section

/-- `RoundRepository::get_or_create_current_round`. -/
def getOrCreateCurrentRound (startTemplateId : Nat) :
    Section (Round × Bool) := do
  match ← sql .selectOpenRound with
  | some round => return (round, false)
  | none =>
    let id ← sql (.insertRound startTemplateId)
    return ({ id, startTemplateId }, true)

/-- The first half of the transaction for a share: its row. -/
def insertShare (share : Share) : Section (Nat × Bool) := do
  match ← sql (.insertShare share) with
  | some id => return (id, true)
  | none =>
    let id ← sql (.selectShareId share.dedupeKey)
    return (id, false)

/-- The second half: the row of its outcome. -/
def insertOutcome (outcome : ShareOutcome) : Section (Nat × Bool) := do
  match ← sql (.insertOutcome outcome) with
  | some id => return (id, true)
  | none =>
    let id ← sql (.selectOutcomeId outcome.dedupeKey)
    return (id, false)

/-- `ShareRepository::insert_share_and_outcome_atomic`. -/
def insertShareAndOutcomeAtomic (share : Share) (outcome : ShareOutcome) :
    Section (Option Nat × Option Nat × Bool) :=
  transaction do
    let (shareId, shareIsNew) ← insertShare share
    let (outcomeId, outcomeIsNew) ← insertOutcome { outcome with shareId }
    return (some shareId, some outcomeId, shareIsNew || outcomeIsNew)

/-- The payouts, the snapshots and the dust of a plan. -/
def writePlan (batchId : Nat) (plan : PayoutPlan)
    (shares : List PplnsShareEntry) : Section Unit := do
  sql (.prepare .payouts)
  (payoutRows batchId plan).forM fun p => sql (.insertPayout p)
  let snapshots := snapshotRows batchId plan shares
  runIf (!snapshots.isEmpty) do
    sql (.prepare .payoutShareSnapshots)
    snapshots.forM fun s => sql (.insertSnapshot s)
  sql (.prepare .dustBalances)
  plan.outputs.forM fun o =>
    runIf (decide (0 < o.dustCarriedForward)) (sql (.upsertDust o))

/-- The transaction of `create_payout_for_found_block`. -/
def createBatch (block : FoundBlock) (plan : PayoutPlan)
    (shares : List PplnsShareEntry) : Section Nat := do
  let batchId ← sql (.insertBatch (batchRow block plan))
  writePlan batchId plan shares
  let _ ← sql (.single (.recordEvent
    { eventType := .payoutBatchCreated, status := .pending,
      roundId := some block.roundId, blockHash := some block.blockHash,
      height := some block.height }))
  return batchId

/-- The section of `create_payout_for_found_block` under the lock. -/
def createPayout (block : FoundBlock) (networkDifficulty : ℚ)
    (grossReward : Int) (settings : PayoutSettings) : Section Nat := do
  match ← sql (.selectFoundAt block.blockHash) with
  | none =>
    throw (.bail s!"no accepted share_outcome with network_target_ok=1 for block hash {block.blockHash}")
  | some found =>
    let shares := cutoff (settings.nMultiplier * networkDifficulty) 0
      (← sql (.selectWindow found))
    let plan := buildPayoutPlan block networkDifficulty grossReward settings
      (← sql .selectDustBalances) shares
    if 0 < (← sql (.countBatches block.blockHash)) then
      throw (.bail s!"payout batch already exists for block hash {block.blockHash}")
    else
      transaction (createBatch block plan shares)

/-- The transaction of `rebuild_payout_plan_for_batch`. -/
def replacePlan (batchId : Nat) (plan : PayoutPlan)
    (shares : List PplnsShareEntry) : Section (List PayoutOutput) := do
  sql (.deletePayouts batchId)
  sql (.deleteSnapshots batchId)
  writePlan batchId plan shares
  return plan.outputs

/-- The section of `rebuild_payout_plan_for_batch` under the lock.  The text
of an error of the first query is left out. -/
def rebuildPayout (batchId : Nat) (block : FoundBlock)
    (networkDifficulty : ℚ) (grossReward : Int) (settings : PayoutSettings) :
    Section (List PayoutOutput) := do
  match ← sql (.selectFoundAt block.blockHash) with
  | none =>
    throw (.bail s!"no accepted share_outcome with network_target_ok=1 for block hash {block.blockHash}: Query returned no rows")
  | some found =>
    let shares := cutoff (settings.nMultiplier * networkDifficulty) 0
      (← sql (.selectWindow found))
    if shares.isEmpty then
      throw (.bail s!"PPLNS window is empty for round {block.roundId} — cannot rebuild payout plan")
    else
      let plan := buildPayoutPlan block networkDifficulty grossReward settings
        (← sql .selectDustBalances) shares
      if plan.outputs.isEmpty then
        throw (.bail s!"rebuild produced empty outputs for batch {batchId} — cannot proceed")
      else
        transaction (replacePlan batchId plan shares)

end Section

/-- The statements of a section. -/
def DbOp.script : (d : DbOp) → Section d.Res
  | .getOrCreateCurrentRound startTemplateId =>
    Section.getOrCreateCurrentRound startTemplateId
  | .insertShareAndOutcomeAtomic share outcome =>
    Section.insertShareAndOutcomeAtomic share outcome
  | .createPayout block networkDifficulty grossReward settings =>
    Section.createPayout block networkDifficulty grossReward settings
  | .rebuildPayout batchId block networkDifficulty grossReward settings =>
    Section.rebuildPayout batchId block networkDifficulty grossReward settings
  | d => sql (.single d)

/-! ## What the sections mean -/

/-- A step that gives nothing when a constraint does not hold. -/
def orSqlite {α : Type} : Option α → Except Error α
  | some a => .ok a
  | none => .error .sqlite

theorem eval_sql (s : Stmt) (db : Database) :
    Script.eval sqlite (sql s) db = s.exec db :=
  eval_statement sqlite s db

/-- `INSERT OR IGNORE` and the query for the id are `insertOrGet`. -/
theorem insertOrGet_eq {ρ : Type} [Record ρ] (key : ρ → String)
    (hkey : ∀ {a b : ρ}, Conflict a b ↔ key a = key b) (t : Table ρ)
    (row : ρ) :
    t.insertOrGet row =
      match t.insert row with
      | some (id, t') => some (id, true, t')
      | none => (t.rows.find? (key · == key row)).map fun r =>
          (Record.id r, false, t.burn) := by
  have hfind : (key · == key row) = fun r => decide (Conflict r row) := by
    funext r
    rw [Bool.eq_iff_iff, beq_iff_eq, decide_eq_true_iff]
    exact hkey.symm
  rw [hfind]
  rfl

theorem eval_insertShare (share : Share) (db : Database) :
    Script.eval sqlite (Section.insertShare share) db =
      (orSqlite (db.shares.insertOrGet share)).map fun x =>
        ((x.1, x.2.1), { db with shares := x.2.2 }) := by
  unfold Section.insertShare
  rw [eval_bind, eval_sql, insertOrGet_eq Share.dedupeKey conflict_share]
  dsimp only [Stmt.exec, insertedOrIgnored]
  cases db.shares.insert share with
  | some x => rfl
  | none =>
    dsimp only [Except.bind]
    rw [eval_bind, eval_sql]
    dsimp only [Stmt.exec, Table.burn_rows]
    cases db.shares.rows.find? (·.dedupeKey == share.dedupeKey) with
    | some r => rfl
    | none => rfl

theorem eval_insertOutcome (outcome : ShareOutcome) (db : Database) :
    Script.eval sqlite (Section.insertOutcome outcome) db =
      (orSqlite (db.shareOutcomes.insertOrGet
          { outcome with createdAt := db.now })).map fun x =>
        ((x.1, x.2.1), { db with shareOutcomes := x.2.2 }) := by
  unfold Section.insertOutcome
  rw [eval_bind, eval_sql, insertOrGet_eq ShareOutcome.dedupeKey conflict_outcome]
  dsimp only [Stmt.exec, insertedOrIgnored]
  cases db.shareOutcomes.insert { outcome with createdAt := db.now } with
  | some x => rfl
  | none =>
    dsimp only [Except.bind]
    rw [eval_bind, eval_sql]
    dsimp only [Stmt.exec, Table.burn_rows]
    cases db.shareOutcomes.rows.find? (·.dedupeKey == outcome.dedupeKey) with
    | some r => rfl
    | none => rfl

theorem eval_insertShareAndOutcomeAtomic (share : Share)
    (outcome : ShareOutcome) (db : Database) :
    Script.eval sqlite (Section.insertShareAndOutcomeAtomic share outcome) db =
      DbOp.meaning (.insertShareAndOutcomeAtomic share outcome) db := by
  unfold Section.insertShareAndOutcomeAtomic DbOp.meaning
  rw [eval_transaction, eval_bind, eval_insertShare]
  dsimp only [DbOp.run, ShareRepository.insertShareAndOutcomeAtomic]
  cases db.shares.insertOrGet share with
  | none => rfl
  | some x =>
    obtain ⟨shareId, shareIsNew, shares⟩ := x
    dsimp only [orSqlite, Except.map, Except.bind]
    rw [eval_bind, eval_insertOutcome]
    dsimp only
    cases db.shareOutcomes.insertOrGet
        { outcome with shareId, createdAt := db.now } with
    | none => rfl
    | some y => rfl

theorem eval_getOrCreateCurrentRound (startTemplateId : Nat) (db : Database) :
    Script.eval sqlite (Section.getOrCreateCurrentRound startTemplateId) db =
      DbOp.meaning (.getOrCreateCurrentRound startTemplateId) db := by
  unfold Section.getOrCreateCurrentRound DbOp.meaning
  rw [eval_bind, eval_sql]
  dsimp only [Stmt.exec, DbOp.run, RoundRepository.getOrCreateCurrentRound,
    Except.bind]
  cases db.rounds.rows.find? (·.status == .opened) with
  | some round => rfl
  | none =>
    dsimp only
    rw [eval_bind, eval_sql]
    dsimp only [Stmt.exec, inserted]
    cases db.rounds.insert { startTemplateId } with
    | some x => rfl
    | none => rfl

/-! ### Plans -/

/-- A loop of `INSERT`s into one table of the database. -/
theorem eval_insertMany {ρ : Type} [Record ρ] {p : ρ → Section Unit}
    (get : Database → Table ρ) (put : Database → Table ρ → Database)
    (hget : ∀ db t, get (put db t) = t) (hsame : ∀ db, put db (get db) = db)
    (hput : ∀ db t t', put (put db t) t' = put db t')
    (hp : ∀ row db, Script.eval sqlite (p row) db =
      (orSqlite ((get db).insert row)).map fun x => ((), put db x.2))
    (rows : List ρ) (db : Database) :
    Script.eval sqlite (rows.forM p) db =
      (orSqlite ((get db).insertMany rows)).map fun t => ((), put db t) := by
  induction rows generalizing db with
  | nil =>
    change Except.ok ((), db) = Except.ok ((), put db (get db))
    rw [hsame]
  | cons row rows ih =>
    change Script.eval sqlite (p row >>= fun _ => rows.forM p) db = _
    rw [eval_bind, hp]
    dsimp only [Table.insertMany, List.foldlM]
    cases (get db).insert row with
    | none => rfl
    | some x =>
      obtain ⟨id, t⟩ := x
      dsimp only [orSqlite, Except.map, Except.bind]
      rw [ih, hget]
      simp only [hput]
      rfl

theorem eval_insertPayouts (rows : List Payout) (db : Database) :
    Script.eval sqlite (rows.forM fun p => sql (.insertPayout p)) db =
      (orSqlite (db.payouts.insertMany rows)).map fun payouts =>
        ((), { db with payouts }) := by
  refine eval_insertMany Database.payouts
    (fun db payouts => { db with payouts }) (fun _ _ => rfl) (fun _ => rfl)
    (fun _ _ _ => rfl) (fun row db => ?_) rows db
  rw [eval_sql]
  dsimp only [Stmt.exec, inserted]
  cases db.payouts.insert row with
  | some x => rfl
  | none => rfl

theorem eval_insertSnapshots (rows : List PayoutShareSnapshot)
    (db : Database) :
    Script.eval sqlite (rows.forM fun s => sql (.insertSnapshot s)) db =
      (orSqlite (db.payoutShareSnapshots.insertMany rows)).map
        fun payoutShareSnapshots => ((), { db with payoutShareSnapshots }) := by
  refine eval_insertMany Database.payoutShareSnapshots
    (fun db payoutShareSnapshots => { db with payoutShareSnapshots })
    (fun _ _ => rfl) (fun _ => rfl) (fun _ _ _ => rfl) (fun row db => ?_)
    rows db
  rw [eval_sql]
  dsimp only [Stmt.exec, inserted]
  cases db.payoutShareSnapshots.insert row with
  | some x => rfl
  | none => rfl

theorem eval_upsertDust (outputs : List PayoutOutput) (db : Database) :
    Script.eval sqlite (outputs.forM fun o =>
        runIf (decide (0 < o.dustCarriedForward)) (sql (.upsertDust o))) db =
      .ok ((), { db with
        dustBalances := outputs.foldl upsertDust db.dustBalances }) := by
  induction outputs generalizing db with
  | nil => rfl
  | cons o outputs ih =>
    change Script.eval sqlite (runIf (decide (0 < o.dustCarriedForward))
      (sql (.upsertDust o)) >>= fun _ => outputs.forM fun o =>
        runIf (decide (0 < o.dustCarriedForward)) (sql (.upsertDust o))) db = _
    rw [eval_bind]
    by_cases hdust : 0 < o.dustCarriedForward
    · rw [decide_eq_true hdust]
      exact ih _
    · have hsame : upsertDust db.dustBalances o = db.dustBalances :=
        if_neg hdust
      rw [decide_eq_false hdust, List.foldl_cons, hsame]
      exact ih db

theorem eval_writePlan (batchId : Nat) (plan : PayoutPlan)
    (shares : List PplnsShareEntry) (db : Database) :
    Script.eval sqlite (Section.writePlan batchId plan shares) db =
      (orSqlite (writePlan batchId plan shares db)).map fun db' =>
        ((), db') := by
  have hsnapshots : ∀ (rows : List PayoutShareSnapshot) (db : Database),
      Script.eval sqlite (runIf (!rows.isEmpty) do
        sql (.prepare .payoutShareSnapshots)
        rows.forM fun s => sql (.insertSnapshot s)) db =
      (orSqlite (db.payoutShareSnapshots.insertMany rows)).map
        fun payoutShareSnapshots => ((), { db with payoutShareSnapshots }) := by
    intro rows db
    cases rows with
    | nil => rfl
    | cons row rows => exact eval_insertSnapshots (row :: rows) db
  unfold Section.writePlan writePlan
  rw [eval_bind, eval_sql]
  dsimp only [Stmt.exec, Except.bind]
  rw [eval_bind, eval_insertPayouts]
  cases db.payouts.insertMany (payoutRows batchId plan) with
  | none => rfl
  | some payouts =>
    dsimp only [orSqlite, Except.map, Except.bind]
    rw [eval_bind, hsnapshots]
    cases db.payoutShareSnapshots.insertMany
        (snapshotRows batchId plan shares) with
    | none => rfl
    | some snapshots =>
      dsimp only [orSqlite, Except.map, Except.bind]
      rw [eval_bind, eval_sql]
      dsimp only [Stmt.exec, Except.bind]
      rw [eval_upsertDust]
      rfl

theorem eval_createBatch (block : FoundBlock) (plan : PayoutPlan)
    (shares : List PplnsShareEntry) (db : Database) :
    Script.eval sqlite (Section.createBatch block plan shares) db =
      orSqlite (createBatch block plan shares db) := by
  unfold Section.createBatch createBatch
  rw [eval_bind, eval_sql]
  dsimp only [Stmt.exec, inserted]
  cases db.payoutBatches.insert (batchRow block plan) with
  | none => rfl
  | some x =>
    obtain ⟨batchId, payoutBatches⟩ := x
    dsimp only [Except.bind]
    rw [eval_bind, eval_writePlan]
    cases hplan : writePlan batchId plan shares { db with payoutBatches } with
    | none =>
      simp only [Option.bind_eq_bind, Option.bind_some, hplan]
      rfl
    | some db₁ =>
      simp only [Option.bind_eq_bind, Option.bind_some, hplan]
      dsimp only [orSqlite, Except.map, Except.bind]
      rw [eval_bind, eval_sql]
      dsimp only [Stmt.exec, DbOp.meaning, DbOp.run,
        AccountingEventRepository.recordEvent]
      cases db₁.accountingEvents.insert
          { eventType := .payoutBatchCreated, status := .pending,
            roundId := some block.roundId, blockHash := some block.blockHash,
            height := some block.height } with
      | none => rfl
      | some x => rfl

theorem batchExists_eq (db : Database) (blockHash : String) :
    batchExists db blockHash = decide (0 < batchCount db blockHash) := by
  unfold batchExists batchCount
  rw [Bool.eq_iff_iff, decide_eq_true_iff, List.countP_pos_iff, List.any_eq_true]

theorem eval_createPayout (block : FoundBlock) (networkDifficulty : ℚ)
    (grossReward : Int) (settings : PayoutSettings) (db : Database) :
    Script.eval sqlite (Section.createPayout block networkDifficulty
        grossReward settings) db =
      DbOp.meaning (.createPayout block networkDifficulty grossReward settings)
        db := by
  unfold Section.createPayout DbOp.meaning
  rw [eval_bind, eval_sql]
  dsimp only [Stmt.exec, DbOp.run, createPayoutSection, Except.bind]
  cases foundAt db block.blockHash with
  | none => rfl
  | some found =>
    dsimp only
    rw [batchExists_eq, eval_bind, eval_sql]
    dsimp only [Stmt.exec, Except.bind]
    rw [eval_bind, eval_sql]
    dsimp only [Stmt.exec, Except.bind]
    rw [eval_bind, eval_sql]
    dsimp only [Stmt.exec, Except.bind]
    by_cases hcount : 0 < batchCount db block.blockHash
    · rw [if_pos hcount, decide_eq_true hcount]
      rfl
    · rw [if_neg hcount, decide_eq_false hcount, eval_transaction,
        eval_createBatch]
      change orSqlite (createBatch block (planFor block networkDifficulty
        grossReward settings found db).2 (planFor block networkDifficulty
        grossReward settings found db).1 db) = _
      rw [if_neg Bool.false_ne_true]
      cases createBatch block (planFor block networkDifficulty
        grossReward settings found db).2 (planFor block networkDifficulty
        grossReward settings found db).1 db with
      | none => rfl
      | some x => rfl

theorem eval_replacePlan (batchId : Nat) (plan : PayoutPlan)
    (shares : List PplnsShareEntry) (db : Database) :
    Script.eval sqlite (Section.replacePlan batchId plan shares) db =
      (orSqlite (replacePlan batchId plan shares db)).map fun db' =>
        (plan.outputs, db') := by
  unfold Section.replacePlan replacePlan
  rw [eval_bind, eval_sql]
  dsimp only [Stmt.exec, Except.bind]
  rw [eval_bind, eval_sql]
  dsimp only [Stmt.exec, Except.bind]
  rw [eval_bind, eval_writePlan]
  cases writePlan batchId plan shares { db with
      payouts := db.payouts.delete (·.batchId == batchId)
      payoutShareSnapshots :=
        db.payoutShareSnapshots.delete (·.batchId == batchId) } with
  | none => rfl
  | some db' => rfl

theorem eval_rebuildPayout (batchId : Nat) (block : FoundBlock)
    (networkDifficulty : ℚ) (grossReward : Int) (settings : PayoutSettings)
    (db : Database) :
    Script.eval sqlite (Section.rebuildPayout batchId block networkDifficulty
        grossReward settings) db =
      DbOp.meaning (.rebuildPayout batchId block networkDifficulty grossReward
        settings) db := by
  unfold Section.rebuildPayout DbOp.meaning
  rw [eval_bind, eval_sql]
  dsimp only [Stmt.exec, DbOp.run, rebuildPayoutSection, Except.bind]
  cases foundAt db block.blockHash with
  | none => rfl
  | some found =>
    dsimp only
    rw [eval_bind, eval_sql]
    dsimp only [Stmt.exec, Except.bind]
    have hshares : (planFor block networkDifficulty grossReward settings found
      db).1 = cutoff (settings.nMultiplier * networkDifficulty) 0
        (windowRows db found) := rfl
    have hplan : (planFor block networkDifficulty grossReward settings found
      db).2 = buildPayoutPlan block networkDifficulty grossReward settings
        (dustBalances db) (planFor block networkDifficulty grossReward settings
          found db).1 := rfl
    rw [← hshares]
    generalize planFor block networkDifficulty grossReward settings found db =
      x at hplan
    obtain ⟨shares, plan⟩ := x
    dsimp only at hplan ⊢
    by_cases hempty : shares.isEmpty = true
    · rw [if_pos hempty, if_pos hempty]
      rfl
    · rw [if_neg hempty, if_neg hempty, eval_bind, eval_sql]
      dsimp only [Stmt.exec, Except.bind]
      rw [← hplan]
      by_cases hnone : plan.outputs.isEmpty = true
      · rw [if_pos hnone, if_pos hnone]
        rfl
      · rw [if_neg hnone, if_neg hnone, eval_transaction, eval_replacePlan]
        cases replacePlan batchId plan shares db with
        | none => rfl
        | some db' => rfl

/-- When nothing is made to fail, the statements of a section do what the
section computes. -/
theorem DbOp.eval_script (d : DbOp) (db : Database) :
    Script.eval sqlite d.script db = d.meaning db := by
  cases d with
  | getOrCreateCurrentRound t => exact eval_getOrCreateCurrentRound t db
  | insertShareAndOutcomeAtomic s o =>
    exact eval_insertShareAndOutcomeAtomic s o db
  | createPayout b n g s => exact eval_createPayout b n g s db
  | rebuildPayout i b n g s => exact eval_rebuildPayout i b n g s db
  | _ => exact eval_sql _ db

/-! ## Failures -/

/-- The event that a section is there to record. -/
def DbOp.event : DbOp → Option AccountingEvent
  | .recordEvent e => some e
  | _ => none

/-- The event that a statement puts into the audit log. -/
def Stmt.event : Stmt → Option AccountingEvent
  | .single d => d.event
  | _ => none

/-- The sections that write in a transaction. -/
def DbOp.transacts : DbOp → Bool
  | .insertShareAndOutcomeAtomic .. | .createPayout .. | .rebuildPayout .. =>
    true
  | _ => false

/-- The commands of a section: apart from the event that it is there to
record, a section only logs a new batch. -/
def DbOp.Sends (d : DbOp) : Command Stmt → Prop
  | .run s => ∀ e, s.event = some e →
    d.event = some e ∨ e.eventType = .payoutBatchCreated
  | .begin | .commit | .rollback => d.transacts = true

theorem DbOp.sends_of_event {d : DbOp} {s : Stmt} (hs : s.event = none) :
    d.Sends (.run s) := by
  intro e he
  rw [hs] at he
  cases he


section Failures

variable {d : DbOp}

theorem steady_sql {s : Stmt} (hs : s.event = none) :
    Steady sqlite d.Sends (sql s) :=
  Steady.statement (DbOp.sends_of_event hs)

theorem steady_runIf {c : Bool} {p : Section Unit}
    (hp : Steady sqlite d.Sends p) : Steady sqlite d.Sends (runIf c p) := by
  cases c with
  | true => exact hp
  | false => exact Steady.pure ()

theorem steady_insertShare (share : Share) :
    Steady sqlite d.Sends (Section.insertShare share) := by
  refine (steady_sql rfl).bind fun r => ?_
  cases r with
  | some id => exact Steady.pure _
  | none => exact (steady_sql rfl).bind fun _ => Steady.pure _

theorem steady_insertOutcome (outcome : ShareOutcome) :
    Steady sqlite d.Sends (Section.insertOutcome outcome) := by
  refine (steady_sql rfl).bind fun r => ?_
  cases r with
  | some id => exact Steady.pure _
  | none => exact (steady_sql rfl).bind fun _ => Steady.pure _

theorem steady_writePlan (batchId : Nat) (plan : PayoutPlan)
    (shares : List PplnsShareEntry) :
    Steady sqlite d.Sends (Section.writePlan batchId plan shares) := by
  refine (steady_sql rfl).bind fun _ => ?_
  refine (Steady.forM fun _ => steady_sql rfl).bind fun _ => ?_
  refine (steady_runIf ((steady_sql rfl).bind fun _ =>
    Steady.forM fun _ => steady_sql rfl)).bind fun _ => ?_
  exact (steady_sql rfl).bind fun _ =>
    Steady.forM fun _ => steady_runIf (steady_sql rfl)

theorem steady_createBatch (block : FoundBlock) (plan : PayoutPlan)
    (shares : List PplnsShareEntry) :
    Steady sqlite d.Sends (Section.createBatch block plan shares) := by
  refine (steady_sql rfl).bind fun _ => ?_
  refine (steady_writePlan _ plan shares).bind fun _ => ?_
  refine (Steady.statement fun e he => ?_).bind fun _ => Steady.pure _
  cases he
  exact Or.inr rfl

theorem steady_replacePlan (batchId : Nat) (plan : PayoutPlan)
    (shares : List PplnsShareEntry) :
    Steady sqlite d.Sends (Section.replacePlan batchId plan shares) :=
  (steady_sql rfl).bind fun _ => (steady_sql rfl).bind fun _ =>
    (steady_writePlan batchId plan shares).bind fun _ => Steady.pure _

/-- A query in front of the rest of a section. -/
theorem atomic_query {β : Type} {s : Stmt} {q : s.Res → Section β}
    (hs : s.event = none) (f : Database → s.Res)
    (hread : ∀ db, s.exec db = .ok (f db, db))
    (hq : ∀ a, Atomic sqlite d.Sends (q a)) :
    Atomic sqlite d.Sends (sql s >>= q) := by
  refine (Atomic.statement (DbOp.sends_of_event hs)).bind (fun db a db' h => ?_)
    hq
  rw [eval_statement] at h
  cases (hread db).symm.trans h
  rfl

/-- Whatever fails, a section does what it computes or changes nothing, unless
its `COMMIT` fails and leaves the transaction open. -/
theorem DbOp.atomic (d : DbOp) : Atomic sqlite d.Sends d.script := by
  cases d with
  | getOrCreateCurrentRound t =>
    refine atomic_query rfl _ (fun _ => rfl) fun r => ?_
    cases r with
    | some round => exact Atomic.pure _
    | none => exact (Atomic.statement (DbOp.sends_of_event rfl)).map _
  | insertShareAndOutcomeAtomic s o =>
    exact ((steady_insertShare s).bind fun _ =>
      (steady_insertOutcome _).bind fun _ => Steady.pure _).transaction
        ⟨rfl, rfl, rfl⟩
  | createPayout b n g s =>
    refine atomic_query rfl _ (fun _ => rfl) fun r => ?_
    cases r with
    | none => exact Atomic.throw _
    | some found =>
      refine atomic_query rfl _ (fun _ => rfl) fun rows => ?_
      refine atomic_query rfl _ (fun _ => rfl) fun dust => ?_
      refine atomic_query rfl _ (fun _ => rfl) fun count => ?_
      split
      · exact Atomic.throw _
      · exact (steady_createBatch b _ _).transaction ⟨rfl, rfl, rfl⟩
  | rebuildPayout i b n g s =>
    refine atomic_query rfl _ (fun _ => rfl) fun r => ?_
    cases r with
    | none => exact Atomic.throw _
    | some found =>
      refine atomic_query rfl _ (fun _ => rfl) fun rows => ?_
      dsimp only
      split
      · exact Atomic.throw _
      · refine atomic_query rfl _ (fun _ => rfl) fun dust => ?_
        split
        · exact Atomic.throw _
        · exact (steady_replacePlan i _ _).transaction ⟨rfl, rfl, rfl⟩
  | recordEvent event => exact Atomic.statement fun _ he => Or.inl he
  | _ => exact Atomic.statement (DbOp.sends_of_event rfl)

/-- The one step that `Op.sem` makes of a section is what its statements can
do, as long as no failed `COMMIT` leaves the transaction open. -/
theorem DbOp.sem_script (suite : Suite) (data : ChainData) {pool : Pool}
    {t t' : Trial Database Stmt} {r : Except Error d.Res}
    (ht : t.conn = ⟨pool.db, none⟩)
    (hrun : d.script.run.exec sqlite.step t = (r, t'))
    (hclosed : t'.conn.saved = none) :
    Op.sem suite data (.db d) pool r { pool with db := t'.conn.data } := by
  obtain ⟨new, r', t₁, hrun', _, _, hout⟩ := d.atomic t pool.db ht
  cases hrun.symm.trans hrun'
  rw [d.eval_script] at hout
  generalize t'.conn = c at hout hclosed
  cases hout with
  | @done a db h _ =>
    refine Or.inl ?_
    rw [d.run_of_meaning h]
  | failed _ _ => exact Or.inr ⟨⟨_, rfl⟩, rfl⟩
  | stuck _ => cases hclosed

end Failures

end StratumServer
