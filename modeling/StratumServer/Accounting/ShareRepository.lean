import StratumServer.Accounting.Schema
import StratumServer.Lib.Separated

/-!
# Workers, shares and the audit log

The methods of `WorkerRepository`, `ShareRepository` and
`AccountingEventRepository` that the service calls.  Each one holds the
connection lock from its first statement to its last, so each is a function
of the database.

The lemmas say what a submission finds in the tables afterwards.
`upsert_cases` gives the worker row, and `insertShareAndOutcomeAtomic_cases`
says that the two rows are either both there already or are added.
-/

namespace StratumServer

open Sql

/-! ## Workers -/

/-- The row that `upsert` inserts: an empty suffix is stored as `NULL`. -/
def WorkerRepository.newWorker (payoutAddress : String)
    (workerSuffix : Option String) : Worker :=
  { payoutAddress, workerSuffix := workerSuffix.filter (· ≠ "") }

/-- `WorkerRepository::upsert`.  The `ON CONFLICT` clause writes the address
back that the row already has, so a known worker is returned as it is.  A row
without a suffix conflicts with no other: every call without one makes a new
worker. -/
def WorkerRepository.upsert (payoutAddress : String)
    (workerSuffix : Option String) (db : Database) : DbResult Worker :=
  let row := newWorker payoutAddress workerSuffix
  match db.workers.insert row with
  | some (id, workers) => (.ok { row with id }, { db with workers })
  | none =>
    match db.workers.rows.find? fun w => decide (Conflict w row) with
    | some w => (.ok w, { db with workers := db.workers.burn })
    | none => (.error .sqlite, db)

/-! ## The audit log -/

/-- `AccountingEventRepository::record_event`. -/
def AccountingEventRepository.recordEvent (event : AccountingEvent)
    (db : Database) : DbResult Nat :=
  match db.accountingEvents.insert event with
  | some (id, accountingEvents) => (.ok id, { db with accountingEvents })
  | none => (.error .sqlite, db)

/-! ## Shares -/

namespace ShareRepository

/-- `ShareRepository::build_dedupe_key`. -/
def buildDedupeKey (workerId : Int) (templateId templateEpoch : Nat)
    (extranonce2 ntime nonce : String) : String :=
  s!"{workerId}:{templateId}:{templateEpoch}:{extranonce2}:{ntime}:{nonce}"

/-- `ShareRepository::insert_share_and_outcome_atomic`: both rows in one
transaction, each with `INSERT OR IGNORE`.  The outcome gets the id of the
share row that has the key. -/
def insertShareAndOutcomeAtomic (share : Share) (outcome : ShareOutcome)
    (db : Database) : DbResult (Option Nat × Option Nat × Bool) :=
  match db.shares.insertOrGet share with
  | none => (.error .sqlite, db)
  | some (shareId, shareIsNew, shares) =>
    match db.shareOutcomes.insertOrGet
        { outcome with shareId, createdAt := db.now } with
    | none => (.error .sqlite, db)
    | some (outcomeId, outcomeIsNew, shareOutcomes) =>
      (.ok (some shareId, some outcomeId, shareIsNew || outcomeIsNew),
        { db with shares, shareOutcomes })

/-- `ShareRepository::update_outcome_node_result`. -/
def updateOutcomeNodeResult (dedupeKey nodeResult : String) (db : Database) :
    DbResult Unit :=
  (.ok (), { db with
    shareOutcomes := db.shareOutcomes.modify (·.dedupeKey == dedupeKey)
      (fun o => { o with nodeResult := some nodeResult }) fun _ => ⟨rfl, rfl⟩ })

end ShareRepository

/-! ## The dedupe key -/

/-- A dedupe key names the worker, the template and the texts, if the texts
contain no separator. -/
theorem ShareRepository.buildDedupeKey_inj {w w' : Int} {t t' e e' : Nat}
    {extranonce2 extranonce2' ntime ntime' nonce nonce' : String}
    (h : buildDedupeKey w t e extranonce2 ntime nonce =
      buildDedupeKey w' t' e' extranonce2' ntime' nonce') :
    w = w' ∧ t = t' ∧ e = e' ∧
      (':' ∉ extranonce2.toList → ':' ∉ extranonce2'.toList →
        ':' ∉ ntime.toList → ':' ∉ ntime'.toList →
          extranonce2 = extranonce2' ∧ ntime = ntime' ∧ nonce = nonce') := by
  have hparts : w.repr ++ ":" ++ t.repr ++ ":" ++ e.repr ++ ":" ++
        extranonce2 ++ ":" ++ ntime ++ ":" ++ nonce =
      w'.repr ++ ":" ++ t'.repr ++ ":" ++ e'.repr ++ ":" ++
        extranonce2' ++ ":" ++ ntime' ++ ":" ++ nonce' := h
  simp only [String.append_assoc] at hparts
  obtain ⟨hw, hparts⟩ :=
    Text.int_sep_inj (c := ':') (by decide) (by decide) (by decide) hparts
  obtain ⟨ht, hparts⟩ :=
    Text.repr_sep_inj (c := ':') (by decide) (by decide) hparts
  obtain ⟨he, hparts⟩ :=
    Text.repr_sep_inj (c := ':') (by decide) (by decide) hparts
  refine ⟨hw, ht, he, fun h₁ h₁' h₂ h₂' => ?_⟩
  obtain ⟨hextranonce2, hparts⟩ :=
    Text.sep_inj (c := ':') (by decide) h₁ h₁' hparts
  obtain ⟨hntime, hnonce⟩ :=
    Text.sep_inj (c := ':') (by decide) h₂ h₂' hparts
  exact ⟨hextranonce2, hntime, hnonce⟩

/-! ## What a call leaves -/

theorem WorkerRepository.upsert_cases (payoutAddress : String)
    (workerSuffix : Option String) (db : Database) :
    ∃ w workers, upsert payoutAddress workerSuffix db =
        (.ok w, { db with workers }) ∧
      w.payoutAddress = payoutAddress ∧
      w.workerSuffix = workerSuffix.filter (· ≠ "") ∧
      w ∈ workers.rows ∧ ∀ v ∈ db.workers.rows, v ∈ workers.rows := by
  unfold upsert
  dsimp only
  have haddr : (newWorker payoutAddress workerSuffix).payoutAddress =
    payoutAddress := rfl
  have hsuffix : (newWorker payoutAddress workerSuffix).workerSuffix =
    workerSuffix.filter (· ≠ "") := rfl
  generalize newWorker payoutAddress workerSuffix = row at haddr hsuffix ⊢
  cases h : db.workers.insert row with
  | some p =>
    obtain ⟨id, workers⟩ := p
    obtain ⟨_, _, _, hrows⟩ := Table.insert_some h
    refine ⟨{ row with id }, workers, rfl, haddr, hsuffix, ?_, ?_⟩
    · rw [hrows]
      exact List.mem_append_right _ (List.mem_singleton.2 rfl)
    · intro v hv
      rw [hrows]
      exact List.mem_append_left _ hv
  | none =>
    obtain ⟨a, ha, hconf⟩ := Table.insert_none h
    cases hf : db.workers.rows.find? fun w => decide (Conflict w row) with
    | none => exact absurd hconf (by simpa using List.find?_eq_none.1 hf a ha)
    | some w =>
      have hw : Conflict w row := by simpa using List.find?_some hf
      obtain ⟨k, hkw, hkrow⟩ := hw
      -- Equal keys are equal columns, and a key is there only with a suffix.
      simp only [Record.key, Option.map_eq_some_iff] at hkw hkrow
      obtain ⟨sw, hsw, rfl⟩ := hkw
      obtain ⟨sr, hsr, heq⟩ := hkrow
      obtain ⟨h1, h2⟩ := Prod.mk.injEq .. ▸ heq
      exact ⟨w, db.workers.burn, rfl, h1.symm.trans haddr,
        by rw [hsw, ← h2, ← hsr, hsuffix],
        List.mem_of_find?_eq_some hf, fun _ hv => hv⟩

theorem conflict_share {a b : Share} :
    Conflict a b ↔ a.dedupeKey = b.dedupeKey := by
  simp [Conflict, Record.key, eq_comm]

theorem conflict_outcome {a b : ShareOutcome} :
    Conflict a b ↔ a.dedupeKey = b.dedupeKey := by
  simp [Conflict, Record.key, eq_comm]

/-- Each of the two rows is added when its key is free.  Otherwise the row
that has the key stays as it is, and the new one is dropped. -/
theorem ShareRepository.insertShareAndOutcomeAtomic_cases (share : Share)
    (outcome : ShareOutcome) (db : Database) :
    ∃ shareId outcomeId shareIsNew outcomeIsNew shares outcomes,
      insertShareAndOutcomeAtomic share outcome db =
        (.ok (some shareId, some outcomeId, shareIsNew || outcomeIsNew),
          { db with shares := shares, shareOutcomes := outcomes }) ∧
      (shareIsNew = true ∧
          (∀ s ∈ db.shares.rows, s.dedupeKey ≠ share.dedupeKey) ∧
          shareId = db.shares.seq + 1 ∧
          shares.rows = db.shares.rows ++ [{ share with id := shareId }] ∨
        shareIsNew = false ∧
          (∃ s ∈ db.shares.rows, s.dedupeKey = share.dedupeKey ∧
            s.id = shareId) ∧ shares = db.shares.burn) ∧
      (outcomeIsNew = true ∧
          (∀ o ∈ db.shareOutcomes.rows, o.dedupeKey ≠ outcome.dedupeKey) ∧
          outcomes.rows = db.shareOutcomes.rows ++
            [{ outcome with id := outcomeId, shareId, createdAt := db.now }] ∨
        outcomeIsNew = false ∧
          (∃ o ∈ db.shareOutcomes.rows, o.dedupeKey = outcome.dedupeKey) ∧
          outcomes = db.shareOutcomes.burn) := by
  unfold insertShareAndOutcomeAtomic
  obtain ⟨shareId, shareIsNew, shares, hinsert, hshares⟩ :=
    Table.insertOrGet_cases db.shares share
  obtain ⟨outcomeId, outcomeIsNew, outcomes, hinsert', houtcomes⟩ :=
    Table.insertOrGet_cases db.shareOutcomes
      { outcome with shareId, createdAt := db.now }
  rw [hinsert]
  dsimp only
  rw [hinsert']
  refine ⟨shareId, outcomeId, shareIsNew, outcomeIsNew, shares, outcomes, rfl,
    ?_, ?_⟩
  · simp only [conflict_share] at hshares
    exact hshares
  · simp only [conflict_outcome] at houtcomes
    rcases houtcomes with
      ⟨hnew, hfree, _, hrows⟩ | ⟨hold, ⟨o, ho, hkey, _⟩, heq⟩
    · exact Or.inl ⟨hnew, hfree, hrows⟩
    · exact Or.inr ⟨hold, ⟨o, ho, hkey⟩, heq⟩

end StratumServer
