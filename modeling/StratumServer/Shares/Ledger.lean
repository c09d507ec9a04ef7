import StratumServer.System.Programs

/-!
# Shares and their outcomes

What the tables `shares` and `share_outcomes` satisfy in every run.  A
submission leaves a row in each of them under one dedupe key, and both rows
come from the same submission: `Ledger.insert_cases` says that a submission
either adds both rows or changes nothing.  So an accepted outcome tells
about its share what `handle_submit` has checked.  No section takes a row
away: `DbOp.sharesStay`.

`reach_ledger` is the invariant over the runs of the server.
-/

namespace StratumServer

open Sql Tasks

/-! ## Rows that stay -/

/-- What stays of the submissions: all of a share, and what the outcome says
about it. -/
structure Database.SharesStay (db db' : Database) : Prop where
  workers : ∀ w ∈ db.workers.rows, w ∈ db'.workers.rows
  shares : ∀ s ∈ db.shares.rows, s ∈ db'.shares.rows
  outcomes : ∀ o ∈ db.shareOutcomes.rows, ∃ o' ∈ db'.shareOutcomes.rows,
    o'.shareId = o.shareId ∧ o'.status = o.status ∧ o'.blockHash = o.blockHash

namespace Database.SharesStay

theorem of_eq {db db' : Database} (hworkers : db'.workers = db.workers)
    (hshares : db'.shares = db.shares)
    (houtcomes : db'.shareOutcomes = db.shareOutcomes) :
    db.SharesStay db' := by
  refine ⟨?_, ?_, ?_⟩
  · rw [hworkers]
    exact fun _ h => h
  · rw [hshares]
    exact fun _ h => h
  · rw [houtcomes]
    exact fun o ho => ⟨o, ho, rfl, rfl, rfl⟩

theorem trans {db₁ db₂ db₃ : Database} (h₁ : db₁.SharesStay db₂)
    (h₂ : db₂.SharesStay db₃) : db₁.SharesStay db₃ := by
  refine ⟨fun w h => h₂.workers w (h₁.workers w h),
    fun s h => h₂.shares s (h₁.shares s h), fun o ho => ?_⟩
  obtain ⟨o', ho', hid, hstatus, hhash⟩ := h₁.outcomes o ho
  obtain ⟨o'', ho'', hid', hstatus', hhash'⟩ := h₂.outcomes o' ho'
  exact ⟨o'', ho'', hid'.trans hid, hstatus'.trans hstatus,
    hhash'.trans hhash⟩

end Database.SharesStay

/-- Every section keeps the submissions. -/
theorem DbOp.sharesStay (d : DbOp) (db : Database) :
    db.SharesStay (d.run db).2 := by
  refine ⟨fun w hw => d.workers_forward hw, ?_, ?_⟩
  · cases d with
    | insertShareAndOutcomeAtomic share outcome =>
      obtain ⟨_, _, _, _, shares, _, hrun, hshares, _⟩ :=
        ShareRepository.insertShareAndOutcomeAtomic_cases share outcome db
      simp only [DbOp.run, hrun]
      intro s hs
      rcases hshares with ⟨_, _, _, hrows⟩ | ⟨_, _, rfl⟩
      · rw [hrows]
        exact List.mem_append_left _ hs
      · exact hs
    | _ =>
      rw [(DbOp.frame _ db).shares rfl]
      exact fun _ h => h
  · intro o ho
    cases d with
    | insertShareAndOutcomeAtomic share outcome =>
      obtain ⟨_, _, _, _, _, outcomes, hrun, _, houtcomes⟩ :=
        ShareRepository.insertShareAndOutcomeAtomic_cases share outcome db
      simp only [DbOp.run, hrun]
      refine ⟨o, ?_, rfl, rfl, rfl⟩
      rcases houtcomes with ⟨_, _, hrows⟩ | ⟨_, _, rfl⟩
      · rw [hrows]
        exact List.mem_append_left _ ho
      · exact ho
    | updateOutcomeNodeResult dedupeKey nodeResult =>
      refine ⟨_, List.mem_map.2 ⟨o, ho, rfl⟩, ?_⟩
      split_ifs <;> exact ⟨rfl, rfl, rfl⟩
    | _ =>
      rw [(DbOp.frame _ db).shareOutcomes rfl]
      exact ⟨o, ho, rfl, rfl, rfl⟩

/-! ## The invariant -/

/-- The dedupe key of a share is the one of its own columns. -/
def Share.WellKeyed (s : Share) : Prop :=
  s.dedupeKey = ShareRepository.buildDedupeKey s.workerId s.templateId
    s.templateEpoch s.extranonce2 s.ntimeHex6b s.nonceHex8b

/-- What is stored about submissions. -/
structure Ledger (db : Database) : Prop where
  link : ∀ o ∈ db.shareOutcomes.rows, ∃ s ∈ db.shares.rows,
    s.id = o.shareId ∧ s.dedupeKey = o.dedupeKey ∧ s.workerId = o.workerId
  paired : ∀ s ∈ db.shares.rows, ∃ o ∈ db.shareOutcomes.rows,
    o.dedupeKey = s.dedupeKey
  key : ∀ s ∈ db.shares.rows, s.WellKeyed
  accepted : ∀ o ∈ db.shareOutcomes.rows, o.status = .accepted →
    ∀ s ∈ db.shares.rows, s.id = o.shareId →
      s.jobId = jobIdOf s.templateId s.templateEpoch ∧
      validateShareFormat s.extranonce2 s.ntimeHex6b s.nonceHex8b = true

namespace Ledger

variable {db : Database}

theorem new (now : Nat) : Ledger (initSchema now) :=
  ⟨fun _ => nofun, fun _ => nofun, fun _ => nofun, fun _ => nofun⟩

/-- The invariant is about the rows of the two tables only. -/
theorem congr (h : Ledger db) {db' : Database}
    (hshares : db'.shares.rows = db.shares.rows)
    (houtcomes : db'.shareOutcomes.rows = db.shareOutcomes.rows) :
    Ledger db' := by
  refine ⟨?_, ?_, ?_, ?_⟩ <;> rw [hshares]
  · rw [houtcomes]
    exact h.link
  · rw [houtcomes]
    exact h.paired
  · exact h.key
  · rw [houtcomes]
    exact h.accepted

/-- An outcome of a share that is not stored yet does not exist. -/
theorem shareId_le (h : Ledger db) {o : ShareOutcome}
    (ho : o ∈ db.shareOutcomes.rows) : o.shareId ≤ db.shares.seq := by
  obtain ⟨s, hs, hid, _⟩ := h.link o ho
  rw [← hid]
  exact db.shares.ids_le s hs

/-- A submission adds a share and an outcome that belong together, or its
key is taken, it changes nothing and is reported as a duplicate. -/
theorem insert_cases (h : Ledger db) {share : Share} {outcome : ShareOutcome}
    (hkey : share.dedupeKey = outcome.dedupeKey) {db' : Database}
    (hdb : db' =
      ((DbOp.insertShareAndOutcomeAtomic share outcome).run db).2) :
    ∃ shareId outcomeId isNew,
      ((DbOp.insertShareAndOutcomeAtomic share outcome).run db).1 =
        .ok (some shareId, some outcomeId, isNew) ∧
      (isNew = false ∧
          (∃ o ∈ db.shareOutcomes.rows, o.dedupeKey = outcome.dedupeKey) ∧
          db'.shares.rows = db.shares.rows ∧
          db'.shareOutcomes.rows = db.shareOutcomes.rows ∨
        isNew = true ∧
          (∀ o ∈ db.shareOutcomes.rows, o.dedupeKey ≠ outcome.dedupeKey) ∧
          db'.shares.rows = db.shares.rows ++
            [{ share with id := db.shares.seq + 1 }] ∧
          db'.shareOutcomes.rows = db.shareOutcomes.rows ++
            [{ outcome with id := outcomeId, shareId := db.shares.seq + 1,
                            createdAt := db.now }]) := by
  obtain ⟨shareId, outcomeId, shareIsNew, outcomeIsNew, shares, outcomes,
    hrun, hshares, houtcomes⟩ :=
      ShareRepository.insertShareAndOutcomeAtomic_cases share outcome db
  simp only [DbOp.run, hrun] at hdb ⊢
  subst hdb
  refine ⟨shareId, outcomeId, _, rfl, ?_⟩
  rcases houtcomes with ⟨rfl, hfree, hrows⟩ | ⟨rfl, htaken, rfl⟩
  · refine Or.inr ⟨by simp, hfree, ?_⟩
    rcases hshares with ⟨_, _, rfl, hrows'⟩ | ⟨_, ⟨s, hs, hskey, _⟩, _⟩
    · exact ⟨hrows', hrows⟩
    · obtain ⟨o, ho, hokey⟩ := h.paired s hs
      exact absurd (hokey.trans (hskey.trans hkey)) (hfree o ho)
  · rcases hshares with ⟨_, hfree, _, _⟩ | ⟨rfl, _, rfl⟩
    · obtain ⟨o, ho, hokey⟩ := htaken
      obtain ⟨s, hs, _, hskey, _⟩ := h.link o ho
      exact absurd (hskey.trans (hokey.trans hkey.symm)) (hfree s hs)
    · exact Or.inl ⟨rfl, htaken, rfl, rfl⟩

/-- Both rows of a new submission keep the invariant. -/
theorem append (h : Ledger db) {a : ShareRecord} {workerId roundId : Nat}
    (ha : AccountingService.Judged a) {db' : Database} {outcomeId : Nat}
    (hshares : db'.shares.rows = db.shares.rows ++
      [{ a.share workerId with id := db.shares.seq + 1 }])
    (houtcomes : db'.shareOutcomes.rows = db.shareOutcomes.rows ++
      [{ a.outcome workerId roundId with
          id := outcomeId, shareId := db.shares.seq + 1,
          createdAt := db.now }]) : Ledger db' := by
  refine ⟨?_, ?_, ?_, ?_⟩ <;> rw [hshares]
  · intro o ho
    rw [houtcomes] at ho
    rcases List.mem_append.1 ho with hold | hnew
    · obtain ⟨s, hs, hlink⟩ := h.link o hold
      exact ⟨s, List.mem_append_left _ hs, hlink⟩
    · rw [List.mem_singleton.1 hnew]
      exact ⟨_, List.mem_append_right _ (List.mem_singleton.2 rfl), rfl, rfl,
        rfl⟩
  · intro s hs
    rw [houtcomes]
    rcases List.mem_append.1 hs with hold | hnew
    · obtain ⟨o, ho, hkey⟩ := h.paired s hold
      exact ⟨o, List.mem_append_left _ ho, hkey⟩
    · rw [List.mem_singleton.1 hnew]
      exact ⟨_, List.mem_append_right _ (List.mem_singleton.2 rfl), rfl⟩
  · intro s hs
    rcases List.mem_append.1 hs with hold | hnew
    · exact h.key s hold
    · rw [List.mem_singleton.1 hnew]
      rfl
  · intro o ho haccepted s hs hid
    rw [houtcomes] at ho
    -- The new share has a new id, so an old row and a new one never belong
    -- together.
    rcases List.mem_append.1 ho with hold | hnew <;>
      rcases List.mem_append.1 hs with hsold | hsnew
    · exact h.accepted o hold haccepted s hsold hid
    · have hle := h.shareId_le hold
      rw [List.mem_singleton.1 hsnew] at hid
      dsimp only at hid
      omega
    · have hle := db.shares.ids_le s hsold
      rw [List.mem_singleton.1 hnew] at hid
      have hid' : s.id = db.shares.seq + 1 := hid
      have hle' : s.id ≤ db.shares.seq := hle
      omega
    · rw [List.mem_singleton.1 hsnew]
      rw [List.mem_singleton.1 hnew] at haccepted
      exact ha haccepted

variable {suite : Suite} {data : ChainData} {config : ServerConfig}

/-- A section that is performed on what it should be keeps the invariant. -/
theorem run {w : PoolWorld} {t : Task} {d : DbOp} (h : Ledger w.shared.db)
    (hg : Grounded suite data w t (.db d)) :
    Ledger (d.run w.shared.db).2 := by
  cases d with
  | insertShareAndOutcomeAtomic share outcome =>
    obtain ⟨a, worker, roundId, _, _, _, rfl, rfl, ha⟩ := hg.2
    have hkey : (a.share worker.id).dedupeKey =
      (a.outcome worker.id roundId).dedupeKey := rfl
    obtain ⟨_, outcomeId, _, _, hrows⟩ := h.insert_cases hkey rfl
    rcases hrows with ⟨_, _, hs, ho⟩ | ⟨_, _, hs, ho⟩
    · exact h.congr hs ho
    · exact h.append ha hs ho
  | updateOutcomeNodeResult dedupeKey nodeResult =>
    -- The result of the node is no column that the invariant looks at.
    have hback : ∀ o' ∈ ((DbOp.updateOutcomeNodeResult dedupeKey
        nodeResult).run w.shared.db).2.shareOutcomes.rows,
        ∃ o ∈ w.shared.db.shareOutcomes.rows, o.shareId = o'.shareId ∧
          o.dedupeKey = o'.dedupeKey ∧ o.workerId = o'.workerId ∧
          o.status = o'.status := by
      intro o' ho'
      obtain ⟨o, ho, rfl⟩ := List.mem_map.1 ho'
      refine ⟨o, ho, ?_⟩
      split_ifs <;> exact ⟨rfl, rfl, rfl, rfl⟩
    refine ⟨?_, ?_, h.key, ?_⟩
    · intro o' ho'
      obtain ⟨o, ho, hid, hkey, hworker, _⟩ := hback o' ho'
      obtain ⟨s, hs, hlink⟩ := h.link o ho
      rw [hid, hkey, hworker] at hlink
      exact ⟨s, hs, hlink⟩
    · intro s hs
      obtain ⟨o, ho, hkey⟩ := h.paired s hs
      refine ⟨_, List.mem_map.2 ⟨o, ho, rfl⟩, ?_⟩
      split_ifs <;> exact hkey
    · intro o' ho' haccepted
      obtain ⟨o, ho, hid, _, _, hstatus⟩ := hback o' ho'
      rw [← hid]
      exact h.accepted o ho (hstatus.trans haccepted)
  | _ =>
    refine h.congr ?_ ?_
    · exact congrArg Table.rows ((DbOp.frame _ _).shares rfl)
    · exact congrArg Table.rows ((DbOp.frame _ _).shareOutcomes rfl)

end Ledger

/-- The invariant holds in every run. -/
theorem reach_ledger {suite : Suite} {data : ChainData}
    {config : ServerConfig} {ok : PoolWorld → PoolEntry → Prop}
    {c : PoolConfig} (h : (pool suite data config).Reach ok c) :
    Ledger c.world.shared.db := by
  refine reach_database Ledger.new ?_ ?_ (reach_grounded h)
  · exact fun now h => h.congr rfl rfl
  · exact fun h hok => h.run hok.2.2

end StratumServer
