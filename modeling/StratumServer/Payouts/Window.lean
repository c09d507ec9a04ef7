import StratumServer.Lib.Query
import StratumServer.Accounting.RoundRepository
import StratumServer.Accounting.ShareRepository
import StratumServer.Accounting.Statements
import StratumServer.Payout.Plan
import Mathlib.Algebra.BigOperators.Ring.List
import Mathlib.Algebra.Order.BigOperators.Group.List
import Mathlib.Tactic.Linarith

/-!
# The window of a found block

`calculate_pplns_window` reads the accepted outcomes up to a time, newest
first, and cuts the list where the sum of the difficulties reaches the
threshold.  `isCut_cutoff` describes the cut for any list and any threshold.

`window_shortest` says that the cut is the shortest one that is enough.  The
list that is cut is described by the tables alone (`IsHistory`): an outcome
is in it whatever the status of its round is.  But the query joins `rounds`,
so the row of the round must be there.  An accepted outcome without a round
is left out (`window_shortest_fails`); `record_share` writes none.
-/

namespace StratumServer

/-- The work of a list of entries. -/
def work (l : List PplnsShareEntry) : ℚ := (l.map (·.difficulty)).sum

@[simp] theorem work_nil : work [] = 0 := rfl

@[simp] theorem work_cons (e : PplnsShareEntry) (l : List PplnsShareEntry) :
    work (e :: l) = e.difficulty + work l := by
  unfold work
  rw [List.map_cons, List.sum_cons]

theorem work_append (l l' : List PplnsShareEntry) :
    work (l ++ l') = work l + work l' := by
  unfold work
  rw [List.map_append, List.sum_append]

/-! ## The history -/

/-- The query joins an outcome with its share, its worker and its round. -/
def Joins (db : Database) (so : ShareOutcome) (e : PplnsShareEntry) : Prop :=
  ∃ s ∈ db.shares.rows, ∃ w ∈ db.workers.rows, ∃ r ∈ db.rounds.rows,
    s.id = so.shareId ∧ w.id = so.workerId ∧ so.roundId = some r.id ∧
      e = { shareId := so.shareId, shareOutcomeId := so.id,
            workerId := so.workerId, payoutAddress := w.payoutAddress,
            difficulty := s.difficulty, createdAt := so.createdAt }

/-- The accepted outcomes up to a time, newest first. -/
structure IsHistory (db : Database) (foundAt : Nat)
    (l : List PplnsShareEntry) : Prop where
  newestFirst : l.Pairwise fun a b => b.createdAt < a.createdAt
  mem : ∀ e, e ∈ l ↔ ∃ so ∈ db.shareOutcomes.rows,
    so.status = .accepted ∧ so.createdAt ≤ foundAt ∧ Joins db so e

theorem pplnsEntry_iff {db : Database} {so : ShareOutcome}
    {e : PplnsShareEntry} : pplnsEntry db so = some e ↔ Joins db so e := by
  unfold pplnsEntry Joins
  constructor
  · intro h
    obtain ⟨s, hs, h⟩ := Option.bind_eq_some_iff.1 h
    obtain ⟨w, hw, h⟩ := Option.bind_eq_some_iff.1 h
    obtain ⟨roundId, hround, h⟩ := Option.bind_eq_some_iff.1 h
    obtain ⟨r, hr, h⟩ := Option.bind_eq_some_iff.1 h
    obtain ⟨hs, hsid⟩ := db.shares.find?_id_iff.1 hs
    obtain ⟨hw, hwid⟩ := db.workers.find?_id_iff.1 hw
    obtain ⟨hr, hrid⟩ := db.rounds.find?_id_iff.1 hr
    refine ⟨s, hs, w, hw, r, hr, hsid, hwid, ?_, (Option.some.inj h).symm⟩
    rw [hround, ← hrid]
    rfl
  · rintro ⟨s, hs, w, hw, r, hr, hsid, hwid, hround, rfl⟩
    refine Option.bind_eq_some_iff.2
      ⟨s, db.shares.find?_id_iff.2 ⟨hs, hsid⟩, ?_⟩
    refine Option.bind_eq_some_iff.2
      ⟨w, db.workers.find?_id_iff.2 ⟨hw, hwid⟩, ?_⟩
    refine Option.bind_eq_some_iff.2 ⟨r.id, hround, ?_⟩
    exact Option.bind_eq_some_iff.2
      ⟨r, db.rounds.find?_id_iff.2 ⟨hr, rfl⟩, rfl⟩

/-! ## The cut -/

theorem work_nonneg {l : List PplnsShareEntry}
    (h : ∀ e ∈ l, 0 < e.difficulty) : 0 ≤ work l := by
  refine List.sum_nonneg fun d hd => ?_
  obtain ⟨e, he, rfl⟩ := List.mem_map.1 hd
  exact (h e he).le

/-- A start of the list that reaches the threshold with its last entry and not
before, or the whole list. -/
structure IsCut (threshold cumulative : ℚ) (l c : List PplnsShareEntry) :
    Prop where
  reached : ∃ older, l = c ++ older ∧
    (older = [] ∨ c ≠ [] ∧ threshold ≤ cumulative + work c)
  below : ∀ newer rest, c = newer ++ rest → newer ≠ [] → rest ≠ [] →
    cumulative + work newer < threshold

theorem isCut_nil_iff {threshold cumulative : ℚ} {c : List PplnsShareEntry} :
    IsCut threshold cumulative [] c ↔ c = [] := by
  constructor
  · rintro ⟨⟨older, hl, _⟩, _⟩
    exact (List.append_eq_nil_iff.1 hl.symm).1
  · rintro rfl
    refine ⟨⟨[], rfl, Or.inl rfl⟩, ?_⟩
    intro newer rest h hne _
    exact absurd (List.append_eq_nil_iff.1 h.symm).1 hne

/-- The loop of the source finds the cut. -/
theorem isCut_cutoff (threshold : ℚ) (l : List PplnsShareEntry)
    (cumulative : ℚ) :
    IsCut threshold cumulative l (cutoff threshold cumulative l) := by
  induction l generalizing cumulative with
  | nil => exact isCut_nil_iff.2 rfl
  | cons e l ih =>
    rw [cutoff]
    split_ifs with hreached
    · refine ⟨⟨l, rfl, Or.inr ⟨List.cons_ne_nil _ _, by simpa using hreached⟩⟩,
        ?_⟩
      intro newer rest h hne hrest
      cases newer with
      | nil => exact absurd rfl hne
      | cons e' newer =>
        have htail : [] = newer ++ rest := (List.cons.inj h).2
        exact absurd (List.append_eq_nil_iff.1 htail.symm).2 hrest
    · obtain ⟨⟨older, hl, hor⟩, hbelow⟩ := ih (cumulative + e.difficulty)
      refine ⟨⟨older, congrArg (e :: ·) hl, ?_⟩, ?_⟩
      · refine hor.imp_right fun h => ⟨List.cons_ne_nil _ _, ?_⟩
        rw [work_cons, ← add_assoc]
        exact h.2
      · intro newer rest h hne hrest
        cases newer with
        | nil => exact absurd rfl hne
        | cons e' newer =>
          obtain ⟨rfl, htail⟩ := List.cons.inj h
          rw [work_cons, ← add_assoc]
          by_cases hnil : newer = []
          · rw [hnil, work_nil, add_zero]
            exact not_le.1 hreached
          · exact hbelow newer rest htail hnil hrest

/-- What the loop keeps is the start of the list.  Where the whole list is
enough, what it keeps is enough and nothing shorter is. -/
theorem cutoff_spec {threshold : ℚ} {l : List PplnsShareEntry}
    (hpos : ∀ e ∈ l, 0 < e.difficulty) {cumulative : ℚ}
    (hbelow : cumulative < threshold) :
    (∃ older, l = cutoff threshold cumulative l ++ older) ∧
    if threshold ≤ cumulative + work l then
      threshold ≤ cumulative + work (cutoff threshold cumulative l) ∧
        ∀ newer older, cutoff threshold cumulative l = newer ++ older →
          older ≠ [] → cumulative + work newer < threshold
    else cutoff threshold cumulative l = l := by
  obtain ⟨⟨older, hl, hor⟩, hshort⟩ := isCut_cutoff threshold l cumulative
  refine ⟨⟨older, hl⟩, ?_⟩
  split_ifs with hwhole
  · constructor
    · rcases hor with rfl | ⟨_, hreached⟩
      · rw [List.append_nil] at hl
        rwa [← hl]
      · exact hreached
    · intro newer rest hcut hrest
      by_cases hnil : newer = []
      · rw [hnil, work_nil, add_zero]
        exact hbelow
      · exact hshort newer rest hcut hnil hrest
  · rcases hor with rfl | ⟨_, hreached⟩
    · rw [List.append_nil] at hl
      exact hl.symm
    · -- The part that is kept would be enough, and the whole list is more.
      have holder : 0 ≤ work older :=
        work_nonneg fun e he => hpos e (hl ▸ List.mem_append_right _ he)
      have hsum := congrArg work hl
      rw [work_append] at hsum
      linarith

/-! ## The window -/

section Window

variable {db : Database} (foundAt : Nat)

theorem mem_windowRows_iff {foundAt : Nat} {e : PplnsShareEntry} :
    e ∈ windowRows db foundAt ↔ ∃ so ∈ db.shareOutcomes.rows,
      so.status = .accepted ∧ so.createdAt ≤ foundAt ∧ Joins db so e := by
  simp only [windowRows, List.mem_insertionSort, List.mem_filterMap,
    List.mem_filter, Bool.and_eq_true, beq_iff_eq, decide_eq_true_eq,
    pplnsEntry_iff, and_assoc]

theorem windowRows_newestFirst (db : Database) (foundAt : Nat) :
    (windowRows db foundAt).Pairwise fun a b => b.createdAt ≤ a.createdAt :=
  Sql.pairwise_sortDesc PplnsShareEntry.createdAt _

/-- What the query returns is the history. -/
theorem isHistory_query
    (hapart : ∀ a ∈ db.shareOutcomes.rows, ∀ b ∈ db.shareOutcomes.rows,
      a.status = .accepted → b.status = .accepted →
        a.createdAt = b.createdAt → a = b) :
    IsHistory db foundAt (windowRows db foundAt) := by
  refine ⟨?_, fun e => mem_windowRows_iff⟩
  -- No two rows of the query have one time, so the sort is strict.
  have hne : ((db.shareOutcomes.rows.filter fun so => so.status == .accepted &&
      decide (so.createdAt ≤ foundAt)).filterMap (pplnsEntry db)).Pairwise
      fun a b => a.createdAt ≠ b.createdAt := by
    refine List.pairwise_filterMap.2 ?_
    refine (db.shareOutcomes.ids_lt.filter _).imp_of_mem ?_
    intro a b ha hb hlt x hx y hy heq
    rw [List.mem_filter] at ha hb
    obtain ⟨_, _, _, _, _, _, _, _, _, rfl⟩ := pplnsEntry_iff.1 hx
    obtain ⟨_, _, _, _, _, _, _, _, _, rfl⟩ := pplnsEntry_iff.1 hy
    have hstatus := (Bool.and_eq_true_iff.1 ha.2).1
    have hstatus' := (Bool.and_eq_true_iff.1 hb.2).1
    have hab := hapart a ha.1 b hb.1 (eq_of_beq hstatus)
      (eq_of_beq hstatus') heq
    rw [hab] at hlt
    exact lt_irrefl _ hlt
  exact Sql.pairwise_sortDesc_lt hne

/-- The window is the start of the history, newest first: the shortest one
whose work reaches the threshold, or all of it.  The status of a round does
not matter, and an outcome that is not accepted is never in it. -/
theorem window_shortest
    (hapart : ∀ a ∈ db.shareOutcomes.rows, ∀ b ∈ db.shareOutcomes.rows,
      a.status = .accepted → b.status = .accepted →
        a.createdAt = b.createdAt → a = b)
    (hpos : ∀ so ∈ db.shareOutcomes.rows, so.status = .accepted →
      ∀ s ∈ db.shares.rows, s.id = so.shareId → 0 < s.difficulty)
    {nMultiplier networkDifficulty : ℚ} (hn : 0 < nMultiplier)
    (hd : 0 < networkDifficulty) :
    let window := calculatePplnsWindow db foundAt nMultiplier networkDifficulty
    ∃ history, IsHistory db foundAt history ∧
      (∃ older, history = window ++ older) ∧
      if nMultiplier * networkDifficulty ≤ work history then
        nMultiplier * networkDifficulty ≤ work window ∧
          ∀ newer older, window = newer ++ older → older ≠ [] →
            work newer < nMultiplier * networkDifficulty
      else window = history := by
  intro window
  have hhistory := isHistory_query foundAt hapart
  refine ⟨_, hhistory, ?_⟩
  have hentries : ∀ e ∈ windowRows db foundAt, 0 < e.difficulty := by
    intro e he
    obtain ⟨so, hso, hstatus, _, s, hs, _, _, _, _, hid, _, _, rfl⟩ :=
      (hhistory.mem e).1 he
    exact hpos so hso hstatus s hs hid
  have hcut := cutoff_spec hentries (mul_pos hn hd)
  simp only [zero_add] at hcut
  exact hcut

end Window

/-- A worker whose shares are added by `addOutcome`. -/
def oneWorker : Database :=
  (WorkerRepository.upsert "lotus_a" (some "rig") (initSchema 0)).2

/-- A share with its outcome, at a time and with a key of its own. -/
def addOutcome (now : Nat) (difficulty : ℚ) (status : OutcomeStatus)
    (roundId : Option Nat) (db : Database) : Database :=
  let key := toString now
  (ShareRepository.insertShareAndOutcomeAtomic
    { workerId := 1, sessionId := "s", jobId := "j", templateId := 1,
      templateEpoch := 1, extranonce1 := "", extranonce2 := "",
      ntimeHex6b := "", nonceHex8b := key, difficulty, dedupeKey := key }
    { sessionId := "s", workerId := 1, jobId := "j", roundId, dedupeKey := key,
      status, rejectReason := none, lowDiffOk := some true,
      networkTargetOk := some false, blockHash := none }
    { db with now }).2

/-- Four shares, the third one rejected and the fourth one in a round that
was orphaned. -/
def mixedHistory : Database :=
  let db := (RoundRepository.getOrCreateCurrentRound 1 oneWorker).2
  let db := addOutcome 10 5 .accepted (some 1) db
  let db := addOutcome 11 2 .accepted (some 1) db
  let db := addOutcome 12 9 .rejected (some 1) db
  let db := addOutcome 13 3 .accepted (some 1) db
  (RoundRepository.closeRound 1 2 .orphaned db).2

/-- The window of two shares that is enough. -/
theorem window_shortest_mixed :
    (calculatePplnsWindow mixedHistory 20 2 2).map (·.createdAt) = [13, 11] ∧
      ∃ history, IsHistory mixedHistory 20 history ∧ ∃ older,
        history = calculatePplnsWindow mixedHistory 20 2 2 ++ older := by
  refine ⟨by decide +kernel, ?_⟩
  obtain ⟨history, hhistory, hstart, _⟩ := window_shortest 20
    (by decide +kernel : ∀ a ∈ mixedHistory.shareOutcomes.rows, _)
    (by decide +kernel) (by decide : (0 : ℚ) < 2) (by decide : (0 : ℚ) < 2)
  exact ⟨history, hhistory, hstart⟩

/-- An accepted outcome that was stored without a round. -/
def roundless : Database := addOutcome 10 1 .accepted none oneWorker

/-- It is the whole history, and its work is below the threshold.  But it is
not in the window. -/
theorem window_shortest_fails :
    (∀ so ∈ roundless.shareOutcomes.rows, so.status = .accepted ∧
      so.createdAt ≤ 20 ∧ so.roundId = none ∧
      (∃ s ∈ roundless.shares.rows, s.id = so.shareId ∧ s.difficulty = 1) ∧
      ∃ w ∈ roundless.workers.rows, w.id = so.workerId) ∧
    roundless.shareOutcomes.rows.length = 1 ∧
    calculatePplnsWindow roundless 20 2 1 = [] := by
  decide +kernel

end StratumServer
