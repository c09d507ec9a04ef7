import StratumServer.Shares.Calls

/-!
# The identity of a worker

A worker is the pair of an address and a suffix, and `record_share` looks it
up with an upsert on that pair.  For SQL two `NULL`s are different, so the
upsert finds no row without a suffix: each call for a bare address makes a
new worker.

`upsert_rows` says this of the section.  `reach_oneIdentity` is the result
for the runs in which a bare address is not looked up twice, and
`oneIdentity_fails` is the run of two calls for one bare address.
-/

namespace StratumServer

open Sql Tasks

/-- The name that a worker row stands for. -/
def Worker.name (w : Worker) : String × Option String :=
  (w.payoutAddress, w.workerSuffix)

/-- The name that a call looks up: an empty suffix is none. -/
def lookupName (payoutAddress : String) (workerSuffix : Option String) :
    String × Option String :=
  (payoutAddress, workerSuffix.filter (· ≠ ""))

/-- No two workers have one name. -/
def OneIdentity (db : Database) : Prop :=
  ∀ w ∈ db.workers.rows, ∀ w' ∈ db.workers.rows, w.name = w'.name → w = w'

instance (db : Database) : Decidable (OneIdentity db) :=
  inferInstanceAs (Decidable (∀ _ ∈ _, ∀ _ ∈ _, _))

/-! ## The section -/

/-- Rows with a suffix conflict exactly when they have one name. -/
theorem conflict_worker {a b : Worker} :
    Conflict a b ↔ a.name = b.name ∧ a.workerSuffix ≠ none := by
  unfold Worker.name
  simp only [Conflict, Record.key, Option.map_eq_some_iff, Prod.mk.injEq]
  constructor
  · rintro ⟨k, ⟨s, hs, rfl⟩, ⟨s', hs', heq⟩⟩
    obtain ⟨haddress, rfl⟩ := Prod.mk.inj heq
    refine ⟨⟨haddress.symm, hs.trans hs'.symm⟩, ?_⟩
    rw [hs]
    exact Option.some_ne_none _
  · rintro ⟨⟨haddress, hsuffix⟩, hne⟩
    obtain ⟨s, hs⟩ := Option.ne_none_iff_exists'.1 hne
    exact ⟨_, ⟨s, hs, rfl⟩, s, hsuffix ▸ hs, by rw [haddress]⟩

/-- `upsert` returns the row of the name, or it adds one.  A row that has a
suffix is only added when no row has its name. -/
theorem WorkerRepository.upsert_rows (payoutAddress : String)
    (workerSuffix : Option String) (db : Database) :
    ∃ w, w.name = lookupName payoutAddress workerSuffix ∧
      (w ∈ db.workers.rows ∧
          upsert payoutAddress workerSuffix db =
            (.ok w, { db with workers := db.workers.burn }) ∨
        (w.workerSuffix ≠ none → ∀ v ∈ db.workers.rows, v.name ≠ w.name) ∧
          ∃ workers, workers.rows = db.workers.rows ++ [w] ∧
            upsert payoutAddress workerSuffix db =
              (.ok w, { db with workers })) := by
  unfold upsert
  dsimp only
  have hname : (newWorker payoutAddress workerSuffix).name =
    lookupName payoutAddress workerSuffix := rfl
  generalize newWorker payoutAddress workerSuffix = row at hname ⊢
  cases h : db.workers.insert row with
  | some x =>
    obtain ⟨id, workers⟩ := x
    obtain ⟨hfree, _, _, hrows⟩ := Table.insert_some h
    refine ⟨{ row with id }, hname, Or.inr ⟨?_, workers, hrows, rfl⟩⟩
    intro hsuffix v hv heq
    refine hfree v hv (conflict_worker.2 ⟨heq, ?_⟩)
    rw [show v.workerSuffix = row.workerSuffix from congrArg Prod.snd heq]
    exact hsuffix
  | none =>
    obtain ⟨a, ha, hconf⟩ := Table.insert_none h
    cases hfind : db.workers.rows.find? fun w => decide (Conflict w row) with
    | none => exact absurd hconf (by simpa using List.find?_eq_none.1 hfind a ha)
    | some w =>
      have hw : Conflict w row := by simpa using List.find?_some hfind
      exact ⟨w, (conflict_worker.1 hw).1.trans hname,
        Or.inl ⟨List.mem_of_find?_eq_some hfind, rfl⟩⟩

/-! ## The runs -/

/-- The name that an entry of the log looks up. -/
def lookedUp : CallEntry → Option (String × Option String)
  | .did _ (.db (.upsert payoutAddress workerSuffix)) _ =>
    some (lookupName payoutAddress workerSuffix)
  | _ => none

/-- A bare address is only looked up when no worker has it as its name. -/
def BareOnce (w : CallWorld) (e : CallEntry) : Prop :=
  ∀ name ∈ lookedUp e, name.2 = none →
    ∀ v ∈ w.shared.workers.rows, v.name ≠ name

instance (w : CallWorld) (e : CallEntry) : Decidable (BareOnce w e) :=
  inferInstanceAs (Decidable (∀ _ ∈ _, _ → ∀ _ ∈ _, _))

/-- The name that a call has looked up, and the worker that it goes on
with. -/
def usedWorker : CallEntry → Option ((String × Option String) × Worker)
  | .did _ (.db (.upsert payoutAddress workerSuffix)) (.ok w) =>
    some (lookupName payoutAddress workerSuffix, w)
  | _ => none

/-- The workers that calls go on with are the rows of their names. -/
structure Identified (w : CallWorld) : Prop where
  one : OneIdentity w.shared
  used : ∀ x ∈ w.log.filterMap usedWorker,
    x.2 ∈ w.shared.workers.rows ∧ x.2.name = x.1

namespace Identified

variable {w : CallWorld} {t : Nat}

/-- A turn that looks nothing up. -/
theorem of_workers (h : Identified w) {db : Database} {e : CallEntry}
    (hworkers : db.workers = w.shared.workers) (he : usedWorker e = none) :
    Identified (w.after db e) := by
  constructor
  · unfold OneIdentity
    rw [World.after_shared, hworkers]
    exact h.one
  · intro x hx
    rw [World.after_log, List.filterMap_cons_none he] at hx
    rw [World.after_shared, hworkers]
    exact h.used x hx

/-- The turn of a lookup. -/
theorem upsert (h : Identified w) {payoutAddress : String}
    {workerSuffix : Option String} {r : Except Error Worker}
    (hbare : BareOnce w
      (.did t (.db (.upsert payoutAddress workerSuffix)) r)) :
    Identified (w.after
      ((DbOp.upsert payoutAddress workerSuffix).run w.shared).2
      (.did t (.db (.upsert payoutAddress workerSuffix))
        ((DbOp.upsert payoutAddress workerSuffix).run w.shared).1)) := by
  obtain ⟨v, hname, ⟨hv, heq⟩ | ⟨hfree, workers, hrows, heq⟩⟩ :=
    WorkerRepository.upsert_rows payoutAddress workerSuffix w.shared
  · simp only [DbOp.run, heq]
    refine ⟨h.one, fun x hx => ?_⟩
    rcases List.mem_cons.1 hx with rfl | hold
    · exact ⟨hv, hname⟩
    · exact h.used x hold
  · simp only [DbOp.run, heq]
    -- The name is new, with or without a suffix.
    have hnew : ∀ a ∈ w.shared.workers.rows, a.name ≠ v.name := by
      by_cases hsuffix : v.workerSuffix = none
      · intro a ha
        rw [hname]
        refine hbare _ rfl ?_ a ha
        rw [← hname]
        exact hsuffix
      · exact hfree hsuffix
    constructor
    · intro a ha b hb hab
      rw [World.after_shared, hrows] at ha hb
      rcases List.mem_append.1 ha with ha | ha <;>
        rcases List.mem_append.1 hb with hb | hb
      · exact h.one a ha b hb hab
      · rw [List.mem_singleton.1 hb] at hab
        exact absurd hab (hnew a ha)
      · rw [List.mem_singleton.1 ha] at hab
        exact absurd hab.symm (hnew b hb)
      · rw [List.mem_singleton.1 ha, List.mem_singleton.1 hb]
    · intro x hx
      rw [World.after_shared, hrows]
      rcases List.mem_cons.1 hx with rfl | hold
      · exact ⟨List.mem_append_right _ (List.mem_singleton.2 rfl), hname⟩
      · obtain ⟨hx, hxname⟩ := h.used x hold
        exact ⟨List.mem_append_left _ hx, hxname⟩

end Identified

section Runs

variable {allowed : AccountingRequest → Prop} {c : CallConfig}

theorem reach_identified (h : (accounting allowed).Reach BareOnce c) :
    Identified c.world := by
  refine h.invariant ?_ ?_ ?_ ?_ ?_
  · rintro _ ⟨now, rfl⟩
    exact ⟨fun w hw => (List.not_mem_nil hw).elim, fun x hx =>
      (List.not_mem_nil hx).elim⟩
  · intro w t o r s' hw hsem hok
    cases o with
    | db d =>
      rcases hsem with hrun | ⟨⟨e, rfl⟩, rfl⟩
      · have hr : r = (d.run w.shared).1 := congrArg Prod.fst hrun
        have hs : s' = (d.run w.shared).2 := congrArg Prod.snd hrun
        have hframe := (d.frame w.shared).workers
        cases d with
        | upsert payoutAddress workerSuffix =>
          rw [hr, hs]
          exact hw.upsert hok
        | _ => exact hw.of_workers (hs ▸ hframe rfl) rfl
      · refine hw.of_workers rfl ?_
        cases d <;> rfl
    | _ => exact hsem.elim
  · intro w t k p s' hw hstart _
    exact hw.of_workers (congrArg Database.workers hstart.2.2) rfl
  · intro w s' hw henv _
    obtain ⟨now, rfl⟩ := henv
    exact hw.of_workers rfl rfl
  · intro w s' _ hcrash
    exact hcrash.elim

/-- No two workers have one name, and calls with one name go on with one
worker id. -/
theorem reach_oneIdentity (h : (accounting allowed).Reach BareOnce c) :
    OneIdentity c.world.shared ∧
      ∀ x ∈ c.world.log.filterMap usedWorker,
        ∀ y ∈ c.world.log.filterMap usedWorker,
          x.1 = y.1 → x.2.id = y.2.id := by
  have hinv := reach_identified h
  refine ⟨hinv.one, fun x hx y hy hxy => ?_⟩
  obtain ⟨hx, hxname⟩ := hinv.used x hx
  obtain ⟨hy, hyname⟩ := hinv.used y hy
  rw [hinv.one x.2 hx y.2 hy (hxname.trans (hxy.trans hyname.symm))]

end Runs

/-- Only shares are recorded. -/
def AccountingRequest.records : AccountingRequest → Prop
  | .recordShare _ => True
  | _ => False

/-- Two overlapping calls for one name with a suffix, and one for the bare
address. -/
def namedCalls : List CallMove :=
  call 0 (.recordShare (sampleRecord "lotus_a" (some "rig") "01")) 1 ++
    call 1 (.recordShare (sampleRecord "lotus_a" (some "rig") "02")) 9 ++
    resume 0 9 ++ call 0 (.recordShare (sampleRecord "lotus_a" none "03")) 9

theorem reach_oneIdentity_named :
    (playCalls AccountingRequest.records (fun w e => decide (BareOnce w e))
        namedCalls).map (fun c => c.world.shared.workers.rows.map Worker.name) =
      some [("lotus_a", some "rig"), ("lotus_a", none)] ∧
    ∀ c ∈ playCalls AccountingRequest.records
      (fun w e => decide (BareOnce w e)) namedCalls,
      OneIdentity c.world.shared := by
  refine ⟨by decide +kernel, fun c hc => ?_⟩
  have hreach : (accounting AccountingRequest.records).Reach BareOnce c := by
    refine reach_playCalls ?_ (fun _ _ h => of_decide_eq_true h) hc
    refine sound_append (sound_append (sound_append ?_ ?_) ?_) ?_
    · exact call_sound trivial
    · exact call_sound trivial
    · exact resume_sound
    · exact call_sound trivial
  exact (reach_oneIdentity hreach).1

/-- Two calls for one bare address. -/
def bareCalls : List CallMove :=
  call 0 (.recordShare (sampleRecord "lotus_a" none "01")) 9 ++
    call 0 (.recordShare (sampleRecord "lotus_a" none "02")) 9

/-- They leave two workers with one name, and go on with different ids. -/
theorem oneIdentity_fails :
    ∃ c : CallConfig,
      (accounting AccountingRequest.records).Reach (fun _ _ => True) c ∧
      c.world.shared.workers.rows.map (fun w => (w.id, w.name)) =
        [(1, ("lotus_a", none)), (2, ("lotus_a", none))] ∧
      (c.world.log.filterMap usedWorker).map (fun x => (x.1, x.2.id)) =
        [(("lotus_a", none), 2), (("lotus_a", none), 1)] := by
  have hrun : (playCalls AccountingRequest.records (fun _ _ => true)
      bareCalls).map (fun c => decide
        (c.world.shared.workers.rows.map (fun w => (w.id, w.name)) =
            [(1, ("lotus_a", none)), (2, ("lotus_a", none))] ∧
          (c.world.log.filterMap usedWorker).map (fun x => (x.1, x.2.id)) =
            [(("lotus_a", none), 2), (("lotus_a", none), 1)])) = some true := by
    decide +kernel
  obtain ⟨c, hc, hfacts⟩ := Option.map_eq_some_iff.1 hrun
  refine ⟨c, reach_playCalls ?_ (fun _ _ _ => trivial) hc,
    of_decide_eq_true hfacts⟩
  exact sound_append (call_sound trivial) (call_sound trivial)

end StratumServer
