import StratumServer.Shares.Pairs

/-!
# A share that is recorded again

A call of `record_share` for a worker with a suffix is answered from the
tables when it is made again: the worker is found, there is an open round,
and the rows of the key are there.

* `Known` is what the first call leaves, and `Repeats` what any call with
  its key is answered then.
* `recordShare_repeats` follows the second call through its answers: it
  writes no event, and it returns the ids of the first call.

`reach_paired` puts this together with the correspondence of the tables.
-/

namespace StratumServer

open Sql Tasks

/-! ## What the first call leaves -/

/-- The rows that a call has left: the worker, the share and the outcome with
their ids, and an open round. -/
structure Known (db : Database) (a : ShareRecord) (w : Worker) (n m : Nat) :
    Prop where
  worker : w ∈ db.workers.rows
  share : ∃ s ∈ db.shares.rows, s.dedupeKey = a.dedupeKey w.id ∧ s.id = n
  outcome : ∃ o ∈ db.shareOutcomes.rows,
    o.dedupeKey = a.dedupeKey w.id ∧ o.id = m
  round : ∃ r ∈ db.rounds.rows, r.status = .opened

theorem Known.grows {db db' : Database} (hgrows : Grows db db')
    {a : ShareRecord} {w : Worker} {n m : Nat} (h : Known db a w n m) :
    Known db' a w n m := by
  obtain ⟨hw, ⟨s, hs, hskey⟩, ⟨o, ho, hokey⟩, r, hr, hopen⟩ := h
  exact ⟨hgrows.workers w hw, ⟨s, hgrows.shares s hs, hskey⟩,
    ⟨o, hgrows.outcomes o ho, hokey⟩, r, hgrows.rounds r hr, hopen⟩

/-- A round was found or opened. -/
def RoundTold (done : Done) : Prop :=
  (∃ templateId round, ⟨.db (.matchingRound templateId), .ok (some round)⟩ ∈
      done) ∨
    ∃ templateId x, ⟨.db (.getOrCreateCurrentRound templateId), .ok x⟩ ∈ done

/-- What a call has been told when it returns two ids. -/
structure Told (a : ShareRecord) (n m : Nat) (key : String) (w : Worker)
    (done : Done) : Prop where
  worker : ⟨.db (.upsert a.payoutAddress a.workerSuffix), .ok w⟩ ∈ done
  pair : ∃ roundId isNew, ⟨.db (.insertShareAndOutcomeAtomic (a.share w.id)
    (a.outcome w.id roundId)), .ok (some n, some m, isNew)⟩ ∈ done
  round : RoundTold done
  key : key = a.dedupeKey w.id

theorem resolveRoundForTemplate_told (templateId : Nat)
    {x : (o : Op) × o.Res} {done : Done} (hx : x ∈ done) :
    (AccountingService.resolveRoundForTemplate templateId).run.Paths
      (fun _ _ => True)
      (fun r done => x ∈ done ∧ ∀ round, r = .ok round → RoundTold done)
      done := by
  refine Prog.paths_exceptBind ?_
  -- The round comes from one of two sections.
  have hfind : (AccountingService.findRound templateId).run.Paths
      (fun _ _ => True)
      (fun r done => x ∈ done ∧ ∀ y, r = .ok y → RoundTold done) done := by
    refine Prog.paths_exceptBind (paths_db trivial fun r => ?_)
    cases r with
    | error e => exact ⟨List.mem_cons_of_mem _ hx, nofun⟩
    | ok r =>
      cases r with
      | some round =>
        exact ⟨List.mem_cons_of_mem _ hx, fun _ _ =>
          Or.inl ⟨templateId, round, List.mem_cons_self⟩⟩
      | none =>
        refine ⟨trivial, fun r => ⟨List.mem_cons_of_mem _
          (List.mem_cons_of_mem _ hx), fun y hy => ?_⟩⟩
        exact Or.inr ⟨templateId, y, hy ▸ List.mem_cons_self⟩
  refine Prog.paths_mono ?_ hfind
  intro r done hdone
  cases r with
  | error e => exact ⟨hdone.1, nofun⟩
  | ok y =>
    have htold := hdone.2 y rfl
    have hkeep : ∀ y, x ∈ y :: done ∧ RoundTold (y :: done) := by
      intro y
      refine ⟨List.mem_cons_of_mem _ hdone.1, ?_⟩
      rcases htold with ⟨t, round, hmem⟩ | ⟨t, z, hmem⟩
      · exact Or.inl ⟨t, round, List.mem_cons_of_mem _ hmem⟩
      · exact Or.inr ⟨t, z, List.mem_cons_of_mem _ hmem⟩
    obtain ⟨round, isNew⟩ := y
    cases isNew with
    | false => exact ⟨hdone.1, fun _ _ => htold⟩
    | true => exact ⟨trivial, fun r => ⟨(hkeep _).1, fun _ _ => (hkeep _).2⟩⟩

/-- A call that returns two ids was told so. -/
theorem recordShare_told (a : ShareRecord) :
    (AccountingService.recordShare a).run.Paths (fun _ _ => True)
      (fun v done => ∀ n m rid key, v = .ok (some n, some m, rid, key) →
        ∃ w, Told a n m key w done) [] := by
  refine Prog.paths_exceptBind (paths_db trivial fun r => ?_)
  cases r with
  | error e => exact nofun
  | ok w =>
    refine Prog.paths_exceptBind (Prog.paths_mono ?_
      (resolveRoundForTemplate_told a.templateId List.mem_cons_self))
    intro r done hdone
    cases r with
    | error e => exact nofun
    | ok round =>
      refine Prog.paths_exceptBind (paths_db trivial fun r => ?_)
      cases r with
      | error e => exact nofun
      | ok ids =>
        obtain ⟨shareId, outcomeId, isNew⟩ := ids
        have htold : ∀ n m rid key later,
            (Except.ok (shareId, outcomeId, some round.id, a.dedupeKey w.id) :
              Except Error _) = .ok (some n, some m, rid, key) →
            ∃ v, Told a n m key v (later ++ ⟨.db (.insertShareAndOutcomeAtomic
              (a.share w.id) (a.outcome w.id round.id)),
              .ok (shareId, outcomeId, isNew)⟩ :: done) := by
          rintro n m rid key later ⟨⟩
          refine ⟨w, ?_, ⟨round.id, isNew, ?_⟩, ?_, rfl⟩
          · exact List.mem_append_right _ (List.mem_cons_of_mem _ hdone.1)
          · exact List.mem_append_right _ List.mem_cons_self
          · rcases hdone.2 round rfl with ⟨t, r, hmem⟩ | ⟨t, x, hmem⟩
            · exact Or.inl ⟨t, r, List.mem_append_right _
                (List.mem_cons_of_mem _ hmem)⟩
            · exact Or.inr ⟨t, x, List.mem_append_right _
                (List.mem_cons_of_mem _ hmem)⟩
        refine Prog.paths_exceptBind ?_
        rw [run_runIf, run_discard]
        cases isNew && shareId.isSome && outcomeId.isSome with
        | false => exact fun n m rid key heq => htold n m rid key [] heq
        | true =>
          refine ⟨trivial, fun r => ?_⟩
          cases r with
          | error e => exact nofun
          | ok k => exact fun n m rid key heq => htold n m rid key [_] heq

/-! ## What the second call is answered -/

section Repeats

variable (a : ShareRecord) (w : Worker) (n m : Nat)

/-- What an operation is answered once the rows are known. -/
def Repeats : (o : Op) × o.Res → Prop
  | ⟨.db (.upsert payoutAddress workerSuffix), r⟩ =>
    lookupName payoutAddress workerSuffix = w.name → r = .ok w
  | ⟨.db (.matchingRound _), r⟩ => ∃ round, r = .ok round
  | ⟨.db (.getOrCreateCurrentRound _), r⟩ => ∃ round, r = .ok (round, false)
  | ⟨.db (.insertShareAndOutcomeAtomic s o), r⟩ =>
    s.dedupeKey = a.dedupeKey w.id → o.dedupeKey = s.dedupeKey →
      r = .ok (some n, some m, false)
  | _ => True

/-- What a call performs that is made again: it inserts under the known key,
and it writes no event. -/
def Op.repeated : Op → Prop
  | .db (.insertShareAndOutcomeAtomic s o) =>
    s.dedupeKey = a.dedupeKey w.id ∧ o.dedupeKey = s.dedupeKey
  | .db (.recordEvent _) => False
  | _ => True

/-- The second call under such answers. -/
theorem recordShare_repeats
    (hname : lookupName a.payoutAddress a.workerSuffix = w.name) :
    (AccountingService.recordShare a).run.Paths
      (fun done o => (∀ x ∈ done, Repeats a w n m x) → Op.repeated a w o)
      (fun v done => (∀ x ∈ done, Repeats a w n m x) →
        ∃ rid, v = .ok (some n, some m, rid, a.dedupeKey w.id)) [] := by
  refine Prog.paths_assuming (fun _ => trivial) fun r hr => ?_
  obtain rfl := hr hname
  refine Prog.paths_assuming (fun _ => trivial) fun r hr => ?_
  obtain ⟨found, rfl⟩ := hr
  cases found with
  | some round =>
    refine Prog.paths_assuming (fun _ => ⟨rfl, rfl⟩) fun r hr => ?_
    obtain rfl := hr rfl rfl
    exact fun _ => ⟨some round.id, rfl⟩
  | none =>
    refine Prog.paths_assuming (fun _ => trivial) fun r hr => ?_
    obtain ⟨round, rfl⟩ := hr
    refine Prog.paths_assuming (fun _ => ⟨rfl, rfl⟩) fun r hr => ?_
    obtain rfl := hr rfl rfl
    exact fun _ => ⟨some round.id, rfl⟩

end Repeats

/-- The three tables of the shares have the same rows. -/
def SameTables (db db' : Database) : Prop :=
  db'.shares.rows = db.shares.rows ∧
    db'.shareOutcomes.rows = db.shareOutcomes.rows ∧
    db'.accountingEvents.rows = db.accountingEvents.rows

namespace Known

variable {db : Database} {a : ShareRecord} {w : Worker} {n m : Nat}

/-- The section of a repeated insertion. -/
theorem insert (h : Known db a w n m) (hpaired : Paired db) {s : Share}
    {o : ShareOutcome} (hs : s.dedupeKey = a.dedupeKey w.id)
    (ho : o.dedupeKey = s.dedupeKey) :
    (DbOp.insertShareAndOutcomeAtomic s o).run db =
      (.ok (some n, some m, false), { db with
        shares := db.shares.burn, shareOutcomes := db.shareOutcomes.burn }) := by
  obtain ⟨x, hx, hxkey, rfl⟩ := h.share
  obtain ⟨y, hy, hykey, rfl⟩ := h.outcome
  rcases hpaired.insert_cases ho with
    ⟨_, _, _, _, hfree, _⟩ | ⟨x', hx', y', hy', hxkey', hykey', heq⟩
  · exact absurd (hxkey.trans hs.symm) (hfree x hx)
  · rw [share_eq_of_key hx hx' (hxkey.trans (hs.symm.trans hxkey'.symm)),
      outcome_eq_of_key hy hy' (hykey.trans (hs.symm.trans hykey'.symm))]
    exact heq

/-- Whatever is performed once the rows are known is answered like that. -/
theorem repeats (h : Known db a w n m) (hpaired : Paired db)
    (hsuffix : w.workerSuffix ≠ none) (d : DbOp) :
    Repeats a w n m ⟨.db d, (d.run db).1⟩ := by
  cases d with
  | upsert payoutAddress workerSuffix =>
    intro hname
    obtain ⟨v, hv, ⟨hmem, heq⟩ | ⟨hfree, _, _, heq⟩⟩ :=
      WorkerRepository.upsert_rows payoutAddress workerSuffix db
    · have hvw : v = w := by
        obtain ⟨k, hk, hk'⟩ := conflict_worker.2
          ⟨(hv.trans hname).symm, hsuffix⟩
        exact db.workers.eq_of_key hmem h.worker hk' hk
      simp only [DbOp.run, heq, hvw]
    · have hvsuffix : v.workerSuffix = w.workerSuffix :=
        congrArg Prod.snd (hv.trans hname)
      refine absurd (hv.trans hname).symm (hfree ?_ w h.worker)
      rw [hvsuffix]
      exact hsuffix
  | matchingRound templateId => exact ⟨_, rfl⟩
  | getOrCreateCurrentRound templateId =>
    rcases RoundRepository.getOrCreateCurrentRound_cases templateId db with
      ⟨round, _, _, heq⟩ | ⟨hclosed, _⟩
    · refine ⟨round, ?_⟩
      simp only [DbOp.run, heq]
    · obtain ⟨r, hr, hopen⟩ := h.round
      exact absurd hopen (hclosed r hr)
  | insertShareAndOutcomeAtomic s o =>
    intro hs ho
    rw [h.insert hpaired hs ho]
  | _ => trivial

/-- What the second call performs leaves the tables of the shares. -/
theorem sameTables (h : Known db a w n m) (hpaired : Paired db) {d : DbOp}
    (hrecords : (Op.db d).records) (hrepeated : Op.repeated a w (.db d)) :
    SameTables db (d.run db).2 := by
  cases d with
  | upsert payoutAddress workerSuffix =>
    obtain ⟨v, _, ⟨_, heq⟩ | ⟨_, _, _, heq⟩⟩ :=
      WorkerRepository.upsert_rows payoutAddress workerSuffix db <;>
      simp only [DbOp.run, heq] <;> exact ⟨rfl, rfl, rfl⟩
  | matchingRound templateId => exact ⟨rfl, rfl, rfl⟩
  | getOrCreateCurrentRound templateId =>
    rcases RoundRepository.getOrCreateCurrentRound_cases templateId db with
      ⟨_, _, _, heq⟩ | ⟨_, _, _, _, heq⟩ <;>
      simp only [DbOp.run, heq] <;> exact ⟨rfl, rfl, rfl⟩
  | insertShareAndOutcomeAtomic s o =>
    rw [h.insert hpaired hrepeated.1 hrepeated.2]
    exact ⟨rfl, rfl, rfl⟩
  | recordEvent e => exact hrepeated.elim
  | _ => exact hrecords.elim

end Known

/-! ## The runs -/

/-- Task `t` has called `record_share` and the call has returned. -/
def Returned (log : List CallEntry) (t : Nat) (a : ShareRecord)
    (result : Except Error (Option Nat × Option Nat × Option Nat × String)) :
    Prop :=
  (current t log).1 = some (.recordShare a) ∧
    (AccountingService.recordShare a).run.value (current t log).2.reverse =
      some result

section Runs

variable {c c' : CallConfig} {a : ShareRecord} {n m : Nat}

theorem known_of_returned
    (h : (accounting AccountingRequest.records).Reach Succeeds c) {t : Nat}
    {rid : Option Nat} {key : String}
    (hreturned : Returned c.world.log t a (.ok (some n, some m, rid, key))) :
    ∃ w, Known c.world.shared a w n m ∧
      w.name = lookupName a.payoutAddress a.workerSuffix ∧
      key = a.dedupeKey w.id := by
  have hinv := reach_accounted h
  have hpaths := Prog.paths_value (recordShare_told a) hreturned.2
  rw [List.reverse_reverse, List.append_nil] at hpaths
  obtain ⟨w, hworker, ⟨roundId, isNew, hpair⟩, hround, hkey⟩ :=
    hpaths n m rid key rfl
  have hkept : ∀ x ∈ (current t c.world.log).2, AnswerKept c.world.shared x :=
    fun _ hx => (hinv.answers _ _ _ (mem_of_current hx)).2
  have hw := hkept _ hworker
  have hrows := hkept _ hpair
  refine ⟨w, ⟨hw.1, hrows.1, hrows.2, ?_⟩, hw.2, hkey⟩
  rcases hround with ⟨templateId, round, hmem⟩ | ⟨templateId, x, hmem⟩
  · exact ⟨round, hkept _ hmem, hinv.opened round (hkept _ hmem)⟩
  · exact ⟨x.1, hkept _ hmem, hinv.opened x.1 (hkept _ hmem)⟩

/-- From then on, whatever is performed is answered from the rows. -/
theorem leads_known {w : Worker}
    (h : (accounting AccountingRequest.records).Reach Succeeds c)
    (hknown : Known c.world.shared a w n m) (hsuffix : w.workerSuffix ≠ none)
    (hleads : (accounting AccountingRequest.records).Leads Succeeds c c') :
    Known c'.world.shared a w n m ∧ ∃ later,
      c'.world.log = later ++ c.world.log ∧
      ∀ t o r, .did t o r ∈ later → Repeats a w n m ⟨o, r⟩ := by
  induction hleads with
  | refl => exact ⟨hknown, [], rfl, fun _ _ _ hmem => (List.not_mem_nil hmem).elim⟩
  | @tail c₁ c₂ hlead hturn ih =>
    obtain ⟨hknown, later, hlog, hlater⟩ := ih
    obtain ⟨e, hok, hstep⟩ := hturn
    have hreach := h.leads hlead
    have hrecords := turns_records hreach hok hstep
    cases hstep with
    | @exec t o k r s' _ hsem =>
      cases o with
      | db d =>
        rcases hsem with hrun | ⟨⟨e, rfl⟩, _⟩
        · have hr : r = (d.run c₁.world.shared).1 := congrArg Prod.fst hrun
          have hs : s' = (d.run c₁.world.shared).2 := congrArg Prod.snd hrun
          refine ⟨?_, .did t (.db d) r :: later, congrArg (_ :: ·) hlog, ?_⟩
          · rw [World.after_shared, hs]
            exact hknown.grows (DbOp.grows (hrecords t _ r rfl) _)
          · intro u o r' hmem
            rcases List.mem_cons.1 hmem with heq | hold
            · cases heq
              rw [hr]
              exact hknown.repeats (reach_accounted hreach).paired hsuffix d
            · exact hlater u o r' hold
        · exact absurd hok Bool.false_ne_true
      | _ => exact hsem.elim
    | @begin t k p s' _ hstart =>
      obtain ⟨_, _, rfl⟩ := hstart
      refine ⟨hknown, .began t k :: later, congrArg (_ :: ·) hlog, ?_⟩
      intro u o r hmem
      rcases List.mem_cons.1 hmem with heq | hold
      · cases heq
      · exact hlater u o r hold
    | @env s' henv =>
      obtain ⟨now, rfl⟩ := henv
      refine ⟨⟨hknown.worker, hknown.share, hknown.outcome, hknown.round⟩,
        .env :: later, congrArg (_ :: ·) hlog, ?_⟩
      intro u o r hmem
      rcases List.mem_cons.1 hmem with heq | hold
      · cases heq
      · exact hlater u o r hold
    | crash hcrash => exact hcrash.elim

/-- A call of `a` performs what a second call performs. -/
def PerformsRepeated (a : ShareRecord) (w : Worker) (n m : Nat) (_ : Nat)
    (now : Option AccountingRequest × Done) (o : Op) : Prop :=
  now.1 = some (.recordShare a) → (∀ x ∈ now.2, Repeats a w n m x) →
    Op.repeated a w o

theorem start_repeats {w : Worker}
    (hname : lookupName a.payoutAddress a.workerSuffix = w.name) {t : Nat}
    {request : AccountingRequest} {db db' : Database} {p : Body Unit}
    (h : (accounting AccountingRequest.records).start t request db p db') :
    Follows (PerformsRepeated a w n m) (fun _ _ => True) t (some request, [])
      p := by
  obtain ⟨_, rfl, _⟩ := h
  by_cases heq : request = .recordShare a
  · subst heq
    refine Prog.paths_bind (Prog.paths_mono ?_ (Prog.paths_imp ?_
      (recordShare_repeats a w n m hname)))
    · exact fun _ _ _ => trivial
    · exact fun _ _ hrepeated _ => hrepeated
  · exact Prog.paths_of_forall
      (fun _ _ hrequest => absurd (Option.some.inj hrequest) heq)
      (fun _ _ => trivial) _ _

/-- A call that is made again returns the ids of the first call, and leaves
the tables of the shares as they are. -/
theorem repeated_call {t u : Nat} {rid : Option Nat} {key : String}
    {later : List CallEntry}
    (h : (accounting AccountingRequest.records).Reach Succeeds c)
    (hsuffix : a.workerSuffix.filter (· ≠ "") ≠ none)
    (hreturned : Returned c.world.log t a (.ok (some n, some m, rid, key)))
    (hleads : (accounting AccountingRequest.records).Leads Succeeds c c')
    (hlog : c'.world.log = later ++ c.world.log)
    (hcall : (current u later).1 = some (.recordShare a)) :
    (∀ result, Returned later u a result →
      ∃ rid', result = .ok (some n, some m, rid', key)) ∧
    ∀ o r c'', (accounting AccountingRequest.records).Step c' (.did u o r) c'' →
      Succeeds c'.world (.did u o r) →
        SameTables c'.world.shared c''.world.shared := by
  obtain ⟨w, hknown, hname, rfl⟩ := known_of_returned h hreturned
  have hwsuffix : w.workerSuffix ≠ none := by
    rw [show w.workerSuffix = a.workerSuffix.filter (· ≠ "") from
      congrArg Prod.snd hname]
    exact hsuffix
  obtain ⟨hknown', later', hlog', hrepeats⟩ :=
    leads_known h hknown hwsuffix hleads
  obtain rfl : later' = later :=
    List.append_cancel_right (hlog'.symm.trans hlog)
  have hdone : ∀ x ∈ (current u later').2, Repeats a w n m x :=
    fun x hx => hrepeats u x.1 x.2 (mem_of_current hx)
  constructor
  · intro result hresult
    have hpaths := Prog.paths_value (recordShare_repeats a w n m hname.symm)
      hresult.2
    rw [List.reverse_reverse, List.append_nil] at hpaths
    exact hpaths hdone
  · intro o r c'' hstep hok
    have hreach := h.leads hleads
    have hrecords := turns_records hreach hok hstep u o r rfl
    have hboot : ∀ t, Follows (PerformsRepeated a w n m) (fun _ _ => True) t
        (none, []) ((accounting AccountingRequest.records).boot t) :=
      fun _ => trivial
    have hfollow := hreach.follows hboot (start_repeats hname.symm) u
    rw [hlog, current_append hcall] at hfollow
    cases hstep with
    | @exec _ _ k _ s' htask hsem =>
      rw [htask] at hfollow
      have hrepeated := hfollow.1 hcall hdone
      cases o with
      | db d =>
        rcases hsem with hrun | ⟨⟨e, rfl⟩, _⟩
        · have hs : s' = (d.run c'.world.shared).2 := congrArg Prod.snd hrun
          rw [World.after_shared, hs]
          exact hknown'.sameTables (reach_accounted hreach).paired hrecords
            hrepeated
        · exact absurd hok Bool.false_ne_true
      | _ => exact hsem.elim

/-- The shares and the outcomes stay in pairs, with one event for each pair
once the calls have returned.  A call for a worker with a suffix that is made
again returns the same ids and changes none of the three tables. -/
theorem reach_paired
    (h : (accounting AccountingRequest.records).Reach Succeeds c) :
    Paired c.world.shared ∧
    (shareEvents c.world.shared).Subperm (pairEvents c.world.shared) ∧
    ((∀ t, c.task t = .ret ()) →
      (shareEvents c.world.shared).Perm (pairEvents c.world.shared)) ∧
    ∀ (a : ShareRecord) (t u n m : Nat) (rid : Option Nat) (key : String)
      (c' : CallConfig) (later : List CallEntry),
      a.workerSuffix.filter (· ≠ "") ≠ none →
      Returned c.world.log t a (.ok (some n, some m, rid, key)) →
      (accounting AccountingRequest.records).Leads Succeeds c c' →
      c'.world.log = later ++ c.world.log →
      (current u later).1 = some (.recordShare a) →
      (∀ result, Returned later u a result →
        ∃ rid', result = .ok (some n, some m, rid', key)) ∧
      ∀ o r c'', (accounting AccountingRequest.records).Step c' (.did u o r)
          c'' → Succeeds c'.world (.did u o r) →
        SameTables c'.world.shared c''.world.shared :=
  ⟨(reach_accounted h).paired, reach_events_subperm h, reach_events_perm h,
    fun _ _ _ _ _ _ _ _ _ hsuffix hreturned hleads hlog hcall =>
      repeated_call h hsuffix hreturned hleads hlog hcall⟩

end Runs

/-- A share of a worker with a suffix, recorded by two tasks one after the
other. -/
theorem reach_paired_again :
    let a := sampleRecord "lotus_a" (some "rig") "01"
    ∃ c c' : CallConfig, ∃ later,
      (accounting AccountingRequest.records).Reach Succeeds c ∧
      (accounting AccountingRequest.records).Leads Succeeds c c' ∧
      c'.world.log = later ++ c.world.log ∧
      Returned c.world.log 0 a
        (.ok (some 1, some 1, some 1, "1:1:1:00:00:01")) ∧
      ∃ result, Returned later 1 a result ∧
        ∃ rid, result = .ok (some 1, some 1, rid, "1:1:1:00:00:01") := by
  intro a
  have hrun : ((playCalls AccountingRequest.records
      (fun w e => decide (Succeeds w e)) (call 0 (.recordShare a) 9)).bind
      fun c => (Machine.play (accounting AccountingRequest.records)
        (fun w e => decide (Succeeds w e)) (call 1 (.recordShare a) 9) c).map
      fun c' =>
        let later := c'.world.log.take
          (c'.world.log.length - c.world.log.length)
        decide ((current 0 c.world.log).1 = some (.recordShare a) ∧
          (AccountingService.recordShare a).run.value
              (current 0 c.world.log).2.reverse =
            some (.ok (some 1, some 1, some 1, "1:1:1:00:00:01")) ∧
          (current 1 later).1 = some (.recordShare a) ∧
          ((AccountingService.recordShare a).run.value
            (current 1 later).2.reverse).isSome = true)) = some true := by
    decide +kernel
  obtain ⟨c, hc, hrun⟩ := Option.bind_eq_some_iff.1 hrun
  obtain ⟨c', hc', hfacts⟩ := Option.map_eq_some_iff.1 hrun
  have hreach : (accounting AccountingRequest.records).Reach Succeeds c :=
    reach_playCalls (call_sound trivial) (fun _ _ h => of_decide_eq_true h) hc
  have hleads : (accounting AccountingRequest.records).Leads Succeeds c c' :=
    Machine.Leads.play (call_sound trivial)
      (fun _ _ h => of_decide_eq_true h) hc'
  obtain ⟨later, hlog⟩ := hleads.log
  have htake : c'.world.log.take (c'.world.log.length - c.world.log.length) =
      later := by
    rw [hlog, List.length_append, Nat.add_sub_cancel, List.take_left]
  rw [htake] at hfacts
  obtain ⟨hfirst, hvalue, hsecond, hsome⟩ := of_decide_eq_true hfacts
  obtain ⟨result, hresult⟩ := Option.isSome_iff_exists.1 hsome
  refine ⟨c, c', later, hreach, hleads, hlog, ⟨hfirst, hvalue⟩, result,
    ⟨hsecond, hresult⟩, ?_⟩
  exact ((reach_paired hreach).2.2.2 a 0 1 1 1 _ _ c' later (by decide)
    ⟨hfirst, hvalue⟩ hleads hlog hsecond).1 result ⟨hsecond, hresult⟩

end StratumServer
