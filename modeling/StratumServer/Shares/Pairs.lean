import StratumServer.Blocks.OpenRound
import StratumServer.Shares.Workers

/-!
# One share, one outcome, one event

`record_share` writes a share and its outcome in one section, each with an
insertion that does nothing when the key is there, and it writes an event
when one of the two was new.

There are four groups.

* `Paired` is the correspondence of the two tables.  Under it a section
  writes both rows or none (`Paired.insert_cases`).
* What the calls have done.  `owed` is the event that a call still has to
  write; an idle task owes none.
* The invariant `Accounted` of the runs in which all statements succeed.
* A call that is made again.  `Known` is what the first call leaves in the
  tables, and `Repeats` what the second one is answered then.

`reach_paired` is the result.
-/

namespace StratumServer

open Sql Tasks

/-! ## Pairs -/

/-- The shares and the outcomes belong together in pairs: each key is the key
of one share and of one outcome, and the outcome names the share and its
worker. -/
structure Paired (db : Database) : Prop where
  share : ∀ s ∈ db.shares.rows, ∃! o, o ∈ db.shareOutcomes.rows ∧
    o.dedupeKey = s.dedupeKey
  outcome : ∀ o ∈ db.shareOutcomes.rows, ∃! s, s ∈ db.shares.rows ∧
    s.dedupeKey = o.dedupeKey
  link : ∀ s ∈ db.shares.rows, ∀ o ∈ db.shareOutcomes.rows,
    o.dedupeKey = s.dedupeKey → o.shareId = s.id ∧ o.workerId = s.workerId

/-- No key is twice in a table. -/
theorem share_eq_of_key {db : Database} {s s' : Share}
    (hs : s ∈ db.shares.rows) (hs' : s' ∈ db.shares.rows)
    (h : s.dedupeKey = s'.dedupeKey) : s = s' :=
  db.shares.eq_of_key hs hs' rfl (congrArg some h.symm)

theorem outcome_eq_of_key {db : Database} {o o' : ShareOutcome}
    (ho : o ∈ db.shareOutcomes.rows) (ho' : o' ∈ db.shareOutcomes.rows)
    (h : o.dedupeKey = o'.dedupeKey) : o = o' :=
  db.shareOutcomes.eq_of_key ho ho' rfl (congrArg some h.symm)

namespace Paired

variable {db : Database}

/-- The keys are different in each table, so it is enough to find them. -/
theorem of_exists
    (hshare : ∀ s ∈ db.shares.rows, ∃ o ∈ db.shareOutcomes.rows,
      o.dedupeKey = s.dedupeKey)
    (houtcome : ∀ o ∈ db.shareOutcomes.rows, ∃ s ∈ db.shares.rows,
      s.dedupeKey = o.dedupeKey)
    (hlink : ∀ s ∈ db.shares.rows, ∀ o ∈ db.shareOutcomes.rows,
      o.dedupeKey = s.dedupeKey → o.shareId = s.id ∧ o.workerId = s.workerId) :
    Paired db := by
  refine ⟨fun s hs => ?_, fun o ho => ?_, hlink⟩
  · obtain ⟨o, ho, hkey⟩ := hshare s hs
    refine ⟨o, ⟨ho, hkey⟩, fun o' ho' => ?_⟩
    exact outcome_eq_of_key ho'.1 ho (ho'.2.trans hkey.symm)
  · obtain ⟨s, hs, hkey⟩ := houtcome o ho
    refine ⟨s, ⟨hs, hkey⟩, fun s' hs' => ?_⟩
    exact share_eq_of_key hs'.1 hs (hs'.2.trans hkey.symm)

theorem of_eq (h : Paired db) {db' : Database}
    (hshares : db'.shares.rows = db.shares.rows)
    (houtcomes : db'.shareOutcomes.rows = db.shareOutcomes.rows) :
    Paired db' := by
  constructor
  · rw [hshares, houtcomes]
    exact h.share
  · rw [hshares, houtcomes]
    exact h.outcome
  · rw [hshares, houtcomes]
    exact h.link

/-- Either both rows are new or both are there. -/
theorem insert_cases (h : Paired db) {share : Share} {outcome : ShareOutcome}
    (hkey : outcome.dedupeKey = share.dedupeKey) :
    (∃ n m shares outcomes,
      (∀ s ∈ db.shares.rows, s.dedupeKey ≠ share.dedupeKey) ∧
      (∀ o ∈ db.shareOutcomes.rows, o.dedupeKey ≠ share.dedupeKey) ∧
      shares.rows = db.shares.rows ++ [{ share with id := n }] ∧
      outcomes.rows = db.shareOutcomes.rows ++
        [{ outcome with id := m, shareId := n, createdAt := db.now }] ∧
      ShareRepository.insertShareAndOutcomeAtomic share outcome db =
        (.ok (some n, some m, true),
          { db with shares := shares, shareOutcomes := outcomes })) ∨
    ∃ s ∈ db.shares.rows, ∃ o ∈ db.shareOutcomes.rows,
      s.dedupeKey = share.dedupeKey ∧ o.dedupeKey = share.dedupeKey ∧
      ShareRepository.insertShareAndOutcomeAtomic share outcome db =
        (.ok (some s.id, some o.id, false), { db with
          shares := db.shares.burn, shareOutcomes := db.shareOutcomes.burn }) := by
  unfold ShareRepository.insertShareAndOutcomeAtomic
  obtain ⟨n, isNew, shares, hinsert, hshares⟩ :=
    Table.insertOrGet_cases db.shares share
  obtain ⟨m, isNew', outcomes, hinsert', houtcomes⟩ :=
    Table.insertOrGet_cases db.shareOutcomes
      { outcome with shareId := n, createdAt := db.now }
  rw [hinsert]
  dsimp only
  rw [hinsert']
  simp only [conflict_share] at hshares
  simp only [conflict_outcome] at houtcomes
  rcases hshares with ⟨rfl, hfree, _, hrows⟩ | ⟨rfl, ⟨s, hs, hskey, rfl⟩, rfl⟩ <;>
    rcases houtcomes with
      ⟨rfl, hfree', _, hrows'⟩ | ⟨rfl, ⟨o, ho, hokey, rfl⟩, rfl⟩
  · exact Or.inl ⟨n, m, shares, outcomes, hfree,
      fun o ho heq => hfree' o ho (heq.trans hkey.symm), hrows, hrows', rfl⟩
  · obtain ⟨s, ⟨hs, hskey⟩, _⟩ := h.outcome o ho
    exact absurd (hskey.trans (hokey.trans hkey)) (hfree s hs)
  · obtain ⟨o, ⟨ho, hokey⟩, _⟩ := h.share s hs
    exact absurd (hokey.trans (hskey.trans hkey.symm)) (hfree' o ho)
  · exact Or.inr ⟨s, hs, o, ho, hskey, hokey.trans hkey, rfl⟩

/-- A new pair. -/
theorem append (h : Paired db) {share : Share} {outcome : ShareOutcome}
    (hkey : outcome.dedupeKey = share.dedupeKey)
    (hworker : outcome.workerId = share.workerId)
    (hfree : ∀ s ∈ db.shares.rows, s.dedupeKey ≠ share.dedupeKey)
    (hfree' : ∀ o ∈ db.shareOutcomes.rows, o.dedupeKey ≠ share.dedupeKey)
    {n m : Nat} {db' : Database}
    (hrows : db'.shares.rows = db.shares.rows ++ [{ share with id := n }])
    (hrows' : db'.shareOutcomes.rows = db.shareOutcomes.rows ++
      [{ outcome with id := m, shareId := n, createdAt := db.now }]) :
    Paired db' := by
  refine of_exists ?_ ?_ ?_
  · intro s hs
    rw [hrows] at hs
    rw [hrows']
    rcases List.mem_append.1 hs with hs | hs
    · obtain ⟨o, ⟨ho, hokey⟩, _⟩ := h.share s hs
      exact ⟨o, List.mem_append_left _ ho, hokey⟩
    · rw [List.mem_singleton.1 hs]
      exact ⟨_, List.mem_append_right _ (List.mem_singleton.2 rfl), hkey⟩
  · intro o ho
    rw [hrows'] at ho
    rw [hrows]
    rcases List.mem_append.1 ho with ho | ho
    · obtain ⟨s, ⟨hs, hskey⟩, _⟩ := h.outcome o ho
      exact ⟨s, List.mem_append_left _ hs, hskey⟩
    · rw [List.mem_singleton.1 ho]
      exact ⟨_, List.mem_append_right _ (List.mem_singleton.2 rfl), hkey.symm⟩
  · intro s hs o ho heq
    rw [hrows] at hs
    rw [hrows'] at ho
    rcases List.mem_append.1 hs with hs | hs <;>
      rcases List.mem_append.1 ho with ho | ho
    · exact h.link s hs o ho heq
    · rw [List.mem_singleton.1 ho] at heq
      exact absurd (heq.symm.trans hkey) (hfree s hs)
    · rw [List.mem_singleton.1 hs] at heq
      exact absurd heq (hfree' o ho)
    · rw [List.mem_singleton.1 hs, List.mem_singleton.1 ho]
      exact ⟨rfl, hworker⟩

end Paired

/-! ## Events -/

/-- What the event of a pair says. -/
def pairEvent (s : Share) (o : ShareOutcome) : AccountingEvent where
  eventType := .shareOutcome
  status := .outcome o.status
  sessionId := some o.sessionId
  workerId := some o.workerId
  roundId := o.roundId
  templateId := some s.templateId
  templateEpoch := some s.templateEpoch
  jobId := some o.jobId
  blockHash := o.blockHash

/-- An event without its id and without the name of its worker. -/
def AccountingEvent.anonymous (e : AccountingEvent) : AccountingEvent :=
  { e with id := 0, workerName := none, payoutAddress := none }

/-- The events that the pairs of the tables should have. -/
def pairEvents (db : Database) : List AccountingEvent :=
  db.shareOutcomes.rows.filterMap fun o =>
    (db.shares.rows.find? (·.dedupeKey == o.dedupeKey)).map (pairEvent · o)

/-- The events of the audit log that are about shares. -/
def shareEvents (db : Database) : List AccountingEvent :=
  (db.accountingEvents.rows.filter (·.eventType == .shareOutcome)).map
    AccountingEvent.anonymous

theorem pairEvents_append {db db' : Database} (h : Paired db) {share : Share}
    {outcome : ShareOutcome} (hkey : outcome.dedupeKey = share.dedupeKey)
    (hfree : ∀ s ∈ db.shares.rows, s.dedupeKey ≠ share.dedupeKey) {n m : Nat}
    (hrows : db'.shares.rows = db.shares.rows ++ [{ share with id := n }])
    (hrows' : db'.shareOutcomes.rows = db.shareOutcomes.rows ++
      [{ outcome with id := m, shareId := n, createdAt := db.now }]) :
    pairEvents db' = pairEvents db ++ [pairEvent share outcome] := by
  unfold pairEvents
  rw [hrows', List.filterMap_append, hrows]
  congr 1
  · -- The share of an old outcome is found before the new one.
    refine List.filterMap_congr fun o ho => ?_
    obtain ⟨s, ⟨hs, hskey⟩, _⟩ := h.outcome o ho
    have hsome : (db.shares.rows.find? (·.dedupeKey == o.dedupeKey)).isSome := by
      rw [List.find?_isSome]
      exact ⟨s, hs, beq_iff_eq.2 hskey⟩
    rw [List.find?_append, Option.or_of_isSome hsome]
  · have hnone : db.shares.rows.find? (·.dedupeKey == outcome.dedupeKey) =
        none := by
      rw [List.find?_eq_none]
      intro s hs heq
      exact hfree s hs ((eq_of_beq heq).trans hkey)
    rw [List.filterMap_cons_some, List.filterMap_nil]
    rw [List.find?_append]
    dsimp only
    rw [hnone, Option.none_or, List.find?_singleton, hkey]
    simp [pairEvent]

/-! ## What a call owes -/

/-- The event that an operation makes due: it has written a new pair. -/
def pairOf : (o : Op) × o.Res → Option AccountingEvent
  | ⟨.db (.insertShareAndOutcomeAtomic s o), .ok (some _, some _, true)⟩ =>
    some (pairEvent s o)
  | _ => none

/-- The event about a share that an operation has written. -/
def eventOf : (o : Op) × o.Res → Option AccountingEvent
  | ⟨.db (.recordEvent e), .ok _⟩ =>
    if e.eventType = .shareOutcome then some e.anonymous else none
  | _ => none

/-- The statement of an operation has succeeded. -/
def succeeded : (o : Op) × o.Res → Bool
  | ⟨.db _, .error _⟩ => false
  | _ => true

/-- The events that a call still has to write. -/
def owed : Done → List AccountingEvent
  | [] => []
  | x :: done => (pairOf x).toList ++ (owed done).diff (eventOf x).toList

theorem owed_cons_of_none {x : (o : Op) × o.Res} {done : Done}
    (hpair : pairOf x = none) (hevent : eventOf x = none) :
    owed (x :: done) = owed done := by
  rw [owed, hpair, hevent]
  rfl

/-- An operation that has nothing to do with pairs. -/
def Op.unpaired (o : Op) : Prop :=
  ∀ r, pairOf ⟨o, r⟩ = none ∧ eventOf ⟨o, r⟩ = none

theorem unpaired_recordEvent {e : AccountingEvent}
    (h : e.eventType ≠ .shareOutcome) : (Op.db (.recordEvent e)).unpaired := by
  intro r
  cases r with
  | ok n => exact ⟨rfl, if_neg h⟩
  | error e => exact ⟨rfl, rfl⟩

/-- `record_share` writes only events that are due, and in the end it owes
none. -/
theorem recordShare_pays (a : ShareRecord) :
    (AccountingService.recordShare a).run.Paths
      (fun done o => ∀ r e, eventOf ⟨o, r⟩ = some e → e ∈ owed done)
      (fun _ done => (∀ x ∈ done, succeeded x = true) → owed done = []) [] := by
  refine Prog.paths_exceptBind (paths_db (fun r e he => by cases he) fun r => ?_)
  cases r with
  | error e => exact fun _ => rfl
  | ok worker =>
    refine Prog.paths_exceptBind ?_
    have hkeeps : Prog.Keeps
        (fun done o => ∀ r e, eventOf ⟨o, r⟩ = some e → e ∈ owed done)
        (fun done => owed done = [])
        (AccountingService.resolveRoundForTemplate a.templateId).run := by
      have honly : (AccountingService.resolveRoundForTemplate
          a.templateId).run.Only Op.unpaired :=
        only_resolveRoundForTemplate (fun _ => ⟨rfl, rfl⟩) (fun _ => ⟨rfl, rfl⟩)
          fun e he => unpaired_recordEvent (by rw [he]; nofun)
      refine honly.keeps ?_
      intro o done ho hdone
      refine ⟨fun r e he => ?_, fun r => ?_⟩
      · rw [(ho r).2] at he
        cases he
      · exact (owed_cons_of_none (ho r).1 (ho r).2).trans hdone
    refine Prog.paths_mono ?_ (hkeeps _ rfl)
    intro r done hdone
    cases r with
    | error e => exact fun _ => hdone
    | ok round =>
      refine Prog.paths_exceptBind (paths_db (fun r e he => by cases he)
        fun r => ?_)
      match r with
      | .error e =>
        exact fun _ => (owed_cons_of_none rfl rfl).trans hdone
      | .ok (shareId, outcomeId, isNew) =>
        refine Prog.paths_exceptBind ?_
        rw [run_runIf, run_discard]
        match shareId, outcomeId, isNew with
        | some n, some m, true =>
          -- The pair is new, and the next operation writes its event.
          have howed : owed (⟨.db (.insertShareAndOutcomeAtomic
              (a.share worker.id) (a.outcome worker.id round.id)),
              .ok (some n, some m, true)⟩ :: done) =
              [(a.event worker round.id).anonymous] := by
            rw [owed, hdone]
            rfl
          refine Prog.paths_bind (paths_db ?_ fun r => ?_)
          · intro r e he
            rw [howed]
            cases r with
            | ok k =>
              rw [← Option.some.inj he]
              exact List.mem_singleton.2 rfl
            | error e => cases he
          · cases r with
            | ok k =>
              intro _
              rw [owed, howed]
              simp [pairOf, eventOf, ShareRecord.event]
            | error e =>
              intro hall
              exact absurd (hall _ List.mem_cons_self) Bool.false_ne_true
        | none, _, true | some _, none, true =>
          exact fun _ => (owed_cons_of_none rfl rfl).trans hdone
        | shareId, outcomeId, false =>
          refine fun _ => (owed_cons_of_none ?_ rfl).trans hdone
          cases shareId <;> cases outcomeId <;> rfl

/-! ## The invariant -/

/-- What `record_share` performs. -/
def Op.records : Op → Prop
  | .db (.insertShareAndOutcomeAtomic s o) =>
    o.dedupeKey = s.dedupeKey ∧ o.workerId = s.workerId
  | .db (.upsert ..) | .db (.matchingRound _) | .db (.getOrCreateCurrentRound _)
  | .db (.recordEvent _) => True
  | _ => False

theorem AccountingRequest.body_records {request : AccountingRequest}
    (h : request.records) : request.body.Only Op.records := by
  cases request with
  | recordShare a =>
    refine only_dropResult (Prog.Only.exceptBind (only_db trivial)
      fun worker => ?_)
    refine Prog.Only.exceptBind ?_ fun round => ?_
    · refine Prog.Only.exceptBind ?_ fun x => ?_
      · refine Prog.Only.exceptBind (only_db trivial) fun r => ?_
        cases r with
        | some round => exact Prog.only_pure _
        | none => exact only_db trivial
      · refine Prog.Only.exceptBind (only_runIf_fallible
          (only_liftM (only_dropResult (only_db trivial)))) fun _ => ?_
        exact Prog.only_pure _
    · refine Prog.Only.exceptBind (only_db ⟨rfl, rfl⟩) fun x => ?_
      refine Prog.Only.exceptBind (only_runIf_fallible
        (only_discard (only_db trivial))) fun _ => ?_
      exact Prog.only_pure _
  | _ => exact h.elim

/-- All statements succeed. -/
def Succeeds (_ : CallWorld) : CallEntry → Prop
  | .did _ o r => succeeded ⟨o, r⟩ = true
  | _ => True

instance (w : CallWorld) (e : CallEntry) : Decidable (Succeeds w e) :=
  match e with
  | .did .. => inferInstanceAs (Decidable (_ = true))
  | .began .. | .env | .crashed => inferInstanceAs (Decidable True)

/-- The rows of the tables stay. -/
structure Grows (db db' : Database) : Prop where
  workers : ∀ w ∈ db.workers.rows, w ∈ db'.workers.rows
  shares : ∀ s ∈ db.shares.rows, s ∈ db'.shares.rows
  outcomes : ∀ o ∈ db.shareOutcomes.rows, o ∈ db'.shareOutcomes.rows
  rounds : ∀ r ∈ db.rounds.rows, r ∈ db'.rounds.rows

theorem Grows.refl (db : Database) : Grows db db :=
  ⟨fun _ h => h, fun _ h => h, fun _ h => h, fun _ h => h⟩

theorem DbOp.grows {d : DbOp} (h : (Op.db d).records) (db : Database) :
    Grows db (d.run db).2 := by
  cases d with
  | upsert payoutAddress workerSuffix =>
    obtain ⟨v, _, ⟨_, heq⟩ | ⟨_, workers, hrows, heq⟩⟩ :=
      WorkerRepository.upsert_rows payoutAddress workerSuffix db
    · simp only [DbOp.run, heq]
      exact ⟨fun _ h => h, fun _ h => h, fun _ h => h, fun _ h => h⟩
    · simp only [DbOp.run, heq]
      refine ⟨fun w hw => ?_, fun _ h => h, fun _ h => h, fun _ h => h⟩
      rw [hrows]
      exact List.mem_append_left _ hw
  | getOrCreateCurrentRound templateId =>
    rcases RoundRepository.getOrCreateCurrentRound_cases templateId db with
      ⟨_, _, _, heq⟩ | ⟨_, rounds, hrows, _, heq⟩
    · simp only [DbOp.run, heq]
      exact .refl db
    · simp only [DbOp.run, heq]
      refine ⟨fun _ h => h, fun _ h => h, fun _ h => h, fun r hr => ?_⟩
      rw [hrows]
      exact List.mem_append_left _ hr
  | insertShareAndOutcomeAtomic share outcome =>
    obtain ⟨_, _, _, _, _, _, heq, hshares, houtcomes⟩ :=
      ShareRepository.insertShareAndOutcomeAtomic_cases share outcome db
    simp only [DbOp.run, heq]
    refine ⟨fun _ h => h, fun s hs => ?_, fun o ho => ?_, fun _ h => h⟩
    · rcases hshares with ⟨_, _, _, hrows⟩ | ⟨_, _, rfl⟩
      · rw [hrows]
        exact List.mem_append_left _ hs
      · exact hs
    · rcases houtcomes with ⟨_, _, hrows⟩ | ⟨_, _, rfl⟩
      · rw [hrows]
        exact List.mem_append_left _ ho
      · exact ho
  | matchingRound templateId => exact .refl db
  | recordEvent e =>
    simp only [DbOp.run, AccountingEventRepository.recordEvent]
    split <;> exact ⟨fun _ h => h, fun _ h => h, fun _ h => h, fun _ h => h⟩
  | _ => exact h.elim

/-- What a call was told is still in the tables. -/
def AnswerKept (db : Database) : (o : Op) × o.Res → Prop
  | ⟨.db (.upsert payoutAddress workerSuffix), .ok w⟩ =>
    w ∈ db.workers.rows ∧ w.name = lookupName payoutAddress workerSuffix
  | ⟨.db (.insertShareAndOutcomeAtomic s o), .ok (some n, some m, _)⟩ =>
    (∃ x ∈ db.shares.rows, x.dedupeKey = s.dedupeKey ∧ x.id = n) ∧
      ∃ x ∈ db.shareOutcomes.rows, x.dedupeKey = o.dedupeKey ∧ x.id = m
  | ⟨.db (.matchingRound _), .ok (some round)⟩ => round ∈ db.rounds.rows
  | ⟨.db (.getOrCreateCurrentRound _), .ok (round, _)⟩ =>
    round ∈ db.rounds.rows
  | _ => True

theorem AnswerKept.grows {db db' : Database} (hgrows : Grows db db')
    {x : (o : Op) × o.Res} (h : AnswerKept db x) : AnswerKept db' x := by
  unfold AnswerKept at h ⊢
  split at h
  · exact ⟨hgrows.workers _ h.1, h.2⟩
  · obtain ⟨⟨s, hs, hskey⟩, o, ho, hokey⟩ := h
    exact ⟨⟨s, hgrows.shares s hs, hskey⟩, o, hgrows.outcomes o ho, hokey⟩
  · exact hgrows.rounds _ h
  · exact hgrows.rounds _ h
  · trivial

/-- The entries of a log, with their tasks, of which `f` gives something. -/
def told (f : (o : Op) × o.Res → Option AccountingEvent) :
    CallEntry → Option (Nat × AccountingEvent)
  | .did t o r => (f ⟨o, r⟩).map (t, ·)
  | _ => none

/-- What holds in every run of `record_share` calls whose statements
succeed. -/
structure Accounted (w : CallWorld) : Prop where
  paired : Paired w.shared
  opened : ∀ r ∈ w.shared.rounds.rows, r.status = .opened
  pairs : ((w.log.filterMap (told pairOf)).map Prod.snd).Perm
    (pairEvents w.shared)
  events : ((w.log.filterMap (told eventOf)).map Prod.snd).Perm
    (shareEvents w.shared)
  answers : ∀ t o r, .did t o r ∈ w.log →
    succeeded ⟨o, r⟩ = true ∧ AnswerKept w.shared ⟨o, r⟩

namespace Accounted

variable {w : CallWorld} {t : Nat}

theorem init (now : Nat) : Accounted ⟨initSchema now, []⟩ where
  paired := .of_exists (fun _ hs => (List.not_mem_nil hs).elim)
    (fun _ ho => (List.not_mem_nil ho).elim)
    (fun _ hs => (List.not_mem_nil hs).elim)
  opened _ hr := (List.not_mem_nil hr).elim
  pairs := .refl _
  events := .refl _
  answers _ _ _ h := (List.not_mem_nil h).elim

/-- A turn that writes neither a pair nor an event about one. -/
theorem quiet (h : Accounted w) {db : Database} {e : CallEntry}
    (hgrows : Grows w.shared db)
    (hshares : db.shares.rows = w.shared.shares.rows)
    (houtcomes : db.shareOutcomes.rows = w.shared.shareOutcomes.rows)
    (hevents : shareEvents db = shareEvents w.shared)
    (hopened : ∀ r ∈ db.rounds.rows, r.status = .opened)
    (hpair : told pairOf e = none) (hevent : told eventOf e = none)
    (hanswer : ∀ t o r, e = .did t o r →
      succeeded ⟨o, r⟩ = true ∧ AnswerKept db ⟨o, r⟩) :
    Accounted (w.after db e) := by
  refine ⟨h.paired.of_eq hshares houtcomes, hopened, ?_, ?_, ?_⟩
  · rw [World.after_log, World.after_shared, List.filterMap_cons_none hpair,
      pairEvents, hshares, houtcomes]
    exact h.pairs
  · rw [World.after_log, World.after_shared, List.filterMap_cons_none hevent,
      hevents]
    exact h.events
  · intro t o r hmem
    rcases List.mem_cons.1 hmem with heq | hold
    · exact hanswer t o r heq.symm
    · exact ⟨(h.answers t o r hold).1, (h.answers t o r hold).2.grows hgrows⟩

/-- A turn that leaves the database as it was. -/
theorem same (h : Accounted w) {e : CallEntry} (hpair : told pairOf e = none)
    (hevent : told eventOf e = none)
    (hanswer : ∀ t o r, e = .did t o r →
      succeeded ⟨o, r⟩ = true ∧ AnswerKept w.shared ⟨o, r⟩) :
    Accounted (w.after w.shared e) :=
  h.quiet (.refl _) rfl rfl rfl h.opened hpair hevent hanswer

theorem upsert (h : Accounted w) (payoutAddress : String)
    (workerSuffix : Option String) :
    Accounted (w.after
      ((DbOp.upsert payoutAddress workerSuffix).run w.shared).2
      (.did t (.db (.upsert payoutAddress workerSuffix))
        ((DbOp.upsert payoutAddress workerSuffix).run w.shared).1)) := by
  have hgrows := DbOp.grows (d := .upsert payoutAddress workerSuffix) trivial
    w.shared
  obtain ⟨v, hname, ⟨hv, heq⟩ | ⟨_, workers, hrows, heq⟩⟩ :=
    WorkerRepository.upsert_rows payoutAddress workerSuffix w.shared
  · simp only [DbOp.run, heq] at hgrows ⊢
    refine h.quiet hgrows rfl rfl rfl h.opened rfl rfl ?_
    rintro _ _ _ ⟨⟩
    exact ⟨rfl, hv, hname⟩
  · simp only [DbOp.run, heq] at hgrows ⊢
    refine h.quiet hgrows rfl rfl rfl h.opened rfl rfl ?_
    rintro _ _ _ ⟨⟩
    refine ⟨rfl, ?_, hname⟩
    rw [hrows]
    exact List.mem_append_right _ (List.mem_singleton.2 rfl)

theorem matchingRound (h : Accounted w) (templateId : Nat) :
    Accounted (w.after ((DbOp.matchingRound templateId).run w.shared).2
      (.did t (.db (.matchingRound templateId))
        ((DbOp.matchingRound templateId).run w.shared).1)) := by
  refine h.same rfl rfl ?_
  rintro _ _ _ ⟨⟩
  refine ⟨rfl, ?_⟩
  simp only [DbOp.run, RoundRepository.matchingRound]
  cases hmax : (w.shared.rounds.rows.filter fun r =>
      decide (RoundRepository.Covers templateId r)).argmax
        Round.startTemplateId with
  | none => exact trivial
  | some round => exact (List.mem_filter.1 (List.argmax_mem hmax)).1

theorem getOrCreateCurrentRound (h : Accounted w) (templateId : Nat) :
    Accounted (w.after
      ((DbOp.getOrCreateCurrentRound templateId).run w.shared).2
      (.did t (.db (.getOrCreateCurrentRound templateId))
        ((DbOp.getOrCreateCurrentRound templateId).run w.shared).1)) := by
  have hgrows := DbOp.grows (d := .getOrCreateCurrentRound templateId) trivial
    w.shared
  rcases RoundRepository.getOrCreateCurrentRound_cases templateId w.shared with
    ⟨round, hround, _, heq⟩ | ⟨_, rounds, hrows, _, heq⟩
  · simp only [DbOp.run, heq]
    refine h.same rfl rfl ?_
    rintro _ _ _ ⟨⟩
    exact ⟨rfl, hround⟩
  · simp only [DbOp.run, heq] at hgrows ⊢
    refine h.quiet hgrows rfl rfl rfl ?_ rfl rfl ?_
    · intro r hr
      rw [hrows] at hr
      rcases List.mem_append.1 hr with hr | hr
      · exact h.opened r hr
      · rw [List.mem_singleton.1 hr]
    · rintro _ _ _ ⟨⟩
      refine ⟨rfl, ?_⟩
      change _ ∈ rounds.rows
      rw [hrows]
      exact List.mem_append_right _ (List.mem_singleton.2 rfl)

theorem recordEvent (h : Accounted w) (e : AccountingEvent) :
    Accounted (w.after ((DbOp.recordEvent e).run w.shared).2
      (.did t (.db (.recordEvent e))
        ((DbOp.recordEvent e).run w.shared).1)) := by
  cases hins : w.shared.accountingEvents.insert e with
  | none =>
    -- Events have no unique column.
    obtain ⟨_, _, k, _, hkey⟩ := Table.insert_none hins
    cases hkey
  | some x =>
    obtain ⟨n, events⟩ := x
    obtain ⟨_, _, _, hrows⟩ := Table.insert_some hins
    simp only [DbOp.run, AccountingEventRepository.recordEvent, hins]
    refine ⟨h.paired.of_eq rfl rfl, h.opened, h.pairs, ?_, ?_⟩
    · rw [World.after_log, World.after_shared, shareEvents, hrows,
        List.filter_append, List.map_append]
      by_cases htype : e.eventType = .shareOutcome
      · have htold : told eventOf (.did t (.db (.recordEvent e)) (.ok n)) =
            some (t, e.anonymous) := by
          simp [told, eventOf, htype]
        have hnew : ([Record.withId n e].filter
            (·.eventType == .shareOutcome)).map AccountingEvent.anonymous =
              [e.anonymous] := by
          simp [Record.withId, htype, AccountingEvent.anonymous]
        rw [List.filterMap_cons_some htold, List.map_cons, hnew]
        exact (h.events.cons _).trans (List.perm_append_singleton _ _).symm
      · have htold : told eventOf (.did t (.db (.recordEvent e)) (.ok n)) =
            none := by
          simp [told, eventOf, htype]
        have hnew : ([Record.withId n e].filter
            (·.eventType == .shareOutcome)) = [] := by
          simp [Record.withId, htype]
        rw [List.filterMap_cons_none htold, hnew, List.map_nil, List.append_nil]
        exact h.events
    · intro u o r hmem
      rcases List.mem_cons.1 hmem with heq | hold
      · cases heq
        exact ⟨rfl, trivial⟩
      · exact ⟨(h.answers u o r hold).1, (h.answers u o r hold).2.grows
          ⟨fun _ h => h, fun _ h => h, fun _ h => h, fun _ h => h⟩⟩

theorem insert (h : Accounted w) {share : Share} {outcome : ShareOutcome}
    (hkey : outcome.dedupeKey = share.dedupeKey)
    (hworker : outcome.workerId = share.workerId) :
    Accounted (w.after
      ((DbOp.insertShareAndOutcomeAtomic share outcome).run w.shared).2
      (.did t (.db (.insertShareAndOutcomeAtomic share outcome))
        ((DbOp.insertShareAndOutcomeAtomic share outcome).run w.shared).1)) := by
  have hgrows := DbOp.grows (d := .insertShareAndOutcomeAtomic share outcome)
    ⟨hkey, hworker⟩ w.shared
  rcases h.paired.insert_cases hkey with
    ⟨n, m, shares, outcomes, hfree, hfree', hrows, hrows', heq⟩ |
    ⟨s, hs, o, ho, hskey, hokey, heq⟩
  · simp only [DbOp.run, heq] at hgrows ⊢
    have hevents : pairEvents { w.shared with
        shares := shares, shareOutcomes := outcomes } =
        pairEvents w.shared ++ [pairEvent share outcome] :=
      pairEvents_append h.paired hkey hfree hrows hrows'
    refine ⟨h.paired.append hkey hworker hfree hfree' hrows hrows', h.opened,
      ?_, h.events, ?_⟩
    · rw [World.after_shared, hevents]
      exact (h.pairs.cons _).trans (List.perm_append_singleton _ _).symm
    · intro u o r hmem
      rcases List.mem_cons.1 hmem with heq | hold
      · cases heq
        refine ⟨rfl, ⟨{ share with id := n }, ?_, rfl, rfl⟩,
          { outcome with id := m, shareId := n, createdAt := w.shared.now }, ?_,
          rfl, rfl⟩
        · rw [World.after_shared, hrows]
          exact List.mem_append_right _ (List.mem_singleton.2 rfl)
        · rw [World.after_shared, hrows']
          exact List.mem_append_right _ (List.mem_singleton.2 rfl)
      · exact ⟨(h.answers u o r hold).1,
          (h.answers u o r hold).2.grows hgrows⟩
  · simp only [DbOp.run, heq] at hgrows ⊢
    refine h.quiet hgrows rfl rfl rfl h.opened rfl rfl ?_
    rintro _ _ _ ⟨⟩
    exact ⟨rfl, ⟨s, hs, hskey, rfl⟩, o, ho, hokey.trans hkey.symm, rfl⟩

/-- A statement that succeeds. -/
theorem run (h : Accounted w) {d : DbOp} (hrecords : (Op.db d).records) :
    Accounted (w.after (d.run w.shared).2
      (.did t (.db d) (d.run w.shared).1)) := by
  cases d with
  | upsert payoutAddress workerSuffix => exact h.upsert payoutAddress workerSuffix
  | matchingRound templateId => exact h.matchingRound templateId
  | getOrCreateCurrentRound templateId =>
    exact h.getOrCreateCurrentRound templateId
  | recordEvent e => exact h.recordEvent e
  | insertShareAndOutcomeAtomic share outcome =>
    exact h.insert hrecords.1 hrecords.2
  | _ => exact hrecords.elim

end Accounted

section Runs

variable {c c' : CallConfig}

/-- Every operation of such a run is one of `record_share`. -/
theorem turns_records {ok : CallWorld → CallEntry → Prop} :
    (accounting AccountingRequest.records).Turns ok
      fun _ e => ∀ t o r, e = .did t o r → o.records :=
  Machine.turns_only (fun _ => Prog.only_pure _) fun hs => by
    obtain ⟨hrecords, rfl, _⟩ := hs
    exact AccountingRequest.body_records hrecords

theorem reach_accounted
    (h : (accounting AccountingRequest.records).Reach Succeeds c) :
    Accounted c.world := by
  refine (turns_records.reach h).invariant ?_ ?_ ?_ ?_ ?_
  · rintro _ ⟨now, rfl⟩
    exact .init now
  · intro w t o r s' hw hsem hok
    cases o with
    | db d =>
      rcases hsem with hrun | ⟨⟨e, rfl⟩, _⟩
      · have hr : r = (d.run w.shared).1 := congrArg Prod.fst hrun
        have hs : s' = (d.run w.shared).2 := congrArg Prod.snd hrun
        rw [hr, hs]
        exact hw.run (hok.2 t _ r rfl)
      · exact absurd hok.1 Bool.false_ne_true
    | _ => exact hsem.elim
  · intro w t k p s' hw hstart _
    obtain ⟨_, _, rfl⟩ := hstart
    refine hw.same rfl rfl fun _ _ _ heq => ?_
    cases heq
  · intro w s' hw henv _
    obtain ⟨now, rfl⟩ := henv
    refine hw.quiet ⟨fun _ h => h, fun _ h => h, fun _ h => h, fun _ h => h⟩
      rfl rfl rfl hw.opened rfl rfl fun _ _ _ heq => ?_
    cases heq
  · intro w s' _ hcrash
    exact hcrash.elim

/-! ### The events of the runs -/

/-- A call writes an event about a share only when it owes it. -/
def PaysDue (_ : Nat) (now : Option AccountingRequest × Done) (o : Op) :
    Prop :=
  ∀ r e, eventOf ⟨o, r⟩ = some e → e ∈ owed now.2

/-- A call whose statements have succeeded owes nothing in the end. -/
def OwesNothing (_ : Nat) (now : Option AccountingRequest × Done) : Prop :=
  (∀ x ∈ now.2, succeeded x = true) → owed now.2 = []

theorem boot_pays (t : Nat) : Follows PaysDue OwesNothing t (none, [])
    ((accounting AccountingRequest.records).boot t) :=
  fun _ => rfl

theorem start_pays {t : Nat} {request : AccountingRequest} {db db' : Database}
    {p : Body Unit}
    (h : (accounting AccountingRequest.records).start t request db p db') :
    Follows PaysDue OwesNothing t (some request, []) p := by
  obtain ⟨hrecords, rfl, _⟩ := h
  cases request with
  | recordShare a =>
    refine Prog.paths_bind (Prog.paths_mono ?_ (recordShare_pays a))
    exact fun _ _ hpaid => hpaid
  | _ => exact hrecords.elim

/-- What an entry of the task adds to what was told. -/
theorem count_told (f : (o : Op) × o.Res → Option AccountingEvent) (t : Nat)
    (o : Op) (r : o.Res) (log : List CallEntry) (e : AccountingEvent) :
    ((.did t o r :: log).filterMap (told f)).count (t, e) =
      (f ⟨o, r⟩).toList.count e + (log.filterMap (told f)).count (t, e) := by
  rw [List.filterMap_cons, told]
  cases f ⟨o, r⟩ with
  | none => simp
  | some e' =>
    rw [Option.map_some, List.count_cons, Option.toList_some,
      List.count_singleton, Nat.add_comm]
    simp

/-- An entry of another task adds nothing. -/
theorem count_told_of_ne (f : (o : Op) × o.Res → Option AccountingEvent)
    {t u : Nat} (htu : t ≠ u) (o : Op) (r : o.Res) (log : List CallEntry)
    (e : AccountingEvent) :
    ((.did u o r :: log).filterMap (told f)).count (t, e) =
      (log.filterMap (told f)).count (t, e) := by
  rw [List.filterMap_cons, told]
  cases f ⟨o, r⟩ with
  | none => rfl
  | some e' => simp [Ne.symm htu]

/-- What a task has done in its call has succeeded. -/
theorem current_succeeded
    (h : (accounting AccountingRequest.records).Reach Succeeds c) {t : Nat} :
    ∀ x ∈ (current t c.world.log).2, succeeded x = true :=
  fun _ hx => ((reach_accounted h).answers _ _ _ (mem_of_current hx)).1

/-- Every new pair has its event, or its call still owes it. -/
theorem reach_tally
    (h : (accounting AccountingRequest.records).Reach Succeeds c) (t : Nat)
    (e : AccountingEvent) :
    (c.world.log.filterMap (told pairOf)).count (t, e) =
      (owed (current t c.world.log).2).count e +
        (c.world.log.filterMap (told eventOf)).count (t, e) := by
  induction h with
  | init _ => rfl
  | @step c c' entry hc hok hstep ih =>
    have hfollow := Machine.turns_follow boot_pays start_pays hc hok hstep
    cases hstep with
    | @exec u o k r s' _ _ =>
      by_cases htu : t = u
      · subst htu
        rw [World.after_log, current_did, count_told, count_told, owed,
          List.count_append, List.count_diff, ih]
        -- An event that is written was due.
        have hdue : (eventOf ⟨o, r⟩).toList.count e ≤
            (owed (current t c.world.log).2).count e := by
          cases hevent : eventOf ⟨o, r⟩ with
          | none => exact Nat.zero_le _
          | some e' =>
            rw [Option.toList_some, List.count_singleton]
            split
            · rename_i heq
              rw [← eq_of_beq heq]
              exact List.count_pos_iff.2 (hfollow r e' hevent)
            · exact Nat.zero_le _
        omega
      · rw [World.after_log, current_did_of_ne htu, count_told_of_ne _ htu,
          count_told_of_ne _ htu, ih]
    | @begin u k p s' _ _ =>
      by_cases htu : t = u
      · subst htu
        have hpaid := hfollow (current_succeeded hc)
        rw [hpaid] at ih
        rw [World.after_log, current_began]
        exact ih
      · rw [World.after_log, current_began_of_ne htu]
        exact ih
    | env _ => exact ih
    | crash hcrash => exact hcrash.elim

/-- The events about shares are events of pairs, each at most once. -/
theorem reach_events_subperm
    (h : (accounting AccountingRequest.records).Reach Succeeds c) :
    (shareEvents c.world.shared).Subperm (pairEvents c.world.shared) := by
  have hinv := reach_accounted h
  have hsub : (c.world.log.filterMap (told eventOf)).Subperm
      (c.world.log.filterMap (told pairOf)) := by
    rw [List.subperm_ext_iff]
    rintro ⟨t, e⟩ _
    rw [reach_tally h t e]
    exact Nat.le_add_left _ _
  obtain ⟨l, hperm, hsublist⟩ := hsub
  have hmap : ((c.world.log.filterMap (told eventOf)).map Prod.snd).Subperm
      ((c.world.log.filterMap (told pairOf)).map Prod.snd) :=
    ⟨l.map Prod.snd, hperm.map _, hsublist.map _⟩
  exact hinv.events.symm.subperm.trans (hmap.trans hinv.pairs.subperm)

/-- When all calls have returned, each pair has its event. -/
theorem reach_events_perm
    (h : (accounting AccountingRequest.records).Reach Succeeds c)
    (hidle : ∀ t, c.task t = .ret ()) :
    (shareEvents c.world.shared).Perm (pairEvents c.world.shared) := by
  have hinv := reach_accounted h
  have hperm : (c.world.log.filterMap (told eventOf)).Perm
      (c.world.log.filterMap (told pairOf)) := by
    rw [List.perm_iff_count]
    rintro ⟨t, e⟩
    have hpaid := h.follows_idle boot_pays start_pays (hidle t)
      (current_succeeded h)
    rw [reach_tally h t e, hpaid, List.count_nil, Nat.zero_add]
  exact hinv.events.symm.trans ((hperm.map _).trans hinv.pairs)

end Runs

end StratumServer
