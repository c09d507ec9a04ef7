import StratumServer.Blocks.Rounds
import StratumServer.Payouts.Window
import StratumServer.Shares.Ledger

/-!
# The history of the outcomes

The query of `calculate_pplns_window` joins an outcome with its share, its
worker and its round, and goes by the column `created_at`.  `History` says what
it can count on: the three rows are there, and the outcomes stand in the table
in the order of their times.

That the round is there needs a look at `record_share`.  It looks the round up
in one section and stores the submission in a later one.  `StoresKnown` says
that it does so in this order, and rounds are never deleted.

`reach_history_of_outcomes` is the invariant over the runs of the server, and
`History.exists_entry` says that the query finds every outcome.
-/

namespace StratumServer

open Sql Tasks

/-! ## A submission is stored in a round that was looked up -/

/-- The operation stores a submission. -/
def Op.stores : Op → Bool
  | .db (.insertShareAndOutcomeAtomic ..) => true
  | _ => false

/-- One of these operations has found the round. -/
def RoundFound (done : Done) (id : Nat) : Prop :=
  ∃ x ∈ done, Stage.FindsRound x id

/-- A submission is stored in a round that was found before. -/
def StoresKnown (done : Done) : Op → Prop
  | .db (.insertShareAndOutcomeAtomic _ outcome) =>
    ∃ id, outcome.roundId = some id ∧ RoundFound done id
  | _ => True

theorem RoundFound.cons {done : Done} {id : Nat} (h : RoundFound done id)
    (x : (o : Op) × o.Res) : RoundFound (x :: done) id := by
  obtain ⟨y, hy, hfind⟩ := h
  exact ⟨y, List.mem_cons_of_mem _ hy, hfind⟩

theorem storesKnown_of_not {o : Op} (ho : o.stores = false) (done : Done) :
    StoresKnown done o := by
  cases o with
  | db d =>
    cases d with
    | insertShareAndOutcomeAtomic share outcome => cases ho
    | _ => trivial
  | _ => trivial

section Bodies

variable {suite : Suite} {α : Type}

/-- A program that stores nothing. -/
theorem paths_storesNot {p : Body α} (hp : p.Only (·.stores = false))
    (done : Done) : p.Paths StoresKnown (fun _ _ => True) done := by
  refine hp.keeps (fun o done ho _ => ?_) done trivial
  exact ⟨storesKnown_of_not ho done, fun _ => trivial⟩

namespace AccountingService

theorem findRound_found (templateId : Nat) (done : Done) :
    (findRound templateId).run.Paths StoresKnown
      (fun r done => ∀ x, r = .ok x → RoundFound done x.1.id) done := by
  refine Prog.paths_exceptBind (paths_db trivial fun r => ?_)
  match r with
  | .error e => exact fun _ => nofun
  | .ok (some round) =>
    rintro x ⟨⟩
    exact ⟨_, List.mem_cons_self, Or.inl ⟨templateId, round, rfl, rfl⟩⟩
  | .ok none =>
    refine paths_db trivial fun r => ?_
    rintro ⟨round, isNew⟩ rfl
    exact ⟨_, List.mem_cons_self,
      Or.inr ⟨templateId, round, isNew, rfl, rfl⟩⟩

/-- `resolve_round_for_template` finds the round that it returns. -/
theorem resolveRoundForTemplate_found (templateId : Nat) (done : Done) :
    (resolveRoundForTemplate templateId).run.Paths StoresKnown
      (fun r done => ∀ round, r = .ok round → RoundFound done round.id)
      done := by
  refine Prog.paths_exceptBind (Prog.paths_mono ?_
    (findRound_found templateId done))
  intro r done hfound
  cases r with
  | error e => exact fun _ => nofun
  | ok x =>
    have hevent : ∀ event, Prog.Keeps StoresKnown
        (fun done => RoundFound done x.1.id)
        (dropResult (db (.recordEvent event))) := by
      intro event
      refine keeps_dropResult (Prog.keeps_perform fun done h => ?_)
      exact ⟨trivial, fun _ => h.cons _⟩
    refine Prog.paths_exceptBind (Prog.paths_mono ?_
      (paths_runIf_liftM (hevent _) (hfound x rfl)))
    rintro _ done ⟨rfl, hdone⟩ round ⟨⟩
    exact hdone

theorem recordShare_storesKnown (a : ShareRecord) (done : Done) :
    (recordShare a).run.Paths StoresKnown (fun _ _ => True) done := by
  refine Prog.paths_exceptBind (paths_db trivial fun r => ?_)
  cases r with
  | error e => exact trivial
  | ok worker =>
    refine Prog.paths_exceptBind (Prog.paths_mono ?_
      (resolveRoundForTemplate_found a.templateId _))
    intro r done hfound
    cases r with
    | error e => exact trivial
    | ok round =>
      refine Prog.paths_exceptBind (paths_db ⟨round.id, rfl, hfound round rfl⟩
        fun r => ?_)
      cases r with
      | error e => exact trivial
      | ok result =>
        refine paths_storesNot (Prog.Only.exceptBind (only_runIf_fallible
          (only_discard (only_db rfl))) fun _ => ?_) _
        exact Prog.only_pure _

end AccountingService

theorem persistShare_storesKnown (session : SessionState) (p : SubmitParams)
    (j : Judgement) (done : Done) :
    (persistShare suite session p j).Paths StoresKnown (fun _ _ => True)
      done := by
  unfold persistShare
  split
  · exact trivial
  · refine Prog.paths_bind (Prog.paths_mono ?_
      (AccountingService.recordShare_storesKnown _ _))
    intro r done _
    cases r <;> exact trivial

theorem only_answerSubmit (i : Nat) (session : SessionState) (j : Judgement) :
    (answerSubmit i session j).Only (·.stores = false) := by
  unfold answerSubmit
  split
  · refine Prog.Only.bind (Prog.only_perform rfl) fun now => ?_
    split <;> exact Prog.only_perform rfl
  · exact Prog.only_perform rfl

theorem only_recordAcceptedBlock (job : MiningJob) (templateId : Nat)
    (builtHash : String) :
    (recordAcceptedBlock job templateId builtHash).Only (·.stores = false) := by
  refine Prog.Only.bind (only_resolveRoundForTemplate rfl rfl fun _ _ => rfl)
    fun r => ?_
  cases r with
  | error e => exact Prog.only_pure _
  | ok round =>
    refine Prog.Only.bind (only_dropResult ?_) fun _ => only_dropResult ?_
    · refine Prog.Only.exceptBind (only_db rfl) fun row => ?_
      exact Prog.Only.exceptBind
        (only_liftM (only_dropResult (only_db rfl))) fun _ => Prog.only_pure _
    · exact Prog.Only.exceptBind (only_db rfl) fun _ =>
        only_liftM (only_dropResult (only_db rfl))

theorem only_submitCandidate (job : MiningJob) (templateId : Nat)
    (blockHex builtHash dedupeKey : String) :
    (submitCandidate job templateId blockHex builtHash dedupeKey).Only
      (·.stores = false) := by
  refine Prog.Only.bind (Prog.only_perform rfl) fun r => ?_
  match r with
  | .ok none =>
    exact Prog.Only.bind (only_recordAcceptedBlock job templateId builtHash)
      fun _ => only_dropResult (only_db rfl)
  | .ok (some reason) => exact only_dropResult (only_db rfl)
  | .error e => exact Prog.only_pure _

theorem only_finishSubmit (i : Nat) (session : SessionState)
    (p : SubmitParams) (cachedJob : Option MiningJob) (j : Judgement)
    (dedupeKey : String) :
    (finishSubmit suite i session p cachedJob j dedupeKey).Only
      (·.stores = false) := by
  unfold finishSubmit
  split
  · split
    · exact only_answerSubmit i session j
    · split
      · exact Prog.Only.bind (only_submitCandidate _ _ _ _ _)
          fun _ => only_answerSubmit i session j
      · exact only_answerSubmit i session j
      · exact Prog.only_perform rfl
  · exact only_answerSubmit i session j

theorem handleSubmit_storesKnown (i : Nat) (session : SessionState)
    (p : SubmitParams) :
    (handleSubmit suite i session p).Paths StoresKnown (fun _ _ => True)
      [] := by
  unfold handleSubmit
  split
  · exact paths_storesNot (Prog.only_perform rfl) []
  · refine Prog.paths_bind (Prog.paths_perform trivial fun cachedJob => ?_)
    refine Prog.paths_bind (Prog.paths_mono ?_
      (persistShare_storesKnown session p _ _))
    intro key done _
    exact paths_storesNot (only_finishSubmit i session p _ _ key) done

end Bodies

section Runs

variable {suite : Suite} {data : ChainData} {config : ServerConfig}
  {ok : PoolWorld → PoolEntry → Prop}

/-- In every run, a session stores a submission in a round that it has
found. -/
theorem turns_storesKnown : (pool suite data config).Turns ok
    (Follow (fun t now o => t.isSession = true → StoresKnown now.2 o)
      (fun t _ => t.isSession = true → True)) := by
  have hsession : ∀ {t : Task} {now : Option Work × Done} {p : Body Unit},
      (t.isSession = true → p.Paths StoresKnown (fun _ _ => True) now.2) →
      Follows (fun t now o => t.isSession = true → StoresKnown now.2 o)
        (fun t _ => t.isSession = true → True) t now p :=
    fun h => follows_guard (fun _ now => StoresKnown now.2) (fun _ _ => True) h
  refine Machine.turns_follow (fun t => hsession fun ht => ?_) ?_
  · cases t with
    | session i => exact trivial
    | _ => cases ht
  · intro t k s p s' hstart
    refine hsession fun ht => ?_
    cases hstart with
    | submit => exact handleSubmit_storesKnown _ _ _
    | connect | subscribe | authorize | newJob | disconnect => exact trivial
    | _ => cases ht

/-- In every run, the rounds that a task has found are in the table. -/
theorem turns_roundFound : (pool suite data config).Turns ok fun w _ =>
    ∀ t id, RoundFound (current t w.log).2 id → w.shared.db.HasRound id := by
  intro c c' e h _ _ t id hfound
  obtain ⟨x, hx, hfind⟩ := hfound
  refine reach_answers (K := fun _ db x => ∀ id, Stage.FindsRound x id →
    db.HasRound id) ?_ ?_ ?_ (reach_grounded h) t x hx id hfind
  · intro w t u o r s' x hsem hok hx id hfind
    exact RoundsExist.hasRound_did hsem hok.2.2.1 (hx id hfind)
  · exact fun _ hx id hfind => hx id hfind
  · intro w t o r s' hsem hok id hfind
    exact RoundsExist.hasRound_found hsem hok.2.2.1 hfind

end Runs

/-! ## The invariant -/

/-- What a section can do to the outcomes: it leaves all of an outcome but the
answer of the node, or it adds one that it dates with the current time. -/
theorem DbOp.outcomes_cases (d : DbOp) (db : Database) :
    (∃ f : ShareOutcome → ShareOutcome,
      (d.run db).2.shareOutcomes.rows = db.shareOutcomes.rows.map f ∧
        ∀ o, (f o).createdAt = o.createdAt ∧ (f o).workerId = o.workerId ∧
          (f o).roundId = o.roundId) ∨
      ∃ share outcome o, d = .insertShareAndOutcomeAtomic share outcome ∧
        (d.run db).2.shareOutcomes.rows = db.shareOutcomes.rows ++ [o] ∧
        o.createdAt = db.now ∧ o.workerId = outcome.workerId ∧
        o.roundId = outcome.roundId := by
  cases d with
  | insertShareAndOutcomeAtomic share outcome =>
    obtain ⟨_, _, _, _, _, outcomes, hrun, _, houtcomes⟩ :=
      ShareRepository.insertShareAndOutcomeAtomic_cases share outcome db
    simp only [DbOp.run, hrun]
    rcases houtcomes with ⟨_, _, hrows⟩ | ⟨_, _, rfl⟩
    · exact Or.inr ⟨share, outcome, _, rfl, hrows, rfl, rfl, rfl⟩
    · exact Or.inl ⟨id, (List.map_id _).symm, fun _ => ⟨rfl, rfl, rfl⟩⟩
  | updateOutcomeNodeResult dedupeKey nodeResult =>
    refine Or.inl ⟨_, rfl, fun o => ?_⟩
    split_ifs <;> exact ⟨rfl, rfl, rfl⟩
  | _ =>
    rw [(DbOp.frame _ db).shareOutcomes rfl]
    exact Or.inl ⟨id, (List.map_id _).symm, fun _ => ⟨rfl, rfl, rfl⟩⟩

/-- The worker and the round of every outcome are in the tables, and the
outcomes stand in the order of their times. -/
structure History (db : Database) : Prop where
  worker : ∀ o ∈ db.shareOutcomes.rows, ∃ v ∈ db.workers.rows,
    v.id = o.workerId
  round : ∀ o ∈ db.shareOutcomes.rows, ∃ id, o.roundId = some id ∧
    db.HasRound id
  chronological : db.shareOutcomes.rows.Pairwise fun a b =>
    a.createdAt ≤ b.createdAt
  past : ∀ o ∈ db.shareOutcomes.rows, o.createdAt ≤ db.now

namespace History

variable {db : Database}

theorem new (now : Nat) : History (initSchema now) :=
  ⟨fun _ => nofun, fun _ => nofun, List.Pairwise.nil, fun _ => nofun⟩

/-- Time passes. -/
theorem later (h : History db) {now : Nat} (hnow : db.now ≤ now) :
    History { db with now } :=
  ⟨h.worker, h.round, h.chronological,
    fun o ho => (h.past o ho).trans hnow⟩

/-- A section keeps the history if it stores outcomes of workers and rounds
that are there. -/
theorem run (h : History db) {d : DbOp}
    (hrounds : ∀ id, db.HasRound id → (d.run db).2.HasRound id)
    (hnew : ∀ share outcome, d = .insertShareAndOutcomeAtomic share outcome →
      (∃ v ∈ db.workers.rows, v.id = outcome.workerId) ∧
        ∃ id, outcome.roundId = some id ∧ db.HasRound id) :
    History (d.run db).2 := by
  have hworkers : ∀ id, (∃ v ∈ db.workers.rows, v.id = id) →
      ∃ v ∈ (d.run db).2.workers.rows, v.id = id := by
    rintro id ⟨v, hv, hid⟩
    exact ⟨v, d.workers_forward hv, hid⟩
  have hnow : (d.run db).2.now = db.now := (d.frame db).now
  rcases d.outcomes_cases db with ⟨f, hrows, hf⟩ |
    ⟨share, outcome, o, hd, hrows, htime, hworker, hround⟩
  · refine ⟨?_, ?_, ?_, ?_⟩ <;> rw [hrows]
    · intro o' ho'
      obtain ⟨o, ho, rfl⟩ := List.mem_map.1 ho'
      rw [(hf o).2.1]
      exact hworkers _ (h.worker o ho)
    · intro o' ho'
      obtain ⟨o, ho, rfl⟩ := List.mem_map.1 ho'
      obtain ⟨id, hid, hround⟩ := h.round o ho
      exact ⟨id, (hf o).2.2.trans hid, hrounds id hround⟩
    · refine List.pairwise_map.2 (h.chronological.imp ?_)
      intro a b hab
      rw [(hf a).1, (hf b).1]
      exact hab
    · intro o' ho'
      obtain ⟨o, ho, rfl⟩ := List.mem_map.1 ho'
      rw [(hf o).1, hnow]
      exact h.past o ho
  · obtain ⟨hv, id, hid, hfound⟩ := hnew share outcome hd
    refine ⟨?_, ?_, ?_, ?_⟩ <;> rw [hrows]
    · intro o' ho'
      rcases List.mem_append.1 ho' with hold | hlast
      · exact hworkers _ (h.worker o' hold)
      · rw [List.mem_singleton.1 hlast, hworker]
        exact hworkers _ hv
    · intro o' ho'
      rcases List.mem_append.1 ho' with hold | hlast
      · obtain ⟨id', hid', hround'⟩ := h.round o' hold
        exact ⟨id', hid', hrounds id' hround'⟩
      · rw [List.mem_singleton.1 hlast]
        exact ⟨id, hround.trans hid, hrounds id hfound⟩
    · -- The new outcome has the current time, and no other is later.
      refine List.pairwise_append.2
        ⟨h.chronological, List.pairwise_singleton _ _, ?_⟩
      intro a ha b hb
      rw [List.mem_singleton.1 hb, htime]
      exact h.past a ha
    · intro o' ho'
      rw [hnow]
      rcases List.mem_append.1 ho' with hold | hlast
      · exact h.past o' hold
      · rw [List.mem_singleton.1 hlast, htime]

/-- A later outcome has a later time, or the same. -/
theorem createdAt_le (h : History db) {a b : ShareOutcome}
    (ha : a ∈ db.shareOutcomes.rows) (hb : b ∈ db.shareOutcomes.rows)
    (hid : a.id < b.id) : a.createdAt ≤ b.createdAt := by
  obtain ⟨i, hi, rfl⟩ := List.getElem_of_mem ha
  obtain ⟨j, hj, rfl⟩ := List.getElem_of_mem hb
  have hids := List.pairwise_iff_getElem.1 db.shareOutcomes.ids_lt
  rcases lt_trichotomy i j with hlt | rfl | hgt
  · exact List.pairwise_iff_getElem.1 h.chronological i j hi hj hlt
  · exact le_rfl
  · exact absurd (hids j i hj hi hgt) (not_lt.2 hid.le)

/-- The query finds every outcome. -/
theorem exists_entry (h : History db) (hledger : Ledger db) {o : ShareOutcome}
    (ho : o ∈ db.shareOutcomes.rows) : ∃ e, Joins db o e := by
  obtain ⟨s, hs, hsid, _⟩ := hledger.link o ho
  obtain ⟨v, hv, hvid⟩ := h.worker o ho
  obtain ⟨id, hid, r, hr, hrid⟩ := h.round o ho
  refine ⟨_, s, hs, v, hv, r, hr, hsid, hvid, ?_, rfl⟩
  rw [hid, hrid]

end History

/-- The invariant holds in every run. -/
theorem reach_history_of_outcomes {suite : Suite} {data : ChainData}
    {config : ServerConfig} {ok : PoolWorld → PoolEntry → Prop}
    {c : PoolConfig} (h : (pool suite data config).Reach ok c) :
    History c.world.shared.db := by
  refine Machine.Reach.invariant (I := fun w => History w.shared.db)
    ?_ ?_ ?_ ?_ ?_ (turns_roundFound.reach
      (turns_storesKnown.reach (reach_grounded h)))
  · rintro s ⟨now, chain, _, rfl⟩
    exact History.new now
  · rintro w t o r s' hw hsem ⟨⟨⟨_, hknown⟩, hstores⟩, hfound⟩
    have hby : o.by t = true := hknown.2.1
    rcases sem_database hsem with heq | ⟨d, rfl, hr, rfl⟩
    · rw [World.after_shared, heq]
      exact hw
    · refine hw.run (fun id hid => ?_) ?_
      · exact RoundsExist.hasRound_did hsem hby hid
      · rintro share outcome rfl
        obtain ⟨a, worker, roundId, hworker, _, _, _, rfl, _⟩ := hknown.2.2
        obtain ⟨id, hid, hround⟩ := hstores hby
        exact ⟨⟨worker, hworker, rfl⟩, id, hid, hfound t id hround⟩
  · intro w t k p s' hw hstart _
    rw [World.after_shared, start_database hstart]
    exact hw
  · rintro w s' hw (⟨now, hnow, rfl⟩ | ⟨_, chain, _, rfl⟩) _
    · exact hw.later hnow
    · exact hw
  · rintro w s' hw ⟨chain, _, rfl⟩ _
    exact hw

end StratumServer
