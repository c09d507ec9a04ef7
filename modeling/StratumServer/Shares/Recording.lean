import StratumServer.Shares.Submission

/-!
# The contract about stored submissions

From `record_share` on, a session knows that a row stands under the key of
its submission.  The contract `recording` carries this to the answer.

There are three groups.

* What a session may rely on.  `Later` collects what the other tasks, and
  the quiet operations of the session itself, leave as it was.
* The invariant `Recording` and the steps that keep it.  It knows where each
  accepted row comes from, and that all jobs with one id have one template.
* The rows of a submission.  `stored_of_new` and `stored_of_taken` say what
  stands under the key after the insertion.
-/

namespace StratumServer

open Sql Tasks

variable {suite : Suite} {data : ChainData} {config : ServerConfig}

/-! ## What a session may rely on -/

/-- What has not changed for session `i` from `w` to `w'`. -/
structure Later (i : Nat) (w w' : PoolWorld) : Prop where
  session : w'.shared.sessions i = w.shared.sessions i
  work : (current (.session i) w'.log).1 = (current (.session i) w.log).1
  judged : judgedJob (current (.session i) w'.log).2 =
    judgedJob (current (.session i) w.log).2
  isNew : (current (.session i) w'.log).2.any insertedNew =
    (current (.session i) w.log).2.any insertedNew
  succeed : StatementsSucceed (current (.session i) w'.log).2 →
    StatementsSucceed (current (.session i) w.log).2
  jobs : ∀ job ∈ insertedJobs w.log, job ∈ insertedJobs w'.log
  rows : w.shared.db.SharesStay w'.shared.db

theorem Later.refl (i : Nat) (w : PoolWorld) : Later i w w :=
  ⟨rfl, rfl, rfl, rfl, fun h => h, fun _ h => h, .of_eq rfl rfl rfl⟩

theorem Later.trans {i : Nat} {w₁ w₂ w₃ : PoolWorld} (h₁ : Later i w₁ w₂)
    (h₂ : Later i w₂ w₃) : Later i w₁ w₃ :=
  ⟨h₂.session.trans h₁.session, h₂.work.trans h₁.work,
    h₂.judged.trans h₁.judged, h₂.isNew.trans h₁.isNew,
    fun h => h₁.succeed (h₂.succeed h), fun job h => h₂.jobs job (h₁.jobs job h),
    h₁.rows.trans h₂.rows⟩

/-- A turn that leaves the session and what it has done as they are. -/
theorem Later.of_current {i : Nat} {w w' : PoolWorld}
    (hsession : w'.shared.sessions i = w.shared.sessions i)
    (hcurrent : current (.session i) w'.log = current (.session i) w.log)
    (hjobs : ∀ job ∈ insertedJobs w.log, job ∈ insertedJobs w'.log)
    (hrows : w.shared.db.SharesStay w'.shared.db) : Later i w w' := by
  refine ⟨hsession, ?_, ?_, ?_, ?_, hjobs, hrows⟩ <;> rw [hcurrent]
  exact fun h => h

theorem insertedJobs_cons {log : List PoolEntry} (e : PoolEntry) :
    ∀ job ∈ insertedJobs log, job ∈ insertedJobs (e :: log) := by
  intro job h
  unfold insertedJobs
  rw [List.filterMap_cons]
  split
  · exact h
  · exact List.mem_cons_of_mem _ h

/-- An operation keeps the submissions. -/
theorem sem_sharesStay {o : Op} {s s' : Pool} {r : o.Res}
    (h : (pool suite data config).sem o s r s') : s.db.SharesStay s'.db := by
  rcases sem_database h with heq | ⟨d, rfl, _, rfl⟩
  · rw [heq]
    exact .of_eq rfl rfl rfl
  · exact d.sharesStay s.db

/-- What another task does. -/
theorem Later.did_of_ne {i : Nat} {w : PoolWorld} {t : Task} {o : Op}
    {r : o.Res} {s' : Pool} (ht : Task.session i ≠ t) (hby : o.by t = true)
    (hsem : (pool suite data config).sem o w.shared r s') :
    Later i w (w.after s' (.did t o r)) := by
  refine .of_current ?_ (current_did_of_ne ht o r) (insertedJobs_cons _)
    (sem_sharesStay hsem)
  rw [World.after_shared]
  -- A session is only changed by its own task.
  rcases sem_sessions hsem with heq | ⟨j, st, resp, rfl, rfl⟩ | ⟨j, rfl, rfl⟩
  · rw [heq]
  · have hj : t = .session j := by simpa [Op.by] using hby
    have hne : i ≠ j := by
      rintro rfl
      exact ht hj.symm
    simp [Pool.setSession, hne]
  · have hj : t = .session j := by simpa [Op.by] using hby
    have hne : i ≠ j := by
      rintro rfl
      exact ht hj.symm
    simp [Pool.setSession, hne]

/-- The operations of `handle_submit` that are neither the lookup of the job
nor the insertion of the submission nor its end. -/
def Op.quiet : Op → Bool
  | .db (.insertShareAndOutcomeAtomic _ _) | .jobCacheGet _ | .respond ..
  | .closeSession _ => false
  | _ => true

theorem Later.did_quiet {i : Nat} {w : PoolWorld} {o : Op} {r : o.Res}
    {s' : Pool} (ho : o.quiet = true)
    (hsem : (pool suite data config).sem o w.shared r s') :
    Later i w (w.after s' (.did (.session i) o r)) := by
  refine ⟨?_, ?_, ?_, ?_, ?_, insertedJobs_cons _, sem_sharesStay hsem⟩
  · rw [World.after_shared]
    rcases sem_sessions hsem with heq | ⟨j, st, resp, rfl, _⟩ | ⟨j, rfl, _⟩
    · rw [heq]
    · cases ho
    · cases ho
  · rw [World.after_log, current_did]
  · rw [World.after_log, current_did, judgedJob, List.findSome?_cons]
    cases o with
    | jobCacheGet _ => cases ho
    | _ => rfl
  · rw [World.after_log, current_did, List.any_cons]
    cases o with
    | db d =>
      cases d with
      | insertShareAndOutcomeAtomic _ _ => cases ho
      | _ => rfl
    | _ => rfl
  · rw [World.after_log, current_did]
    exact fun h x hx => h x (List.mem_cons_of_mem _ hx)

/-! ## The contract -/

/-- What holds in every run about submissions, sessions and jobs. -/
structure Recording (suite : Suite) (w : PoolWorld) : Prop where
  ledger : Ledger w.shared.db
  workers : ∀ i st, w.shared.sessions i = some st →
    ∀ name ∈ st.authorizedWorkers,
      (parseWorkerName suite.isLotusAddress name).isSome
  cached : ∀ job ∈ w.shared.jobCache.cache, job ∈ insertedJobs w.log
  templates : ∀ a ∈ insertedJobs w.log, ∀ b ∈ insertedJobs w.log,
    a.jobId = b.jobId → a.SameTemplate b
  origin : ∀ o ∈ w.shared.db.shareOutcomes.rows, o.status = .accepted →
    ∀ s ∈ w.shared.db.shares.rows, o.shareId = s.id →
      ∃ job ∈ insertedJobs w.log, FromJob suite job s o

/-- The submission that session `i` is answering is stored. -/
def AnswerStored (suite : Suite) (w : PoolWorld) (i : Nat) : Prop :=
  StatementsSucceed (current (.session i) w.log).2 →
    ∃ x ∈ submissionOf suite w i, Stored suite w.shared.db
      ((current (.session i) w.log).2.any insertedNew) x

instance (suite : Suite) (w : PoolWorld) (i : Nat) :
    Decidable (AnswerStored suite w i) :=
  inferInstanceAs (Decidable (_ → ∃ _ ∈ _, _))

/-- What the operations of a session satisfy. -/
def Records.Guar (suite : Suite) (w : PoolWorld) : Op → Prop
  | .db (.insertShareAndOutcomeAtomic share outcome) =>
    outcome.status = .accepted →
      ∃ job ∈ insertedJobs w.log, FromJob suite job share outcome
  | .respond i st response =>
    (∀ name ∈ st.authorizedWorkers,
        (parseWorkerName suite.isLotusAddress name).isSome) ∧
      (response.result = some true → AnswerStored suite w i)
  | _ => True

/-- The contract about what is stored. -/
def recording (suite : Suite) (data : ChainData) (config : ServerConfig) :
    Contract (pool suite data config) where
  ok w e := OneTemplate w e ∧ (grounding suite data config).Known w e
  inv := Recording suite
  rely t w w' := ∀ i, t = .session i → Later i w w'
  guar w _ o _ := Records.Guar suite w o
  post _ _ := True

/-! ### The invariant -/

namespace Recording

variable {w : PoolWorld} {t : Task} {o : Op} {r : o.Res} {s' : Pool}

theorem workers_did (h : Recording suite w)
    (hsem : (pool suite data config).sem o w.shared r s')
    (hguar : Records.Guar suite w o) :
    ∀ i st, s'.sessions i = some st → ∀ name ∈ st.authorizedWorkers,
      (parseWorkerName suite.isLotusAddress name).isSome := by
  intro i st hst
  rcases sem_sessions hsem with heq | ⟨j, st', resp, rfl, rfl⟩ | ⟨j, rfl, rfl⟩
  · exact h.workers i st (heq ▸ hst)
  · by_cases hij : i = j
    · have hst' : st' = st := by simpa [Pool.setSession, hij] using hst
      exact hst' ▸ hguar.1
    · exact h.workers i st (by simpa [Pool.setSession, hij] using hst)
  · by_cases hij : i = j
    · simp [Pool.setSession, hij] at hst
    · exact h.workers i st (by simpa [Pool.setSession, hij] using hst)

theorem cached_did (h : Recording suite w)
    (hsem : (pool suite data config).sem o w.shared r s') :
    ∀ job ∈ s'.jobCache.cache, job ∈ insertedJobs (.did t o r :: w.log) := by
  intro job hjob
  rcases sem_jobCache hsem with heq | ⟨job', rfl, heq⟩
  · exact insertedJobs_cons _ job (h.cached job (heq ▸ hjob))
  · rw [heq] at hjob
    rcases JobCache.mem_insert hjob with hold | rfl
    · exact insertedJobs_cons _ job (h.cached job hold)
    · exact List.mem_cons_self

/-- A turn that the node's promise holds for. -/
theorem templates_cons (h : Recording suite w) {e : PoolEntry}
    (hok : OneTemplate w e) :
    ∀ a ∈ insertedJobs (e :: w.log), ∀ b ∈ insertedJobs (e :: w.log),
      a.jobId = b.jobId → a.SameTemplate b := by
  unfold insertedJobs
  rw [List.filterMap_cons]
  split
  · exact h.templates
  · rename_i job hjob
    intro a ha b hb hid
    rcases List.mem_cons.1 ha with rfl | hold <;>
      rcases List.mem_cons.1 hb with rfl | hold'
    · exact .refl _
    · exact (hok _ hjob b hold' hid.symm).symm
    · exact hok _ hjob a hold hid
    · exact h.templates a hold b hold' hid

/-- The origin of the rows of new tables. -/
theorem origin_of_rows (h : Recording suite w) {db : Database}
    {e : PoolEntry}
    (hshares : ∀ s ∈ db.shares.rows, s ∈ w.shared.db.shares.rows)
    (houtcomes : ∀ o ∈ db.shareOutcomes.rows,
      ∃ o' ∈ w.shared.db.shareOutcomes.rows, o'.shareId = o.shareId ∧
        o'.status = o.status ∧ o'.blockHash = o.blockHash) :
    ∀ o ∈ db.shareOutcomes.rows, o.status = .accepted →
      ∀ s ∈ db.shares.rows, o.shareId = s.id →
        ∃ job ∈ insertedJobs (e :: w.log), FromJob suite job s o := by
  intro o ho hstatus s hs hlink
  obtain ⟨o', ho', hid', hstatus', hhash'⟩ := houtcomes o ho
  obtain ⟨job, hjob, hfrom⟩ := h.origin o' ho' (hstatus'.trans hstatus) s
    (hshares s hs) (hid'.trans hlink)
  refine ⟨job, insertedJobs_cons _ job hjob, ?_⟩
  simpa only [FromJob, hhash'] using hfrom

theorem origin_run (h : Recording suite w) {d : DbOp} {e : PoolEntry}
    (hg : Grounded suite data w t (.db d))
    (hguar : Records.Guar suite w (.db d)) :
    ∀ o ∈ (d.run w.shared.db).2.shareOutcomes.rows, o.status = .accepted →
      ∀ s ∈ (d.run w.shared.db).2.shares.rows, o.shareId = s.id →
        ∃ job ∈ insertedJobs (e :: w.log), FromJob suite job s o := by
  cases d with
  | insertShareAndOutcomeAtomic share outcome =>
    obtain ⟨a, worker, roundId, _, _, _, rfl, rfl, _⟩ := hg.2
    have hkey : (a.share worker.id).dedupeKey =
      (a.outcome worker.id roundId).dedupeKey := rfl
    obtain ⟨_, outcomeId, _, _, hrows⟩ := h.ledger.insert_cases hkey rfl
    rcases hrows with ⟨_, _, hs, ho⟩ | ⟨_, _, hs, ho⟩
    · refine h.origin_of_rows ?_ ?_
      · rw [hs]
        exact fun _ h => h
      · rw [ho]
        exact fun o h => ⟨o, h, rfl, rfl, rfl⟩
    · rw [hs, ho]
      intro o ho hstatus s hs hlink
      -- A row of the submission and an older one have different ids.
      rcases List.mem_append.1 ho with hold | hnew <;>
        rcases List.mem_append.1 hs with hsold | hsnew
      · obtain ⟨job, hjob, hfrom⟩ := h.origin o hold hstatus s hsold hlink
        exact ⟨job, insertedJobs_cons _ job hjob, hfrom⟩
      · have hle := h.ledger.shareId_le hold
        rw [hlink, List.mem_singleton.1 hsnew] at hle
        exact absurd hle (Nat.not_succ_le_self _)
      · have hle := w.shared.db.shares.ids_le s hsold
        rw [List.mem_singleton.1 hnew] at hlink
        have hid : s.id = w.shared.db.shares.seq + 1 := hlink.symm
        have hle' : s.id ≤ w.shared.db.shares.seq := hle
        omega
      · rw [List.mem_singleton.1 hnew] at hstatus ⊢
        rw [List.mem_singleton.1 hsnew]
        obtain ⟨job, hjob, hfrom⟩ := hguar hstatus
        exact ⟨job, insertedJobs_cons _ job hjob, hfrom⟩
  | updateOutcomeNodeResult dedupeKey nodeResult =>
    refine h.origin_of_rows (fun _ h => h) ?_
    intro o' ho'
    obtain ⟨o, ho, rfl⟩ := List.mem_map.1 ho'
    refine ⟨o, ho, ?_⟩
    split_ifs <;> exact ⟨rfl, rfl, rfl⟩
  | _ =>
    refine h.origin_of_rows ?_ ?_
    · rw [(DbOp.frame _ w.shared.db).shares rfl]
      exact fun _ h => h
    · rw [(DbOp.frame _ w.shared.db).shareOutcomes rfl]
      exact fun o h => ⟨o, h, rfl, rfl, rfl⟩

theorem did (h : Recording suite w)
    (hsem : (pool suite data config).sem o w.shared r s')
    (hok : OneTemplate w (.did t o r)) (hg : Grounded suite data w t o)
    (hguar : Records.Guar suite w o) :
    Recording suite (w.after s' (.did t o r)) := by
  have hworkers := h.workers_did hsem hguar
  have hcached := h.cached_did (t := t) hsem
  have htemplates := h.templates_cons hok
  rcases sem_database hsem with heq | ⟨d, rfl, _, rfl⟩
  · refine ⟨?_, hworkers, hcached, htemplates, ?_⟩
    · exact h.ledger.congr (congrArg (·.shares.rows) heq)
        (congrArg (·.shareOutcomes.rows) heq)
    · rw [World.after_shared, heq]
      exact h.origin_of_rows (fun _ h => h) fun o h => ⟨o, h, rfl, rfl, rfl⟩
  · exact ⟨h.ledger.run hg, hworkers, hcached, htemplates,
      h.origin_run hg hguar⟩

theorem congr (h : Recording suite w) {w' : PoolWorld}
    (hshares : w'.shared.db.shares = w.shared.db.shares)
    (houtcomes : w'.shared.db.shareOutcomes = w.shared.db.shareOutcomes)
    (hworkers : ∀ i st, w'.shared.sessions i = some st →
      ∀ name ∈ st.authorizedWorkers,
        (parseWorkerName suite.isLotusAddress name).isSome)
    (hcache : ∀ job ∈ w'.shared.jobCache.cache, job ∈ w.shared.jobCache.cache)
    (hlog : insertedJobs w'.log = insertedJobs w.log) :
    Recording suite w' := by
  have hledger := h.ledger.congr (congrArg Table.rows hshares)
    (congrArg Table.rows houtcomes)
  refine ⟨hledger, hworkers, ?_, ?_, ?_⟩ <;> rw [hlog]
  · exact fun job hjob => h.cached job (hcache job hjob)
  · exact h.templates
  · rw [hshares, houtcomes]
    exact h.origin

end Recording

/-- Only names that parse are authorized. -/
theorem start_authorized {t : Task} {k : Work} {s s' : Pool} {m : Body Unit}
    (h : Start suite config t k s m s')
    (hs : ∀ i st, s.sessions i = some st → ∀ name ∈ st.authorizedWorkers,
      (parseWorkerName suite.isLotusAddress name).isSome) :
    ∀ i st, s'.sessions i = some st → ∀ name ∈ st.authorizedWorkers,
      (parseWorkerName suite.isLotusAddress name).isSome := by
  intro i st hst
  by_cases hi : Task.session i = t
  · cases h with
    | submit hst' => exact hs i st hst
    | connect _ _ hnew =>
      cases hi
      have hst' := Option.some.inj ((if_pos rfl).symm.trans hst)
      obtain ⟨vardiff, _, heq⟩ := Option.map_eq_some_iff.1 hnew
      rw [← hst', ← heq]
      exact fun _ => nofun
    | @subscribe _ _ st' hold =>
      cases hi
      have hst' := Option.some.inj ((if_pos rfl).symm.trans hst)
      rw [← hst']
      exact hs _ st' hold
    | @authorize _ _ st' worker hold =>
      cases hi
      have hst' := Option.some.inj ((if_pos rfl).symm.trans hst)
      rw [← hst']
      intro name hname
      rcases mem_authorizeSession suite hname with hold' | hparses
      · exact hs _ st' hold name hold'
      · exact hparses
    | @newJob _ _ st' job hold _ =>
      cases hi
      have hst' := Option.some.inj ((if_pos rfl).symm.trans hst)
      rw [← hst', receiveJob_authorizedWorkers]
      exact hs _ st' hold
    | disconnect =>
      cases hi
      have hnone := (if_pos rfl).symm.trans hst
      cases hnone
    | _ => cases hi
  · exact hs i st (start_sessions_of_ne h hi ▸ hst)

/-! ### The rows of a submission -/

/-- What `handle_submit` records for a submission. -/
def Submission.record (suite : Suite) (x : Submission) : ShareRecord :=
  shareRecord x.session x.params
    (judge suite x.session x.params (some x.job)) x.name

section Rows

variable {x : Submission} {worker : Worker} {roundId : Nat}
  (hx : (validateShare suite x.params x.session x.job).accepted = true)
  (haddress : worker.payoutAddress = x.name.payoutAddress)
  (hsuffix : worker.workerSuffix = x.name.workerSuffix)

include hx

theorem Submission.record_status : (x.record suite).status = .accepted := by
  simp [Submission.record, shareRecord, judge, hx]

include haddress hsuffix

/-- The new rows of a submission are its own. -/
theorem stored_of_new {db : Database} {n k now : Nat} {shares : List Share}
    {outcomes : List ShareOutcome} (hworker : worker ∈ db.workers.rows)
    (hshares : db.shares.rows =
      shares ++ [{ (x.record suite).share worker.id with id := n }])
    (houtcomes : db.shareOutcomes.rows =
      outcomes ++ [{ (x.record suite).outcome worker.id roundId with
        id := k, shareId := n, createdAt := now }]) :
    Stored suite db true x := by
  have hlast : ∀ {α : Type} {l l' : List α} {a : α}, l = l' ++ [a] → a ∈ l := by
    rintro α _ l' a rfl
    simp
  refine ⟨_, hlast hshares, _, hlast houtcomes, ⟨rfl, worker, hworker, haddress, hsuffix, rfl, rfl⟩, ?_⟩
  intro _
  exact ⟨Submission.record_status hx, rfl, rfl, rfl, rfl, rfl, rfl⟩

/-- The rows under a key that is taken. -/
theorem stored_of_taken {w : PoolWorld} (h : Recording suite w)
    (hknown : x.job ∈ insertedJobs w.log)
    (hjobId : x.job.jobId = x.params.jobId)
    (hworker : worker ∈ w.shared.db.workers.rows) {o : ShareOutcome}
    (ho : o ∈ w.shared.db.shareOutcomes.rows)
    (hkey : o.dedupeKey =
      ((x.record suite).outcome worker.id roundId).dedupeKey) :
    Stored suite w.shared.db false x := by
  obtain ⟨s, hs, hlink, hskey, _⟩ := h.ledger.link o ho
  have hskey' : s.dedupeKey = x.dedupeKey worker.id := hskey.trans hkey
  have hworkerId : s.workerId = worker.id := by
    have hinj := hskey'
    rw [h.ledger.key s hs] at hinj
    exact Int.ofNat_inj.1 (ShareRepository.buildDedupeKey_inj hinj).1
  refine ⟨s, hs, o, ho, ⟨hlink.symm, worker, hworker, haddress, hsuffix,
    hworkerId, hskey'⟩, ?_⟩
  rintro (hnew | ⟨haccepted, hextranonce1⟩)
  · cases hnew
  · obtain ⟨job, hjob, hfrom⟩ :=
      h.origin o ho haccepted s hs hlink.symm
    exact records_of_accepted h.ledger hs ho hlink.symm hskey' haccepted
      hextranonce1 hfrom (h.templates job hjob x.job hknown) hjobId.symm hx

end Rows

end StratumServer
