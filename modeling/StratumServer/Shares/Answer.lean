import StratumServer.Shares.Recording
import StratumServer.System.Simulation

/-!
# What stands in the tables when a submission is answered

`handle_submit` answers `true` after it has recorded the submission.
`answer_stored` says which rows the tables hold at that moment, in every run
and whatever the other sessions have stored before.  A submission whose
dedupe key is taken leaves nothing behind; `answersRecorded_fails` is a run
in which accepted work is dropped that way.

The bodies of `handle_submit` meet the contract `recording`, one lemma for
each.  `KeptLater` is knowledge that stays while the session goes on.
-/

namespace StratumServer

open Sql Tasks

variable {suite : Suite} {data : ChainData} {config : ServerConfig}

/-! ## What a session knows -/

/-- Session `i` is handling the request `p`, and the cache has answered. -/
structure InSubmit (i : Nat) (session : SessionState) (p : SubmitParams)
    (cachedJob : Option MiningJob) (w : PoolWorld) : Prop where
  session : w.shared.sessions i = some session
  work : (current (.session i) w.log).1 = some (.submit p)
  judged : judgedJob (current (.session i) w.log).2 = cachedJob
  known : ∀ job, cachedJob = some job →
    job ∈ insertedJobs w.log ∧ job.jobId = p.jobId

/-- Some statement of the current work of session `i` was refused. -/
def SomeRefused (i : Nat) (w : PoolWorld) : Prop :=
  ¬ StatementsSucceed (current (.session i) w.log).2

/-- Knowledge that stays for session `i`. -/
def KeptLater (i : Nat) (J : PoolWorld → Prop) : Prop :=
  ∀ w w' : PoolWorld, Later i w w' → J w → J w'

section Bodies

variable {i : Nat} {session : SessionState} {p : SubmitParams}
  {cachedJob : Option MiningJob} {J K : PoolWorld → Prop}

theorem keptLater_inSubmit : KeptLater i (InSubmit i session p cachedJob) := by
  intro w w' hlater h
  refine ⟨hlater.session.trans h.session, hlater.work.trans h.work,
    hlater.judged.trans h.judged, fun job hjob => ?_⟩
  obtain ⟨hknown, hid⟩ := h.known job hjob
  exact ⟨hlater.jobs job hknown, hid⟩

theorem keptLater_someRefused : KeptLater i (SomeRefused i) :=
  fun _ _ hlater h hsucceed => h (hlater.succeed hsucceed)

theorem keptLater_answerStored :
    KeptLater i fun w => AnswerStored suite w i := by
  intro w w' hlater h hsucceed
  obtain ⟨x, hx, hstored⟩ := h (hlater.succeed hsucceed)
  refine ⟨x, ?_, ?_⟩
  · unfold submissionOf at hx ⊢
    rw [hlater.session, hlater.work, hlater.judged]
    exact hx
  · rw [hlater.isNew]
    exact hstored.stay hlater.rows

theorem KeptLater.and (hJ : KeptLater i J) (hK : KeptLater i K) :
    KeptLater i fun w => J w ∧ K w :=
  fun w w' hlater h => ⟨hJ w w' hlater h.1, hK w w' hlater h.2⟩

theorem KeptLater.stable (hJ : KeptLater i J) :
    (recording suite data config).Stable (.session i) J :=
  ⟨fun w j _ => .refl j w, fun hrely _ h => hJ _ _ (hrely i rfl) h⟩

theorem recording_refl (t : Task) (w : PoolWorld) :
    (recording suite data config).rely t w w :=
  fun j _ => .refl j w

theorem Records.guar_quiet {w : PoolWorld} {o : Op} (ho : o.quiet = true) :
    Records.Guar suite w o := by
  cases o with
  | db d =>
    cases d with
    | insertShareAndOutcomeAtomic _ _ => cases ho
    | _ => trivial
  | respond _ _ _ => cases ho
  | _ => trivial

/-- The rule for a quiet operation. -/
theorem safe_quiet (hJ : KeptLater i J) {o : Op} (ho : o.quiet = true) :
    (recording suite data config).Safe (.session i) J (Prog.perform o) := by
  refine Contract.safe_perform hJ.stable ?_
  intro w r s' h _ hsem _
  exact ⟨Records.guar_quiet ho, hJ _ _ (.did_quiet ho hsem) h⟩

/-- The result of a fallible body that keeps `J`: when it is an error, a
statement was refused. -/
def KeepsOrRefused (i : Nat) (J : PoolWorld → Prop) {α : Type}
    (r : Except Error α) (w : PoolWorld) : Prop :=
  J w ∧ ∀ e, r = .error e → SomeRefused i w

/-- The rule for a quiet section. -/
theorem quietSection_wp (hJ : KeptLater i J) {d : DbOp}
    (hd : (Op.db d).quiet = true) {w : PoolWorld} (h : J w) :
    (recording suite data config).wp (.session i) (db d).run
      (KeepsOrRefused i J) w := by
  refine Contract.wp_perform ?_
  intro w₁ hrely₁ _ r s₁ hsem₁ _
  refine ⟨Records.guar_quiet hd, fun w₂ hrely₂ _ => ?_⟩
  have hlater := hrely₂ i rfl
  refine ⟨hJ _ _ hlater (hJ _ _ (.did_quiet hd hsem₁)
    (hJ _ _ (hrely₁ i rfl) h)), ?_⟩
  rintro e rfl
  refine keptLater_someRefused _ _ hlater ?_
  intro hsucceed
  rw [World.after_log, current_did] at hsucceed
  have hrefused := hsucceed _ List.mem_cons_self
  cases hrefused

/-- The rule for a fallible body that goes on from such a result. -/
theorem wp_bind_keepsOrRefused {α β : Type} {f : α → Fallible β}
    {m : Fallible α} {Q : Except Error β → PoolWorld → Prop} {w : PoolWorld}
    (hQ : ∀ e, KeptLater i (Q (.error e)))
    (hm : (recording suite data config).wp (.session i) m.run
      (KeepsOrRefused i J) w)
    (herror : ∀ e w, J w → SomeRefused i w → Q (.error e) w)
    (hf : ∀ a w, J w →
      (recording suite data config).wp (.session i) (f a).run Q w) :
    (recording suite data config).wp (.session i) (m >>= f).run Q w := by
  refine Contract.wp_exceptBind (recording_refl _) (Contract.wp_mono ?_ hm)
  rintro r w₁ _ ⟨h₁, hrefused⟩
  cases r with
  | ok a => exact hf a w₁ h₁
  | error e =>
    intro w₂ hrely _
    exact hQ e _ _ (hrely i rfl) (herror e w₁ h₁ (hrefused e rfl))

namespace AccountingService

theorem resolveRoundForTemplate_keeps (hJ : KeptLater i J) (templateId : Nat)
    {w : PoolWorld} (h : J w) :
    (recording suite data config).wp (.session i)
      (resolveRoundForTemplate templateId).run (KeepsOrRefused i J) w := by
  have hkept : ∀ {α : Type} (e : Error),
      KeptLater i (KeepsOrRefused i J (.error e : Except Error α)) :=
    fun e w w' hlater h => ⟨hJ _ _ hlater h.1, fun e' he =>
      keptLater_someRefused _ _ hlater (h.2 e' he)⟩
  have hpure : ∀ {α : Type} (a : α) w, J w →
      (recording suite data config).wp (.session i)
        (pure (.ok a) : Body (Except Error α)) (KeepsOrRefused i J) w := by
    intro α a w h w' hrely _
    exact ⟨hJ _ _ (hrely i rfl) h, by intro e he; cases he⟩
  refine wp_bind_keepsOrRefused (J := J) hkept ?_
    (fun e w h hrefused => ⟨h, fun _ _ => hrefused⟩) ?_
  · refine wp_bind_keepsOrRefused (J := J) hkept
      (quietSection_wp hJ rfl h) (fun e w h hrefused => ⟨h, fun _ _ => hrefused⟩)
      fun r w₁ h₁ => ?_
    cases r with
    | some round => exact hpure _ w₁ h₁
    | none => exact quietSection_wp hJ rfl h₁
  · intro r w₁ h₁
    refine wp_bind_keepsOrRefused (J := J) hkept ?_
      (fun e w h hrefused => ⟨h, fun _ _ => hrefused⟩)
      fun _ w₂ h₂ => hpure _ w₂ h₂
    cases r.2 with
    | false => exact hpure _ w₁ h₁
    | true =>
      refine wp_liftM (recording_refl _) (Contract.wp_mono ?_
        (safe_dropResult hJ.stable (safe_quiet hJ rfl) w₁ h₁))
      exact fun _ w₂ _ h₂ => hpure _ w₂ h₂

end AccountingService

/-- No submission has been stored in the current work of session `i`. -/
def NothingStored (i : Nat) (w : PoolWorld) : Prop :=
  (current (.session i) w.log).2.any insertedNew = false

theorem keptLater_nothingStored : KeptLater i (NothingStored i) :=
  fun _ _ hlater h => hlater.isNew.trans h

/-- The row of the worker that a request names. -/
def WorkerRow (name : WorkerName) (worker : Worker) (w : PoolWorld) : Prop :=
  worker ∈ w.shared.db.workers.rows ∧
    worker.payoutAddress = name.payoutAddress ∧
    worker.workerSuffix = name.workerSuffix

theorem keptLater_workerRow (name : WorkerName) (worker : Worker) :
    KeptLater i (WorkerRow name worker) :=
  fun _ _ hlater h => ⟨hlater.rows.workers worker h.1, h.2⟩

/-- What session `i` knows once its request has been recorded. -/
def Answerable (suite : Suite) (i : Nat) (session : SessionState)
    (p : SubmitParams) (cachedJob : Option MiningJob) (w : PoolWorld) : Prop :=
  InSubmit i session p cachedJob w ∧
    ((judge suite session p cachedJob).validation.accepted = true →
      AnswerStored suite w i)

theorem keptLater_answerable :
    KeptLater i (Answerable suite i session p cachedJob) :=
  fun _ _ hlater h => ⟨keptLater_inSubmit _ _ hlater h.1, fun haccepted =>
    keptLater_answerStored _ _ hlater (h.2 haccepted)⟩

/-- After a refused statement nothing is promised. -/
theorem answerable_of_refused {w : PoolWorld}
    (h : InSubmit i session p cachedJob w) (hrefused : SomeRefused i w) :
    Answerable suite i session p cachedJob w :=
  ⟨h, fun _ hsucceed => absurd hsucceed hrefused⟩

theorem submissionOf_inSubmit {name : WorkerName} {job : MiningJob}
    {w : PoolWorld} (h : InSubmit i session p (some job) w)
    (hname : parseWorkerName suite.isLotusAddress p.workerName = some name) :
    submissionOf suite w i = some ⟨p, session, job, name⟩ := by
  simp [submissionOf, h.session, h.work, h.judged, hname]

/-- The insertion keeps what the session is about. -/
theorem InSubmit.insert {w : PoolWorld} {share : Share}
    {outcome : ShareOutcome} {r : Except Error _} {s' : Pool}
    (h : InSubmit i session p cachedJob w)
    (hsem : (pool suite data config).sem
      (.db (.insertShareAndOutcomeAtomic share outcome)) w.shared r s') :
    InSubmit i session p cachedJob (w.after s'
      (.did (.session i) (.db (.insertShareAndOutcomeAtomic share outcome))
        r)) := by
  refine ⟨?_, ?_, ?_, fun job hjob => ?_⟩
  · rcases sem_sessions hsem with heq | ⟨_, _, _, ho, _⟩ | ⟨_, ho, _⟩
    · rw [World.after_shared, heq]
      exact h.session
    · cases ho
    · cases ho
  · rw [World.after_log, current_did]
    exact h.work
  · rw [World.after_log, current_did]
    exact h.judged
  · obtain ⟨hknown, hid⟩ := h.known job hjob
    exact ⟨insertedJobs_cons _ job hknown, hid⟩

theorem shareRecord_accepted {j : Judgement} {name : WorkerName}
    (h : (shareRecord session p j name).status = .accepted) :
    j.validation.accepted = true := by
  by_contra hrejected
  simp [shareRecord, hrejected] at h

/-- The insertion of a submission leaves a row under its key. -/
theorem insertShare_wp {name : WorkerName} {worker : Worker} {roundId : Nat}
    {w : PoolWorld}
    (hname : parseWorkerName suite.isLotusAddress p.workerName = some name)
    (h : (InSubmit i session p cachedJob w ∧ NothingStored i w) ∧
      WorkerRow name worker w) :
    let a := shareRecord session p (judge suite session p cachedJob) name
    (recording suite data config).wp (.session i)
      (db (.insertShareAndOutcomeAtomic (a.share worker.id)
        (a.outcome worker.id roundId))).run
      (fun _ => Answerable suite i session p cachedJob) w := by
  intro a
  have hkept : KeptLater i (InSubmit i session p cachedJob) :=
    keptLater_inSubmit
  have hJ := (hkept.and keptLater_nothingStored).and
    (keptLater_workerRow name worker)
  refine Contract.wp_perform ?_
  intro w₁ hrely₁ hinv₁ r s₁ hsem₁ _
  obtain ⟨⟨hin, hnothing⟩, hworker, haddress, hsuffix⟩ :=
    hJ _ _ (hrely₁ i rfl) h
  refine ⟨?_, fun w₂ hrely₂ _ => keptLater_answerable _ _ (hrely₂ i rfl)
    ⟨hin.insert hsem₁, ?_⟩⟩
  · intro (hstatus : a.status = .accepted)
    have haccepted := shareRecord_accepted hstatus
    obtain ⟨job, rfl, _⟩ := judge_accepted suite haccepted
    obtain ⟨hknown, hid⟩ := hin.known job rfl
    exact ⟨job, hknown, p, session, hid.symm, rfl, rfl, rfl, rfl, rfl,
      haccepted, rfl⟩
  · intro haccepted hsucceed
    obtain ⟨job, rfl, _⟩ := judge_accepted suite haccepted
    obtain ⟨hknown, hid⟩ := hin.known job rfl
    refine ⟨⟨p, session, job, name⟩,
      submissionOf_inSubmit (hin.insert hsem₁) hname, ?_⟩
    rw [World.after_log, current_did] at hsucceed ⊢
    rw [List.any_cons, hnothing, Bool.or_false]
    rcases sem_db hsem₁ with ⟨hr, rfl⟩ | ⟨⟨e, rfl⟩, _⟩
    · have hkeys : (a.share worker.id).dedupeKey =
        (a.outcome worker.id roundId).dedupeKey := rfl
      obtain ⟨shareId, outcomeId, isNew, hresult, hrows⟩ :=
        hinv₁.ledger.insert_cases hkeys rfl
      rw [hr, hresult]
      have hworker' := (DbOp.insertShareAndOutcomeAtomic (a.share worker.id)
        (a.outcome worker.id roundId)).workers_forward hworker
      rcases hrows with ⟨rfl, ⟨o, ho, hkey⟩, hshares, houtcomes⟩ |
        ⟨rfl, _, hshares, houtcomes⟩
      · have hstored := stored_of_taken (x := ⟨p, session, job, name⟩)
          haccepted haddress hsuffix hinv₁ hknown hid hworker ho hkey
        refine hstored.stay ⟨fun _ => DbOp.workers_forward _, ?_, ?_⟩
        · rw [World.after_shared, hshares]
          exact fun _ h => h
        · rw [World.after_shared, houtcomes]
          exact fun o h => ⟨o, h, rfl, rfl, rfl⟩
      · exact stored_of_new (x := ⟨p, session, job, name⟩) haccepted haddress
          hsuffix hworker' hshares houtcomes
    · have hrefused := hsucceed _ List.mem_cons_self
      cases hrefused

theorem recordShare_answerable {name : WorkerName} {w : PoolWorld}
    (hname : parseWorkerName suite.isLotusAddress p.workerName = some name)
    (h : InSubmit i session p cachedJob w ∧ NothingStored i w) :
    (recording suite data config).wp (.session i)
      (AccountingService.recordShare (shareRecord session p
        (judge suite session p cachedJob) name)).run
      (fun _ => Answerable suite i session p cachedJob) w := by
  have hin : KeptLater i (InSubmit i session p cachedJob) := keptLater_inSubmit
  have hJ := hin.and keptLater_nothingStored
  have hanswerable : KeptLater i (Answerable suite i session p cachedJob) :=
    keptLater_answerable
  -- The row that `upsert` returns is there when the share is stored.
  refine Contract.wp_exceptBind (recording_refl _) (Contract.wp_perform ?_)
  intro w₁ hrely₁ _ r s₁ hsem₁ _
  have h₁ := hJ _ _ (.did_quiet rfl hsem₁) (hJ _ _ (hrely₁ i rfl) h)
  refine ⟨trivial, fun w₂ hrely₂ _ => ?_⟩
  have h₂ := hJ _ _ (hrely₂ i rfl) h₁
  cases r with
  | error e =>
    intro w₃ hrely₃ _
    refine hanswerable _ _ (hrely₃ i rfl) (answerable_of_refused h₂.1 ?_)
    refine keptLater_someRefused _ _ (hrely₂ i rfl) fun hsucceed => ?_
    rw [World.after_log, current_did] at hsucceed
    have hrefused := hsucceed _ List.mem_cons_self
    cases hrefused
  | ok worker =>
    have hrow : WorkerRow name worker w₂ := by
      refine keptLater_workerRow name worker _ _ (hrely₂ i rfl) ?_
      obtain ⟨v, workers, hrun, haddress, hsuffix, hmem, _⟩ :=
        WorkerRepository.upsert_cases name.payoutAddress name.workerSuffix
          w₁.shared.db
      rcases sem_db hsem₁ with ⟨hr, rfl⟩ | ⟨⟨e, he⟩, _⟩
      · simp only [DbOp.run, shareRecord, hrun] at hr
        cases hr
        refine ⟨?_, haddress, hsuffix.trans (parseWorkerName_suffix hname)⟩
        simpa only [World.after_shared, DbOp.run, shareRecord, hrun] using hmem
      · cases he
    have hJ₂ := hJ.and (keptLater_workerRow name worker)
    refine wp_bind_keepsOrRefused (fun _ => hanswerable)
      (AccountingService.resolveRoundForTemplate_keeps hJ₂ _ ⟨h₂, hrow⟩)
      (fun e w h hrefused => answerable_of_refused h.1.1 hrefused)
      fun round w₃ h₃ => ?_
    refine Contract.wp_exceptBind (recording_refl _)
      (Contract.wp_mono ?_ (insertShare_wp hname h₃))
    intro r w₄ _ h₄
    cases r with
    | error e => exact Contract.safe_pure hanswerable.stable _ w₄ h₄
    | ok result =>
      refine Contract.safe_exceptBind hanswerable.stable (safe_runIf_fallible
        hanswerable.stable (safe_discard hanswerable.stable
          (safe_quiet hanswerable rfl))) (fun _ => ?_) w₄ h₄
      exact Contract.safe_pure hanswerable.stable _

/-- After `persist_share`, an accepted request can be answered. -/
theorem persistShare_answerable {w : PoolWorld} (hinv : Recording suite w)
    (h : InSubmit i session p cachedJob w ∧ NothingStored i w) :
    (recording suite data config).wp (.session i)
      (persistShare suite session p (judge suite session p cachedJob))
      (fun _ => Answerable suite i session p cachedJob) w := by
  have hanswerable : KeptLater i (Answerable suite i session p cachedJob) :=
    keptLater_answerable
  unfold persistShare
  cases hname : parseWorkerName suite.isLotusAddress p.workerName with
  | none =>
    refine Contract.safe_pure hanswerable.stable _ w ⟨h.1, fun haccepted => ?_⟩
    -- An accepted request comes from an authorized worker, whose name parses.
    obtain ⟨job, rfl, _⟩ := judge_accepted suite haccepted
    obtain ⟨hauthorized, _⟩ := validateShare_accepted suite haccepted
    have hparses := hinv.workers i session h.1.session _ hauthorized
    rw [hname] at hparses
    cases hparses
  | some name =>
    refine Contract.wp_bind (recording_refl _)
      (Contract.wp_mono ?_ (recordShare_answerable hname h))
    intro r w₁ _ h₁
    cases r <;> exact Contract.safe_pure hanswerable.stable _ w₁ h₁

theorem respond_wp {st : SessionState} {w : PoolWorld}
    (h : Answerable suite i session p cachedJob w)
    (hst : st.authorizedWorkers = session.authorizedWorkers) :
    (recording suite data config).wp (.session i)
      (Prog.perform (Op.respond i st
        (submitResponse (judge suite session p cachedJob).validation)))
      (fun _ _ => True) w := by
  refine Contract.wp_perform ?_
  intro w₁ hrely₁ hinv₁ r s₁ _ _
  obtain ⟨hin, hanswer⟩ := keptLater_answerable _ _ (hrely₁ i rfl) h
  refine ⟨⟨?_, fun htrue => hanswer (submitResponse_true htrue)⟩,
    fun _ _ _ => trivial⟩
  rw [hst]
  exact hinv₁.workers i session hin.session

theorem closeSession_wp {w : PoolWorld} :
    (recording suite data config).wp (.session i)
      (Prog.perform (Op.closeSession i)) (fun _ _ => True) w :=
  Contract.wp_perform fun _ _ _ _ _ _ _ => ⟨trivial, fun _ _ _ => trivial⟩

theorem answerSubmit_wp {w : PoolWorld}
    (h : Answerable suite i session p cachedJob w) :
    (recording suite data config).wp (.session i)
      (answerSubmit i session (judge suite session p cachedJob))
      (fun _ _ => True) w := by
  unfold answerSubmit
  split
  · refine Contract.wp_bind (recording_refl _) (Contract.wp_mono ?_
      (safe_quiet keptLater_answerable rfl w h))
    intro now w₁ _ h₁
    split
    · exact respond_wp h₁ rfl
    · exact closeSession_wp
  · exact respond_wp h rfl

theorem finishSubmit_wp {dedupeKey : String} {w : PoolWorld}
    (h : Answerable suite i session p cachedJob w) :
    (recording suite data config).wp (.session i)
      (finishSubmit suite i session p cachedJob
        (judge suite session p cachedJob) dedupeKey)
      (fun _ _ => True) w := by
  have hkept : KeptLater i (Answerable suite i session p cachedJob) :=
    keptLater_answerable
  unfold finishSubmit
  split
  · split
    · exact answerSubmit_wp h
    · split
      · -- The block is handed to the node, and nothing of that is in the way.
        refine Contract.wp_bind (recording_refl _) (Contract.wp_mono ?_
          (safe_submitCandidate hkept.stable (safe_quiet hkept rfl)
            (safe_recordAcceptedBlock hkept.stable
              (fun _ => safe_quiet hkept rfl) (safe_quiet hkept rfl)
              (safe_quiet hkept rfl) (fun _ => safe_quiet hkept rfl)
              fun _ => safe_quiet hkept rfl)
            (fun _ => safe_quiet hkept rfl) w h))
        exact fun _ w₁ _ h₁ => answerSubmit_wp h₁
      · exact answerSubmit_wp h
      · exact closeSession_wp
  · exact answerSubmit_wp h

theorem handleSubmit_wp {w : PoolWorld}
    (hsession : w.shared.sessions i = some session)
    (hcurrent : current (.session i) w.log = (some (.submit p), [])) :
    (recording suite data config).wp (.session i)
      (handleSubmit suite i session p) (fun _ _ => True) w := by
  unfold handleSubmit
  split
  · refine Contract.wp_perform ?_
    intro w₁ hrely₁ hinv₁ r s₁ _ _
    refine ⟨⟨?_, fun htrue => ?_⟩, fun _ _ _ => trivial⟩
    · exact hinv₁.workers i session ((hrely₁ i rfl).session.trans hsession)
    · cases htrue
  · refine Contract.wp_bind (recording_refl _) (Contract.wp_perform ?_)
    rintro w₁ hrely₁ hinv₁ cachedJob s₁ ⟨rfl, rfl⟩ _
    have hlater := hrely₁ i rfl
    have hwork : (current (.session i) w₁.log).1 = some (.submit p) := by
      rw [hlater.work, hcurrent]
    have hstored : NothingStored i w₁ := by
      unfold NothingStored
      rw [hlater.isNew, hcurrent]
      rfl
    have hjudged : judgedJob (current (.session i) w₁.log).2 = none := by
      rw [hlater.judged, hcurrent]
      rfl
    refine ⟨trivial, fun w₂ hrely₂ hinv₂ => ?_⟩
    have hstart : InSubmit i session p (w₁.shared.jobCache.get p.jobId)
        (w₁.after w₁.shared (.did (.session i) (.jobCacheGet p.jobId)
          (w₁.shared.jobCache.get p.jobId))) := by
      refine ⟨hlater.session.trans hsession, ?_, ?_, ?_⟩
      · rw [World.after_log, current_did]
        exact hwork
      · rw [World.after_log, current_did, judgedJob, List.findSome?_cons]
        cases hcached : w₁.shared.jobCache.get p.jobId with
        | some job => rfl
        | none => exact hjudged
      · intro job hjob
        have hmem := List.mem_of_find?_eq_some hjob
        exact ⟨insertedJobs_cons _ job (hinv₁.cached job hmem),
          JobCache.get_some hjob⟩
    have hstart₂ := keptLater_inSubmit _ _ (hrely₂ i rfl) hstart
    have hstored₂ : NothingStored i w₂ := by
      refine keptLater_nothingStored _ _ (hrely₂ i rfl) ?_
      unfold NothingStored
      rw [World.after_log, current_did, List.any_cons]
      exact hstored
    refine Contract.wp_bind (recording_refl _) (Contract.wp_mono ?_
      (persistShare_answerable hinv₂ ⟨hstart₂, hstored₂⟩))
    exact fun _ w₃ _ h₃ => finishSubmit_wp h₃

end Bodies

/-! ## All runs -/

/-- The other tasks store no submission and answer no miner. -/
theorem Records.guar_of_notSession {w : PoolWorld} {t : Task} {o : Op}
    (ht : t.isSession = false) (hby : o.by t = true) :
    Records.Guar suite w o := by
  cases o with
  | db d =>
    cases d with
    | insertShareAndOutcomeAtomic _ _ =>
      simp [Op.by, DbOp.by, ht] at hby
    | _ => trivial
  | respond i _ _ =>
    have heq : t = .session i := by simpa [Op.by] using hby
    rw [heq] at ht
    cases ht
  | _ => trivial

theorem recording_other {t : Task} (ht : t.isSession = false) (m : Body Unit)
    (w : PoolWorld) :
    (recording suite data config).wp t m (fun _ _ => True) w := by
  refine Contract.wp_of_guar ?_ (fun _ _ _ => trivial) m w
  intro w o r s' _ _ hok
  exact Records.guar_of_notSession ht hok.2.2.1

/-- Every run with one template for each id meets the contract. -/
theorem recording_valid : (recording suite data config).Valid where
  refl := recording_refl
  trans _ _ _ _ h₁ h₂ i hi := (h₁ i hi).trans (h₂ i hi)
  init := by
    rintro s ⟨now, chain, _, rfl⟩
    refine ⟨Ledger.new now, ?_, fun _ => nofun, fun _ => nofun, fun _ => nofun⟩
    intro i st hst
    cases hst
  boot := by
    intro t w _ _
    cases t with
    | session i => exact fun _ _ _ => trivial
    | _ => exact recording_other rfl _ w
  keeps hinv hsem hok hguar := hinv.did hsem hok.1 hok.2.2 hguar
  others := by
    rintro w t o r s' _ hinv hsem hok _ hu i rfl
    exact .did_of_ne hu hok.2.2.1 hsem
  began := by
    intro w t k m s' hinv _ hstart _
    have hdb := start_database hstart
    refine ⟨?_, ?_, ?_⟩
    · refine hinv.congr (congrArg _ hdb) (congrArg _ hdb)
        (start_authorized hstart hinv.workers) ?_ rfl
      rw [World.after_shared, start_jobCache hstart]
      exact fun _ h => h
    · rintro _ hu i rfl
      refine .of_current (start_sessions_of_ne hstart hu)
        (current_began_of_ne hu k) (insertedJobs_cons _) ?_
      rw [World.after_shared, hdb]
      exact .of_eq rfl rfl rfl
    · cases hstart with
      | submit hst =>
        refine handleSubmit_wp hst ?_
        rw [World.after_log, current_began]
      | connect | subscribe | authorize | newJob | disconnect =>
        exact fun _ _ _ => trivial
      | _ => exact recording_other rfl _ _
  env := by
    rintro w s' hinv (⟨now, _, rfl⟩ | ⟨_, chain, _, rfl⟩) _
    all_goals
      refine ⟨hinv.congr rfl rfl hinv.workers (fun _ h => h) rfl, ?_⟩
      intro u i _
      exact .of_current rfl rfl (insertedJobs_cons _) (.of_eq rfl rfl rfl)
  crash := by
    rintro w s' hinv ⟨chain, _, rfl⟩ _
    refine hinv.congr rfl rfl ?_ (fun _ => nofun) rfl
    intro i st hst
    cases hst

/-! ## Answers -/

/-- The session that an entry of the log answers with `true`. -/
def answeredTrue : PoolEntry → Option Nat
  | .did _ (.respond i _ response) _ =>
    if response.result = some true then some i else none
  | _ => none

/-- A session that is answered with `true`, all its statements having
succeeded, finds its submission stored. -/
def AnswersStored (suite : Suite) (w : PoolWorld) (e : PoolEntry) : Prop :=
  ∀ i ∈ answeredTrue e, AnswerStored suite w i

instance (suite : Suite) (w : PoolWorld) (e : PoolEntry) :
    Decidable (AnswersStored suite w e) :=
  inferInstanceAs (Decidable (∀ _ ∈ _, _))

/-- In every run, a submission that is answered with `true` stands in the
tables under its dedupe key.  The row is its own unless the key was taken by
a rejected submission or by one from another extranonce. -/
theorem answer_stored :
    (pool suite data config).Turns OneTemplate (AnswersStored suite) := by
  refine (turns_grounded.trans recording_valid.turns).imp ?_
  intro w e hknown i hi
  cases e with
  | did t o r =>
    cases o with
    | respond j st response =>
      simp only [answeredTrue, Option.mem_def, Option.ite_none_right_eq_some]
        at hi
      obtain ⟨htrue, heq⟩ := hi
      cases heq
      exact hknown.2.2 htrue
    | _ => cases hi
  | _ => cases hi

/-- Two sessions of one worker that submit. -/
def submitsFromTwo (worker extranonce2 extranonce2' : String) : List Scene :=
  let job := sampleJob 7 10 hardTarget
  bootsWith job ++ logsIn 0 worker ++ logsIn 1 worker ++
    submits 0 (sampleSubmit worker job extranonce2) ++
    submits 1 (sampleSubmit worker job extranonce2')

/-- A run in which two submissions are answered and stored. -/
theorem answer_stored_sample : ∃ c : PoolConfig,
    schedule sampleSuite sampleData sampleConfig
        (fun w e => decide (OneTemplate w e) &&
          decide (AnswersStored sampleSuite w e)) ["genesis"]
        (submitsFromTwo "lotus_a.rig" "0a" "0b") = some c ∧
      c.world.log.filterMap answeredTrue = [1, 0] := by
  have hrun : (schedule sampleSuite sampleData sampleConfig
      (fun w e => decide (OneTemplate w e)) ["genesis"]
      (submitsFromTwo "lotus_a.rig" "0a" "0b")).map
        (fun c => c.world.log.filterMap answeredTrue) = some [1, 0] := by
    decide +kernel
  obtain ⟨c, hc, hlog⟩ := Option.map_eq_some_iff.1 hrun
  exact ⟨c, turns_schedule _ _ _ answer_stored
    (fun _ _ h => of_decide_eq_true h) (by decide) hc, hlog⟩

/-! ## Work that is dropped -/

/-- A session that is answered with `true`, all its statements having
succeeded, finds an accepted row of this very submission. -/
def AnswersRecorded (suite : Suite) (w : PoolWorld) (e : PoolEntry) : Prop :=
  ∀ i ∈ answeredTrue e, StatementsSucceed (current (.session i) w.log).2 →
    ∃ x ∈ submissionOf suite w i, Recorded suite w.shared.db x

instance (suite : Suite) (w : PoolWorld) (e : PoolEntry) :
    Decidable (AnswersRecorded suite w e) :=
  inferInstanceAs (Decidable (∀ _ ∈ _, _ → ∃ _ ∈ _, _))

/-- Two sessions of one worker submit the same texts for different headers.
Both are answered with `true`, and the work of the second is dropped. -/
theorem answersRecorded_fails :
    ¬ (pool sampleSuite sampleData sampleConfig).Turns (fun _ _ => True)
      (AnswersRecorded sampleSuite) :=
  not_turns _ _ _ ["genesis"] (by decide)
    (submitsFromTwo "lotus_a.rig" "0a" "0a") (by decide +kernel)
    (by decide +kernel)

/-- A submission that was rejected before its worker was authorized keeps
its key, and the accepted one after it is dropped. -/
example : ¬ (pool sampleSuite sampleData sampleConfig).Turns
    (fun _ _ => True) (AnswersRecorded sampleSuite) :=
  let job := sampleJob 7 10 hardTarget
  not_turns _ _ _ ["genesis"] (by decide)
    (bootsWith job ++ logsIn 0 "lotus_a.rig" ++
      submits 0 (sampleSubmit "lotus_b.rig" job "0a") ++
      [.begin (.session 0) (.authorize "lotus_b.rig")] ++
      submits 0 (sampleSubmit "lotus_b.rig" job "0a"))
    (by decide +kernel) (by decide +kernel)

end StratumServer
