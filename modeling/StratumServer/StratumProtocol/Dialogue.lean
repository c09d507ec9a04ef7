import StratumServer.NodeIntegration.Template
import StratumServer.StratumProtocol.Protocol
import StratumServer.StratumProtocol.Server
import StratumServer.System.Rules

/-!
# The turns of a connection

`handle_connection` with all that it writes: one turn for a line of the miner,
and one for a job from the channel.  A turn gets a session, and leaves a
session, the messages for the miner in the order in which they are written,
and the rows of the authorization log.  A panic ends the connection, and then
a turn gives nothing; the two panics come before anything is written.

A turn asks the rest of the server at most once: `mining.authorize` for the
latest job, `mining.submit` for the job with an id.  So it is one step, at the
time of that question.

`handleSubmit_paths` connects `submitTurn` with `handle_submit` as a program:
whatever the database and the node answer, the program ends with the answer
of the turn.
-/

namespace StratumServer

open Tasks

/-- `AuthorizationEvent`. -/
structure AuthorizationEvent where
  sessionId : String
  workerName : String
  payoutAddress : String
  workerSuffix : Option String
  authorized : Bool
  reason : Option String
  deriving DecidableEq, Repr

/-- What a turn leaves. -/
structure TurnResult (ν : Type) where
  session : SessionState
  written : List (ServerMessage ν)
  logged : List AuthorizationEvent := []

section Dialogue

variable {ν : Type} (suite : Suite) (w : Wire ν)

/-! ## Answers -/

/-- A response with a Boolean result. -/
def StratumResponse.toMessage (r : StratumResponse) (id : Json ν) :
    ServerMessage ν :=
  .response id ((r.result.map .bool).getD .null)
    ((r.error.map fun (code, message) => errorValue w code message).getD .null)

/-- The result of `SessionState::handle_subscribe`. -/
def SessionState.subscribeResult (s : SessionState) : Json ν :=
  .array [
    .array [.array [.string "mining.set_difficulty", .string s.sessionId],
      .array [.string "mining.notify", .string s.sessionId]],
    .string s.extranonce1, .number (w.ofInt extranonce2Size)]

/-! ## Requests -/

/-- `record_authorization_event`: the row for one `mining.authorize`. -/
def SessionState.authorizationEvent (s : SessionState) (worker : String) :
    AuthorizationEvent :=
  let response := (s.handleAuthorize suite worker).1
  let name := (parseWorkerName suite.isLotusAddress worker).getD ⟨worker, none⟩
  { sessionId := s.sessionId
    workerName := worker
    payoutAddress := name.payoutAddress
    workerSuffix := name.workerSuffix
    authorized := response.error.isNone
    reason := response.error.map (·.2) }

/-- The messages that follow the answer to `mining.authorize`. -/
def SessionState.startWork (s : SessionState) (latest : Option WorkJob) :
    List (ServerMessage ν) :=
  if s.isAuthorized then
    .setDifficulty s.currentDifficulty :: (latest.map .notify).toList
  else []

/-- The parameters of `mining.submit`. -/
def StratumRequest.submitParams (req : StratumRequest ν) : SubmitParams :=
  ⟨req.param 0, req.param 1, req.param 2, req.param 3, req.param 4⟩

/-- `build_submit_block` panics. -/
def SessionState.buildPanics (s : SessionState) (p : SubmitParams)
    (cachedJob : Option MiningJob) : Bool :=
  match (judge suite s p cachedJob).validation.networkTargetOk, cachedJob with
  | true, some job =>
    !job.blockBytes.isEmpty && buildSubmitBlock suite job s.extranonce1 p = .panic
  | _, _ => false

/-- What `handle_submit` comes to: a new difficulty, the session and the
answer. -/
def SessionState.submitTurn (s : SessionState) (p : SubmitParams)
    (cachedJob : Option MiningJob) (now : ℚ) :
    Option (Option ℚ × SessionState × StratumResponse) :=
  let v := (judge suite s p cachedJob).validation
  if !s.isSubscribed then some (none, s, .err 25 "not-subscribed")
  else if s.buildPanics suite p cachedJob then none
  else if v.accepted then
    ((s.vardiff.recordShare now).maybeRetarget now).map fun (diff, vardiff) =>
      (diff, { s with vardiff }, submitResponse v)
  else some (none, s, submitResponse v)

/-- What the rest of the server answers during a turn. -/
structure Surroundings where
  /-- `JobCache::get_latest`. -/
  latest : Option WorkJob
  /-- `JobCache::get`. -/
  cached : String → Option MiningJob
  /-- The clock at the end of `handle_submit`. -/
  now : ℚ

/-- A request. -/
def SessionState.handleRequest (s : SessionState) (around : Surroundings)
    (req : StratumRequest ν) : Option (TurnResult ν) :=
  match req.method with
  | .subscribe =>
    let s := s.handleSubscribe
    some ⟨s, [.response req.id (s.subscribeResult w) .null,
      .setExtranonce s.extranonce1 extranonce2Size], []⟩
  | .authorize =>
    let worker := req.param 0
    let (response, authorized) := s.handleAuthorize suite worker
    some ⟨authorizeSession suite s worker
        (around.latest.map WorkJob.toMiningJob),
      response.toMessage w req.id :: authorized.startWork around.latest,
      [s.authorizationEvent suite worker]⟩
  | .submit =>
    let p := req.submitParams
    (s.submitTurn suite p (around.cached p.jobId) around.now).map
      fun (diff, s, response) =>
        ⟨s, (diff.map .setDifficulty).toList ++ [response.toMessage w req.id], []⟩
  | .ping | .extranonceSubscribe =>
    some ⟨s, [StratumResponse.ok.toMessage w req.id], []⟩
  | .setDifficulty | .setExtranonce | .suggestDifficulty | .notify
  | .unknown _ =>
    some ⟨s, [(StratumResponse.err 3 "unknown method").toMessage w req.id], []⟩

/-- The length that `handle_connection` allows for a line. -/
def maxLineLength : Nat := 4096

/-- A line that is not blank. -/
def SessionState.handleLine (s : SessionState) (around : Surroundings)
    (line : String) : Option (TurnResult ν) :=
  match decodeRequestLine w line maxLineLength with
  | .ok req => s.handleRequest suite w around req
  | .error _ =>
    some ⟨s, [(StratumResponse.err 1 "invalid request").toMessage w .null], []⟩

/-- A job from the channel. -/
def SessionState.handleJob (s : SessionState) (work : WorkJob) :
    TurnResult ν where
  session := receiveJob suite s work.toMiningJob
  written :=
    let clamped :=
      (networkTargetHexToDifficulty suite work.networkTargetHex).bind
        fun nDiff => (s.vardiff.updateMax nDiff).1
    (clamped.map .setDifficulty).toList ++ [.notify work]

/-! ## What a turn does -/

/-- The turns for a line. -/
inductive LineTurn (s : SessionState) (around : Surroundings) (line : String) :
    TurnResult ν → Prop
  | invalid {e : StratumError}
      (hdecode : decodeRequestLine w line maxLineLength = .error e) :
      LineTurn s around line ⟨s,
        [(StratumResponse.err 1 "invalid request").toMessage w .null], []⟩
  | subscribe {req : StratumRequest ν}
      (hdecode : decodeRequestLine w line maxLineLength = .ok req)
      (hmethod : req.method = .subscribe) :
      LineTurn s around line ⟨s.handleSubscribe,
        [.response req.id (s.handleSubscribe.subscribeResult w) .null,
          .setExtranonce s.extranonce1 extranonce2Size], []⟩
  | authorize {req : StratumRequest ν}
      (hdecode : decodeRequestLine w line maxLineLength = .ok req)
      (hmethod : req.method = .authorize) :
      LineTurn s around line
        ⟨authorizeSession suite s (req.param 0)
            (around.latest.map WorkJob.toMiningJob),
          (s.handleAuthorize suite (req.param 0)).1.toMessage w req.id ::
            (s.handleAuthorize suite (req.param 0)).2.startWork around.latest,
          [s.authorizationEvent suite (req.param 0)]⟩
  | submit {req : StratumRequest ν} {diff : Option ℚ} {s' : SessionState}
      {response : StratumResponse}
      (hdecode : decodeRequestLine w line maxLineLength = .ok req)
      (hmethod : req.method = .submit)
      (hturn : s.submitTurn suite req.submitParams
        (around.cached req.submitParams.jobId) around.now =
          some (diff, s', response)) :
      LineTurn s around line ⟨s',
        (diff.map .setDifficulty).toList ++ [response.toMessage w req.id], []⟩
  | plain {req : StratumRequest ν} {response : StratumResponse}
      (hdecode : decodeRequestLine w line maxLineLength = .ok req)
      (hmethod : req.method ∉ [.subscribe, .authorize, .submit]) :
      LineTurn s around line ⟨s, [response.toMessage w req.id], []⟩

theorem handleLine_turn {s : SessionState} {around : Surroundings}
    {line : String} {r : TurnResult ν}
    (h : s.handleLine suite w around line = some r) :
    LineTurn suite w s around line r := by
  unfold SessionState.handleLine at h
  cases hdecode : decodeRequestLine w line maxLineLength with
  | error e =>
    rw [hdecode] at h
    cases h
    exact .invalid hdecode
  | ok req =>
    rw [hdecode] at h
    simp only [SessionState.handleRequest] at h
    split at h
    · rename_i hmethod
      cases h
      exact .subscribe hdecode hmethod
    · rename_i hmethod
      cases h
      exact .authorize hdecode hmethod
    · rename_i hmethod
      obtain ⟨⟨diff, s', response⟩, hturn, rfl⟩ := Option.map_eq_some_iff.1 h
      exact .submit hdecode hmethod hturn
    all_goals
      rename_i hmethod
      cases h
      exact .plain hdecode (by rw [hmethod]; simp)

/-- A worker is refused, or is authorized from now on. -/
theorem handleAuthorize_cases (s : SessionState) (worker : String) :
    (∃ code message,
      s.handleAuthorize suite worker = (.err code message, s)) ∨
    s.isSubscribed = true ∧
      (parseWorkerName suite.isLotusAddress worker).isSome = true ∧
      s.handleAuthorize suite worker = (.ok, { s with
        authorizedWorkers := s.authorizedWorkers.insert worker
        isAuthorized := true }) := by
  unfold SessionState.handleAuthorize
  by_cases hsubscribed : s.isSubscribed = true
  · cases hparse : parseWorkerName suite.isLotusAddress worker with
    | none => exact Or.inl ⟨24, "unauthorized-worker", by simp [hsubscribed]⟩
    | some name => exact Or.inr ⟨hsubscribed, rfl, by simp [hsubscribed]⟩
  · exact Or.inl ⟨25, "not-subscribed", by simp [hsubscribed]⟩

variable {suite}

/-- A submission changes the difficulty only, and reports it. -/
theorem submitTurn_some {s s' : SessionState} {p : SubmitParams}
    {cachedJob : Option MiningJob} {now : ℚ} {diff : Option ℚ}
    {response : StratumResponse}
    (h : s.submitTurn suite p cachedJob now = some (diff, s', response)) :
    (diff = none ∧ s' = s) ∨ ∃ vardiff,
      (s.vardiff.recordShare now).maybeRetarget now = some (diff, vardiff) ∧
        s' = { s with vardiff } := by
  unfold SessionState.submitTurn at h
  dsimp only at h
  split_ifs at h
  · cases h
    exact Or.inl ⟨rfl, rfl⟩
  · obtain ⟨⟨diff', vardiff⟩, hretarget, heq⟩ := Option.map_eq_some_iff.1 h
    cases heq
    exact Or.inr ⟨vardiff, hretarget, rfl⟩
  · cases h
    exact Or.inl ⟨rfl, rfl⟩

theorem submitTurn_session {s s' : SessionState} {p : SubmitParams}
    {cachedJob : Option MiningJob} {now : ℚ} {diff : Option ℚ}
    {response : StratumResponse}
    (h : s.submitTurn suite p cachedJob now = some (diff, s', response)) :
    ∃ vardiff, s' = { s with vardiff } := by
  rcases submitTurn_some h with ⟨_, rfl⟩ | ⟨vardiff, _, rfl⟩
  · exact ⟨s'.vardiff, rfl⟩
  · exact ⟨vardiff, rfl⟩

variable (suite)

/-! ## `handle_submit` as a program -/

/-- The operations that end a submission. -/
def Op.answers : Op → Bool
  | .respond .. | .closeSession _ => true
  | _ => false

/-- The operation that a turn ends with. -/
def answerOp (i : Nat) : Option (Option ℚ × SessionState × StratumResponse) → Op
  | some (_, s, response) => .respond i s response
  | none => .closeSession i

/-- Nothing has been answered yet. -/
def Unanswered (done : Done) : Prop := ∀ x ∈ done, x.1.answers = false

/-- An answer is the first one, and it is the answer of the turn with the job
that the cache gave and some time of the clock. -/
def AnswersTurn (i : Nat) (s : SessionState) (p : SubmitParams) (done : Done)
    (o : Op) : Prop :=
  o.answers = true → Unanswered done ∧ ∃ cachedJob now,
    (s.isSubscribed = true → ⟨.jobCacheGet p.jobId, cachedJob⟩ ∈ done) ∧
    o = answerOp i (s.submitTurn suite p cachedJob now)

/-- The last operation was an answer. -/
def TurnAnswered (done : Done) : Prop :=
  ∃ x before, done = x :: before ∧ x.1.answers = true ∧ Unanswered before

variable {suite}

theorem quiet_recordShare (a : ShareRecord) :
    (AccountingService.recordShare a).run.Only (·.answers = false) := by
  refine Prog.Only.exceptBind (only_db rfl) fun worker => ?_
  refine Prog.Only.exceptBind
    (only_resolveRoundForTemplate rfl rfl fun _ _ => rfl) fun round => ?_
  refine Prog.Only.exceptBind (only_db rfl) fun result => ?_
  refine Prog.Only.exceptBind
    (only_runIf_fallible (only_discard (only_db rfl))) fun _ => ?_
  exact Prog.only_pure _

theorem quiet_persistShare (session : SessionState) (p : SubmitParams)
    (j : Judgement) :
    (persistShare suite session p j).Only (·.answers = false) := by
  unfold persistShare
  split
  · exact Prog.only_pure _
  · refine Prog.Only.bind (quiet_recordShare _) fun r => ?_
    cases r <;> exact Prog.only_pure _

theorem quiet_recordAcceptedBlock (job : MiningJob) (templateId : Nat)
    (builtHash : String) : (recordAcceptedBlock job templateId builtHash).Only
      (·.answers = false) := by
  refine Prog.Only.bind (only_resolveRoundForTemplate rfl rfl fun _ _ => rfl)
    fun r => ?_
  cases r with
  | error e => exact Prog.only_pure _
  | ok round =>
    refine Prog.Only.bind (only_dropResult ?_) fun _ => only_dropResult ?_
    · refine Prog.Only.exceptBind (only_db rfl) fun row => ?_
      exact Prog.Only.exceptBind
        (only_liftM (only_dropResult (only_db rfl))) fun _ => Prog.only_pure _
    · exact Prog.Only.exceptBind (only_db rfl) fun _ =>
        only_liftM (only_dropResult (only_db rfl))

theorem quiet_submitCandidate (job : MiningJob) (templateId : Nat)
    (blockHex builtHash dedupeKey : String) :
    (submitCandidate job templateId blockHex builtHash dedupeKey).Only
      (·.answers = false) := by
  refine Prog.Only.bind (Prog.only_perform rfl) fun r => ?_
  match r with
  | .ok none =>
    exact Prog.Only.bind (quiet_recordAcceptedBlock job templateId builtHash)
      fun _ => only_dropResult (only_db rfl)
  | .ok (some reason) => exact only_dropResult (only_db rfl)
  | .error e => exact Prog.only_pure _

/-- A program without answers keeps what is known before the answer. -/
theorem keeps_unanswered (suite : Suite) (i : Nat) (s : SessionState)
    (p : SubmitParams) (x : (o : Op) × o.Res) {α : Type} {m : Body α}
    (hm : m.Only (·.answers = false)) :
    Prog.Keeps (AnswersTurn suite i s p)
      (fun done => Unanswered done ∧ x ∈ done) m := by
  refine hm.keeps fun o done ho hdone => ⟨fun ho' => ?_, fun r => ⟨?_, ?_⟩⟩
  · rw [ho] at ho'
    cases ho'
  · exact List.forall_mem_cons.2 ⟨ho, hdone.1⟩
  · exact List.mem_cons_of_mem _ hdone.2

section Submit

variable {i : Nat} {s : SessionState} {p : SubmitParams}
  {cachedJob : Option MiningJob} {done : Done}

/-- One answer. -/
theorem paths_answer {o : Op} (cachedJob : Option MiningJob) (now : ℚ)
    (ho : o.answers = true) (hdone : Unanswered done)
    (hcached : s.isSubscribed = true →
      ⟨.jobCacheGet p.jobId, cachedJob⟩ ∈ done)
    (heq : o = answerOp i (s.submitTurn suite p cachedJob now)) :
    (Prog.perform o : Body o.Res).Paths (AnswersTurn suite i s p)
      (fun _ => TurnAnswered) done :=
  Prog.paths_perform (fun _ => ⟨hdone, cachedJob, now, hcached, heq⟩)
    fun r => ⟨⟨o, r⟩, done, rfl, ho, hdone⟩

theorem answerSubmit_paths (hsubscribed : s.isSubscribed = true)
    (hbuild : s.buildPanics suite p cachedJob = false)
    (hdone : Unanswered done)
    (hcached : ⟨.jobCacheGet p.jobId, cachedJob⟩ ∈ done) :
    (answerSubmit i s (judge suite s p cachedJob)).Paths
      (AnswersTurn suite i s p) (fun _ => TurnAnswered) done := by
  have hturn : ∀ now, s.submitTurn suite p cachedJob now =
      if (judge suite s p cachedJob).validation.accepted then
        ((s.vardiff.recordShare now).maybeRetarget now).map
          fun (diff, vardiff) => (diff, { s with vardiff },
            submitResponse (judge suite s p cachedJob).validation)
      else some (none, s,
        submitResponse (judge suite s p cachedJob).validation) := by
    intro now
    simp [SessionState.submitTurn, hsubscribed, hbuild]
  unfold answerSubmit
  split
  · rename_i haccepted
    refine Prog.paths_bind (Prog.paths_perform (fun h => nomatch h)
      fun now => ?_)
    have hdone' : Unanswered (⟨.instantNow, now⟩ :: done) :=
      List.forall_mem_cons.2 ⟨rfl, hdone⟩
    have hturn' := hturn now
    rw [if_pos haccepted] at hturn'
    cases hretarget : (s.vardiff.recordShare now).maybeRetarget now with
    | some result =>
      apply paths_answer cachedJob now rfl hdone'
        (fun _ => List.mem_cons_of_mem _ hcached)
      rw [hturn', hretarget]
      rfl
    | none =>
      apply paths_answer cachedJob now rfl hdone'
        (fun _ => List.mem_cons_of_mem _ hcached)
      rw [hturn', hretarget]
      rfl
  · rename_i hrejected
    apply paths_answer cachedJob 0 rfl hdone (fun _ => hcached)
    rw [hturn 0, if_neg hrejected]
    rfl

theorem finishSubmit_paths (hsubscribed : s.isSubscribed = true)
    (dedupeKey : String) (hdone : Unanswered done)
    (hcached : ⟨.jobCacheGet p.jobId, cachedJob⟩ ∈ done) :
    (finishSubmit suite i s p cachedJob (judge suite s p cachedJob)
      dedupeKey).Paths (AnswersTurn suite i s p) (fun _ => TurnAnswered) done := by
  by_cases hbuilds : ∃ job, cachedJob = some job ∧
      (judge suite s p cachedJob).validation.networkTargetOk = true
  · obtain ⟨job, rfl, hnetwork⟩ := hbuilds
    have hpanics : s.buildPanics suite p (some job) = (!job.blockBytes.isEmpty &&
        decide (buildSubmitBlock suite job s.extranonce1 p = .panic)) := by
      simp only [SessionState.buildPanics, hnetwork]
    simp only [finishSubmit, hnetwork]
    split
    · rename_i hempty
      exact answerSubmit_paths hsubscribed (by rw [hpanics, hempty]; rfl) hdone
        hcached
    · rename_i hbytes
      cases hbuilt : buildSubmitBlock suite job s.extranonce1 p with
      | block blockHex builtHash =>
        have hpasses : s.buildPanics suite p (some job) = false := by
          rw [hpanics, hbuilt]
          simp
        have hquiet := keeps_unanswered suite i s p
          ⟨.jobCacheGet p.jobId, some job⟩ (quiet_submitCandidate job
            (judge suite s p (some job)).templateId blockHex builtHash dedupeKey)
        refine Prog.paths_bind (Prog.paths_mono ?_ (hquiet done ⟨hdone, hcached⟩))
        exact fun _ done h => answerSubmit_paths hsubscribed hpasses h.1 h.2
      | error =>
        have hpasses : s.buildPanics suite p (some job) = false := by
          rw [hpanics, hbuilt]
          simp
        exact answerSubmit_paths hsubscribed hpasses hdone hcached
      | panic =>
        apply paths_answer (some job) 0 rfl hdone (fun _ => hcached)
        have hfails : s.buildPanics suite p (some job) = true := by
          rw [hpanics, hbuilt]
          simpa using hbytes
        simp [SessionState.submitTurn, hsubscribed, hfails, answerOp]
  · have hfinish : finishSubmit suite i s p cachedJob (judge suite s p cachedJob)
        dedupeKey = answerSubmit i s (judge suite s p cachedJob) := by
      unfold finishSubmit
      split
      · rename_i job hnetwork
        exact absurd ⟨job, rfl, hnetwork⟩ hbuilds
      · rfl
    have hpasses : s.buildPanics suite p cachedJob = false := by
      unfold SessionState.buildPanics
      split
      · rename_i job hnetwork
        exact absurd ⟨job, rfl, hnetwork⟩ hbuilds
      · rfl
    rw [hfinish]
    exact answerSubmit_paths hsubscribed hpasses hdone hcached

end Submit

/-- Whatever it is answered, `handle_submit` ends with one answer to the
miner, and that is the answer of the turn. -/
theorem handleSubmit_paths (i : Nat) (s : SessionState) (p : SubmitParams) :
    (handleSubmit suite i s p).Paths (AnswersTurn suite i s p)
      (fun _ => TurnAnswered) [] := by
  unfold handleSubmit
  split
  · rename_i hnot
    apply paths_answer none 0 rfl (List.forall_mem_nil _)
    · intro hsubscribed
      rw [hsubscribed] at hnot
      cases hnot
    · simp [SessionState.submitTurn, hnot, answerOp]
  · rename_i hsubscribed
    rw [Bool.not_eq_true', Bool.not_eq_false] at hsubscribed
    refine Prog.paths_bind (Prog.paths_perform (fun h => nomatch h)
      fun cachedJob => ?_)
    have hquiet := keeps_unanswered suite i s p ⟨.jobCacheGet p.jobId, cachedJob⟩
      (quiet_persistShare s p (judge suite s p cachedJob) : (persistShare suite s
        p _).Only _)
    refine Prog.paths_bind (Prog.paths_mono ?_ (hquiet _ ⟨?_, ?_⟩))
    · exact fun dedupeKey done h =>
        finishSubmit_paths hsubscribed dedupeKey h.1 h.2
    · exact List.forall_mem_cons.2 ⟨rfl, (List.forall_mem_nil _)⟩
    · exact List.mem_cons_self

end Dialogue

end StratumServer
