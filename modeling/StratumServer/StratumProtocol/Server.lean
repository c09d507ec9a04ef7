import StratumServer.Accounting.Service

/-!
# The Stratum server

`handle_submit` as a program, and the parts of `handle_connection` that
change the state of a session: `mining.subscribe`, `mining.authorize` and
the arrival of a new job.

`handle_submit` is cut into its steps.  `judge` validates, `persistShare`
records, `submitCandidate` hands a block to the node, and
`recordAcceptedBlock` is the tail that follows an accepted block.
-/

namespace StratumServer

open Tasks

/-! ## Answers -/

namespace StratumResponse

/-- `StratumResponse::ok` with `true`. -/
def ok : StratumResponse := ⟨some true, none⟩

/-- `StratumResponse::err`. -/
def err (code : Nat) (message : String) : StratumResponse :=
  ⟨none, some (code, message)⟩

/-- `StratumResponse::rejected`. -/
def rejected (code : Nat) (message : String) : StratumResponse :=
  ⟨some false, some (code, message)⟩

end StratumResponse

/-- The answer to a judged submission. -/
def submitResponse (v : ValidationResult) : StratumResponse :=
  if v.accepted then .ok
  else
    match v.rejectReason with
    | some .unauthorizedWorker => .rejected 24 "unauthorized-worker"
    | some .staleJob => .rejected 22 "stale-job"
    | some .ntimeMismatch => .rejected 21 "ntime-mismatch"
    | some .lowDifficultyShare => .rejected 23 "low-difficulty-share"
    | _ => .rejected 20 "invalid-submit-shape"

/-- Only an accepted submission is answered with `true`. -/
theorem submitResponse_true {v : ValidationResult}
    (h : (submitResponse v).result = some true) : v.accepted = true := by
  by_contra hrejected
  unfold submitResponse at h
  rw [if_neg hrejected] at h
  split at h <;> simp [StratumResponse.rejected] at h

/-! ## `handle_submit` -/

section Submit

variable (suite : Suite)

/-- A judged submission, with the template that it counts for and the
difficulty that it is credited with. -/
structure Judgement where
  validation : ValidationResult
  templateId : Nat
  templateEpoch : Nat
  shareDiff : ℚ
  deriving DecidableEq, Repr

/-- The first part of `handle_submit`.  A job that has left the cache can
only be rejected; its template is read off the job id when the session still
has it assigned. -/
def judge (session : SessionState) (p : SubmitParams)
    (cachedJob : Option MiningJob) : Judgement :=
  match cachedJob with
  | some job =>
    { validation := validateShare suite p session job
      templateId := job.templateId
      templateEpoch := job.templateEpoch
      shareDiff := ((session.getAssignedJob p.jobId).map (·.pDiff)).getD
        session.currentDifficulty }
  | none =>
    match session.getAssignedJob p.jobId with
    | some assigned =>
      let recovered := (parseTemplateMetadataFromJobId p.jobId).getD (0, 0)
      { validation := .rejected .staleJob
        templateId := recovered.1
        templateEpoch := recovered.2
        shareDiff := assigned.pDiff }
    | none =>
      { validation := .rejected .staleJob
        templateId := 0
        templateEpoch := 0
        shareDiff := session.currentDifficulty }

/-- Only a submission for a cached job is accepted, and it counts for the
template of that job. -/
theorem judge_accepted {session : SessionState} {p : SubmitParams}
    {cachedJob : Option MiningJob}
    (h : (judge suite session p cachedJob).validation.accepted = true) :
    ∃ job, cachedJob = some job ∧
      (judge suite session p cachedJob).validation =
        validateShare suite p session job ∧
      (judge suite session p cachedJob).templateId = job.templateId ∧
      (judge suite session p cachedJob).templateEpoch =
        job.templateEpoch := by
  cases cachedJob with
  | some job => exact ⟨job, rfl, rfl, rfl, rfl⟩
  | none =>
    unfold judge at h
    cases hassigned : session.getAssignedJob p.jobId with
    | some assigned => simp [hassigned, ValidationResult.rejected] at h
    | none => simp [hassigned, ValidationResult.rejected] at h

/-- The arguments of `record_share` for a judged submission. -/
def shareRecord (session : SessionState) (p : SubmitParams) (j : Judgement)
    (name : WorkerName) : ShareRecord where
  payoutAddress := name.payoutAddress
  workerSuffix := name.workerSuffix
  sessionId := session.sessionId
  jobId := p.jobId
  templateId := j.templateId
  templateEpoch := j.templateEpoch
  extranonce1 := session.extranonce1
  extranonce2 := p.extranonce2
  ntimeHex := p.ntimeHex
  nonceHex := p.nonceHex
  difficulty := j.shareDiff
  status := if j.validation.accepted then .accepted else .rejected
  rejectReason := j.validation.rejectReason
  lowDiffOk := j.validation.lowDiffOk
  networkTargetOk := j.validation.networkTargetOk
  blockHash := j.validation.blockHash

/-- The recording of a submission: its dedupe key, which stays empty when the
worker name does not parse or the call fails. -/
def persistShare (session : SessionState) (p : SubmitParams) (j : Judgement) :
    Body String := do
  match parseWorkerName suite.isLotusAddress p.workerName with
  | none => return ""
  | some name =>
    match ← (AccountingService.recordShare (shareRecord session p j name)).run with
    | .ok (_, _, _, dedupeKey) => return dedupeKey
    | .error _ => return ""

/-- The row of an accepted block. -/
def acceptedBlock (job : MiningJob) (roundId : Nat) (builtHash : String) :
    FoundBlock where
  roundId := roundId
  blockHash := builtHash
  height := job.height
  workerId := none
  templateId := some job.templateId
  persistSource := some "json-rpc"
  coinbaseValue := job.coinbaseValue
  networkTargetHex := job.networkTargetHex

/-- What follows an accepted block: find its round, record the block, close
the round. -/
def recordAcceptedBlock (job : MiningJob) (templateId : Nat)
    (builtHash : String) : Body Unit := do
  match ← (AccountingService.resolveRoundForTemplate templateId).run with
  | .ok round =>
    dropResult (AccountingService.recordFoundBlock
      (acceptedBlock job round.id builtHash))
    dropResult (AccountingService.closeRound round.id templateId .found)
  | .error _ => return ()

/-- The submission of a built block, and what follows its answer. -/
def submitCandidate (job : MiningJob) (templateId : Nat)
    (blockHex builtHash dedupeKey : String) : Body Unit := do
  match ← Prog.perform (Op.submitBlock blockHex) with
  | .ok none =>
    recordAcceptedBlock job templateId builtHash
    dropResult (db (.updateOutcomeNodeResult dedupeKey "accepted"))
  | .ok (some reason) =>
    dropResult (db (.updateOutcomeNodeResult dedupeKey
      ("rejected: " ++ reason)))
  | .error _ => return ()

/-- The end of `handle_submit`: an accepted share counts for the difficulty,
and the miner is answered.  A panic of `clamp` ends the connection. -/
def answerSubmit (i : Nat) (session : SessionState) (j : Judgement) :
    Body Unit := do
  if j.validation.accepted then
    let now ← Prog.perform Op.instantNow
    match (session.vardiff.recordShare now).maybeRetarget now with
    | some (_, vardiff) =>
      Prog.perform (Op.respond i { session with vardiff }
        (submitResponse j.validation))
    | none => Prog.perform (Op.closeSession i)
  else
    Prog.perform (Op.respond i session (submitResponse j.validation))

/-- `handle_submit` after the share has been recorded.  `build_submit_block`
may panic, and that ends the connection. -/
def finishSubmit (i : Nat) (session : SessionState) (p : SubmitParams)
    (cachedJob : Option MiningJob) (j : Judgement) (dedupeKey : String) :
    Body Unit := do
  match j.validation.networkTargetOk, cachedJob with
  | true, some job =>
    if job.blockBytes.isEmpty then answerSubmit i session j
    else
      match buildSubmitBlock suite job session.extranonce1 p with
      | .block blockHex builtHash =>
        submitCandidate job j.templateId blockHex builtHash dedupeKey
        answerSubmit i session j
      | .error => answerSubmit i session j
      | .panic => Prog.perform (Op.closeSession i)
  | _, _ => answerSubmit i session j

/-- `handle_submit`. -/
def handleSubmit (i : Nat) (session : SessionState) (p : SubmitParams) :
    Body Unit := do
  if !session.isSubscribed then
    Prog.perform (Op.respond i session (.err 25 "not-subscribed"))
  else
    let cachedJob ← Prog.perform (Op.jobCacheGet p.jobId)
    let j := judge suite session p cachedJob
    let dedupeKey ← persistShare suite session p j
    finishSubmit suite i session p cachedJob j dedupeKey

end Submit

/-! ## The state of a session -/

section Session

variable (suite : Suite)

/-- Eight hex digits of the session counter: the extranonce of a new
session. -/
def extranonce1Of (count : Nat) : String :=
  Text.hexEncode [UInt8.ofNat (count / 2 ^ 24), UInt8.ofNat (count / 2 ^ 16),
    UInt8.ofNat (count / 2 ^ 8), UInt8.ofNat count]

/-- The session that the accept loop makes for the `count`-th connection.
There is none when `VarDiff::new` panics. -/
def newSession (config : VarDiffConfig) (count : Nat)
    (latest : Option MiningJob) (now : ℚ) : Option SessionState :=
  let nDiff := (latest.bind fun job =>
    networkTargetHexToDifficulty suite job.networkTargetHex).getD 1
  (VarDiff.new config nDiff now).map fun vardiff =>
    { sessionId := s!"sess-{count}", extranonce1 := extranonce1Of count,
      vardiff }

/-- `SessionState::handle_subscribe`. -/
def SessionState.handleSubscribe (s : SessionState) : SessionState :=
  { s with isSubscribed := true }

/-- `SessionState::handle_authorize`, with its answer. -/
def SessionState.handleAuthorize (s : SessionState) (worker : String) :
    StratumResponse × SessionState :=
  if !s.isSubscribed then (.err 25 "not-subscribed", s)
  else if (parseWorkerName suite.isLotusAddress worker).isNone then
    (.err 24 "unauthorized-worker", s)
  else
    (.ok, { s with
      authorizedWorkers := s.authorizedWorkers.insert worker
      isAuthorized := true })

/-- The assignment of a job to a session. -/
def SessionState.assignJob (s : SessionState) (job : MiningJob) :
    SessionState :=
  s.recordAssignedJob job.jobId s.currentDifficulty job.ntime

/-- `mining.authorize` in `handle_connection`: an authorized session gets the
latest job. -/
def authorizeSession (s : SessionState) (worker : String)
    (latest : Option MiningJob) : SessionState :=
  let s := (s.handleAuthorize suite worker).2
  match s.isAuthorized, latest with
  | true, some job => s.assignJob job
  | _, _ => s

/-- A new job in `handle_connection`: the ceiling of the difficulty follows
the network target, and a clean job makes all earlier ones stale. -/
def receiveJob (s : SessionState) (job : MiningJob) : SessionState :=
  let s :=
    match networkTargetHexToDifficulty suite job.networkTargetHex with
    | some nDiff => { s with vardiff := (s.vardiff.updateMax nDiff).2 }
    | none => s
  let s := if job.cleanJobs then s.clearAssignedJobs else s
  s.assignJob job

/-- Only a name that parses becomes authorized. -/
theorem mem_authorizeSession {s : SessionState} {worker name : String}
    {latest : Option MiningJob}
    (h : name ∈ (authorizeSession suite s worker latest).authorizedWorkers) :
    name ∈ s.authorizedWorkers ∨
      (parseWorkerName suite.isLotusAddress name).isSome := by
  have hauthorized : (authorizeSession suite s worker latest).authorizedWorkers =
      (s.handleAuthorize suite worker).2.authorizedWorkers := by
    unfold authorizeSession
    dsimp only
    split <;> rfl
  rw [hauthorized] at h
  unfold SessionState.handleAuthorize at h
  split at h
  · exact Or.inl h
  · split at h
    · exact Or.inl h
    · rename_i hparses
      rcases List.mem_insert_iff.1 h with rfl | hold
      · exact Or.inr (by simpa [Option.isSome_iff_ne_none] using hparses)
      · exact Or.inl hold

/-- A new job authorizes no one. -/
theorem receiveJob_authorizedWorkers (s : SessionState) (job : MiningJob) :
    (receiveJob suite s job).authorizedWorkers = s.authorizedWorkers := by
  unfold receiveJob
  dsimp only
  split <;> split <;> rfl

end Session

end StratumServer
