import StratumServer.Lib.Calls
import StratumServer.StratumProtocol.Server

/-!
# One connection

`handle_connection` for one miner, from the moment its session is made.  An
input is one turn of its loop, or one step of the consumer: a job that enters
the cache, or one that is sent to the sessions.  The cache and the channel
may hold anything when the connection begins.

Two things are wider here than in the source.  A connection may receive the
jobs that were sent in any order and any number of times.  And the retarget
that follows an accepted submission is an input of its own, since the
consumer may come in between.

A connection writes down what it does.  The entries that stand for one turn
have the order of the calls in the source, newest first.  `each_of_meets` is
the rule for what is written down.
-/

namespace StratumServer

open Calls

/-- What a connection does. -/
inductive SessionEntry
  | subscribed
  /-- A `mining.authorize` request that was answered with `true`. -/
  | authorized (worker : String)
  /-- `clear_assigned_jobs`. -/
  | cleared
  /-- A `mining.notify` message to the miner. -/
  | notified (job : MiningJob)
  /-- `record_assigned_job`. -/
  | recorded (job : MiningJob) (assigned : AssignedJob)
  /-- `handle_submit` of a subscribed session, with the job that the cache
  gave. -/
  | judged (p : SubmitParams) (session : SessionState)
      (cachedJob : Option MiningJob)
  deriving DecidableEq

/-- A submission. -/
def SessionEntry.isJudged : SessionEntry → Bool
  | .judged .. => true
  | _ => false

/-- A connection.  The session is gone after the miner has left, or after a
panic. -/
structure Connection where
  session : Option SessionState
  jobCache : JobCache
  broadcast : List MiningJob
  transcript : List SessionEntry

/-- What can happen next. -/
inductive Input
  | insert (job : MiningJob)
  | send (job : MiningJob)
  | subscribe
  | authorize (worker : String)
  | receive (job : MiningJob)
  | submit (p : SubmitParams)
  | retarget (now : ℚ)
  | disconnect
  deriving DecidableEq

/-- A submission that is accepted. -/
def SessionEntry.accepted (suite : Suite) : SessionEntry → Bool
  | .judged p s cachedJob => (judge suite s p cachedJob).validation.accepted
  | _ => false

/-- The message and the record that hand a job to a session. -/
def SessionState.assignEntries (s : SessionState) (job : MiningJob) :
    List SessionEntry :=
  [.recorded job ⟨job.jobId, s.currentDifficulty, job.ntime⟩, .notified job]

section Connection

variable (suite : Suite)

/-- The session after a new ceiling, and without its jobs when the new job is
clean. -/
def SessionState.prepareFor (s : SessionState) (job : MiningJob) :
    SessionState :=
  let s :=
    match networkTargetHexToDifficulty suite job.networkTargetHex with
    | some nDiff => { s with vardiff := (s.vardiff.updateMax nDiff).2 }
    | none => s
  if job.cleanJobs then s.clearAssignedJobs else s

/-- Apart from the jobs, a new job changes the difficulty only. -/
theorem SessionState.prepareFor_eq (s : SessionState) (job : MiningJob) :
    ∃ vardiff, s.prepareFor suite job =
      if job.cleanJobs then { s with vardiff }.clearAssignedJobs
      else { s with vardiff } := by
  unfold SessionState.prepareFor
  cases networkTargetHexToDifficulty suite job.networkTargetHex with
  | some nDiff => exact ⟨(s.vardiff.updateMax nDiff).2, rfl⟩
  | none => exact ⟨s.vardiff, rfl⟩

/-- The answer to `mining.authorize`. -/
def answerEntries (s : SessionState) (worker : String) : List SessionEntry :=
  if (s.handleAuthorize suite worker).1 = .ok then [.authorized worker] else []

/-- What `mining.authorize` does. -/
def authorizeEntries (s : SessionState) (worker : String)
    (latest : Option MiningJob) : List SessionEntry :=
  let answered := answerEntries suite s worker
  let s := (s.handleAuthorize suite worker).2
  match s.isAuthorized, latest with
  | true, some job => s.assignEntries job ++ answered
  | _, _ => answered

/-- An authorized session gets the latest job, if there is one. -/
theorem authorize_cases (s : SessionState) (worker : String)
    (latest : Option MiningJob) :
    (authorizeSession suite s worker latest =
        (s.handleAuthorize suite worker).2 ∧
      authorizeEntries suite s worker latest = answerEntries suite s worker) ∨
    ∃ job, latest = some job ∧
      (s.handleAuthorize suite worker).2.isAuthorized = true ∧
      authorizeSession suite s worker latest =
        (s.handleAuthorize suite worker).2.assignJob job ∧
      authorizeEntries suite s worker latest =
        (s.handleAuthorize suite worker).2.assignEntries job ++
          answerEntries suite s worker := by
  unfold authorizeSession authorizeEntries
  dsimp only
  cases (s.handleAuthorize suite worker).2.isAuthorized with
  | false => exact Or.inl ⟨rfl, rfl⟩
  | true =>
    cases latest with
    | none => exact Or.inl ⟨rfl, rfl⟩
    | some job => exact Or.inr ⟨job, rfl, rfl, rfl, rfl⟩

/-- What a new job does. -/
def receiveEntries (s : SessionState) (job : MiningJob) : List SessionEntry :=
  (s.prepareFor suite job).assignEntries job ++
    if job.cleanJobs then [.cleared] else []

theorem authorizeEntries_isJudged {s : SessionState} {worker : String}
    {latest : Option MiningJob} :
    ∀ e ∈ authorizeEntries suite s worker latest, e.isJudged = false := by
  have hanswer : ∀ e ∈ answerEntries suite s worker, e.isJudged = false := by
    unfold answerEntries
    split <;> simp [SessionEntry.isJudged]
  rcases authorize_cases suite s worker latest with ⟨_, heq⟩ |
    ⟨job, _, _, _, heq⟩
  · rw [heq]
    exact hanswer
  · rw [heq]
    simpa [SessionState.assignEntries, SessionEntry.isJudged] using hanswer

theorem receiveEntries_isJudged {s : SessionState} {job : MiningJob} :
    ∀ e ∈ receiveEntries suite s job, e.isJudged = false := by
  unfold receiveEntries
  split <;> simp [SessionState.assignEntries, SessionEntry.isJudged]

/-- The end of an accepted submission; a panic of `clamp` ends the
connection. -/
def SessionState.retarget (s : SessionState) (now : ℚ) : Option SessionState :=
  ((s.vardiff.recordShare now).maybeRetarget now).map fun (_, vardiff) =>
    { s with vardiff }

namespace Connection

/-- The connection after a turn of the session. -/
def turn (c : Connection) (session : Option SessionState)
    (entries : List SessionEntry) : Connection :=
  { c with session, transcript := entries ++ c.transcript }

/-- A turn of the loop. -/
def stepSession (c : Connection) (s : SessionState) : Input → Connection
  | .subscribe => c.turn (some s.handleSubscribe) [.subscribed]
  | .authorize worker =>
    let latest := c.jobCache.getLatest
    c.turn (some (authorizeSession suite s worker latest))
      (authorizeEntries suite s worker latest)
  | .receive job =>
    if job ∈ c.broadcast then
      c.turn (some (receiveJob suite s job)) (receiveEntries suite s job)
    else c
  | .submit p =>
    if s.isSubscribed then
      c.turn (some s) [.judged p s (c.jobCache.get p.jobId)]
    else c
  | .retarget now => c.turn (s.retarget now) []
  | .disconnect => c.turn none []
  | .insert _ | .send _ => c

/-- One input. -/
def step (c : Connection) : Input → Connection
  | .insert job => { c with jobCache := c.jobCache.insert job }
  | .send job => { c with broadcast := job :: c.broadcast }
  | i =>
    match c.session with
    | some s => c.stepSession suite s i
    | none => c

/-- The `count`-th connection, which the accept loop makes. -/
def accept (config : VarDiffConfig) (count : Nat) (now : ℚ)
    (jobCache : JobCache) (broadcast : List MiningJob) : Option Connection :=
  (newSession suite config count jobCache.getLatest now).map fun s =>
    ⟨some s, jobCache, broadcast, []⟩

/-! ## What a step does -/

/-- The turns of a session, with what they leave and write down. -/
inductive Turn (c : Connection) (s : SessionState) :
    Input → Option SessionState → List SessionEntry → Prop
  | subscribe : Turn c s .subscribe (some s.handleSubscribe) [.subscribed]
  | authorize (worker : String) :
      Turn c s (.authorize worker)
        (some (authorizeSession suite s worker c.jobCache.getLatest))
        (authorizeEntries suite s worker c.jobCache.getLatest)
  | receive {job : MiningJob} (hjob : job ∈ c.broadcast) :
      Turn c s (.receive job) (some (receiveJob suite s job))
        (receiveEntries suite s job)
  | submit {p : SubmitParams} (hsubscribed : s.isSubscribed = true) :
      Turn c s (.submit p) (some s) [.judged p s (c.jobCache.get p.jobId)]
  | retarget (now : ℚ) : Turn c s (.retarget now) (s.retarget now) []
  | disconnect : Turn c s .disconnect none []

theorem step_cases (c : Connection) (i : Input) :
    ((c.step suite i).session = c.session ∧
        (c.step suite i).transcript = c.transcript) ∨
      ∃ s s' entries, c.session = some s ∧ Turn suite c s i s' entries ∧
        (c.step suite i).session = s' ∧
        (c.step suite i).transcript = entries ++ c.transcript := by
  cases hs : c.session with
  | none =>
    refine Or.inl ?_
    cases i <;> simp [step, hs]
  | some s =>
    cases i with
    | insert job | send job => exact Or.inl ⟨hs, rfl⟩
    | subscribe =>
      exact Or.inr ⟨s, _, _, rfl, .subscribe, by simp [step, hs, stepSession,
        turn]⟩
    | authorize worker =>
      exact Or.inr ⟨s, _, _, rfl, .authorize worker, by simp [step, hs,
        stepSession, turn]⟩
    | receive job =>
      by_cases hjob : job ∈ c.broadcast
      · exact Or.inr ⟨s, _, _, rfl, .receive hjob, by simp [step, hs,
          stepSession, turn, hjob]⟩
      · exact Or.inl (by simp [step, hs, stepSession, hjob])
    | submit p =>
      by_cases hsubscribed : s.isSubscribed = true
      · exact Or.inr ⟨s, _, _, rfl, .submit hsubscribed, by simp [step, hs,
          stepSession, turn, hsubscribed]⟩
      · exact Or.inl (by simp [step, hs, stepSession, hsubscribed])
    | retarget now =>
      exact Or.inr ⟨s, _, _, rfl, .retarget now, by simp [step, hs,
        stepSession, turn]⟩
    | disconnect =>
      exact Or.inr ⟨s, _, _, rfl, .disconnect, by simp [step, hs, stepSession,
        turn]⟩

/-- The rule for connections.  `I` is kept by the session and what it has
written, and every entry satisfies `P`. -/
theorem each_of_meets {ok : Connection → Input → Prop}
    {I : SessionState → List SessionEntry → Prop}
    {P : List SessionEntry → SessionEntry → Prop}
    (hturn : ∀ {c s i s' entries}, c.session = some s → I s c.transcript →
      Each P c.transcript → ok c i → Turn suite c s i s' entries →
      Each P (entries ++ c.transcript) ∧
        ∀ s'' ∈ s', I s'' (entries ++ c.transcript))
    {c : Connection} (hinit : ∀ s, c.session = some s → I s c.transcript)
    (heach : Each P c.transcript) {inputs : List Input}
    (h : Meets (step suite) ok c inputs) :
    Each P (inputs.foldl (step suite) c).transcript := by
  have hkept := h.invariant
    (I := fun c => Each P c.transcript ∧
      ∀ s, c.session = some s → I s c.transcript)
    (fun c i hI hok => ?_) ⟨heach, hinit⟩
  · exact hkept.1
  · rcases step_cases suite c i with ⟨hsession, htranscript⟩ |
      ⟨s, s', entries, hs, hstep, hsession, htranscript⟩
    · rw [hsession, htranscript]
      exact hI
    · rw [hsession, htranscript]
      exact hturn hs (hI.2 s hs) hI.1 hok hstep

end Connection

end Connection

end StratumServer
