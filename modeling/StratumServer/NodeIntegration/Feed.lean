import StratumServer.NodeIntegration.Coalesce
import StratumServer.NodeIntegration.Template
import StratumServer.StratumProtocol.Serving

/-!
# From the node to the miners

`NngEventConsumer::run` with the coalescer that it spawns, between the node
and the Stratum side of the server.  The node changes its template and
publishes a message; the consumer forwards the message to the coalescer,
takes from it one event for each window, asks the node for its template, puts
the job into the cache and sends it to the connections.

The consumer is one task: while it waits for room in the channel to the
coalescer, for the template or for the database, it takes nothing else.  Its
waiting places are a `ConsumerPhase`, and a `FeedEvent` is one step of the
node, of one of the two tasks, or of the Stratum side.  The two channels hold
32 events each.

The first template is fetched before the subscription.  So the template that
the node has at the start need not be the one of the initial job, and nothing
has been announced yet.

`step_moves` lists what an event can do, and `run_invariant` is the rule for
runs.  The shutdown is left out: a run is one until the shutdown.
-/

namespace StratumServer

open Broadcast (Channels)

/-- `MiningWorkChangedReason`. -/
inductive MiningWorkChangedReason
  | newTip
  | reorg
  | mempoolRefresh
  | manualInvalidation
  deriving DecidableEq, Repr

/-- `miningwrkchg_reason_to_string`. -/
def miningwrkchgReasonToString : MiningWorkChangedReason → String
  | .newTip => "new-tip"
  | .reorg => "reorg"
  | .mempoolRefresh => "mempool"
  | .manualInvalidation => "manual"

/-- A message of the publisher.  The messages about blocks keep the consumer
busy and change nothing here. -/
inductive NodeMessage
  | miningWorkChanged (reason : MiningWorkChangedReason)
  | block
  deriving DecidableEq, Repr

deriving instance DecidableEq for MiningTemplate

/-- Where the consumer waits. -/
inductive ConsumerPhase
  /-- In the `select!` of its loop. -/
  | selecting
  /-- For `raw_tx.send(event)`. -/
  | forwarding (reason : MiningWorkChangedReason)
  /-- For `handle_block_connected` or `handle_block_disconnected`. -/
  | handling
  /-- For `get_mining_template`. -/
  | asking (reason : MiningWorkChangedReason)
  /-- For the job to be in the cache. -/
  | answered (reason : MiningWorkChangedReason) (template : MiningTemplate)
  /-- Before `job_tx.send(job)`. -/
  | publishing
  deriving DecidableEq

/-- The node, the two tasks and the Stratum side. -/
structure Feed (B : Channels WorkJob) (ν : Type) where
  /-- The template that the node answers with. -/
  template : MiningTemplate
  /-- What was published and not yet received. -/
  inbox : List NodeMessage := []
  phase : ConsumerPhase := .selecting
  coalescer : Coalescer MiningWorkChangedReason := {}
  /-- How many of the events that the coalescer sent were taken. -/
  taken : Nat := 0
  serving : Serving B ν
  /-- A change of the template has been published. -/
  announced : Bool := false
  /-- The last attempt to get a job has failed. -/
  failed : Bool := false

/-- What can happen next. -/
inductive FeedEvent
  /-- The node has a new template, and publishes it.  That the template does
  not change without a message, and that no message is lost on its way to the
  consumer, is an assumption about the node and its socket. -/
  | nodeChanges (template : MiningTemplate) (reason : MiningWorkChangedReason)
  /-- The node publishes another message. -/
  | nodePublishes
  /-- The consumer takes a message of the node. -/
  | receive
  /-- `raw_tx.send` returns. -/
  | forward
  /-- A message about a block has been dealt with. -/
  | handled
  /-- The consumer takes an event of the coalescer. -/
  | take
  /-- `get_mining_template` returns the template of this time, or it fails. -/
  | answer (ok : Bool)
  /-- `template_to_job` and the cache. -/
  | cache
  /-- `job_tx.send` returns. -/
  | publish
  | coalesceReceive
  | coalesceTimer
  | coalesceSend
  /-- A step of the accept loop or of a connection. -/
  | serve (event : ServingEvent)

/-- The events of the consumer and of the coalescer. -/
def FeedEvent.isTask : FeedEvent → Bool
  | .nodeChanges _ _ | .nodePublishes | .serve _ => false
  | _ => true

/-- The capacity of the two channels. -/
def workChannelCapacity : Nat := 32

/-- The job of `on_mining_work_changed`. -/
def refreshedJob (suite : Suite) (template : MiningTemplate)
    (reason : MiningWorkChangedReason) : Option WorkJob :=
  match templateToJob suite template true with
  | .ok job => some ⟨job, miningwrkchgReasonToString reason⟩
  | .error _ => none

/-- The steps of `on_mining_work_changed` belong to the consumer. -/
def ServingEvent.isServer : ServingEvent → Bool
  | .workChanged _ | .sendJob => false
  | _ => true

namespace Feed

variable {B : Channels WorkJob} {ν : Type} (suite : Suite) (w : Wire ν) (config : VarDiffConfig)

/-- The state after the subscription. -/
def start (maxSize : Nat) (initial : WorkJob) (log : List AuthorizationEvent)
    (template : MiningTemplate) : Feed B ν where
  template := template
  serving := Serving.start maxSize initial log

/-- What waits in the channel from the coalescer. -/
def outbox (s : Feed B ν) : List MiningWorkChangedReason :=
  s.coalescer.sent.drop s.taken

/-- One event. -/
def step (s : Feed B ν) : FeedEvent → Feed B ν
  | .nodeChanges template reason =>
    { s with template, inbox := s.inbox ++ [.miningWorkChanged reason],
             announced := true }
  | .nodePublishes => { s with inbox := s.inbox ++ [.block] }
  | .receive =>
    match s.phase, s.inbox with
    | .selecting, .miningWorkChanged reason :: inbox =>
      { s with inbox, phase := .forwarding reason }
    | .selecting, .block :: inbox => { s with inbox, phase := .handling }
    | _, _ => s
  | .forward =>
    match s.phase with
    | .forwarding reason =>
      if s.coalescer.queue.length < workChannelCapacity then
        { s with coalescer := s.coalescer.step (.arrive reason),
                 phase := .selecting }
      else s
    | _ => s
  | .handled =>
    match s.phase with
    | .handling => { s with phase := .selecting }
    | _ => s
  | .take =>
    match s.phase, s.outbox with
    | .selecting, reason :: _ =>
      { s with taken := s.taken + 1, phase := .asking reason }
    | _, _ => s
  | .answer ok =>
    match s.phase with
    | .asking reason =>
      if ok then { s with phase := .answered reason s.template }
      else { s with phase := .selecting, failed := true }
    | _ => s
  | .cache =>
    match s.phase with
    | .answered reason template =>
      match refreshedJob suite template reason with
      | some work =>
        { s with serving := s.serving.step suite w config (.workChanged work),
                 phase := .publishing, failed := false }
      | none => { s with phase := .selecting, failed := true }
    | _ => s
  | .publish =>
    match s.phase with
    | .publishing =>
      { s with serving := s.serving.step suite w config .sendJob,
               phase := .selecting }
    | _ => s
  | .coalesceReceive => { s with coalescer := s.coalescer.step .receive }
  | .coalesceTimer => { s with coalescer := s.coalescer.step .timer }
  | .coalesceSend =>
    if s.outbox.length < workChannelCapacity then
      { s with coalescer := s.coalescer.step .send }
    else s
  | .serve event =>
    if event.isServer then
      { s with serving := s.serving.step suite w config event }
    else s

/-- The state after a sequence of events. -/
def run (s : Feed B ν) (events : List FeedEvent) : Feed B ν :=
  events.foldl (step suite w config) s

theorem run_run (s : Feed B ν) (events more : List FeedEvent) :
    (s.run suite w config events).run suite w config more =
      s.run suite w config (events ++ more) :=
  List.foldl_append.symm

/-! ## One event -/

/-- What an event that is not ignored does. -/
inductive Moves (s : Feed B ν) : FeedEvent → Feed B ν → Prop
  | nodeChanges (template : MiningTemplate) (reason : MiningWorkChangedReason) :
      Moves s (.nodeChanges template reason)
        { s with template, inbox := s.inbox ++ [.miningWorkChanged reason],
                 announced := true }
  | nodePublishes :
      Moves s .nodePublishes { s with inbox := s.inbox ++ [.block] }
  | receive (reason : MiningWorkChangedReason) (inbox : List NodeMessage)
      (hphase : s.phase = .selecting)
      (hinbox : s.inbox = .miningWorkChanged reason :: inbox) :
      Moves s .receive { s with inbox, phase := .forwarding reason }
  | receiveBlock (inbox : List NodeMessage) (hphase : s.phase = .selecting)
      (hinbox : s.inbox = .block :: inbox) :
      Moves s .receive { s with inbox, phase := .handling }
  | forward (reason : MiningWorkChangedReason)
      (hphase : s.phase = .forwarding reason)
      (hroom : s.coalescer.queue.length < workChannelCapacity) :
      Moves s .forward
        { s with coalescer := s.coalescer.step (.arrive reason),
                 phase := .selecting }
  | handled (hphase : s.phase = .handling) :
      Moves s .handled { s with phase := .selecting }
  | take (reason : MiningWorkChangedReason) (hphase : s.phase = .selecting)
      (hwaits : s.taken < s.coalescer.sent.length) :
      Moves s .take { s with taken := s.taken + 1, phase := .asking reason }
  | answer (reason : MiningWorkChangedReason) (hphase : s.phase = .asking reason) :
      Moves s (.answer true) { s with phase := .answered reason s.template }
  | answerFails (reason : MiningWorkChangedReason)
      (hphase : s.phase = .asking reason) :
      Moves s (.answer false) { s with phase := .selecting, failed := true }
  | cache (reason : MiningWorkChangedReason) (template : MiningTemplate)
      (work : WorkJob) (hphase : s.phase = .answered reason template)
      (hwork : refreshedJob suite template reason = some work) :
      Moves s .cache
        { s with serving := s.serving.step suite w config (.workChanged work),
                 phase := .publishing, failed := false }
  | cacheFails (reason : MiningWorkChangedReason) (template : MiningTemplate)
      (hphase : s.phase = .answered reason template) :
      Moves s .cache { s with phase := .selecting, failed := true }
  | publish (hphase : s.phase = .publishing) :
      Moves s .publish
        { s with serving := s.serving.step suite w config .sendJob,
                 phase := .selecting }
  | coalesceReceive (coalescer : Coalescer MiningWorkChangedReason)
      (hmove : s.coalescer.Moves .receive coalescer) :
      Moves s .coalesceReceive { s with coalescer }
  | coalesceTimer (coalescer : Coalescer MiningWorkChangedReason)
      (hmove : s.coalescer.Moves .timer coalescer) :
      Moves s .coalesceTimer { s with coalescer }
  | coalesceSend (coalescer : Coalescer MiningWorkChangedReason)
      (hmove : s.coalescer.Moves .send coalescer)
      (hroom : s.outbox.length < workChannelCapacity) :
      Moves s .coalesceSend { s with coalescer }
  | serve (event : ServingEvent) (hevent : event.isServer = true) :
      Moves s (.serve event)
        { s with serving := s.serving.step suite w config event }

/-- An event is ignored, or it makes one of the moves. -/
theorem step_moves (s : Feed B ν) (e : FeedEvent) :
    s.step suite w config e = s ∨
      Moves suite w config s e (s.step suite w config e) := by
  cases e with
  | nodeChanges template reason => exact Or.inr (.nodeChanges template reason)
  | nodePublishes => exact Or.inr .nodePublishes
  | receive =>
    simp only [step]
    split
    · rename_i reason inbox hphase hinbox
      exact Or.inr (.receive reason inbox hphase hinbox)
    · rename_i inbox hphase hinbox
      exact Or.inr (.receiveBlock inbox hphase hinbox)
    · exact Or.inl rfl
  | forward =>
    simp only [step]
    split
    · rename_i reason hphase
      split
      · rename_i hroom
        exact Or.inr (.forward reason hphase hroom)
      · exact Or.inl rfl
    · exact Or.inl rfl
  | handled =>
    simp only [step]
    split
    · rename_i hphase
      exact Or.inr (.handled hphase)
    · exact Or.inl rfl
  | take =>
    simp only [step]
    split
    · rename_i reason rest hphase hwaits
      refine Or.inr (.take reason hphase ?_)
      have hlength := congrArg List.length hwaits
      simp only [outbox, List.length_drop, List.length_cons] at hlength
      omega
    · exact Or.inl rfl
  | answer ok =>
    simp only [step]
    split
    · rename_i reason hphase
      cases ok with
      | true => exact Or.inr (.answer reason hphase)
      | false => exact Or.inr (.answerFails reason hphase)
    · exact Or.inl rfl
  | cache =>
    simp only [step]
    split
    · rename_i reason template hphase
      split
      · rename_i work hwork
        exact Or.inr (.cache reason template work hphase hwork)
      · exact Or.inr (.cacheFails reason template hphase)
    · exact Or.inl rfl
  | publish =>
    simp only [step]
    split
    · rename_i hphase
      exact Or.inr (.publish hphase)
    · exact Or.inl rfl
  | coalesceReceive =>
    simp only [step]
    rcases s.coalescer.step_moves .receive with heq | hmove
    · rw [heq]
      exact Or.inl rfl
    · exact Or.inr (.coalesceReceive _ hmove)
  | coalesceTimer =>
    simp only [step]
    rcases s.coalescer.step_moves .timer with heq | hmove
    · rw [heq]
      exact Or.inl rfl
    · exact Or.inr (.coalesceTimer _ hmove)
  | coalesceSend =>
    simp only [step]
    split
    · rename_i hroom
      rcases s.coalescer.step_moves .send with heq | hmove
      · rw [heq]
        exact Or.inl rfl
      · exact Or.inr (.coalesceSend _ hmove hroom)
    · exact Or.inl rfl
  | serve event =>
    simp only [step]
    split
    · rename_i hevent
      exact Or.inr (.serve event hevent)
    · exact Or.inl rfl

variable {suite w config} in
/-- What every move keeps holds after any sequence of events. -/
theorem run_invariant {I : Feed B ν → Prop}
    (hmoves : ∀ s e s', I s → Moves suite w config s e s' → I s')
    {s : Feed B ν} (h : I s) (events : List FeedEvent) :
    I (s.run suite w config events) := by
  induction events generalizing s with
  | nil => exact h
  | cons e events ih =>
    apply ih
    rcases step_moves suite w config s e with heq | hmove
    · rw [heq]
      exact h
    · exact hmoves s e _ h hmove

end Feed

end StratumServer
