import StratumServer.Lib.Broadcast
import StratumServer.Lib.Calls
import StratumServer.StratumProtocol.Dialogue
import StratumServer.System.Simulation

/-!
# All connections

The Stratum side of the server: the consumer that puts a new job into the
cache and then sends it on the channel, the accept loop, and the connections.
Each is a task of its own, and a `ServingEvent` is one step of one of them, so
a sequence of events is any interleaving.

The accept loop makes a session out of the latest job, and subscribes to the
channel only after that, so the consumer may come in between.  Only then is
the task of the connection spawned.

The cache holds jobs without their reason.  `getLatest` gives the job that
was inserted last, so the reason of that one is kept beside it.

The channel may be any one that keeps the promises of `Broadcast.Channels`,
which are those of `tokio::sync::broadcast`.

`step_moves` lists what an event can do.
-/

namespace StratumServer

open Broadcast (Channels queue)

/-- A connection.  The session is gone when its task has ended. -/
structure Miner (B : Channels WorkJob) (ν : Type) where
  session : Option SessionState
  receiver : B.Receiver
  /-- The lines that were handled. -/
  lines : List String := []
  /-- The messages that were written. -/
  written : List (ServerMessage ν) := []

/-- The Stratum side of the server. -/
structure Serving (B : Channels WorkJob) (ν : Type) where
  jobCache : JobCache
  latestReason : String
  channel : B.Channel
  /-- The job that the consumer has inserted and has still to send. -/
  unsent : Option WorkJob := none
  /-- The session that the accept loop has made and not yet subscribed. -/
  opening : Option SessionState := none
  accepting : Bool := true
  miners : List (Miner B ν) := []
  /-- The table of the authorization log. -/
  authorizationEvents : List AuthorizationEvent

/-- What can happen next. -/
inductive ServingEvent
  /-- `on_mining_work_changed` up to the cache. -/
  | workChanged (work : WorkJob)
  /-- The rest of `on_mining_work_changed`. -/
  | sendJob
  /-- The accept loop makes a session. -/
  | accept (now : ℚ)
  /-- It subscribes the connection to the jobs, and spawns its task. -/
  | listen
  /-- A line of a miner.  The row for the log is `stored` or is lost. -/
  | line (i : Nat) (text : String) (now : ℚ) (stored : Bool)
  /-- `job_rx` is polled. -/
  | job (i : Nat)
  /-- The task ends: the miner has left, a write fails, or the shutdown. -/
  | leave (i : Nat)

/-- The capacity of `job_tx`. -/
def jobChannelCapacity : Nat := 128

namespace Miner

variable {B : Channels WorkJob} {ν : Type}

/-- The connection after a turn; a turn that gives nothing has panicked. -/
def afterLine (m : Miner B ν) (line : String) (result : Option (TurnResult ν)) :
    Miner B ν :=
  match result with
  | some r => { m with session := some r.session, lines := m.lines ++ [line],
                       written := m.written ++ r.written }
  | none => { m with session := none }

def afterJob (m : Miner B ν) (receiver : B.Receiver) (r : TurnResult ν) :
    Miner B ν :=
  { m with session := some r.session, receiver, written := m.written ++ r.written }

end Miner

/-- The job that `on_mining_work_changed` makes of a template. -/
def WorkJob.announced (work : WorkJob) : WorkJob := { work with cleanJobs := true }

/-- The rows that a turn logs. -/
def loggedBy {ν : Type} (result : Option (TurnResult ν)) :
    List AuthorizationEvent :=
  (result.map (·.logged)).getD []

namespace Serving

variable {B : Channels WorkJob} {ν : Type} (suite : Suite) (w : Wire ν) (config : VarDiffConfig)

/-- The server when the accept loop begins.  The first job has been inserted
and sent; no one has received it, since every receiver starts behind it.  The
`log` is what earlier processes have left in the table. -/
def start (maxSize : Nat) (initial : WorkJob)
    (log : List AuthorizationEvent) : Serving B ν where
  jobCache := (JobCache.new maxSize).insert initial.toMiningJob
  latestReason := initial.reason
  channel := B.send (B.new jobChannelCapacity) initial
  authorizationEvents := log

/-- `JobCache::get_latest`, with the reason. -/
def latest (v : Serving B ν) : Option WorkJob :=
  v.jobCache.getLatest.map fun job => ⟨job, v.latestReason⟩

/-- What the turn of a connection is answered. -/
def around (v : Serving B ν) (now : ℚ) : Surroundings :=
  ⟨v.latest, v.jobCache.get, now⟩

def setMiner (v : Serving B ν) (i : Nat) (m : Miner B ν) : Serving B ν :=
  { v with miners := v.miners.set i m }

/-- One event. -/
def step (v : Serving B ν) : ServingEvent → Serving B ν
  | .workChanged work =>
    match v.unsent with
    | some _ => v
    | none =>
      { v with jobCache := v.jobCache.insert work.announced.toMiningJob,
               latestReason := work.announced.reason,
               unsent := some work.announced }
  | .sendJob =>
    match v.unsent with
    | some work => { v with channel := B.send v.channel work, unsent := none }
    | none => v
  | .accept now =>
    match v.accepting, v.opening with
    | true, none =>
      match newSession suite config (v.miners.length + 1) v.jobCache.getLatest
          now with
      | some s => { v with opening := some s }
      -- `VarDiff::new` has panicked, and with it the accept loop.
      | none => { v with accepting := false }
    | _, _ => v
  | .listen =>
    match v.opening with
    | some s =>
      { v with opening := none,
               miners := v.miners ++ [⟨some s, B.subscribe v.channel, [], []⟩] }
    | none => v
  | .line i text now stored =>
    match v.miners[i]? with
    | some m =>
      match m.session with
      | some s =>
        let result := s.handleLine suite w (v.around now) text
        { v.setMiner i (m.afterLine text result) with
          authorizationEvents := v.authorizationEvents ++
            if stored then loggedBy result else [] }
      | none => v
    | none => v
  | .job i =>
    match v.miners[i]? with
    | some m =>
      match m.session with
      | some s =>
        match B.recv v.channel m.receiver with
        | (.value work, receiver) =>
          v.setMiner i (m.afterJob receiver (s.handleJob suite work))
        -- `Lagged` is ignored, and an empty channel keeps the task waiting.
        | (_, receiver) => v.setMiner i { m with receiver }
      | none => v
    | none => v
  | .leave i =>
    match v.miners[i]? with
    | some m => v.setMiner i { m with session := none }
    | none => v

/-- The server after a sequence of events. -/
def run (v : Serving B ν) (events : List ServingEvent) : Serving B ν :=
  events.foldl (step suite w config) v

theorem run_concat (v : Serving B ν) (events : List ServingEvent)
    (e : ServingEvent) : v.run suite w config (events ++ [e]) =
      (v.run suite w config events).step suite w config e := by
  simp [run]

/-! ## One event -/

/-- What an event that is not ignored does. -/
inductive Moves (v : Serving B ν) : ServingEvent → Serving B ν → Prop
  | workChanged (work : WorkJob) (hunsent : v.unsent = none) :
      Moves v (.workChanged work)
        { v with jobCache := v.jobCache.insert work.announced.toMiningJob,
                 latestReason := work.announced.reason,
                 unsent := some work.announced }
  | sendJob (work : WorkJob) (hunsent : v.unsent = some work) :
      Moves v .sendJob
        { v with channel := B.send v.channel work, unsent := none }
  | accept (now : ℚ) (s : SessionState)
      (hs : newSession suite config (v.miners.length + 1)
        v.jobCache.getLatest now = some s) :
      Moves v (.accept now) { v with opening := some s }
  | acceptPanics (now : ℚ) : Moves v (.accept now) { v with accepting := false }
  | listen (s : SessionState) (hopening : v.opening = some s) :
      Moves v .listen
        { v with opening := none,
                 miners := v.miners ++ [⟨some s, B.subscribe v.channel, [], []⟩] }
  | line (i : Nat) (text : String) (now : ℚ) (stored : Bool) (m : Miner B ν)
      (s : SessionState) (hm : v.miners[i]? = some m)
      (hs : m.session = some s) :
      Moves v (.line i text now stored)
        { v.setMiner i
            (m.afterLine text (s.handleLine suite w (v.around now) text)) with
          authorizationEvents := v.authorizationEvents ++
            if stored then
              loggedBy (s.handleLine suite w (v.around now) text)
            else [] }
  | job (i : Nat) (m : Miner B ν) (s : SessionState) (work : WorkJob)
      (receiver : B.Receiver) (hm : v.miners[i]? = some m)
      (hs : m.session = some s)
      (hrecv : B.recv v.channel m.receiver = (.value work, receiver)) :
      Moves v (.job i)
        (v.setMiner i (m.afterJob receiver (s.handleJob suite work)))
  | noJob (i : Nat) (m : Miner B ν) (hm : v.miners[i]? = some m)
      (hrecv : ∀ work, (B.recv v.channel m.receiver).1 ≠ .value work) :
      Moves v (.job i)
        (v.setMiner i { m with receiver := (B.recv v.channel m.receiver).2 })
  | leave (i : Nat) (m : Miner B ν) (hm : v.miners[i]? = some m) :
      Moves v (.leave i)
        (v.setMiner i { m with session := none })

/-- An event is ignored, or it makes one of the moves. -/
theorem step_moves (v : Serving B ν) (e : ServingEvent) :
    v.step suite w config e = v ∨
      Moves suite w config v e (v.step suite w config e) := by
  cases e with
  | workChanged work =>
    simp only [step]
    split
    · exact Or.inl rfl
    · rename_i hunsent
      exact Or.inr (.workChanged work hunsent)
  | sendJob =>
    simp only [step]
    split
    · rename_i work hunsent
      exact Or.inr (.sendJob work hunsent)
    · exact Or.inl rfl
  | accept now =>
    simp only [step]
    split
    · split
      · rename_i s hs
        exact Or.inr (.accept now s hs)
      · exact Or.inr (.acceptPanics now)
    · exact Or.inl rfl
  | listen =>
    simp only [step]
    split
    · rename_i s hopening
      exact Or.inr (.listen s hopening)
    · exact Or.inl rfl
  | line i text now stored =>
    simp only [step]
    split
    · rename_i m hm
      split
      · rename_i s hs
        exact Or.inr (.line i text now stored m s hm hs)
      · exact Or.inl rfl
    · exact Or.inl rfl
  | job i =>
    simp only [step]
    split
    · rename_i m hm
      split
      · rename_i s hs
        split
        · rename_i work receiver hrecv
          exact Or.inr (.job i m s work receiver hm hs hrecv)
        · rename_i other receiver hother hrecv
          have hmove : Moves suite w config v (.job i) _ := .noJob i m hm ?_
          · rw [hrecv] at hmove
            exact Or.inr hmove
          · intro work hwork
            rw [hrecv] at hwork
            exact hother work hwork
      · exact Or.inl rfl
    · exact Or.inl rfl
  | leave i =>
    simp only [step]
    split
    · rename_i m hm
      exact Or.inr (.leave i m hm)
    · exact Or.inl rfl

variable {suite w config} in
/-- What every move keeps holds after any sequence of events. -/
theorem run_invariant {I : Serving B ν → Prop}
    (hmoves : ∀ v e v', I v → Moves suite w config v e v' → I v')
    {v : Serving B ν} (h : I v) (events : List ServingEvent) :
    I (v.run suite w config events) := by
  induction events generalizing v with
  | nil => exact h
  | cons e events ih =>
    apply ih
    rcases step_moves suite w config v e with heq | hmove
    · rw [heq]
      exact h
    · exact hmoves v e _ h hmove

/-! ## What holds of every connection -/

/-- The session that waits to be subscribed is the one for the next
connection. -/
def Opened (v : Serving B ν) : Prop :=
  ∀ s, v.opening = some s → ∃ latest now,
    newSession suite config (v.miners.length + 1) latest now = some s

variable {suite w config}

theorem Opened.of_eq {v v' : Serving B ν} (h : v.Opened suite config)
    (hopening : v'.opening = v.opening)
    (hlength : v'.miners.length = v.miners.length) :
    v'.Opened suite config := by
  unfold Opened
  rw [hopening, hlength]
  exact h

/-- All connections satisfy `P`, each with its number. -/
def Each (P : Nat → Miner B ν → Prop) (v : Serving B ν) : Prop :=
  ∀ i m, v.miners[i]? = some m → P i m

theorem Each.of_eq {P : Nat → Miner B ν → Prop} {v v' : Serving B ν} (h : v.Each P)
    (hminers : v'.miners = v.miners) : v'.Each P := by
  unfold Each
  rw [hminers]
  exact h

theorem Each.set {P : Nat → Miner B ν → Prop} {v v' : Serving B ν} (h : v.Each P)
    {i : Nat} {m : Miner B ν} (hm : P i m) (hminers : v'.miners = v.miners.set i m) :
    v'.Each P := by
  intro j m' hj
  rw [hminers, List.getElem?_set] at hj
  split at hj
  · rename_i heq
    subst heq
    split at hj
    · cases hj
      exact hm
    · cases hj
  · exact h j m' hj

section Rule

variable {P : B.Channel → Nat → Miner B ν → Prop}
  (hsend : ∀ c i m work, P c i m → P (B.send c work) i m)
  (hnew : ∀ c i s latest now,
    newSession suite config (i + 1) latest now = some s →
    P c i ⟨some s, B.subscribe c, [], []⟩)
  (hline : ∀ c i m s around text, m.session = some s → P c i m →
    P c i (m.afterLine text (s.handleLine suite w around text)))
  (hjob : ∀ c i m s work receiver, m.session = some s →
    B.recv c m.receiver = (.value work, receiver) → P c i m →
    P c i (m.afterJob receiver (s.handleJob suite work)))
  (hnoJob : ∀ c i m, (∀ work, (B.recv c m.receiver).1 ≠ .value work) → P c i m →
    P c i { m with receiver := (B.recv c m.receiver).2 })
  (hleave : ∀ c i m, P c i m → P c i { m with session := none })

include hnew in
theorem Each.listen {v v' : Serving B ν} (h : v.Each (P v.channel))
    (hopened : v.Opened suite config) {s : SessionState}
    (hopening : v.opening = some s)
    (hminers : v'.miners = v.miners ++ [⟨some s, B.subscribe v.channel, [], []⟩]) :
    v'.Each (P v.channel) := by
  intro i m hm
  rw [hminers, List.getElem?_append] at hm
  split at hm
  · exact h i m hm
  · obtain ⟨latest, now, hs⟩ := hopened s hopening
    have hi : i - v.miners.length = 0 := by
      have := (List.getElem?_eq_some_iff.1 hm).1
      simpa using this
    rw [hi] at hm
    cases hm
    have hlength : v.miners.length = i := by omega
    rw [hlength] at hs
    exact hnew _ i s latest now hs

include hsend hnew hline hjob hnoJob hleave

theorem each_moves {v v' : Serving B ν} {e : ServingEvent}
    (h : v.Opened suite config ∧ v.Each (P v.channel))
    (hmove : Moves suite w config v e v') :
    v'.Opened suite config ∧ v'.Each (P v'.channel) := by
  obtain ⟨hopened, heach⟩ := h
  cases hmove with
  | workChanged work hunsent => exact ⟨hopened.of_eq rfl rfl, heach.of_eq rfl⟩
  | sendJob work hunsent =>
    refine ⟨hopened.of_eq rfl rfl, ?_⟩
    exact fun i m hm => hsend _ i m work (heach i m hm)
  | accept now s hs =>
    refine ⟨?_, heach.of_eq rfl⟩
    rintro _ ⟨⟩
    exact ⟨_, now, hs⟩
  | acceptPanics now => exact ⟨hopened.of_eq rfl rfl, heach.of_eq rfl⟩
  | listen s hopening =>
    refine ⟨?_, heach.listen hnew hopened hopening rfl⟩
    intro _ hnone
    cases hnone
  | line i text now stored m s hm hs =>
    exact ⟨hopened.of_eq rfl List.length_set,
      heach.set (hline _ i m s _ text hs (heach i m hm)) rfl⟩
  | job i m s work receiver hm hs hrecv =>
    exact ⟨hopened.of_eq rfl List.length_set,
      heach.set (hjob _ i m s work receiver hs hrecv (heach i m hm)) rfl⟩
  | noJob i m hm hrecv =>
    exact ⟨hopened.of_eq rfl List.length_set,
      heach.set (hnoJob _ i m hrecv (heach i m hm)) rfl⟩
  | leave i m hm =>
    exact ⟨hopened.of_eq rfl List.length_set,
      heach.set (hleave _ i m (heach i m hm)) rfl⟩

/-- The rule for connections: what holds of a new connection and is kept by
each of its turns holds of all connections at any time. -/
theorem each_run (maxSize : Nat) (initial : WorkJob)
    (log : List AuthorizationEvent) (events : List ServingEvent) :
    ((start maxSize initial log).run suite w config events).Each
      (P ((start maxSize initial log).run suite w config events).channel) := by
  refine (run_invariant
    (I := fun v => v.Opened suite config ∧ v.Each (P v.channel))
    (fun v e v' h hmove => ?_) ⟨?_, ?_⟩ events).2
  · exact each_moves hsend hnew hline hjob hnoJob hleave h hmove
  · intro s hnone
    cases hnone
  · intro i m hm
    simp [start] at hm

end Rule

end Serving

/-! ## A sample server -/

def sampleWork (templateId : Nat) : WorkJob :=
  ⟨sampleJob templateId 100 easyTarget, "new-tip"⟩

def subscribeLine : String :=
  "\x7b\x22id\x22:1,\x22method\x22:\x22mining.subscribe\x22\x7d"

def authorizeLine : String :=
  "\x7b\x22id\x22:2,\x22method\x22:\x22mining.authorize\x22," ++
    "\x22params\x22:[\x22lotus_a.rig\x22]\x7d"

/-- A wire that reads the two requests, and writes no more than what kind of
message it is. -/
def sampleWire : Wire Int where
  ofInt := id
  ofF64 := Rat.floor
  fromStr line :=
    if line = subscribeLine then
      some (.object [("id", .number 1), ("method", .string "mining.subscribe")])
    else if line = authorizeLine then
      some (.object [("id", .number 2), ("method", .string "mining.authorize"),
        ("params", .array [.string "lotus_a.rig"])])
    else none
  toText v := if (v.get "method").isSome then "notification" else "response"

/-- A miner connects and logs in. -/
def joins (i : Nat) : List ServingEvent :=
  [.accept 0, .listen, .line i subscribeLine 0 true, .line i authorizeLine 0 true]

/-- The consumer gets new work and sends it. -/
def announces (templateId : Nat) : List ServingEvent :=
  [.workChanged (sampleWork templateId), .sendJob]

def sampleServing (events : List ServingEvent) : Serving (queue WorkJob) Int :=
  (Serving.start 512 (sampleWork 1) []).run sampleSuite sampleWire {} events

end StratumServer
