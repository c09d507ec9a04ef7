import StratumServer.Lib.Machine
import StratumServer.StratumProtocol.Server
import StratumServer.NodeIntegration.Consumer
import StratumServer.Payout.Handler

/-!
# The server as a machine of tasks

The tasks of the server, the work that each may begin, and the startup
sequence of `main`.  `pool` is the machine: any number of miner connections
and of HTTP requests, the consumer of node events, the payout handler, and
`main` itself, interleaved operation by operation, with crashes at any
point.

The node runs beside the server.  Its chain moves by one block for each
event that the consumer takes up.  Events that happen while no consumer
listens are lost, so then the chain may move in any way.
-/

namespace StratumServer

open Tasks

/-! ## Tasks and their work -/

/-- The tasks of the server. -/
inductive Task
  | session (i : Nat)
  | consumer
  | handler
  | http (i : Nat)
  | main
  deriving DecidableEq, Repr

/-- What an idle task may begin. -/
inductive Work
  | connect (now : ℚ)
  | subscribe
  | authorize (worker : String)
  | newJob (job : MiningJob)
  | submit (p : SubmitParams)
  | disconnect
  | blockConnected (event : BlockEvent)
  | blockDisconnected (event : BlockEvent)
  | miningWorkChanged
  | payoutEvent (event : PayoutEvent) (settings : PayoutSettings)
  | triggerPayout (blockHash : String) (settings : PayoutSettings)
  deriving DecidableEq, Repr

/-- The configuration of the server. -/
structure ServerConfig where
  minConfirmations : Nat
  payoutEnabled : Bool
  vardiff : VarDiffConfig
  jobCacheSize : Nat := 512
  deriving DecidableEq, Repr

/-! ## Startup -/

/-- The reconciliation of the found blocks at startup; it is skipped when
the node does not tell its tip. -/
def startupReconcile : Body Unit := do
  match ← Prog.perform Op.getBlockCount with
  | .ok tipHeight =>
    dropResult (AccountingService.reconcileFoundBlocks tipHeight)
  | .error _ => return ()

/-- The maturation check at startup, with an event for each block that it
promoted. -/
def startupMaturation (minConfirmations : Nat) : Body Unit := do
  match ← Prog.perform Op.getBlockCount with
  | .ok tipHeight => announceMatured tipHeight minConfirmations
  | .error _ => return ()

/-- The startup sequence of `main`.  It ends at once when there is no
template to begin with. -/
def mainBoot (config : ServerConfig) : Body Unit := do
  match ← Prog.perform Op.getMiningTemplate with
  | none => return ()
  | some job =>
    Prog.perform (Op.jobCacheInsert job)
    Prog.perform Op.spawnHttp
    startupReconcile
    dropResult AccountingService.reconcileSubmittedPayouts
    Prog.perform (Op.sendJob job)
    Prog.perform Op.spawnConsumer
    startupMaturation config.minConfirmations
    runIf config.payoutEnabled (Prog.perform Op.spawnHandler)
    Prog.perform Op.spawnStratum

/-- What a task runs when the process starts. -/
def boot (config : ServerConfig) : Task → Body Unit
  | .main => mainBoot config
  | _ => .ret ()

/-- The shared state when the process starts on a database. -/
def bootPool (config : ServerConfig) (database : Database) (node : Node) :
    Pool where
  db := database
  chainTip := 0
  channel := []
  jobCache := ⟨config.jobCacheSize, [], []⟩
  broadcast := []
  sessionCounter := 0
  sessions := fun _ => none
  node := node
  httpUp := false
  consumerUp := false
  handlerUp := false
  stratumUp := false

/-! ## The machine -/

section Machine

variable (suite : Suite) (data : ChainData) (config : ServerConfig)

/-- The work that an idle task may begin in a state. -/
inductive Start : Task → Work → Pool → Body Unit → Pool → Prop
  | connect {s : Pool} {i : Nat} {now : ℚ} {st : SessionState}
      (hup : s.stratumUp = true) (hnone : s.sessions i = none)
      (hnew : newSession suite config.vardiff (s.sessionCounter + 1)
        s.jobCache.getLatest now = some st) :
      Start (.session i) (.connect now) s (.ret ())
        ({ s with sessionCounter := s.sessionCounter + 1 }.setSession i
          (some st))
  | subscribe {s : Pool} {i : Nat} {st : SessionState}
      (hst : s.sessions i = some st) :
      Start (.session i) .subscribe s (.ret ())
        (s.setSession i (some st.handleSubscribe))
  | authorize {s : Pool} {i : Nat} {st : SessionState} {worker : String}
      (hst : s.sessions i = some st) :
      Start (.session i) (.authorize worker) s (.ret ())
        (s.setSession i (some (authorizeSession suite st worker
          s.jobCache.getLatest)))
  | newJob {s : Pool} {i : Nat} {st : SessionState} {job : MiningJob}
      (hst : s.sessions i = some st) (hjob : job ∈ s.broadcast) :
      Start (.session i) (.newJob job) s (.ret ())
        (s.setSession i (some (receiveJob suite st job)))
  | submit {s : Pool} {i : Nat} {st : SessionState} {p : SubmitParams}
      (hst : s.sessions i = some st) :
      Start (.session i) (.submit p) s (handleSubmit suite i st p) s
  | disconnect {s : Pool} {i : Nat} :
      Start (.session i) .disconnect s (.ret ()) (s.setSession i none)
  | blockConnected {s : Pool} {event : BlockEvent}
      (hup : s.consumerUp = true)
      (hheight : event.height = none ∨ event.height = some (s.node.tip + 1)) :
      Start .consumer (.blockConnected event) s
        (handleBlockConnected config.minConfirmations event)
        { s with node := { s.node with
            chain := event.blockHash :: s.node.chain
            announced := event.blockHash :: s.node.announced } }
  | blockDisconnected {s : Pool} {event : BlockEvent} {rest : List String}
      (hup : s.consumerUp = true)
      (htip : s.node.chain = event.blockHash :: rest) (hrest : rest ≠ []) :
      Start .consumer (.blockDisconnected event) s
        (handleBlockDisconnected event)
        { s with node := { s.node with chain := rest } }
  | miningWorkChanged {s : Pool} (hup : s.consumerUp = true) :
      Start .consumer .miningWorkChanged s onMiningWorkChanged s
  | payoutEvent {s : Pool} {settings : PayoutSettings} {event : PayoutEvent}
      {rest : List PayoutEvent} (hup : s.handlerUp = true)
      (hchannel : s.channel = event :: rest) :
      Start .handler (.payoutEvent event settings) s
        (handlePayoutEvent suite settings event) { s with channel := rest }
  | triggerPayout {s : Pool} {i : Nat} {blockHash : String}
      {settings : PayoutSettings} (hup : s.httpUp = true) :
      Start (.http i) (.triggerPayout blockHash settings) s
        (triggerPayout suite blockHash settings) s

/-- What changes without a task: time passes, and the chain moves while no
consumer listens. -/
def Env (s s' : Pool) : Prop :=
  (∃ now, s.db.now ≤ now ∧ s' = { s with db.now := now }) ∨
    (s.consumerUp = false ∧
      ∃ chain, chain ≠ [] ∧ s' = { s with node.chain := chain })

/-- A crash, and the start of a new process on what the database holds.  The
chain may have moved in the meantime. -/
def Crash (s s' : Pool) : Prop :=
  ∃ chain, chain ≠ [] ∧
    s' = bootPool config s.db { s.node with chain := chain }

/-- The first start: an empty database, and a node with some chain. -/
def Init (s : Pool) : Prop :=
  ∃ now chain, chain ≠ [] ∧
    s = bootPool config (initSchema now) ⟨chain, [], []⟩

/-- The server. -/
def pool : Machine Task Work Pool Op Op.Res where
  init := Init config
  sem := Op.sem suite data
  start := Start suite config
  env := Env
  crash := Crash config
  boot := boot config

end Machine

/-- What the tasks share, with the log of the run. -/
abbrev PoolWorld := World Task Work Pool Op Op.Res

/-- A configuration of the server. -/
abbrev PoolConfig := Config Task Work Pool Op Op.Res

/-- An entry of the log of a run of the server. -/
abbrev PoolEntry := Entry Task Work Op Op.Res

/-- The operations of a piece of work with their answers, newest first. -/
abbrev Done := List ((o : Op) × o.Res)

end StratumServer
