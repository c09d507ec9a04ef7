import StratumServer.Lib.Prog
import StratumServer.Accounting.ShareRepository
import StratumServer.Accounting.RoundRepository
import StratumServer.Accounting.FoundBlockRepository
import StratumServer.Accounting.PayoutRepository
import StratumServer.Accounting.PayoutSections
import StratumServer.ShareProcessing.Validator

/-!
# What the tasks of the server do in one piece

The tasks share one SQLite connection behind a mutex, the channel from the
node side to the payout side, the chain tip and the job cache.  They talk to
the node and to the signer.  An `Op` is one access to one of these, and
`Op.sem` says what it may answer and leave.

* `DbOp` is one section under the connection lock.  It does what
  `DbOp.run` computes, or it fails and leaves the database as it was: the
  disk, a busy database or a rolled back transaction can make any statement
  fail.
* An answer of the node or of the signer is arbitrary, with two exceptions.
  The node names one coinbase transaction for a block hash, and it answers
  `null` to `submitblock` only when it has taken the block in.
-/

namespace StratumServer

open Tasks

/-! ## The database -/

/-- The sections under the connection lock. -/
inductive DbOp
  | upsert (payoutAddress : String) (workerSuffix : Option String)
  | insertShareAndOutcomeAtomic (share : Share) (outcome : ShareOutcome)
  | updateOutcomeNodeResult (dedupeKey nodeResult : String)
  | recordEvent (event : AccountingEvent)
  | matchingRound (templateId : Nat)
  | getOrCreateCurrentRound (startTemplateId : Nat)
  | closeRound (id endTemplateId : Nat) (status : RoundStatus)
  | recordFoundBlock (block : FoundBlock)
  | markOrphaned (blockHash : String) (reason : OrphanReason)
  | unOrphan (blockHash : String)
  | getByHash (blockHash : String)
  | getByRoundId (roundId : Nat)
  | updateStatus (id : Nat) (status : BlockStatus)
  | updateCoinbaseTxid (id : Nat) (coinbaseTxid : String)
  | markMatured (id : Nat)
  | listBlocks (statusFilter : Option BlockStatus)
  | getBatchById (id : Nat)
  | listBatches (statusFilter : Option BatchStatus)
  | getBatchesByBlockHash (blockHash : String)
  | updateBatchStatus (id : Nat) (status : BatchStatus)
  | markBatchSubmitted (id : Nat) (txid : String)
  | getPayoutsByBatch (batchId : Nat)
  | createPayout (block : FoundBlock) (networkDifficulty : ℚ)
      (grossReward : Int) (settings : PayoutSettings)
  | rebuildPayout (batchId : Nat) (block : FoundBlock)
      (networkDifficulty : ℚ) (grossReward : Int) (settings : PayoutSettings)
  deriving DecidableEq

/-- What a section returns when it succeeds. -/
@[reducible] def DbOp.Res : DbOp → Type
  | .upsert .. => Worker
  | .insertShareAndOutcomeAtomic .. => Option Nat × Option Nat × Bool
  | .recordEvent .. | .createPayout .. => Nat
  | .matchingRound .. => Option Round
  | .getOrCreateCurrentRound .. => Round × Bool
  | .recordFoundBlock .. => FoundBlock
  | .getByHash .. | .getByRoundId .. => Option FoundBlock
  | .listBlocks .. => List FoundBlock
  | .getBatchById .. => Option PayoutBatch
  | .listBatches .. | .getBatchesByBlockHash .. => List PayoutBatch
  | .getPayoutsByBatch .. => List Payout
  | .rebuildPayout .. => List PayoutOutput
  | .updateOutcomeNodeResult .. | .closeRound .. | .markOrphaned ..
  | .unOrphan .. | .updateStatus .. | .updateCoinbaseTxid ..
  | .markMatured .. | .updateBatchStatus .. | .markBatchSubmitted .. => Unit

/-- What a section computes. -/
def DbOp.run : (d : DbOp) → Database → DbResult d.Res
  | .upsert a w => WorkerRepository.upsert a w
  | .insertShareAndOutcomeAtomic s o =>
    ShareRepository.insertShareAndOutcomeAtomic s o
  | .updateOutcomeNodeResult k r => ShareRepository.updateOutcomeNodeResult k r
  | .recordEvent e => AccountingEventRepository.recordEvent e
  | .matchingRound t => RoundRepository.matchingRound t
  | .getOrCreateCurrentRound t => RoundRepository.getOrCreateCurrentRound t
  | .closeRound i e s => RoundRepository.closeRound i e s
  | .recordFoundBlock b => FoundBlockRepository.recordFoundBlock b
  | .markOrphaned h r => FoundBlockRepository.markOrphaned h r
  | .unOrphan h => FoundBlockRepository.unOrphan h
  | .getByHash h => FoundBlockRepository.getByHash h
  | .getByRoundId r => FoundBlockRepository.getByRoundId r
  | .updateStatus i s => FoundBlockRepository.updateStatus i s
  | .updateCoinbaseTxid i t => FoundBlockRepository.updateCoinbaseTxid i t
  | .markMatured i => FoundBlockRepository.markMatured i
  | .listBlocks s => FoundBlockRepository.list s
  | .getBatchById i => PayoutRepository.getBatchById i
  | .listBatches s => PayoutRepository.listBatches s
  | .getBatchesByBlockHash h => PayoutRepository.getBatchesByBlockHash h
  | .updateBatchStatus i s => PayoutRepository.updateBatchStatus i s
  | .markBatchSubmitted i t => PayoutRepository.markBatchSubmitted i t
  | .getPayoutsByBatch i => PayoutRepository.getPayoutsByBatch i
  | .createPayout b d g s => createPayoutSection b d g s
  | .rebuildPayout i b d g s => rebuildPayoutSection i b d g s

/-! ## What else the tasks share -/

/-- `PayoutEvent`. -/
inductive PayoutEvent
  | blockMatured (blockHash : String)
  | blockConnected (txids : List String)
  deriving DecidableEq, Repr

/-- An entry of the `tx` array that `getblock` answers. -/
inductive TxEntry
  | object (txid : Option String)
  | text (txid : String)
  | other
  deriving DecidableEq, Repr

/-- The text that `process_pending_payouts` takes for the txid of an entry;
empty when there is none. -/
def TxEntry.txid : TxEntry → String
  | .object t => t.getD ""
  | .text t => t
  | .other => ""

/-- An output in the answer of `getrawtransaction`. -/
structure Vout where
  scriptType : Option String
  scriptHex : Option String
  value : Option ℚ
  deriving DecidableEq, Repr

/-- The part of the answer of `getrawtransaction` that the code reads. -/
structure RawTx where
  vout : Option (List Vout)
  confirmations : Option Int
  deriving DecidableEq, Repr

/-- `SignedBatchData`. -/
structure SignedBatchData where
  plan : PayoutPlan
  coinbaseTxid : String
  coinbaseVout : Nat
  coinbaseAmount : Int
  coinbaseScriptPubkeyHex : String
  deriving DecidableEq, Repr

/-- `StratumResponse`, without the echoed request id: the result, and the
code and message of the error. -/
structure StratumResponse where
  result : Option Bool
  error : Option (Nat × String)
  deriving DecidableEq, Repr

/-- The node: its chain of block hashes, newest first, down to the genesis
block, the blocks that were submitted to it, and the hashes that it has
announced as connected. -/
structure Node where
  chain : List String
  received : List String
  announced : List String
  deriving DecidableEq, Repr

/-- The height of the tip of the node. -/
def Node.tip (n : Node) : Int := (n.chain.length : Int) - 1

/-- What the tasks share.  `now` of the database is the only clock. -/
structure Pool where
  db : Database
  chainTip : Int
  channel : List PayoutEvent
  jobCache : JobCache
  broadcast : List MiningJob
  sessionCounter : Nat
  sessions : Nat → Option SessionState
  node : Node
  httpUp : Bool
  consumerUp : Bool
  handlerUp : Bool
  stratumUp : Bool

/-- The pool after connection `i` has got to a new state. -/
def Pool.setSession (s : Pool) (i : Nat) (state : Option SessionState) :
    Pool :=
  { s with sessions := fun j => if j = i then state else s.sessions j }

/-! ## The operations -/

/-- What a task does in one piece. -/
inductive Op
  | db (d : DbOp)
  | jobCacheGet (jobId : String)
  | jobCacheInsert (job : MiningJob)
  /-- `get_mining_template`, and `template_to_job` of the answer. -/
  | getMiningTemplate
  /-- The broadcast of a job to all sessions. -/
  | sendJob (job : MiningJob)
  | updateBlockConnected (height : Int)
  | chainTipGet
  | send (event : PayoutEvent)
  | submitBlock (blockHex : String)
  | getBlockCount
  | getBlockHash (height : Int)
  | getBlock (blockHash : String)
  | getRawTransaction (txid : String)
  | signAndSubmit (data : SignedBatchData)
  | instantNow
  /-- The answer to a miner, with the session as it is then. -/
  | respond (session : Nat) (state : SessionState) (response : StratumResponse)
  /-- The end of a connection whose task has panicked. -/
  | closeSession (session : Nat)
  | spawnHttp
  | spawnConsumer
  | spawnHandler
  | spawnStratum
  deriving DecidableEq

/-- What an operation answers. -/
@[reducible] def Op.Res : Op → Type
  | .db d => Except Error d.Res
  | .jobCacheGet .. => Option MiningJob
  | .getMiningTemplate => Option MiningJob
  | .chainTipGet => Int
  /- The node's answer to `submitblock`: `null`, or a text. -/
  | .submitBlock .. => Except Error (Option String)
  | .getBlockCount => Except Error Int
  | .getBlockHash .. => Except Error (Option String)
  | .getBlock .. => Except Error (Option (List TxEntry))
  | .getRawTransaction .. => Except Error RawTx
  | .signAndSubmit .. => Except Error String
  | .instantNow => ℚ
  | .jobCacheInsert .. | .sendJob .. | .updateBlockConnected .. | .send ..
  | .respond .. | .closeSession .. | .spawnHttp | .spawnConsumer
  | .spawnHandler | .spawnStratum => Unit

/-- `ChainTip::update_block_connected`: the tip can only rise. -/
def ChainTip.updateBlockConnected (tip height : Int) : Int :=
  if tip < height then height else tip

/-- The coinbase transaction that the node names for a block hash. -/
structure ChainData where
  coinbaseTxid : String → String

variable (suite : Suite) (data : ChainData)

/-- The answers to `submitblock`, with the blocks that the node has received
then.  A lost answer and an answer in words leave it open whether the node
took the block. -/
def submitBlockSem (blockHex : String) (s : Pool)
    (r : Except Error (Option String)) (s' : Pool) : Prop :=
  (s' = { s with node.received :=
      suite.submittedHash blockHex :: s.node.received }) ∨
    (s' = s ∧ r ≠ .ok none)

/-- What an operation may answer and leave. -/
def Op.sem : (o : Op) → Pool → o.Res → Pool → Prop
  | .db d, s, r, s' =>
    (r, s') = ((d.run s.db).1, { s with db := (d.run s.db).2 }) ∨
      (∃ e, r = .error e) ∧ s' = s
  | .jobCacheGet jobId, s, r, s' => r = s.jobCache.get jobId ∧ s' = s
  | .jobCacheInsert job, s, _, s' =>
    s' = { s with jobCache := s.jobCache.insert job }
  | .sendJob job, s, _, s' => s' = { s with broadcast := job :: s.broadcast }
  | .updateBlockConnected height, s, _, s' =>
    s' = { s with
      chainTip := ChainTip.updateBlockConnected s.chainTip height }
  | .chainTipGet, s, r, s' => r = s.chainTip ∧ s' = s
  | .send event, s, _, s' => s' = { s with channel := s.channel ++ [event] }
  | .submitBlock blockHex, s, r, s' => submitBlockSem suite blockHex s r s'
  | .getBlock blockHash, s, r, s' => s' = s ∧
    ∀ txs entry, r = .ok (some txs) → txs.head? = some entry →
      entry.txid ≠ "" → entry.txid = data.coinbaseTxid blockHash
  | .respond i state _, s, _, s' => s' = s.setSession i (some state)
  | .closeSession i, s, _, s' => s' = s.setSession i none
  | .spawnHttp, s, _, s' => s' = { s with httpUp := true }
  -- `NngEventConsumer::new` may fail, and then there is no consumer.
  | .spawnConsumer, s, _, s' => s' = { s with consumerUp := true } ∨ s' = s
  | .spawnHandler, s, _, s' => s' = { s with handlerUp := true }
  | .spawnStratum, s, _, s' => s' = { s with stratumUp := true }
  | .getMiningTemplate, s, _, s' | .getBlockCount, s, _, s'
  | .getBlockHash .., s, _, s' | .getRawTransaction .., s, _, s'
  | .signAndSubmit .., s, _, s' | .instantNow, s, _, s' => s' = s

/-! ## Bodies -/

/-- The body of a task. -/
abbrev Body (α : Type) := Prog Op Op.Res α

/-- The body of a method that returns a `Result`. -/
abbrev Fallible (α : Type) := ExceptT Error (Prog Op Op.Res) α

/-- One section under the connection lock. -/
def db (d : DbOp) : Fallible d.Res := ExceptT.mk (Prog.perform (Op.db d))

/-- A call whose `Result` is dropped: `let _ =`, or only a log line. -/
def dropResult {α : Type} (p : Fallible α) : Body Unit := do
  let _ ← p.run
  return ()

/-- An `if` without an `else` in front of more statements. -/
def runIf {m : Type → Type} [Monad m] (c : Bool) (p : m Unit) : m Unit :=
  if c then p else pure ()

end StratumServer
