import StratumServer.Lib.Binary64
import StratumServer.Payout.Rounded
import StratumServer.System.Operations

/-!
# The accounting service

The methods of `AccountingService` as programs over the operations.  Each
call of a repository is one section under the lock, so other tasks may come
in between two of them.

A loop body of the source that uses `continue` is a definition of its own
here, and `continue` is its return.
-/

namespace StratumServer

open Tasks

/-! ## Shares and rounds -/

/-- The arguments of `record_share`. -/
structure ShareRecord where
  payoutAddress : String
  workerSuffix : Option String
  sessionId : String
  jobId : String
  templateId : Nat
  templateEpoch : Nat
  extranonce1 : String
  extranonce2 : String
  ntimeHex : String
  nonceHex : String
  difficulty : ℚ
  status : OutcomeStatus
  rejectReason : Option RejectReason
  lowDiffOk : Bool
  networkTargetOk : Bool
  blockHash : Option String
  deriving DecidableEq, Repr

namespace ShareRecord

/-- The dedupe key of the submission for a worker id. -/
def dedupeKey (a : ShareRecord) (workerId : Nat) : String :=
  ShareRepository.buildDedupeKey workerId a.templateId a.templateEpoch
    a.extranonce2 a.ntimeHex a.nonceHex

/-- The raw share of the submission. -/
def share (a : ShareRecord) (workerId : Nat) : Share where
  workerId := workerId
  sessionId := a.sessionId
  jobId := a.jobId
  templateId := a.templateId
  templateEpoch := a.templateEpoch
  extranonce1 := a.extranonce1
  extranonce2 := a.extranonce2
  ntimeHex6b := a.ntimeHex
  nonceHex8b := a.nonceHex
  difficulty := a.difficulty
  dedupeKey := a.dedupeKey workerId

/-- The outcome of the submission. -/
def outcome (a : ShareRecord) (workerId roundId : Nat) : ShareOutcome where
  sessionId := a.sessionId
  workerId := workerId
  jobId := a.jobId
  roundId := some roundId
  dedupeKey := a.dedupeKey workerId
  status := a.status
  rejectReason := a.rejectReason
  lowDiffOk := some a.lowDiffOk
  networkTargetOk := some a.networkTargetOk
  blockHash := a.blockHash

/-- The event that goes into the audit log for a new submission. -/
def event (a : ShareRecord) (worker : Worker) (roundId : Nat) :
    AccountingEvent where
  eventType := .shareOutcome
  status := .outcome a.status
  sessionId := some a.sessionId
  workerId := some worker.id
  workerName := some (match worker.workerSuffix with
    | some suffix => worker.payoutAddress ++ "." ++ suffix
    | none => worker.payoutAddress)
  payoutAddress := some worker.payoutAddress
  roundId := some roundId
  templateId := some a.templateId
  templateEpoch := some a.templateEpoch
  jobId := some a.jobId
  blockHash := a.blockHash

end ShareRecord

namespace AccountingService

/-- `RoundRepository::resolve_round_for_template`: the lock is let go
between the query and `get_or_create_current_round`. -/
def findRound (templateId : Nat) : Fallible (Round × Bool) := do
  match ← db (.matchingRound templateId) with
  | some round => return (round, false)
  | none => db (.getOrCreateCurrentRound templateId)

/-- `resolve_round_for_template`. -/
def resolveRoundForTemplate (templateId : Nat) : Fallible Round := do
  let (round, isNew) ← findRound templateId
  runIf isNew (dropResult (db (.recordEvent
    { eventType := .roundOpened, status := .round .opened,
      roundId := some round.id, templateId := some templateId })))
  return round

/-- `get_or_create_current_round`. -/
def getOrCreateCurrentRound (startTemplateId : Nat) : Fallible Round := do
  let (round, isNew) ← db (.getOrCreateCurrentRound startTemplateId)
  runIf isNew (dropResult (db (.recordEvent
    { eventType := .roundOpened, status := .round .opened,
      roundId := some round.id, templateId := some startTemplateId })))
  return round

/-- `record_share`. -/
def recordShare (a : ShareRecord) :
    Fallible (Option Nat × Option Nat × Option Nat × String) := do
  let worker ← db (.upsert a.payoutAddress a.workerSuffix)
  let round ← resolveRoundForTemplate a.templateId
  let (shareId, outcomeId, isNew) ←
    db (.insertShareAndOutcomeAtomic (a.share worker.id)
      (a.outcome worker.id round.id))
  runIf (isNew && shareId.isSome && outcomeId.isSome)
    (discard (db (.recordEvent (a.event worker round.id))))
  return (shareId, outcomeId, some round.id, a.dedupeKey worker.id)

/-- `close_round`. -/
def closeRound (id endTemplateId : Nat) (status : RoundStatus) :
    Fallible Unit := do
  db (.closeRound id endTemplateId status)
  dropResult (db (.recordEvent
    { eventType := .roundClosed, status := .round status,
      roundId := some id, templateId := some endTemplateId }))

/-- `record_found_block`. -/
def recordFoundBlock (block : FoundBlock) : Fallible FoundBlock := do
  let row ← db (.recordFoundBlock block)
  dropResult (db (.recordEvent
    { eventType := .foundBlockObserved, status := .confirmed,
      workerId := block.workerId, roundId := some block.roundId,
      templateId := block.templateId, blockHash := some block.blockHash,
      height := some block.height }))
  return row

/-! ## Payouts -/

section Payouts

variable (suite : Suite)

/-- The network difficulty of a block, from its target. -/
def networkDifficulty (block : FoundBlock) : ℚ :=
  (networkTargetHexToDifficulty suite block.networkTargetHex).getD 1

/-- `create_payout_for_found_block`. -/
def createPayoutForFoundBlock (block : FoundBlock)
    (settings : PayoutSettings) : Fallible Nat :=
  db (.createPayout block (networkDifficulty suite block)
    (rewardFromCoinbase block.coinbaseValue) settings)

/-- `rebuild_payout_plan_for_batch`. -/
def rebuildPayoutPlanForBatch (batchId : Nat) (settings : PayoutSettings) :
    Fallible (List PayoutOutput) := do
  match ← db (.getBatchById batchId) with
  | none => throw (.bail s!"batch {batchId} not found")
  | some batch =>
    if batch.status ≠ .pending then
      throw (.bail s!"batch {batchId} status is '{batch.status.text}', only pending batches can be rebuilt")
    else
      match ← db (.getByRoundId batch.roundId) with
      | none => throw (.bail s!"no found_block for round {batch.roundId}")
      | some foundBlock =>
        db (.rebuildPayout batchId foundBlock
          (networkDifficulty suite foundBlock)
          (rewardFromCoinbase foundBlock.coinbaseValue) settings)

/-- The coinbase txid of a block: the stored one, or else the first
transaction that the node names, which is then stored. -/
def resolveCoinbaseTxid (block : FoundBlock) : Body (Option String) := do
  match block.coinbaseTxid with
  | some txid => return some txid
  | none =>
    match ← Prog.perform (Op.getBlock block.blockHash) with
    | .ok (some (entry :: _)) =>
      if entry.txid = "" then return none
      else
        dropResult (db (.updateCoinbaseTxid block.id entry.txid))
        return some entry.txid
    | _ => return none

/-- An output that `process_pending_payouts` may spend. -/
def Vout.spendable (v : Vout) : Bool :=
  v.scriptType != some "nulldata" && decide (0 < v.value.getD 0)

/-- The amount, the index and the script of the first spendable output of
the coinbase transaction. -/
def fetchCoinbaseOutput (coinbaseTxid : String) :
    Body (Option (Int × Nat × String)) := do
  match ← Prog.perform (Op.getRawTransaction coinbaseTxid) with
  | .ok { vout := some vouts, .. } =>
    match vouts.zipIdx.find? fun v => Vout.spendable v.1 with
    | some (v, idx) =>
      let amountSat := Rounded.amountSat Binary64.nearest (v.value.getD 0)
      return some (amountSat, idx, v.scriptHex.getD "")
    | none => return none
  | _ => return none

/-- The outputs of a batch: its stored payouts, or a rebuilt plan when there
are none. -/
def loadOutputs (batch : PayoutBatch) (settings : PayoutSettings) :
    Body (Option (List PayoutOutput)) := do
  match ← (db (.getPayoutsByBatch batch.id)).run with
  | .error _ => return none
  | .ok [] =>
    match ← (rebuildPayoutPlanForBatch suite batch.id settings).run with
    | .ok outputs => return some outputs
    | .error _ => return none
  | .ok payouts =>
    return some (payouts.map fun p =>
      { payoutAddress := p.payoutAddress, workerId := p.workerId,
        amount := p.amount, dustCarriedForward := p.dustCarriedForward })

/-- The plan that goes to the signer. -/
def batchPlan (batch : PayoutBatch) (block : FoundBlock)
    (outputs : List PayoutOutput) : PayoutPlan where
  roundId := batch.roundId
  blockHeight := block.height
  blockHash := block.blockHash
  networkDifficulty := 0
  totalWorkUnits := 0
  grossReward := batch.totalAmount
  poolFeeAmount := batch.poolFeeAmount
  poolFeeAddress := batch.poolFeeAddress
  outputs := outputs
  dustCarriedForwardTotal := 0
  retryKey := batch.retryKey.getD ""

/-- The end of the loop body: sign, and mark the batch as submitted. -/
def signBatch (batch : PayoutBatch) (signedData : SignedBatchData) :
    Body Unit := do
  match ← Prog.perform (Op.signAndSubmit signedData) with
  | .ok txid => dropResult (db (.markBatchSubmitted batch.id txid))
  | .error _ => return ()

/-- The loop body of `process_pending_payouts` once the block is known. -/
def payBatch (batch : PayoutBatch) (block : FoundBlock)
    (settings : PayoutSettings) : Body Unit := do
  match ← resolveCoinbaseTxid block with
  | none => return ()
  | some coinbaseTxid =>
    match ← fetchCoinbaseOutput coinbaseTxid with
    | none => return ()
    | some (coinbaseAmount, coinbaseVout, script) =>
      match ← loadOutputs suite batch settings with
      | none => return ()
      | some outputs =>
        signBatch batch
          { plan := batchPlan batch block outputs, coinbaseTxid, coinbaseVout,
            coinbaseAmount, coinbaseScriptPubkeyHex := script }

/-- The loop body of `process_pending_payouts`. -/
def processBatch (settings : PayoutSettings) (batch : PayoutBatch) :
    Fallible Unit := do
  match ← db (.getByRoundId batch.roundId) with
  | none => return ()
  | some foundBlock => payBatch suite batch foundBlock settings

/-- `process_pending_payouts`. -/
def processPendingPayouts (settings : PayoutSettings) : Fallible Unit := do
  let pending ← db (.listBatches (some .pending))
  pending.forM (processBatch suite settings)

end Payouts

/-! ## Startup reconciliation and maturation -/

/-- Orphan a block that the chain does not have, and its round. -/
def orphanBlock (block : FoundBlock) (reason : OrphanReason) : Body Unit := do
  dropResult (db (.markOrphaned block.blockHash reason))
  dropResult (closeRound block.roundId 0 .orphaned)

/-- The loop body of `reconcile_found_blocks`. -/
def reconcileBlock (tipHeight : Int) (block : FoundBlock) : Body Unit := do
  if tipHeight < block.height then
    orphanBlock block .blockNotFound
  else
    match ← Prog.perform (Op.getBlockHash block.height) with
    | .ok (some canonicalHash) =>
      if canonicalHash ≠ block.blockHash then
        orphanBlock block .reorgDetected
    | _ => return ()

/-- `reconcile_found_blocks`. -/
def reconcileFoundBlocks (tipHeight : Int) : Fallible Unit := do
  let confirmed ← db (.listBlocks (some .immature))
  (confirmed.forM (reconcileBlock tipHeight) : Body Unit)

/-- Confirming a batch at startup: the batch, and then the newest block of
its round. -/
def settleBatch (batch : PayoutBatch) : Body Unit := do
  match ← (db (.updateBatchStatus batch.id .confirmed)).run with
  | .error _ => return ()
  | .ok _ =>
    match ← (db (.getByRoundId batch.roundId)).run with
    | .ok (some fb) => dropResult (db (.updateStatus fb.id .paid))
    | _ => return ()

/-- The loop body of `reconcile_submitted_payouts`, with the closure that
`main` gives to it: a transaction counts as confirmed from one confirmation
on. -/
def reconcileBatch (batch : PayoutBatch) : Body Unit := do
  match batch.submittedTxid with
  | none => return ()
  | some txid =>
    match ← Prog.perform (Op.getRawTransaction txid) with
    | .ok tx =>
      if 0 < tx.confirmations.getD 0 then settleBatch batch
    | .error _ => return ()

/-- `reconcile_submitted_payouts`. -/
def reconcileSubmittedPayouts : Fallible Unit := do
  let submitted ← db (.listBatches (some .submitted))
  (submitted.forM reconcileBatch : Body Unit)

/-- An integer as an `i32`: the arithmetic of the source wraps. -/
def toI32 (z : Int) : Int := z.bmod (2 ^ 32)

/-- The confirmations that `check_maturation` computes. -/
def confirms (tipHeight height : Int) : Int := toI32 (tipHeight - height + 1)

/-- The loop body of `check_maturation`. -/
def matureBlock (tipHeight : Int) (minConfirmations : Nat)
    (matured : List FoundBlock) (block : FoundBlock) :
    Fallible (List FoundBlock) := do
  if toI32 minConfirmations ≤ confirms tipHeight block.height then
    db (.markMatured block.id)
    return matured ++ [block]
  else
    return matured

/-- `check_maturation`. -/
def checkMaturation (tipHeight : Int) (minConfirmations : Nat) :
    Fallible (List FoundBlock) := do
  let immature ← db (.listBlocks (some .immature))
  immature.foldlM (matureBlock tipHeight minConfirmations) []

end AccountingService

end StratumServer
