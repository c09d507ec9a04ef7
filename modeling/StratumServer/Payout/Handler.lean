import StratumServer.Accounting.Service

/-!
# The payout handler and the payout route

`PayoutHandler::run` takes one event after the other from the channel;
`handlePayoutEvent` is the body of its loop.  `trigger_payout` is the HTTP
route that creates a batch by hand.
-/

namespace StratumServer

open Tasks

variable (suite : Suite)

/-- `process_pending_payouts_locked`.  Only the handler's own task uses the
mutex, so it never waits. -/
def processPendingPayoutsLocked (settings : PayoutSettings) : Body Unit :=
  dropResult (AccountingService.processPendingPayouts suite settings)

/-- Whether a batch belongs to a block, as the handler tells: by the start of
its retry key. -/
def batchOfBlock (blockHash : String) (batch : PayoutBatch) : Bool :=
  batch.retryKey.any (·.startsWith blockHash)

/-- The handler's answer to `BlockMatured`. -/
def handleBlockMatured (blockHash : String) (settings : PayoutSettings) :
    Body Unit := do
  match ← (db (.getByHash blockHash)).run with
  | .ok (some foundBlock) =>
    let existing ← (db (.listBatches none)).run
    runIf (!(existing.toOption.getD []).any (batchOfBlock foundBlock.blockHash))
      (dropResult
        (AccountingService.createPayoutForFoundBlock suite foundBlock settings))
    processPendingPayoutsLocked suite settings
  | _ => return ()

/-- Confirming a submitted batch: its status, and then the newest block of
its round. -/
def confirmBatch (batch : PayoutBatch) : Body Unit := do
  dropResult (db (.updateBatchStatus batch.id .confirmed))
  match ← (db (.getByRoundId batch.roundId)).run with
  | .ok (some fb) => dropResult (db (.updateStatus fb.id .paid))
  | _ => return ()

/-- The loop body of the handler's answer to `BlockConnected`. -/
def confirmIfMined (txids : List String) (batch : PayoutBatch) : Body Unit :=
  match batch.submittedTxid with
  | some txid => runIf (txids.contains txid) (confirmBatch batch)
  | none => pure ()

/-- The scan of the submitted batches for the transactions of a block. -/
def confirmSubmitted (txids : List String) : Body Unit := do
  match ← (db (.listBatches (some .submitted))).run with
  | .ok submitted => submitted.forM (confirmIfMined txids)
  | .error _ => return ()

/-- The handler's answer to `BlockConnected`. -/
def handleBlockConnectedTxids (txids : List String)
    (settings : PayoutSettings) : Body Unit := do
  confirmSubmitted txids
  processPendingPayoutsLocked suite settings

/-- The body of the loop of `PayoutHandler::run`. -/
def handlePayoutEvent (settings : PayoutSettings) : PayoutEvent → Body Unit
  | .blockMatured blockHash => handleBlockMatured suite blockHash settings
  | .blockConnected txids => handleBlockConnectedTxids suite txids settings

/-- `trigger_payout`. -/
def triggerPayout (blockHash : String) (settings : PayoutSettings) :
    Body Unit := do
  match ← (db (.getByHash blockHash)).run with
  | .ok (some foundBlock) =>
    if foundBlock.status = .orphaned then return ()
    else if foundBlock.status = .paid then return ()
    else
      dropResult
        (AccountingService.createPayoutForFoundBlock suite foundBlock settings)
  | _ => return ()

end StratumServer
