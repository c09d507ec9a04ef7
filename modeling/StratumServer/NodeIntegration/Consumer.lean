import StratumServer.Accounting.Service

/-!
# The consumer of node events

`handle_block_disconnected`, `handle_block_connected` and
`on_mining_work_changed` of the NNG consumer.  The consumer is one task, so
it handles one event after the other.

`handle_block_disconnected` is not given the chain tip: of the two update
rules of `ChainTip`, only `update_block_connected` is ever applied.
-/

namespace StratumServer

open Tasks

/-- A block as the node announces it.  The height is read from the header
bytes; it is missing when they do not decode. -/
structure BlockEvent where
  blockHash : String
  height : Option Int
  txids : List String
  deriving DecidableEq, Repr

/-- The event that goes into the audit log for an orphaned block. -/
def orphanedEvent (found : FoundBlock) : AccountingEvent where
  eventType := .foundBlockOrphaned
  status := .orphaned
  workerId := found.workerId
  roundId := some found.roundId
  templateId := found.templateId
  blockHash := some found.blockHash
  height := some found.height

/-- `handle_block_disconnected`. -/
def handleBlockDisconnected (event : BlockEvent) : Body Unit := do
  match ← (db (.getByHash event.blockHash)).run with
  | .ok (some found) =>
    match ← (db (.markOrphaned event.blockHash .reorgDetected)).run with
    | .error _ => return ()
    | .ok _ =>
      match ← (AccountingService.closeRound found.roundId 0 .orphaned).run with
      | .error _ => return ()
      | .ok _ => dropResult (db (.recordEvent (orphanedEvent found)))
  | _ => return ()

/-- The part of `handle_block_connected` for a block that is stored as
orphaned: it becomes immature again, or matured when a batch of its round is
pending, unless a payout of its round has been submitted. -/
def reconnectBlock (fb : FoundBlock) : Body Unit := do
  match ← (db (.getBatchesByBlockHash fb.blockHash)).run with
  | .error _ => return ()
  | .ok batches =>
    if batches.any (·.status == .submitted) then return ()
    else
      match ← (db (.unOrphan fb.blockHash)).run with
      | .error _ => return ()
      | .ok _ =>
        runIf (batches.any (·.status == .pending))
          (dropResult (db (.markMatured fb.id)))

/-- The part of `handle_block_connected` that looks for an orphaned block. -/
def reconnectOrphaned (blockHash : String) : Body Unit := do
  match ← (db (.getByHash blockHash)).run with
  | .ok (some fb) =>
    if fb.status = .orphaned then reconnectBlock fb else return ()
  | _ => return ()

/-- `check_maturation`, and one event for each block that it promoted. -/
def announceMatured (tip : Int) (minConfirmations : Nat) : Body Unit := do
  match ← (AccountingService.checkMaturation tip minConfirmations).run with
  | .ok matured =>
    matured.forM fun b => Prog.perform (Op.send (.blockMatured b.blockHash))
  | .error _ => return ()

/-- `handle_block_connected`. -/
def handleBlockConnected (minConfirmations : Nat) (event : BlockEvent) :
    Body Unit := do
  match event.height with
  | none => return ()
  | some height =>
    Prog.perform (Op.updateBlockConnected height)
    let tip ← Prog.perform Op.chainTipGet
    reconnectOrphaned event.blockHash
    announceMatured tip minConfirmations
    Prog.perform (Op.send (.blockConnected event.txids))

/-- `on_mining_work_changed`. -/
def onMiningWorkChanged : Body Unit := do
  match ← Prog.perform Op.getMiningTemplate with
  | none => return ()
  | some job =>
    let job := { job with cleanJobs := true }
    Prog.perform (Op.jobCacheInsert job)
    Prog.perform (Op.sendJob job)

end StratumServer
