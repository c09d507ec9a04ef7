import StratumServer.Accounting.Schema

/-!
# Payout batches

The methods of `PayoutRepository` that the service, the payout handler and
the consumer call, and `delete_payouts_by_batch`, which is there for an
operator.  The rows of a new batch are written by the service itself, see
`StratumServer.Accounting.PayoutSections`.
-/

namespace StratumServer

open Sql

namespace PayoutRepository

/-- `PayoutRepository::get_batch_by_id`. -/
def getBatchById (id : Nat) (db : Database) : DbResult (Option PayoutBatch) :=
  (.ok (db.payoutBatches.rows.find? (·.id == id)), db)

/-- `PayoutRepository::list_batches`, newest first. -/
def listBatches (statusFilter : Option BatchStatus) (db : Database) :
    DbResult (List PayoutBatch) :=
  (.ok (db.payoutBatches.rows.reverse.filter fun b =>
    statusFilter.all (b.status == ·)), db)

/-- `PayoutRepository::get_batches_by_block_hash`: the batches of the round
of the block, once for each block that has the hash. -/
def getBatchesByBlockHash (blockHash : String) (db : Database) :
    DbResult (List PayoutBatch) :=
  (.ok (db.payoutBatches.rows.flatMap fun pb =>
    (db.foundBlocks.rows.filter fun fb =>
      fb.roundId == pb.roundId && fb.blockHash == blockHash).map
        fun _ => pb), db)

/-- `PayoutRepository::update_batch_status`. -/
def updateBatchStatus (id : Nat) (status : BatchStatus) (db : Database) :
    DbResult Unit :=
  (.ok (), { db with
    payoutBatches := db.payoutBatches.modify (·.id == id)
      (fun b => { b with status }) fun _ => ⟨rfl, rfl⟩ })

/-- `PayoutRepository::mark_batch_submitted`. -/
def markBatchSubmitted (id : Nat) (txid : String) (db : Database) :
    DbResult Unit :=
  (.ok (), { db with
    payoutBatches := db.payoutBatches.modify (·.id == id)
      (fun b => { b with status := .submitted, submittedTxid := some txid })
      fun _ => ⟨rfl, rfl⟩ })

/-- `PayoutRepository::get_payouts_by_batch`, oldest first. -/
def getPayoutsByBatch (batchId : Nat) (db : Database) :
    DbResult (List Payout) :=
  (.ok (db.payouts.rows.filter (·.batchId == batchId)), db)

/-- `PayoutRepository::delete_payouts_by_batch`. -/
def deletePayoutsByBatch (batchId : Nat) (db : Database) : DbResult Unit :=
  (.ok (), { db with
    payouts := db.payouts.delete (·.batchId == batchId) })

end PayoutRepository

end StratumServer
