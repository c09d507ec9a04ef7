import StratumServer.Lib.Table
import Mathlib.Data.Rat.Defs
import Mathlib.Tactic.DeriveFintype

/-!
# The accounting database

The tables that `init_schema` creates, with the columns that some modelled
function reads or writes.  A status column is an enumeration here: the
source only ever stores the words that its schema comments list.

Times are whole seconds, because `CURRENT_TIMESTAMP` has that resolution.
Amounts are `Int` (`i64`), ids and template ids are `Nat` (`i64` rows that
`AUTOINCREMENT` gives out, and `u64`), difficulties are rationals (`f64`).
-/

namespace StratumServer

/-! ## Status columns -/

/-- `rounds.status`.  The source's word for `opened` is `open`. -/
inductive RoundStatus
  | opened | found | closed | paid | orphaned
  deriving DecidableEq, Repr

/-- `share_outcomes.status`. -/
inductive OutcomeStatus
  | accepted | rejected | stale
  deriving DecidableEq, Repr

/-- The word that the column holds. -/
def OutcomeStatus.text : OutcomeStatus → String
  | .accepted => "accepted"
  | .rejected => "rejected"
  | .stale => "stale"

/-- `found_blocks.status`. -/
inductive BlockStatus
  | immature | matured | paid | orphaned
  deriving DecidableEq, Repr

/-- `payout_batches.status`. -/
inductive BatchStatus
  | pending | submitted | confirmed | failed
  deriving DecidableEq, Repr

/-- The word that the column holds. -/
def BatchStatus.text : BatchStatus → String
  | .pending => "pending"
  | .submitted => "submitted"
  | .confirmed => "confirmed"
  | .failed => "failed"

/-- `share_outcomes.reject_reason`. -/
inductive RejectReason
  | staleJob | invalidSubmitShape | lowDifficultyShare | ntimeMismatch
  | unauthorizedWorker
  deriving DecidableEq, Repr

/-- The word that the column holds. -/
def RejectReason.text : RejectReason → String
  | .staleJob => "stale-job"
  | .invalidSubmitShape => "invalid-submit-shape"
  | .lowDifficultyShare => "low-difficulty-share"
  | .ntimeMismatch => "ntime-mismatch"
  | .unauthorizedWorker => "unauthorized-worker"

/-- `found_blocks.orphan_reason`. -/
inductive OrphanReason
  | blockNotFound | reorgDetected
  deriving DecidableEq, Repr

/-! ## Rows -/

/-- A row of `workers`. -/
structure Worker where
  id : Nat := 0
  payoutAddress : String
  workerSuffix : Option String
  deriving DecidableEq, Repr

/-- A row of `shares`: that a miner submitted this work. -/
structure Share where
  id : Nat := 0
  workerId : Nat
  sessionId : String
  jobId : String
  templateId : Nat
  templateEpoch : Nat
  extranonce1 : String
  extranonce2 : String
  ntimeHex6b : String
  nonceHex8b : String
  difficulty : ℚ
  dedupeKey : String
  deriving DecidableEq, Repr

/-- A row of `share_outcomes`: how the submission was judged. -/
structure ShareOutcome where
  id : Nat := 0
  shareId : Nat := 0
  sessionId : String
  workerId : Nat
  jobId : String
  roundId : Option Nat
  dedupeKey : String
  status : OutcomeStatus
  rejectReason : Option RejectReason
  nodeResult : Option String := none
  lowDiffOk : Option Bool
  networkTargetOk : Option Bool
  blockHash : Option String
  createdAt : Nat := 0
  deriving DecidableEq, Repr

/-- A row of `rounds`. -/
structure Round where
  id : Nat := 0
  startTemplateId : Nat
  endTemplateId : Option Nat := none
  status : RoundStatus := .opened
  deriving DecidableEq, Repr

/-- The events that the service and the consumer put into the audit log. -/
inductive EventType
  | shareOutcome | roundOpened | roundClosed | foundBlockObserved
  | foundBlockOrphaned | payoutBatchCreated
  deriving DecidableEq, Repr

/-- The status column of the audit log: the status words of the tables that
the events are about. -/
inductive EventStatus
  | outcome (s : OutcomeStatus)
  | round (s : RoundStatus)
  | confirmed
  | orphaned
  | pending
  deriving DecidableEq, Repr

/-- A row of `accounting_events`. -/
structure AccountingEvent where
  id : Nat := 0
  eventType : EventType
  status : EventStatus
  sessionId : Option String := none
  workerId : Option Nat := none
  workerName : Option String := none
  payoutAddress : Option String := none
  roundId : Option Nat := none
  templateId : Option Nat := none
  templateEpoch : Option Nat := none
  jobId : Option String := none
  blockHash : Option String := none
  height : Option Int := none
  payloadJson : Option String := none
  deriving DecidableEq, Repr

/-- A row of `found_blocks`. -/
structure FoundBlock where
  id : Nat := 0
  roundId : Nat
  blockHash : String
  height : Int
  status : BlockStatus := .immature
  workerId : Option Nat := none
  templateId : Option Nat
  persistSource : Option String
  orphanReason : Option OrphanReason := none
  maturedAt : Option Nat := none
  coinbaseValue : Nat
  coinbaseTxid : Option String := none
  networkTargetHex : String
  deriving DecidableEq, Repr

/-- A row of `payout_batches`. -/
structure PayoutBatch where
  id : Nat := 0
  roundId : Nat
  status : BatchStatus := .pending
  totalAmount : Int
  poolFeeAmount : Int
  poolFeeAddress : Option String
  minerCount : Nat
  retryKey : Option String
  submittedTxid : Option String := none
  deriving DecidableEq, Repr

/-- A row of `payouts`. -/
structure Payout where
  id : Nat := 0
  batchId : Nat
  workerId : Nat
  payoutAddress : String
  amount : Int
  dustCarriedForward : Int
  deriving DecidableEq, Repr

/-- A row of `payout_share_snapshots`. -/
structure PayoutShareSnapshot where
  id : Nat := 0
  batchId : Nat
  shareId : Nat
  shareOutcomeId : Nat
  payoutAddress : String
  workUnits : ℚ
  shareCreatedAt : Nat
  deriving DecidableEq, Repr

/-- A row of `dust_balances`. -/
structure DustBalance where
  id : Nat := 0
  payoutAddress : String
  balance : Int
  deriving DecidableEq, Repr

/-! ## Ids and `UNIQUE` columns -/

open Sql

/-- A worker without a suffix has no key: `worker_suffix` is `NULL` then. -/
instance : Record Worker where
  Key := String × String
  id := Worker.id
  key w := w.workerSuffix.map (w.payoutAddress, ·)
  withId n w := { w with id := n }
  id_withId _ _ := rfl
  key_withId _ _ := rfl

instance : Record Share where
  Key := String
  id := Share.id
  key s := some s.dedupeKey
  withId n s := { s with id := n }
  id_withId _ _ := rfl
  key_withId _ _ := rfl

instance : Record ShareOutcome where
  Key := String
  id := ShareOutcome.id
  key o := some o.dedupeKey
  withId n o := { o with id := n }
  id_withId _ _ := rfl
  key_withId _ _ := rfl

instance : Record Round where
  Key := Empty
  id := Round.id
  key _ := none
  withId n r := { r with id := n }
  id_withId _ _ := rfl
  key_withId _ _ := rfl

instance : Record AccountingEvent where
  Key := Empty
  id := AccountingEvent.id
  key _ := none
  withId n e := { e with id := n }
  id_withId _ _ := rfl
  key_withId _ _ := rfl

instance : Record FoundBlock where
  Key := String
  id := FoundBlock.id
  key b := some b.blockHash
  withId n b := { b with id := n }
  id_withId _ _ := rfl
  key_withId _ _ := rfl

instance : Record PayoutBatch where
  Key := String
  id := PayoutBatch.id
  key b := b.retryKey
  withId n b := { b with id := n }
  id_withId _ _ := rfl
  key_withId _ _ := rfl

instance : Record Payout where
  Key := Empty
  id := Payout.id
  key _ := none
  withId n p := { p with id := n }
  id_withId _ _ := rfl
  key_withId _ _ := rfl

instance : Record PayoutShareSnapshot where
  Key := Empty
  id := PayoutShareSnapshot.id
  key _ := none
  withId n s := { s with id := n }
  id_withId _ _ := rfl
  key_withId _ _ := rfl

instance : Record DustBalance where
  Key := String
  id := DustBalance.id
  key d := some d.payoutAddress
  withId n d := { d with id := n }
  id_withId _ _ := rfl
  key_withId _ _ := rfl

/-! ## The database -/

/-- What the connection behind the mutex holds.  `now` is the clock that
`CURRENT_TIMESTAMP` reads. -/
structure Database where
  now : Nat
  workers : Table Worker
  shares : Table Share
  shareOutcomes : Table ShareOutcome
  rounds : Table Round
  accountingEvents : Table AccountingEvent
  foundBlocks : Table FoundBlock
  payoutBatches : Table PayoutBatch
  payouts : Table Payout
  payoutShareSnapshots : Table PayoutShareSnapshot
  dustBalances : Table DustBalance

/-- The database that `init_schema` leaves on a new file. -/
def initSchema (now : Nat) : Database where
  now := now
  workers := .empty
  shares := .empty
  shareOutcomes := .empty
  rounds := .empty
  accountingEvents := .empty
  foundBlocks := .empty
  payoutBatches := .empty
  payouts := .empty
  payoutShareSnapshots := .empty
  dustBalances := .empty

/-- What a fallible call of the accounting code can fail with: an error of
SQLite, or a check of the code itself, with its message. -/
inductive Error
  | sqlite
  | bail (message : String)
  deriving DecidableEq, Repr

/-- The result of a call that holds the connection lock, with the database
that it leaves.  A failed transaction is rolled back. -/
abbrev DbResult (α : Type) := Except Error α × Database

end StratumServer
