import StratumServer.Accounting.ShareQueries

/-!
# The lists of shares

`GET /api/v1/shares` and `GET /api/v1/share-outcomes`.  Both load all rows
that match, count them once more with a query of their own, and cut the page
out of the rows.
-/

namespace StratumServer

/-! ## Pages -/

/-- `PaginationParams`. -/
structure PaginationParams where
  limit : Option Int
  offset : Option Int
  deriving DecidableEq, Repr

namespace PaginationParams

/-- `PaginationParams::DEFAULT_LIMIT`. -/
def defaultLimit : Int := 100

/-- `PaginationParams::MAX_LIMIT`. -/
def maxLimit : Int := 1000

/-- `PaginationParams::limit`. -/
def effectiveLimit (p : PaginationParams) : Int :=
  (p.limit.map fun l => max 1 (min l maxLimit)).getD defaultLimit

/-- `PaginationParams::offset`. -/
def effectiveOffset (p : PaginationParams) : Int := max (p.offset.getD 0) 0

end PaginationParams

/-- `PaginatedResponse`. -/
structure PaginatedResponse (α : Type) where
  data : List α
  total : Int
  hasMore : Bool
  deriving DecidableEq, Repr

/-- `PaginatedResponse::new`. -/
def PaginatedResponse.new {α : Type} (allData : List α) (total : Int)
    (params : PaginationParams) : PaginatedResponse α :=
  let offset := asUsize params.effectiveOffset
  let limit := asUsize params.effectiveLimit
  { data := if allData.length ≤ offset then []
      else (allData.drop offset).take limit
    total
    hasMore := decide (offset + limit < asUsize total) }

/-! ## The routes -/

/-- The errors of the routes, of `AppError`. -/
inductive AppError
  | dbNotConfigured
  | internal
  deriving DecidableEq, Repr

/-- `ListSharesParams`. -/
structure ListSharesParams extends ShareFilters where
  limit : Option Int := none
  offset : Option Int := none
  deriving DecidableEq, Repr

/-- `pagination_from`. -/
def paginationFrom (params : ListSharesParams) : PaginationParams :=
  ⟨params.limit, params.offset⟩

/-- `ShareResponse`. -/
structure ShareResponse where
  id : Nat
  workerId : Nat
  sessionId : String
  jobId : String
  templateId : String
  templateEpoch : String
  extranonce1 : String
  extranonce2 : String
  ntimeHex6b : String
  nonceHex8b : String
  difficulty : ℚ
  dedupeKey : String
  deriving DecidableEq, Repr

/-- The response for a share. -/
def ShareResponse.of (s : Share) : ShareResponse where
  id := s.id
  workerId := s.workerId
  sessionId := s.sessionId
  jobId := s.jobId
  templateId := s.templateId.repr
  templateEpoch := s.templateEpoch.repr
  extranonce1 := s.extranonce1
  extranonce2 := s.extranonce2
  ntimeHex6b := s.ntimeHex6b
  nonceHex8b := s.nonceHex8b
  difficulty := s.difficulty
  dedupeKey := s.dedupeKey

/-- `ShareOutcomeResponse`. -/
structure ShareOutcomeResponse where
  id : Nat
  shareId : Nat
  sessionId : String
  workerId : Nat
  jobId : String
  roundId : Option Nat
  dedupeKey : String
  status : String
  rejectReason : Option String
  nodeResult : Option String
  lowDiffOk : Option Bool
  networkTargetOk : Option Bool
  blockHash : Option String
  deriving DecidableEq, Repr

/-- The response for an outcome. -/
def ShareOutcomeResponse.of (o : ShareOutcome) : ShareOutcomeResponse where
  id := o.id
  shareId := o.shareId
  sessionId := o.sessionId
  workerId := o.workerId
  jobId := o.jobId
  roundId := o.roundId
  dedupeKey := o.dedupeKey
  status := o.status.text
  rejectReason := o.rejectReason.map RejectReason.text
  nodeResult := o.nodeResult
  lowDiffOk := o.lowDiffOk
  networkTargetOk := o.networkTargetOk
  blockHash := o.blockHash

namespace Routes

/-- What both routes do with the rows and with their number.  A count that
fails is replaced by the number of rows. -/
def listPage {ρ α : Type} (listed : Except Error (List ρ))
    (counted : Except Error Int) (respond : ρ → α) (params : PaginationParams) :
    Except AppError (PaginatedResponse α) :=
  match listed with
  | .error _ => .error .internal
  | .ok rows =>
    let all := rows.map respond
    let total := match counted with
      | .ok total => total
      | .error _ => all.length
    .ok (.new all total params)

variable (dates : Dates)

/-- `list_shares`. -/
def listShares (repo : Option Database) (params : ListSharesParams) :
    Except AppError (PaginatedResponse ShareResponse) :=
  match repo with
  | none => .error .dbNotConfigured
  | some db => listPage
      (ShareRepository.listShares dates params.toShareFilters none none db)
      (ShareRepository.countShares dates params.toShareFilters db)
      ShareResponse.of (paginationFrom params)

/-- `list_share_outcomes`. -/
def listShareOutcomes (repo : Option Database) (params : ListSharesParams) :
    Except AppError (PaginatedResponse ShareOutcomeResponse) :=
  match repo with
  | none => .error .dbNotConfigured
  | some db => listPage
      (ShareRepository.listOutcomes dates params.toShareFilters none none db)
      (ShareRepository.countOutcomes dates params.toShareFilters db)
      ShareOutcomeResponse.of (paginationFrom params)

end Routes

end StratumServer
