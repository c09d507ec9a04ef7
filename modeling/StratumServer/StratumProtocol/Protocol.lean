import StratumServer.StratumProtocol.Session

/-!
# The messages of Stratum

`stratum_protocol/protocol.rs`, and the messages that `handle_connection`
writes.  `decodeRequestLine` reads a request out of a line, and
`ServerMessage.toJson` is the value that a message is written as.

`Wire` is what the server leaves to `serde_json`: the numbers, and the way
between values and texts.
-/

namespace StratumServer

/-! ## JSON -/

/-- `serde_json::Value`, for any type of numbers. -/
inductive Json (ν : Type)
  | null
  | bool (b : Bool)
  | number (n : ν)
  | string (s : String)
  | array (items : List (Json ν))
  | object (fields : List (String × Json ν))

section Values

variable {ν : Type}

/-- `Value::get` with a key. -/
def Json.get (key : String) : Json ν → Option (Json ν)
  | .object fields => (fields.find? (·.1 == key)).map (·.2)
  | _ => none

/-- `Value::as_str`. -/
def asStr : Json ν → Option String
  | .string s => some s
  | _ => none

end Values

/-- What is taken from `serde_json`. -/
structure Wire (ν : Type) where
  ofInt : Int → ν
  ofF64 : ℚ → ν
  /-- `from_str`. -/
  fromStr : String → Option (Json ν)
  /-- `to_string`. -/
  toText : Json ν → String

/-- The texts have no newline: `to_string` puts no white space between the
parts of a value, and in a string a newline is escaped. -/
def Wire.Compact {ν : Type} (w : Wire ν) : Prop :=
  ∀ v, '\n' ∉ (w.toText v).toList

/-! ## Requests -/

/-- `Method`. -/
inductive Method
  | subscribe
  | authorize
  | notify
  | setDifficulty
  | submit
  | ping
  | extranonceSubscribe
  | setExtranonce
  | suggestDifficulty
  | unknown (name : String)
  deriving DecidableEq, Repr

/-- `Method::parse`. -/
def Method.parse (s : String) : Method :=
  if s = "mining.subscribe" then .subscribe
  else if s = "mining.authorize" then .authorize
  else if s = "mining.notify" then .notify
  else if s = "mining.set_difficulty" then .setDifficulty
  else if s = "mining.submit" then .submit
  else if s = "mining.ping" then .ping
  else if s = "mining.extranonce.subscribe" then .extranonceSubscribe
  else if s = "mining.set_extranonce" then .setExtranonce
  else if s = "mining.suggest_difficulty" then .suggestDifficulty
  else .unknown s

/-- `StratumRequest`.  Its `params` are an array, since
`decode_request_line` lets nothing else pass. -/
structure StratumRequest (ν : Type) where
  id : Json ν
  method : Method
  params : List (Json ν)

/-- `StratumError`, without the text of the JSON reader. -/
inductive StratumError
  | lineTooLong
  | invalidJson
  | invalidRequestShape
  deriving DecidableEq, Repr

section Decode

variable {ν : Type} (w : Wire ν)

/-- The part of `decode_request_line` that follows the JSON reader. -/
def requestOfValue (value : Json ν) : Except StratumError (StratumRequest ν) :=
  match value.get "id" with
  | none => .error .invalidRequestShape
  | some id =>
    match (value.get "method").bind asStr with
    | none => .error .invalidRequestShape
    | some method =>
      match (value.get "params").getD (.array []) with
      | .array params => .ok ⟨id, Method.parse method, params⟩
      | _ => .error .invalidRequestShape

/-- `decode_request_line`. -/
def decodeRequestLine (line : String) (maxLen : Nat) :
    Except StratumError (StratumRequest ν) :=
  if maxLen < line.utf8ByteSize then .error .lineTooLong
  else
    match w.fromStr line with
    | none => .error .invalidJson
    | some value => requestOfValue value

end Decode

/-- The parameter at a position as text; empty when there is none. -/
def StratumRequest.param {ν : Type} (req : StratumRequest ν) (i : Nat) : String :=
  (req.params[i]?.bind asStr).getD ""

/-! ## Messages to the miner -/

/-- `MiningJob` with the reason why the work changed, which the miner is
told. -/
structure WorkJob extends MiningJob where
  reason : String
  deriving DecidableEq, Repr

/-- A message to the miner: the response to a request, or one of the three
notifications. -/
inductive ServerMessage (ν : Type)
  | response (id result error : Json ν)
  | setDifficulty (diff : ℚ)
  | setExtranonce (extranonce1 : String) (extranonce2Size : Nat)
  | notify (work : WorkJob)

section Messages

variable {ν : Type} (w : Wire ν)

/-- `MiningJob::notify_params`. -/
def WorkJob.notifyParams (work : WorkJob) : List (Json ν) :=
  [.string work.jobId, .string work.prevhash, .string work.coinbase1,
    .string work.coinbase2, .array (work.merkleBranches.map .string),
    .string work.version, .string work.nbits, .string work.ntime,
    .bool work.cleanJobs, .number (w.ofInt work.height),
    .string work.epochHash, .string work.extendedMetadataHash,
    .number (w.ofInt work.blockSize)] ++
  if work.reason = "" then [] else [.string work.reason]

/-- A message without a request. -/
def notification (method : String) (params : List (Json ν)) : Json ν :=
  .object [("id", .null), ("method", .string method), ("params", .array params)]

/-- The value that a message is written as. -/
def ServerMessage.toJson : ServerMessage ν → Json ν
  | .response id result error =>
    .object [("id", id), ("result", result), ("error", error)]
  | .setDifficulty diff =>
    notification "mining.set_difficulty" [.number (w.ofF64 diff)]
  | .setExtranonce extranonce1 extranonce2Size =>
    notification "mining.set_extranonce"
      [.string extranonce1, .number (w.ofInt extranonce2Size)]
  | .notify work => notification "mining.notify" (work.notifyParams w)

/-- The `error` of `StratumResponse::err` and `StratumResponse::rejected`. -/
def errorValue (code : Nat) (message : String) : Json ν :=
  .array [.number (w.ofInt code), .string message, .null]

end Messages

end StratumServer
