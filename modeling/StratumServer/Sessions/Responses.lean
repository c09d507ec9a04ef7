import StratumServer.Lib.Utf8
import StratumServer.StratumProtocol.ReadLoop
import StratumServer.StratumProtocol.Serving

/-!
# Responses

What a miner finds in the stream of its connection.  The connection writes one
line for each message, and between the responses there are notifications.

`responses_in_order` says that the miner can tell which request a response
belongs to: there is one response for each line that was handled, in the order
of the lines, with the `id` of the request.  A line that is no request is
answered with `null`.  However much of the stream has arrived, its lines are
the texts of the first messages.
-/

namespace StratumServer

open Broadcast (Channels queue)
open Lines

variable {B : Channels WorkJob} {ν : Type} {w : Wire ν}

/-! ## The responses -/

/-- The `id` of a response. -/
def ServerMessage.responseId : ServerMessage ν → Option (Json ν)
  | .response id _ _ => some id
  | _ => none

@[simp] theorem responseId_toMessage (r : StratumResponse) (id : Json ν) :
    (r.toMessage w id).responseId = some id := rfl

@[simp] theorem responseId_response (id result error : Json ν) :
    (ServerMessage.response id result error).responseId = some id := rfl

@[simp] theorem responseId_setDifficulty (diff : ℚ) :
    (ServerMessage.setDifficulty diff : ServerMessage ν).responseId = none := rfl

@[simp] theorem responseId_setExtranonce (extranonce1 : String) (size : Nat) :
    (ServerMessage.setExtranonce extranonce1 size :
      ServerMessage ν).responseId = none := rfl

@[simp] theorem responseId_notify (work : WorkJob) :
    (ServerMessage.notify work : ServerMessage ν).responseId = none := rfl

/-- The `id` that a line is answered with. -/
def requestId (w : Wire ν) (line : String) : Json ν :=
  match decodeRequestLine w line maxLineLength with
  | .ok req => req.id
  | .error _ => .null

/-- A line gets one response. -/
theorem LineTurn.responseId {suite : Suite} {s : SessionState}
    {around : Surroundings} {line : String} {r : TurnResult ν}
    (h : LineTurn suite w s around line r) :
    r.written.filterMap (·.responseId) = [requestId w line] := by
  cases h with
  | invalid hdecode => simp [requestId, hdecode]
  | subscribe hdecode hmethod => simp [requestId, hdecode]
  | authorize hdecode hmethod =>
    have hnone : ∀ (s : SessionState) (latest : Option WorkJob),
        (s.startWork latest : List (ServerMessage ν)).filterMap
          (·.responseId) = [] := by
      intro s latest
      unfold SessionState.startWork
      split
      · cases latest <;> rfl
      · rfl
    rw [List.filterMap_cons_some (responseId_toMessage _ _), hnone]
    simp [requestId, hdecode]
  | @submit req diff s' response hdecode hmethod hturn =>
    cases diff <;> simp [requestId, hdecode, List.filterMap_cons]
  | plain hdecode hmethod => simp [requestId, hdecode]

/-- A connection has answered its lines one by one. -/
def Answers (w : Wire ν) (m : Miner B ν) : Prop :=
  m.written.filterMap (·.responseId) = m.lines.map (requestId w)

section Runs

variable {suite : Suite} {config : VarDiffConfig} {m : Miner B ν}

theorem Answers.line (h : Answers w m) (s : SessionState)
    (around : Surroundings) (text : String) :
    Answers w (m.afterLine text (s.handleLine suite w around text)) := by
  cases hresult : s.handleLine suite w around text with
  | none => exact h
  | some r =>
    have hturn := handleLine_turn suite w hresult
    show (m.written ++ r.written).filterMap _ = (m.lines ++ [text]).map _
    rw [List.filterMap_append, h, hturn.responseId, List.map_append]
    rfl

theorem Answers.job (h : Answers w m) (s : SessionState) (work : WorkJob)
    (receiver : B.Receiver) :
    Answers w (m.afterJob receiver (s.handleJob suite work)) := by
  show (m.written ++ _).filterMap _ = m.lines.map _
  rw [List.filterMap_append, h]
  unfold SessionState.handleJob
  generalize (networkTargetHexToDifficulty suite work.networkTargetHex).bind
    _ = clamped
  cases clamped <;> simp

theorem answers_run (maxSize : Nat) (initial : WorkJob)
    (log : List AuthorizationEvent) (events : List ServingEvent) :
    ((Serving.start maxSize initial log : Serving B ν).run suite w config
      events).Each fun _ m => Answers w m := by
  refine Serving.each_run (P := fun _ _ m => Answers w m) ?_ ?_ ?_ ?_ ?_ ?_
    maxSize initial log events
  · exact fun _ _ _ _ h => h
  · exact fun _ _ _ _ _ _ => rfl
  · exact fun _ _ _ s around text _ h => h.line s around text
  · exact fun _ _ _ s work receiver _ _ h => h.job s work receiver
  · exact fun _ _ _ _ h => h
  · exact fun _ _ _ h => h

end Runs

/-! ## The stream -/

/-- The line of a message, without its newline. -/
def ServerMessage.bytes (w : Wire ν) (msg : ServerMessage ν) : List UInt8 :=
  Utf8.bytes (w.toText (msg.toJson w))

/-- What is written for a list of messages. -/
def output (w : Wire ν) (written : List (ServerMessage ν)) : List UInt8 :=
  (written.map (·.bytes w)).flatMap (· ++ [newline])

theorem Wire.Compact.newline_notMem (h : w.Compact) (msg : ServerMessage ν) :
    newline ∉ msg.bytes w := by
  refine Utf8.notMem_bytes (by decide) fun c hc heq => ?_
  have hnewline : c = '\n' := Char.toNat_inj.1 heq
  exact h (msg.toJson w) (hnewline ▸ hc)

theorem linesFrom_output (h : w.Compact) (written : List (ServerMessage ν)) :
    linesFrom newline [] (output w written) = written.map (·.bytes w) := by
  refine (linesFrom_flatMap fun text htext => ?_).1
  obtain ⟨msg, _, rfl⟩ := List.mem_map.1 htext
  exact h.newline_notMem msg

section Result

variable {suite : Suite} {config : VarDiffConfig}

/-- For every interleaving: the responses of a connection are those to its
lines, one by one.  The lines of any first part of the stream are those of the
first messages, and the whole stream has the lines of all messages. -/
theorem responses_in_order (hw : w.Compact) (maxSize : Nat) (initial : WorkJob)
    (log : List AuthorizationEvent) (events : List ServingEvent) :
    ((Serving.start maxSize initial log : Serving B ν).run suite w config
      events).Each fun _ m =>
        m.written.filterMap (·.responseId) = m.lines.map (requestId w) ∧
        (∀ bytes, bytes <+: output w m.written →
          linesFrom newline [] bytes <+: m.written.map (·.bytes w)) ∧
        linesFrom newline [] (output w m.written) =
          m.written.map (·.bytes w) := by
  intro i m hm
  have hlines := linesFrom_output hw m.written
  refine ⟨answers_run maxSize initial log events i m hm, ?_, hlines⟩
  intro bytes hbytes
  rw [← hlines]
  exact linesFrom_isPrefix newline hbytes []

theorem sampleWire_compact : sampleWire.Compact := by
  intro v
  simp only [sampleWire]
  split <;> decide

/-- A miner sends a line that is no request, and then logs in while a job
comes. -/
def stutters : List ServingEvent :=
  [.accept 0, .listen, .line 0 "subscribe" 0 true] ++ announces 2 ++
    [.line 0 subscribeLine 0 true, .job 0, .line 0 authorizeLine 0 true]

theorem responses_in_order_sample :
    ∃ m, (sampleServing stutters).miners[0]? = some m ∧
      m.written.length = 7 ∧
      m.written.filterMap (·.responseId) = [.null, .number 1, .number 2] ∧
      linesFrom newline [] (output sampleWire m.written) =
        m.written.map (·.bytes sampleWire) := by
  have hrun : ∃ m ∈ (sampleServing stutters).miners[0]?, m.written.length = 7 ∧
      m.lines = ["subscribe", subscribeLine, authorizeLine] := by
    decide +kernel
  obtain ⟨m, hm, hlength, hlines⟩ := hrun
  obtain ⟨hids, _, hstream⟩ := responses_in_order sampleWire_compact 512
    (sampleWork 1) [] stutters 0 m hm
  refine ⟨m, hm, hlength, ?_, hstream⟩
  rw [hids, hlines]
  rfl

end Result

end StratumServer
