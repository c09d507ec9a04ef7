import StratumServer.Lib.Lines
import Mathlib.Data.UInt

/-!
# The read loop of a connection

`handle_connection` waits with `tokio::select!` for a line of the miner or
for a new job.  The two branches compete: a `read_line` that has consumed
bytes but no newline is dropped when a job comes, and the bytes with it.
Each turn of the loop begins with an empty line buffer.

A line that is not UTF-8 ends the connection.  When the miner closes its
side, `read_line` returns the bytes after the last newline as a line of their
own, and after that nothing.

The server may also end the connection by itself, at any time: on the
shutdown signal, when a write fails, and when the handler of a request
panics.
-/

namespace StratumServer

/-- `char::is_whitespace`: the characters with the Unicode property
`White_Space`. -/
def isRustWhitespace (c : Char) : Bool :=
  let n := c.toNat
  decide (9 ≤ n ∧ n ≤ 13) || n == 0x20 || n == 0x85 || n == 0xA0 ||
    n == 0x1680 || decide (0x2000 ≤ n ∧ n ≤ 0x200A) || n == 0x2028 ||
    n == 0x2029 || n == 0x202F || n == 0x205F || n == 0x3000

/-- `str::trim`. -/
def rustTrim (s : String) : String :=
  String.ofList (((s.toList.dropWhile isRustWhitespace).reverse.dropWhile
    isRustWhitespace).reverse)

/-- The newline that `read_line` reads up to. -/
def newline : UInt8 := 10

/-- `String::from_utf8`. -/
def fromUtf8 (bytes : List UInt8) : Option String :=
  String.fromUTF8? bytes.toByteArray

/-- The text of a line that is not blank. -/
def requestLine (line : List UInt8) : Option String :=
  ((fromUtf8 line).map rustTrim).filter (· ≠ "")

/-- The read loop.  `held` is what the current `read_line` has consumed. -/
structure ReadLoop where
  /-- All that the miner has sent. -/
  stream : List UInt8 := []
  /-- What has arrived and has not been consumed. -/
  unread : List UInt8 := []
  held : List UInt8 := []
  /-- The miner has closed its side. -/
  closed : Bool := false
  /-- The jobs that wait in the channel. -/
  jobs : Nat := 0
  ended : Bool := false
  /-- The lines that were passed to `decode_request_line`. -/
  passed : List String := []
  deriving DecidableEq, Repr

/-- What can happen next. -/
inductive ReadEvent
  | segment (bytes : List UInt8)
  | close
  | broadcast
  /-- The branch of `read_line` is polled. -/
  | read
  /-- The branch of `job_rx` completes. -/
  | takeJob
  /-- The shutdown signal, the `?` of a `write_all` that fails, or a panic. -/
  | stop
  deriving DecidableEq, Repr

namespace ReadLoop

/-- The turn of the loop that follows a `read_line` which has returned. -/
def finish (r : ReadLoop) (line : List UInt8) : ReadLoop :=
  match fromUtf8 line with
  | none => { r with ended := true }
  | some _ => { r with passed := r.passed ++ (requestLine line).toList }

/-- One poll of `read_line`. -/
def read (r : ReadLoop) : ReadLoop :=
  match r.unread.dropWhile (· ≠ newline) with
  | _ :: unread =>
    let line := r.held ++ r.unread.takeWhile (· ≠ newline) ++ [newline]
    { r with held := [], unread }.finish line
  | [] =>
    let held := r.held ++ r.unread
    if r.closed then
      -- `Ok(0)` ends the loop, and anything else is taken for a line.
      if held = [] then { r with ended := true }
      else { r with held := [], unread := [] }.finish held
    else { r with held, unread := [] }

/-- One event. -/
def step (r : ReadLoop) : ReadEvent → ReadLoop
  | .segment bytes =>
    if r.closed then r
    else { r with stream := r.stream ++ bytes, unread := r.unread ++ bytes }
  | .close => { r with closed := true }
  | .broadcast => { r with jobs := r.jobs + 1 }
  | .read => if r.ended then r else r.read
  | .takeJob =>
    if r.ended = true ∨ r.jobs = 0 then r
    -- The other branch is dropped, with what it has consumed.
    else { r with jobs := r.jobs - 1, held := [] }
  | .stop => { r with ended := true }

end ReadLoop

end StratumServer
