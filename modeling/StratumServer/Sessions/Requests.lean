import StratumServer.Lib.Calls
import StratumServer.StratumProtocol.ReadLoop

/-!
# No request is lost or torn

The lines that the read loop passes to `decode_request_line`, against the
lines of the stream that the miner sends.

A job that comes while part of a line has been consumed drops that part.
`passed_exact` is the result for the runs in which this does not happen,
`passed_exact_fails` is a run in which it does.  The condition also leaves
out what `read_line` treats in its own way: a line that is not UTF-8, and
bytes after the last newline when the miner closes its side.  When the server
ends the connection, no line may be waiting and none may come after that.
-/

namespace StratumServer

open Calls Lines

/-- The lines of a stream that end with a newline and are not blank. -/
def requestLines (stream : List UInt8) : List String :=
  (linesFrom newline [] stream).filterMap fun line =>
    requestLine (line ++ [newline])

/-! ## The invariant -/

/-- What has been passed, what is still to be read and what is held make up
the stream. -/
structure Exact (r : ReadLoop) : Prop where
  lines : ∃ done, linesFrom newline [] r.stream =
      done ++ linesFrom newline r.held r.unread ∧
    r.passed = done.filterMap fun line => requestLine (line ++ [newline])
  rest : restFrom newline [] r.stream = restFrom newline r.held r.unread
  utf8 : ∀ line ∈ linesFrom newline [] r.stream,
    (fromUtf8 (line ++ [newline])).isSome = true
  closed : r.closed = true → restFrom newline [] r.stream = []
  ended : r.ended = true → linesFrom newline r.held r.unread = []

/-- A job is only taken when nothing is held.  The lines that a segment
completes are UTF-8, and there are none once the connection has ended.  The
miner closes its side after a newline, and the server stops when no complete
line is waiting. -/
def Undisturbed (r : ReadLoop) : ReadEvent → Prop
  | .segment bytes =>
    (∀ line ∈ linesFrom newline (restFrom newline [] r.stream) bytes,
      (fromUtf8 (line ++ [newline])).isSome = true) ∧
    (r.ended = true →
      linesFrom newline (restFrom newline [] r.stream) bytes = [])
  | .close => restFrom newline [] r.stream = []
  | .takeJob => r.jobs = 0 ∨ r.held = []
  | .stop => linesFrom newline r.held r.unread = []
  | .broadcast | .read => True

instance (r : ReadLoop) : ∀ e, Decidable (Undisturbed r e)
  | .segment _ => inferInstanceAs (Decidable ((∀ _ ∈ _, _) ∧ (_ → _)))
  | .close | .stop => inferInstanceAs (Decidable (_ = _))
  | .takeJob => inferInstanceAs (Decidable (_ ∨ _))
  | .broadcast | .read => inferInstanceAs (Decidable True)

namespace Exact

variable {r : ReadLoop}

theorem segment (h : Exact r) {bytes : List UInt8}
    (hok : Undisturbed r (.segment bytes)) : Exact (r.step (.segment bytes)) := by
  change Exact (if r.closed then r else _)
  by_cases hclosed : r.closed = true
  · rw [if_pos hclosed]
    exact h
  rw [if_neg hclosed]
  obtain ⟨done, hlines, hpassed⟩ := h.lines
  refine ⟨⟨done, ?_, hpassed⟩, ?_, ?_, fun hc => absurd hc hclosed,
    fun he => ?_⟩
  · rw [linesFrom_append, linesFrom_append, hlines, h.rest, List.append_assoc]
  · rw [restFrom_append, restFrom_append, h.rest]
  · intro line hline
    rw [linesFrom_append] at hline
    rcases List.mem_append.1 hline with hold | hnew
    · exact h.utf8 line hold
    · exact hok.1 line hnew
  · rw [linesFrom_append, h.ended he, ← h.rest, hok.2 he, List.append_nil]

/-- A complete line is passed. -/
theorem read_line (h : Exact r) (hended : ¬ r.ended = true)
    {line unread : List UInt8}
    (hline : linesFrom newline r.held r.unread =
      line :: linesFrom newline [] unread)
    (hrest : restFrom newline r.held r.unread = restFrom newline [] unread) :
    Exact ({ r with held := [], unread }.finish (line ++ [newline])) := by
  obtain ⟨done, hlines, hpassed⟩ := h.lines
  rw [hline] at hlines
  have hutf8 := h.utf8 line (by rw [hlines]; simp)
  obtain ⟨text, htext⟩ := Option.isSome_iff_exists.1 hutf8
  unfold ReadLoop.finish
  rw [htext]
  refine ⟨⟨done ++ [line], ?_, ?_⟩, h.rest.trans hrest, h.utf8, h.closed,
    fun he => absurd he hended⟩
  · rw [hlines, List.append_assoc, List.singleton_append]
  · dsimp only
    rw [hpassed, List.filterMap_append]
    cases hrequest : requestLine (line ++ [newline]) <;> simp [hrequest]

theorem read (h : Exact r) : Exact (r.step .read) := by
  change Exact (if r.ended then r else r.read)
  by_cases hended : r.ended = true
  · rw [if_pos hended]
    exact h
  rw [if_neg hended]
  unfold ReadLoop.read
  rcases cut newline r.unread with ⟨hnone, hdrop⟩ |
    ⟨unread, hdrop, hnone, heq⟩
  · rw [hdrop]
    obtain ⟨hlines, hrest⟩ := linesFrom_of_notMem hnone r.held
    dsimp only
    by_cases hclosed : r.closed = true
    · have hempty : r.held ++ r.unread = [] := by
        rw [← hrest, ← h.rest, h.closed hclosed]
      rw [if_pos hclosed, if_pos hempty]
      exact ⟨h.lines, h.rest, h.utf8, h.closed, fun _ => hlines⟩
    · rw [if_neg hclosed]
      obtain ⟨done, hdone, hpassed⟩ := h.lines
      refine ⟨⟨done, ?_, hpassed⟩, h.rest.trans hrest, h.utf8, h.closed,
        fun he => absurd he hended⟩
      rw [hdone, hlines]
      rfl
  · rw [hdrop]
    have hsep := linesFrom_of_sep hnone r.held unread
    rw [← heq] at hsep
    exact h.read_line hended hsep.1 hsep.2

/-- Every event that meets the condition keeps the invariant. -/
theorem step (h : Exact r) {e : ReadEvent} (hok : Undisturbed r e) :
    Exact (r.step e) := by
  cases e with
  | segment bytes => exact h.segment hok
  | close => exact ⟨h.lines, h.rest, h.utf8, fun _ => hok, h.ended⟩
  | broadcast => exact ⟨h.lines, h.rest, h.utf8, h.closed, h.ended⟩
  | read => exact h.read
  | takeJob =>
    change Exact (if r.ended = true ∨ r.jobs = 0 then r else _)
    by_cases hidle : r.ended = true ∨ r.jobs = 0
    · rw [if_pos hidle]
      exact h
    · rw [if_neg hidle]
      have hheld : r.held = [] :=
        hok.resolve_left fun hjobs => hidle (Or.inr hjobs)
      rw [← hheld]
      exact ⟨h.lines, h.rest, h.utf8, h.closed, h.ended⟩
  | stop => exact ⟨h.lines, h.rest, h.utf8, h.closed, fun _ => hok⟩

theorem start : Exact {} :=
  ⟨⟨[], rfl, rfl⟩, rfl, nofun, nofun, nofun⟩

/-- What has been passed are the first lines of the stream. -/
theorem passed_prefix (h : Exact r) : r.passed <+: requestLines r.stream := by
  obtain ⟨done, hlines, hpassed⟩ := h.lines
  unfold requestLines
  rw [hlines, List.filterMap_append, hpassed]
  exact List.prefix_append _ _

/-- All lines have been passed when no newline is left to be read. -/
theorem passed_eq (h : Exact r) (hcount : r.unread.count newline = 0) :
    r.passed = requestLines r.stream := by
  obtain ⟨done, hlines, hpassed⟩ := h.lines
  have hnone : linesFrom newline r.held r.unread = [] :=
    List.eq_nil_of_length_eq_zero ((length_linesFrom _ _ _).trans hcount)
  unfold requestLines
  rw [hlines, hnone, List.append_nil, hpassed]

end Exact

/-! ## The result -/

/-- A poll reads a line, if there is one. -/
theorem read_count {r : ReadLoop} (h : Exact r) :
    (r.step .read).stream = r.stream ∧
      (r.step .read).unread.count newline ≤ r.unread.count newline - 1 := by
  change (if r.ended then r else r.read).stream = _ ∧
    (if r.ended then r else r.read).unread.count newline ≤ _
  by_cases hended : r.ended = true
  · have hnone := length_linesFrom newline r.held r.unread
    rw [h.ended hended] at hnone
    rw [if_pos hended, ← hnone]
    exact ⟨rfl, Nat.zero_le _⟩
  rw [if_neg hended]
  have hfinish : ∀ (r : ReadLoop) line, (r.finish line).stream = r.stream ∧
      (r.finish line).unread = r.unread := by
    intro r line
    unfold ReadLoop.finish
    split <;> exact ⟨rfl, rfl⟩
  unfold ReadLoop.read
  rcases cut newline r.unread with ⟨hnone, hdrop⟩ |
    ⟨unread, hdrop, _, heq⟩
  · rw [hdrop]
    have hzero := List.count_eq_zero.2 hnone
    dsimp only
    split
    · split
      · exact ⟨rfl, by rw [hzero]⟩
      · rw [(hfinish _ _).1, (hfinish _ _).2]
        exact ⟨rfl, Nat.zero_le _⟩
    · exact ⟨rfl, Nat.zero_le _⟩
  · rw [hdrop]
    dsimp only
    rw [(hfinish _ _).1, (hfinish _ _).2]
    refine ⟨rfl, ?_⟩
    have hcount := congrArg (List.count newline) heq
    rw [List.count_append, List.count_cons_self] at hcount
    change unread.count newline ≤ _
    omega

/-- As many polls as there are lines left pass them all. -/
theorem reads_exact {k : Nat} {r : ReadLoop} (h : Exact r)
    (hk : r.unread.count newline ≤ k) :
    ((List.replicate k .read).foldl ReadLoop.step r).passed =
      requestLines r.stream := by
  induction k generalizing r with
  | zero => exact h.passed_eq (Nat.le_zero.1 hk)
  | succ k ih =>
    obtain ⟨hstream, hcount⟩ := read_count h
    rw [List.replicate_succ, List.foldl_cons, ih h.read (by omega), hstream]

/-- In every run that meets the condition, the lines passed are the first
ones of the stream.  They are all of them after as many polls as there are
newlines to be read. -/
theorem passed_exact {events : List ReadEvent}
    (h : Meets ReadLoop.step Undisturbed {} events) :
    (events.foldl ReadLoop.step {}).passed <+:
        requestLines (events.foldl ReadLoop.step {}).stream ∧
      ∀ k, (events.foldl ReadLoop.step {}).unread.count newline ≤ k →
        ((events ++ List.replicate k ReadEvent.read).foldl ReadLoop.step {}).passed =
          requestLines (events.foldl ReadLoop.step {}).stream := by
  have hexact := h.invariant (I := Exact) (fun _ _ hr hok => hr.step hok)
    Exact.start
  refine ⟨hexact.passed_prefix, fun k hk => ?_⟩
  rw [List.foldl_append]
  exact reads_exact hexact hk

/-- The bytes of a text of ASCII characters. -/
def asciiBytes (s : String) : List UInt8 :=
  s.toList.map fun c => UInt8.ofNat c.toNat

/-- A request comes in two segments, and a job is sent in between.  It is
taken in between too, or else after the line has been read. -/
def splitsRequest (taken : Bool) : List ReadEvent :=
  [.segment (asciiBytes "\x7b\"id\":1,\"method\":"), .read, .broadcast] ++
    (if taken then [.takeJob] else []) ++
    [.segment (asciiBytes "\"mining.ping\"\x7d\n"), .read, .takeJob]

/-- The job waits until the line is complete. -/
theorem passed_exact_sample :
    Meets ReadLoop.step Undisturbed {} (splitsRequest false) ∧
    (requestLines ((splitsRequest false).foldl ReadLoop.step {}).stream) =
      ["\x7b\"id\":1,\"method\":\"mining.ping\"\x7d"] ∧
    ((splitsRequest false).foldl ReadLoop.step {}).passed <+:
      requestLines ((splitsRequest false).foldl ReadLoop.step {}).stream ∧
    ((splitsRequest false ++ List.replicate 0 ReadEvent.read).foldl ReadLoop.step
      {}).passed =
        requestLines ((splitsRequest false).foldl ReadLoop.step {}).stream := by
  have hmeets : Meets ReadLoop.step Undisturbed {} (splitsRequest false) := by
    decide +kernel
  obtain ⟨hbegins, hall⟩ := passed_exact hmeets
  exact ⟨hmeets, by decide +kernel, hbegins, hall 0 (by decide +kernel)⟩

/-- The job is taken between the two segments.  Only the second half of the
line is passed, and nothing is left to be read. -/
theorem passed_exact_fails :
    ((splitsRequest true).foldl ReadLoop.step {}).unread = [] ∧
    ((splitsRequest true).foldl ReadLoop.step {}).held = [] ∧
    ((splitsRequest true).foldl ReadLoop.step {}).passed ≠
      requestLines ((splitsRequest true).foldl ReadLoop.step {}).stream := by
  decide +kernel

end StratumServer
