import Mathlib.Data.List.Induction
import StratumServer.Lib.Calls

/-!
# The coalescer of work changes

`coalesce_events` stands between the node and `on_mining_work_changed`.  It
waits for an event, and then with `tokio::select!` for the next one, for the
end of the window or for the shutdown.  The branch of `select!` that receives
has the pattern `Some(event)`.  So once the input is closed and empty that
branch is disabled, and the window goes on to its end.

The events are of any type.  The input and the output are bounded channels: a
full one delays the sender, and that is a delay of the events below.  What
the timer does is left open, so that a window may end at any time.

`Coalescer.Inv` says in each phase what has been sent.  `coalesced` is the
result for every order of events, and `ends_of_closed` says that the task can
always reach its end when the input is closed.
-/

namespace StratumServer

/-! ## The task -/

/-- Where `coalesce_events` waits. -/
inductive CoalescePhase (ε : Type)
  /-- For the first event of a window. -/
  | waiting
  /-- In the `select!` of a window. -/
  | window (latest : ε)
  /-- For the output to take the event. -/
  | sending (latest : ε)
  | ended
  deriving DecidableEq, Repr

/-- The receiver of the input is dropped with the task. -/
def CoalescePhase.isEnded {ε : Type} : CoalescePhase ε → Bool
  | .ended => true
  | _ => false

/-- The task with its channels. -/
structure Coalescer (ε : Type) where
  /-- All that was sent to the input. -/
  inputs : List ε := []
  /-- What waits in the input. -/
  queue : List ε := []
  inputClosed : Bool := false
  /-- The signal was given, or its sender was dropped. -/
  shutdown : Bool := false
  outputClosed : Bool := false
  phase : CoalescePhase ε := .waiting
  /-- What `input.recv()` has returned. -/
  received : List ε := []
  /-- What was sent to the output. -/
  sent : List ε := []
  deriving DecidableEq, Repr

/-- What can happen next. -/
inductive CoalesceEvent (ε : Type)
  | arrive (event : ε)
  | closeInput
  | shutdown
  | closeOutput
  /-- `input.recv()` is polled. -/
  | receive
  /-- The sleep of the window is over. -/
  | timer
  /-- The branch of `shutdown.recv()` completes. -/
  | seeShutdown
  /-- `output.send` returns. -/
  | send
  deriving DecidableEq, Repr

namespace Coalescer

variable {ε : Type}

/-- One poll of `input.recv()`, at the head of the loop or in a window. -/
def receive (s : Coalescer ε) : Coalescer ε :=
  match s.phase, s.queue with
  | .waiting, e :: queue =>
    { s with queue, received := s.received ++ [e], phase := .window e }
  | .window _, e :: queue =>
    { s with queue, received := s.received ++ [e], phase := .window e }
  -- `None` ends the loop here, and in a window it disables the branch.
  | .waiting, [] => if s.inputClosed then { s with phase := .ended } else s
  | _, _ => s

/-- `output.send(latest)` returns. -/
def send (s : Coalescer ε) : Coalescer ε :=
  match s.phase with
  | .sending latest =>
    if s.outputClosed then { s with phase := .ended }
    else { s with sent := s.sent ++ [latest], phase := .waiting }
  | _ => s

/-- One event. -/
def step (s : Coalescer ε) : CoalesceEvent ε → Coalescer ε
  | .arrive e =>
    if s.inputClosed || s.phase.isEnded then s
    else { s with inputs := s.inputs ++ [e], queue := s.queue ++ [e] }
  | .closeInput => { s with inputClosed := true }
  | .shutdown => { s with shutdown := true }
  | .closeOutput => { s with outputClosed := true }
  | .receive => s.receive
  | .timer =>
    match s.phase with
    | .window latest => { s with phase := .sending latest }
    | _ => s
  | .seeShutdown =>
    match s.phase with
    | .window _ => if s.shutdown then { s with phase := .ended } else s
    | _ => s
  | .send => s.send

/-- The task after a sequence of events. -/
def run (events : List (CoalesceEvent ε)) : Coalescer ε :=
  events.foldl step {}

/-! ## One event -/

/-- What an event that is not ignored does. -/
inductive Moves (s : Coalescer ε) : CoalesceEvent ε → Coalescer ε → Prop
  | arrive (e : ε) (hphase : s.phase ≠ .ended) : Moves s (.arrive e)
      { s with inputs := s.inputs ++ [e], queue := s.queue ++ [e] }
  | closeInput : Moves s .closeInput { s with inputClosed := true }
  | shutdown : Moves s .shutdown { s with shutdown := true }
  | closeOutput : Moves s .closeOutput { s with outputClosed := true }
  | receive (e : ε) (queue : List ε) (hqueue : s.queue = e :: queue) :
      Moves s .receive
        { s with queue, received := s.received ++ [e], phase := .window e }
  | inputEnded (hphase : s.phase = .waiting) (hqueue : s.queue = [])
      (hclosed : s.inputClosed = true) :
      Moves s .receive { s with phase := .ended }
  | timer (latest : ε) (hphase : s.phase = .window latest) :
      Moves s .timer { s with phase := .sending latest }
  | seeShutdown (hshutdown : s.shutdown = true) :
      Moves s .seeShutdown { s with phase := .ended }
  | sendFails (hclosed : s.outputClosed = true) :
      Moves s .send { s with phase := .ended }
  | send (latest : ε) (hphase : s.phase = .sending latest) : Moves s .send
      { s with sent := s.sent ++ [latest], phase := .waiting }

theorem receive_moves (s : Coalescer ε) :
    s.receive = s ∨ Moves s .receive s.receive := by
  unfold receive
  split
  · rename_i hqueue
    exact Or.inr (.receive _ _ hqueue)
  · rename_i hqueue
    exact Or.inr (.receive _ _ hqueue)
  · rename_i hphase hqueue
    split
    · rename_i hclosed
      exact Or.inr (.inputEnded hphase hqueue hclosed)
    · exact Or.inl rfl
  · exact Or.inl rfl

theorem send_moves (s : Coalescer ε) : s.send = s ∨ Moves s .send s.send := by
  unfold send
  split
  · rename_i latest hphase
    split
    · rename_i hclosed
      exact Or.inr (.sendFails hclosed)
    · exact Or.inr (.send latest hphase)
  · exact Or.inl rfl

/-- An event is ignored, or it makes one of the moves. -/
theorem step_moves (s : Coalescer ε) (event : CoalesceEvent ε) :
    s.step event = s ∨ Moves s event (s.step event) := by
  cases event with
  | arrive e =>
    simp only [step]
    split
    · exact Or.inl rfl
    · rename_i hopen
      refine Or.inr (.arrive e fun hphase => hopen ?_)
      rw [hphase, CoalescePhase.isEnded, Bool.or_true]
  | closeInput => exact Or.inr .closeInput
  | shutdown => exact Or.inr .shutdown
  | closeOutput => exact Or.inr .closeOutput
  | receive => exact s.receive_moves
  | timer =>
    simp only [step]
    split
    · rename_i latest hphase
      exact Or.inr (.timer latest hphase)
    · exact Or.inl rfl
  | seeShutdown =>
    simp only [step]
    split
    · split
      · rename_i hshutdown
        exact Or.inr (.seeShutdown hshutdown)
      · exact Or.inl rfl
    · exact Or.inl rfl
  | send => exact s.send_moves

/-! ## What has been sent -/

/-- What has been sent of the received events, by phase. -/
def Forwarded (s : Coalescer ε) : CoalescePhase ε → Prop
  | .waiting =>
    s.sent.Sublist s.received ∧ s.sent.getLast? = s.received.getLast?
  | .window latest | .sending latest =>
    ∃ earlier, s.received = earlier ++ [latest] ∧ s.sent.Sublist earlier
  | .ended =>
    s.sent.Sublist s.received ∧
      (s.shutdown = false → s.outputClosed = false → s.inputClosed = true ∧
        s.queue = [] ∧ s.sent.getLast? = s.received.getLast?)

/-- The inputs are the received ones and those that wait. -/
structure Inv (s : Coalescer ε) : Prop where
  inputs : s.inputs = s.received ++ s.queue
  forwarded : s.Forwarded s.phase

theorem inv_new : Inv ({} : Coalescer ε) :=
  ⟨rfl, List.nil_sublist _, rfl⟩

/-- What the phase says, for a phase that is known. -/
theorem Inv.forwarded_of {s : Coalescer ε} (h : s.Inv) {phase : CoalescePhase ε}
    (hphase : s.phase = phase) : s.Forwarded phase :=
  hphase ▸ h.forwarded

theorem Inv.sublist {s : Coalescer ε} (h : s.Inv) :
    s.sent.Sublist s.received := by
  cases hphase : s.phase with
  | waiting => exact (h.forwarded_of hphase).1
  | window latest | sending latest =>
    obtain ⟨earlier, hreceived, hsent⟩ := h.forwarded_of hphase
    rw [hreceived]
    exact hsent.trans (List.sublist_append_left _ _)
  | ended => exact (h.forwarded_of hphase).1

/-- A move that receives nothing, sends nothing and stays in its phase.  Only
for an ended task does the phase say more. -/
theorem Inv.keeps {s s' : Coalescer ε} (h : s.Inv) (hphase : s'.phase = s.phase)
    (hreceived : s'.received = s.received) (hsent : s'.sent = s.sent)
    (hinputs : s'.inputs = s'.received ++ s'.queue)
    (hended : s.phase = .ended → s'.Forwarded .ended) : s'.Inv := by
  refine ⟨hinputs, ?_⟩
  rw [hphase]
  cases hcase : s.phase with
  | ended => exact hended hcase
  | _ =>
    have hforwarded := h.forwarded_of hcase
    unfold Forwarded at hforwarded ⊢
    rw [hreceived, hsent]
    exact hforwarded

/-- Every move keeps the invariant. -/
theorem Inv.move {s s' : Coalescer ε} {event : CoalesceEvent ε} (h : s.Inv)
    (hmove : Moves s event s') : s'.Inv := by
  cases hmove with
  | arrive e hopen =>
    refine h.keeps rfl rfl rfl ?_ fun hphase => absurd hphase hopen
    rw [h.inputs, List.append_assoc]
  | closeInput =>
    refine h.keeps rfl rfl rfl h.inputs fun hphase => ?_
    obtain ⟨hsent, hlast⟩ := h.forwarded_of hphase
    exact ⟨hsent, fun hs ho => ⟨rfl, (hlast hs ho).2⟩⟩
  | shutdown =>
    exact h.keeps rfl rfl rfl h.inputs fun _ =>
      ⟨h.sublist, fun hs => nomatch hs⟩
  | closeOutput =>
    exact h.keeps rfl rfl rfl h.inputs fun _ =>
      ⟨h.sublist, fun _ ho => nomatch ho⟩
  | receive e queue hqueue =>
    refine ⟨?_, s.received, rfl, h.sublist⟩
    rw [h.inputs, hqueue, List.append_assoc]
    rfl
  | inputEnded hphase hqueue hclosed =>
    obtain ⟨hsent, hlast⟩ := h.forwarded_of hphase
    exact ⟨h.inputs, hsent, fun _ _ => ⟨hclosed, hqueue, hlast⟩⟩
  | timer latest hphase => exact ⟨h.inputs, h.forwarded_of hphase⟩
  | seeShutdown hshutdown =>
    exact ⟨h.inputs, h.sublist, fun hs =>
      absurd (hs.symm.trans hshutdown) Bool.false_ne_true⟩
  | sendFails hclosed =>
    exact ⟨h.inputs, h.sublist, fun _ ho =>
      absurd (ho.symm.trans hclosed) Bool.false_ne_true⟩
  | send latest hphase =>
    obtain ⟨earlier, hreceived, hsent⟩ := h.forwarded_of hphase
    refine ⟨h.inputs, ?_, ?_⟩
    · rw [hreceived]
      exact hsent.append_right [latest]
    · rw [hreceived, List.getLast?_concat, List.getLast?_concat]

theorem Inv.step {s : Coalescer ε} (h : s.Inv) (event : CoalesceEvent ε) :
    (s.step event).Inv := by
  rcases s.step_moves event with hsame | hmove
  · rw [hsame]
    exact h
  · exact h.move hmove

theorem inv_run (events : List (CoalesceEvent ε)) : (run events).Inv :=
  Calls.Meets.invariant (fun _ event h _ => h.step event) inv_new
    (Calls.meets_of_forall (fun _ _ => True.intro) _ events)

/-- The flags are set by their own events. -/
theorem Moves.flags {s s' : Coalescer ε} {event : CoalesceEvent ε}
    (hmove : Moves s event s') (hs : event ≠ .shutdown) (ho : event ≠ .closeOutput) :
    s'.shutdown = s.shutdown ∧ s'.outputClosed = s.outputClosed := by
  cases hmove with
  | shutdown => exact absurd rfl hs
  | closeOutput => exact absurd rfl ho
  | _ => exact ⟨rfl, rfl⟩

/-- Without these events the flags are not set. -/
theorem run_flags {events : List (CoalesceEvent ε)} (hs : .shutdown ∉ events)
    (ho : .closeOutput ∉ events) :
    (run events).shutdown = false ∧ (run events).outputClosed = false := by
  induction events using List.reverseRecOn with
  | nil => exact ⟨rfl, rfl⟩
  | append_singleton events event ih =>
    rw [List.mem_append, List.mem_singleton, not_or] at hs ho
    have hbefore := ih hs.1 ho.1
    rw [run, List.foldl_append, List.foldl_cons, List.foldl_nil]
    rcases (run events).step_moves event with hsame | hmove
    · rw [← run, hsame]
      exact hbefore
    · obtain ⟨hshutdown, houtput⟩ := hmove.flags (Ne.symm hs.2) (Ne.symm ho.2)
      rw [← run, hshutdown, houtput]
      exact hbefore

/-- Only a send changes what has been sent, and it sends the latest event
that was received. -/
theorem Inv.sends {s : Coalescer ε} (h : s.Inv) (event : CoalesceEvent ε) :
    (s.step event).sent = s.sent ∨ ∃ latest, s.phase = .sending latest ∧
      s.received.getLast? = some latest ∧
      (s.step event).sent = s.sent ++ [latest] := by
  rcases s.step_moves event with hsame | hmove
  · rw [hsame]
    exact Or.inl rfl
  · generalize s.step event = s' at hmove
    cases hmove with
    | send latest hphase =>
      obtain ⟨earlier, hreceived, -⟩ := h.forwarded_of hphase
      exact Or.inr ⟨latest, hphase, by rw [hreceived, List.getLast?_concat], rfl⟩
    | _ => exact Or.inl rfl

/-! ## The end -/

/-- What a task that listens does by itself until it ends: it receives the
events that wait, the window ends, the latest of them is sent, and the input
is at its end. -/
def finish (waits : Nat) : List (CoalesceEvent ε) :=
  List.replicate waits .receive ++ [.timer, .send, .receive]

/-- From the head of the loop or from a window. -/
theorem ends_of_listening {s : Coalescer ε} (hclosed : s.inputClosed = true)
    (hopen : s.outputClosed = false)
    (hphase : s.phase = .waiting ∨ ∃ latest, s.phase = .window latest) :
    ((finish s.queue.length).foldl step s).phase = .ended := by
  generalize hqueue : s.queue = queue
  -- The induction is on what waits: each event that is received leaves the
  -- task in a window.
  induction queue generalizing s with
  | nil =>
    rcases hphase with hwaiting | ⟨latest, hwindow⟩
    · simp [finish, step, receive, send, hwaiting, hqueue, hclosed]
    · simp [finish, step, receive, send, hwindow, hqueue, hclosed, hopen]
  | cons e queue ih =>
    have hreceive : s.step .receive = { s with
        queue, received := s.received ++ [e], phase := .window e } := by
      rcases hphase with hwaiting | ⟨latest, hwindow⟩
      · simp [step, receive, hwaiting, hqueue]
      · simp [step, receive, hwindow, hqueue]
    rw [List.length_cons, finish, List.replicate_succ, List.cons_append,
      List.foldl_cons, hreceive]
    exact ih hclosed hopen (Or.inr ⟨e, rfl⟩) rfl

/-- A task that has not ended, with a closed input and an open output, can
always reach its end. -/
theorem ends_of_closed {s : Coalescer ε} (hphase : s.phase ≠ .ended)
    (hclosed : s.inputClosed = true) (hopen : s.outputClosed = false) :
    ((.send :: finish s.queue.length).foldl step s).phase = .ended := by
  rw [List.foldl_cons]
  cases hcase : s.phase with
  | waiting =>
    have hignored : s.step .send = s := by simp [step, send, hcase]
    rw [hignored]
    exact ends_of_listening hclosed hopen (Or.inl hcase)
  | window latest =>
    have hignored : s.step .send = s := by simp [step, send, hcase]
    rw [hignored]
    exact ends_of_listening hclosed hopen (Or.inr ⟨latest, hcase⟩)
  | sending latest =>
    have hsend : s.step .send =
        { s with sent := s.sent ++ [latest], phase := .waiting } := by
      simp [step, send, hcase, hopen]
    rw [hsend]
    exact ends_of_listening (s := { s with
      sent := s.sent ++ [latest], phase := .waiting }) hclosed hopen (Or.inl rfl)
  | ended => exact absurd hcase hphase

end Coalescer

/-! ## The result -/

/-- After the events: what has been sent is a subsequence of the inputs;
whatever happens next, either nothing is sent or it is the latest event that
was received, and a window has ended; and if there was no shutdown and the
output was not closed, then the last of the inputs has been sent once the
task has ended. -/
structure Coalesced {ε : Type} (events : List (CoalesceEvent ε)) : Prop where
  subsequence :
    (Coalescer.run events).sent.Sublist (Coalescer.run events).inputs
  latest : ∀ event,
    ((Coalescer.run events).step event).sent = (Coalescer.run events).sent ∨
      ∃ latest, (Coalescer.run events).phase = .sending latest ∧
        (Coalescer.run events).received.getLast? = some latest ∧
        ((Coalescer.run events).step event).sent =
          (Coalescer.run events).sent ++ [latest]
  last : .shutdown ∉ events → .closeOutput ∉ events →
    (Coalescer.run events).phase = .ended →
    (Coalescer.run events).inputClosed = true ∧
      (Coalescer.run events).sent.getLast? =
        (Coalescer.run events).inputs.getLast?

/-- For events of every type and for every order of what can happen. -/
theorem coalesced {ε : Type} (events : List (CoalesceEvent ε)) :
    Coalesced events := by
  have h := Coalescer.inv_run events
  refine ⟨?_, h.sends, ?_⟩
  · rw [h.inputs]
    exact h.sublist.trans (List.sublist_append_left _ _)
  · intro hs ho hended
    obtain ⟨hshutdown, houtput⟩ := Coalescer.run_flags hs ho
    obtain ⟨hclosed, hqueue, hlast⟩ :=
      (h.forwarded_of hended).2 hshutdown houtput
    rw [h.inputs, hqueue, List.append_nil]
    exact ⟨hclosed, hlast⟩

/-- The input is closed within a window, while an event waits. -/
def closesInWindow : List (CoalesceEvent Nat) :=
  [.arrive 1, .receive, .arrive 2, .closeInput]

/-- The task goes on to its end, and the last event has been sent. -/
theorem coalesced_sample :
    (Coalescer.run closesInWindow).phase = .window 1 ∧
    (Coalescer.run
      (closesInWindow ++ .send :: Coalescer.finish 1)).phase = .ended ∧
    (Coalescer.run
      (closesInWindow ++ .send :: Coalescer.finish 1)).sent.getLast? =
        some 2 := by
  have hended : (Coalescer.run
      (closesInWindow ++ .send :: Coalescer.finish 1)).phase = .ended := by
    rw [Coalescer.run, List.foldl_append]
    exact Coalescer.ends_of_closed (s := Coalescer.run closesInWindow)
      (by decide) rfl rfl
  exact ⟨rfl, hended, ((coalesced _).last (by decide) (by decide) hended).2⟩

end StratumServer
