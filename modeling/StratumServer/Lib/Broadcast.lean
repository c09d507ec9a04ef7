import Mathlib.Data.List.Basic

/-!
# Broadcast channels

A channel that many receivers read, each at its own pace.  `Channels` is an
implementation together with what such channels promise, and nothing is said
of how they keep it.

The laws speak of a history: `sent` is the list of all values that were ever
sent on a channel, and `next` is the position in it of the value that a
receiver gets next.  A receiver starts at the end of this list, and it goes
through the list value by value.  A receiver that has fallen behind is told
how many values are lost and goes on with the oldest value that is left, so
after that there is something to receive.

`queue` is an implementation that keeps the history itself.
-/

namespace Broadcast

/-- The answer to one poll of a receiver. -/
inductive Received (α : Type)
  | value (a : α)
  /-- So many values were overwritten before they could be received. -/
  | lagged (missed : Nat)
  | empty
  deriving DecidableEq, Repr

/-- Broadcast channels for values of a type. -/
structure Channels (α : Type) where
  Channel : Type
  Receiver : Type
  /-- A channel that has room for so many values. -/
  new : Nat → Channel
  send : Channel → α → Channel
  subscribe : Channel → Receiver
  recv : Channel → Receiver → Received α × Receiver
  sent : Channel → List α
  next : Receiver → Nat
  sent_new : ∀ capacity, sent (new capacity) = []
  sent_send : ∀ c a, sent (send c a) = sent c ++ [a]
  next_subscribe : ∀ c, next (subscribe c) = (sent c).length
  recv_value : ∀ {c r a r'}, recv c r = (.value a, r') →
    (sent c)[next r]? = some a ∧ next r' = next r + 1
  recv_lagged : ∀ {c r missed r'}, recv c r = (.lagged missed, r') →
    next r' = next r + missed ∧ next r' < (sent c).length
  recv_empty : ∀ {c r r'}, recv c r = (.empty, r') →
    (sent c).length ≤ next r ∧ next r' = next r

attribute [simp] Channels.sent_new Channels.sent_send Channels.next_subscribe

namespace Channels

variable {α : Type} (B : Channels α)

/-- The values that a receiver has not got yet. -/
def waiting (c : B.Channel) (r : B.Receiver) : Nat :=
  (B.sent c).length - B.next r

variable {B}

/-- A receiver does not go back, and it does not run ahead of its channel. -/
theorem next_of_recv {c : B.Channel} {r r' : B.Receiver} {answer : Received α}
    (h : B.recv c r = (answer, r')) (hle : B.next r ≤ (B.sent c).length) :
    B.next r ≤ B.next r' ∧ B.next r' ≤ (B.sent c).length := by
  cases answer with
  | value a =>
    obtain ⟨ha, hnext⟩ := B.recv_value h
    have hlt := (List.getElem?_eq_some_iff.1 ha).1
    omega
  | lagged missed =>
    obtain ⟨hnext, hlt⟩ := B.recv_lagged h
    omega
  | empty =>
    obtain ⟨_, hnext⟩ := B.recv_empty h
    omega

/-- The value that empties the channel is the last one. -/
theorem getLast?_of_recv {c : B.Channel} {r r' : B.Receiver} {a : α}
    (h : B.recv c r = (.value a, r')) (hwaiting : B.waiting c r' = 0) :
    (B.sent c).getLast? = some a := by
  obtain ⟨ha, hnext⟩ := B.recv_value h
  have hlt := (List.getElem?_eq_some_iff.1 ha).1
  have hlast : (B.sent c).length - 1 = B.next r := by
    rw [waiting] at hwaiting
    omega
  rw [List.getLast?_eq_getElem?, hlast, ha]

end Channels

/-! ## An implementation -/

/-- All values that were ever sent, and how many of them are kept. -/
structure Queue (α : Type) where
  capacity : Nat
  capacity_pos : 0 < capacity
  sent : List α

/-- Channels that keep all values, and let a receiver have the last ones. -/
def queue (α : Type) : Channels α where
  Channel := Queue α
  Receiver := Nat
  new capacity := ⟨max capacity 1, by omega, []⟩
  send c a := { c with sent := c.sent ++ [a] }
  subscribe c := c.sent.length
  recv c r :=
    let missed := c.sent.length - r - c.capacity
    if 0 < missed then (.lagged missed, r + missed)
    else
      match c.sent[r]? with
      | some a => (.value a, r + 1)
      | none => (.empty, r)
  sent := Queue.sent
  next r := r
  sent_new _ := rfl
  sent_send _ _ := rfl
  next_subscribe _ := rfl
  recv_value := by
    intro c r a r' h
    dsimp only at h
    split at h
    · cases h
    · split at h
      · rename_i ha
        cases h
        exact ⟨ha, rfl⟩
      · cases h
  recv_lagged := by
    intro c r missed r' h
    dsimp only at h
    have hpos := c.capacity_pos
    split at h
    · cases h
      exact ⟨rfl, by omega⟩
    · split at h <;> cases h
  recv_empty := by
    intro c r r' h
    dsimp only at h
    split at h
    · cases h
    · split at h
      · cases h
      · rename_i hnone
        cases h
        exact ⟨List.getElem?_eq_none_iff.1 hnone, rfl⟩

end Broadcast
