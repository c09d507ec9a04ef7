import Mathlib.Data.List.DropRight

/-!
# The last entries of a history

A history is a list of entries with keys, the oldest entry first.  A program
that keeps only a part of it is compared with the history itself.

* The queue.  `push n` appends an entry and lets go of the oldest one when
  there are `n`.  `push_rtake` says that the queue holds the last `n` entries
  of the history.
* The ends.  A search from the front of a list finds the oldest entry of a
  key, one from the back the newest.  `EndsAgree` says for a list that this
  makes no difference.
* The survivors.  `survivor n` is a map from keys to entries beside such a
  queue: an entry that leaves the queue takes its key out of the map, with
  whatever the map holds for that key.  `survivor_newest_iff` says when the
  newest entries are all there, and `survivor_none` that no key outside of
  the queue is.
-/

namespace Recent

variable {α κ : Type}

/-! ## The queue -/

/-- Appends an entry to a queue of at most `n`. -/
def push (n : Nat) (queue : List α) (a : α) : List α :=
  (if n ≤ queue.length then queue.tail else queue) ++ [a]

theorem length_rtake (l : List α) (n : Nat) :
    (l.rtake n).length = min n l.length := by
  rw [List.rtake, List.length_drop]
  omega

/-- A queue that holds the last entries of a history still does so when the
history goes on. -/
theorem push_rtake {n : Nat} (hn : 0 < n) (l : List α) (a : α) :
    push n (l.rtake n) a = (l ++ [a]).rtake n := by
  obtain ⟨n, rfl⟩ := Nat.exists_eq_succ_of_ne_zero hn.ne'
  rw [List.rtake_concat_succ, push, length_rtake]
  congr 1
  unfold List.rtake
  split
  · rw [List.tail_drop]
    congr 1
    omega
  · have hshort : l.length ≤ n := by omega
    rw [Nat.sub_eq_zero_of_le hshort, Nat.sub_eq_zero_of_le (by omega)]

/-- A queue that is cut after the entry has been appended. -/
theorem rtake_rtake_concat {n : Nat} (hn : 0 < n) (l : List α) (a : α) :
    (l.rtake n ++ [a]).rtake n = (l ++ [a]).rtake n := by
  obtain ⟨n, rfl⟩ := Nat.exists_eq_succ_of_ne_zero hn.ne'
  rw [List.rtake_concat_succ, List.rtake_concat_succ,
    List.rtake_eq_reverse_take_reverse, List.rtake_eq_reverse_take_reverse,
    List.reverse_reverse, List.take_take, Nat.min_eq_left (Nat.le_succ n),
    List.rtake_eq_reverse_take_reverse]

/-- What the cut takes away is the entry `n` places before the new one. -/
theorem take_rtake_concat {n : Nat} (hn : 0 < n) (l : List α) (a : α) :
    (l.rtake n ++ [a]).take ((l.rtake n ++ [a]).length - n) =
      l.reverse[n - 1]?.toList := by
  rw [List.length_append, List.length_singleton, length_rtake]
  rcases Nat.lt_or_ge l.length n with hshort | hlong
  · rw [List.getElem?_eq_none (by rw [List.length_reverse]; omega),
      Nat.min_eq_right (by omega), Nat.sub_eq_zero_of_le (by omega)]
    rfl
  · have hlt : l.length - n < l.length := by omega
    rw [Nat.min_eq_left hlong, Nat.add_sub_cancel_left, List.rtake,
      List.drop_eq_getElem_cons hlt, List.getElem?_reverse (by omega),
      show l.length - 1 - (n - 1) = l.length - n by omega,
      List.getElem?_eq_getElem hlt]
    rfl

/-! ## Keys -/

section Keys

variable {key : α → κ}

/-- The keys of the last `n` entries, read from the newest one. -/
theorem mem_rtake_keys {n : Nat} {k : κ} {l : List α} :
    k ∈ (l.rtake n).map key ↔ ∃ c ∈ l.reverse.take n, key c = k := by
  rw [List.rtake_eq_reverse_take_reverse, List.map_reverse, List.mem_reverse,
    List.mem_map]

/-- An entry found at a place counted from the end. -/
theorem getElem?_reverse_key_iff {j : Nat} {k : κ} {l : List α} :
    l.reverse[j]?.map key = some k ↔
      ∃ before a mid, l = before ++ a :: mid ∧ mid.length = j ∧ key a = k := by
  constructor
  · intro h
    obtain ⟨a, ha, hkey⟩ := Option.map_eq_some_iff.1 h
    obtain ⟨hj, rfl⟩ := List.getElem?_eq_some_iff.1 ha
    refine ⟨(l.reverse.drop (j + 1)).reverse, l.reverse[j],
      (l.reverse.take j).reverse, ?_, ?_, hkey⟩
    · have hsplit := List.take_append_drop j l.reverse
      rw [List.drop_eq_getElem_cons hj] at hsplit
      conv_lhs => rw [← List.reverse_reverse l, ← hsplit]
      simp
    · rw [List.length_reverse, List.length_take]
      omega
  · rintro ⟨before, a, mid, rfl, rfl, rfl⟩
    have hreverse : (before ++ a :: mid).reverse =
        mid.reverse ++ a :: before.reverse := by simp
    rw [hreverse, List.getElem?_append_right (by rw [List.length_reverse]),
      List.length_reverse, Nat.sub_self]
    rfl

/-- Two entries of a list in which no key occurs twice. -/
theorem nodup_keys_ne {before mid after : List α} {a b : α}
    (h : ((before ++ a :: (mid ++ b :: after)).map key).Nodup) : key a ≠ key b := by
  intro hkey
  rw [List.map_append, List.map_cons] at h
  have htail := (List.nodup_append.1 h).2.1
  refine absurd ?_ (List.nodup_cons.1 htail).1
  rw [hkey]
  exact List.mem_map_of_mem (List.mem_append_right _ List.mem_cons_self)

end Keys

/-! ## The ends -/

section Ends

variable [DecidableEq κ] (key : α → κ)

/-- The oldest and the newest entry of each key are the same. -/
def EndsAgree (l : List α) : Prop :=
  ∀ before a mid b after, l = before ++ a :: (mid ++ b :: after) →
    key a = key b → (∀ c ∈ before, key c ≠ key a) →
    (∀ c ∈ after, key c ≠ key a) → a = b

variable {key}

/-- What a search for a key finds. -/
theorem find?_key_iff {k : κ} {l : List α} {a : α} :
    l.find? (key · == k) = some a ↔ ∃ before after,
      l = before ++ a :: after ∧ key a = k ∧ ∀ c ∈ before, key c ≠ k := by
  rw [List.find?_eq_some_iff_append]
  simp only [beq_iff_eq, Bool.not_eq_eq_eq_not, Bool.not_true,
    beq_eq_false_iff_ne]
  constructor
  · rintro ⟨hkey, before, after, hl, hbefore⟩
    exact ⟨before, after, hl, hkey, hbefore⟩
  · rintro ⟨before, after, hl, hkey, hbefore⟩
    exact ⟨hkey, before, after, hl, hbefore⟩

/-- What a search from the back finds. -/
theorem find?_reverse_key_iff {k : κ} {l : List α} {b : α} :
    l.reverse.find? (key · == k) = some b ↔ ∃ before after,
      l = before ++ b :: after ∧ key b = k ∧ ∀ c ∈ after, key c ≠ k := by
  rw [find?_key_iff]
  constructor
  · rintro ⟨before, after, hl, hkey, hbefore⟩
    refine ⟨after.reverse, before.reverse, ?_, hkey, fun c hc =>
      hbefore c (List.mem_reverse.1 hc)⟩
    rw [← List.reverse_reverse l, hl]
    simp
  · rintro ⟨before, after, rfl, hkey, hafter⟩
    exact ⟨after.reverse, before.reverse, by simp, hkey, fun c hc =>
      hafter c (List.mem_reverse.1 hc)⟩

/-- Searches from both sides find the same exactly if the ends agree. -/
theorem find?_eq_find?_reverse_iff {l : List α} :
    (∀ k, l.find? (key · == k) = l.reverse.find? (key · == k)) ↔
      EndsAgree key l := by
  constructor
  · intro h before a mid b after hl hkey hbefore hafter
    have hfirst : l.find? (key · == key a) = some a :=
      find?_key_iff.2 ⟨before, _, hl, rfl, hbefore⟩
    have hlast : l.reverse.find? (key · == key a) = some b :=
      find?_reverse_key_iff.2 ⟨before ++ a :: mid, after, by simp [hl],
        hkey.symm, hafter⟩
    rw [h, hlast] at hfirst
    exact (Option.some.inj hfirst).symm
  · intro h k
    cases hfirst : l.find? (key · == k) with
    | none =>
      symm
      rw [List.find?_eq_none] at hfirst ⊢
      exact fun c hc => hfirst c (List.mem_reverse.1 hc)
    | some a =>
      obtain ⟨before, after, hl, rfl, hbefore⟩ := find?_key_iff.1 hfirst
      symm
      rw [find?_reverse_key_iff]
      -- Either `a` is the newest entry too, or the newest one comes later.
      cases hlater : after.reverse.find? (key · == key a) with
      | none =>
        refine ⟨before, after, hl, rfl, fun c hc => ?_⟩
        have hc' := List.find?_eq_none.1 hlater c (List.mem_reverse.2 hc)
        simpa using hc'
      | some b =>
        obtain ⟨mid, rest, rfl, hkey, hrest⟩ := find?_reverse_key_iff.1 hlater
        have hab : a = b := h before a mid b rest hl hkey.symm hbefore hrest
        exact ⟨before ++ a :: mid, rest, by simp [hl, hab], rfl, hrest⟩

omit [DecidableEq κ] in
/-- The ends agree if no key occurs twice. -/
theorem endsAgree_of_nodup {l : List α} (h : (l.map key).Nodup) :
    EndsAgree key l := by
  rintro before a mid b after rfl hkey _ _
  exact absurd hkey (nodup_keys_ne h)

end Ends

/-! ## The survivors -/

section Survivors

variable [DecidableEq κ] {key : α → κ}

/-- What the map holds for `k` after a history, which is given with the
newest entry first.  An entry that comes in pushes out the one `n` places
before it. -/
def survivor (n : Nat) (key : α → κ) (k : κ) : List α → Option α
  | [] => none
  | a :: h =>
    if key a = k then some a
    else if h[n - 1]?.map key = some k then none
    else survivor n key k h

/-- A key that is not among the last `n` entries has left the map. -/
theorem survivor_none {n : Nat} (hn : 0 < n) {k : κ} {h : List α}
    (hk : ∀ c ∈ h.take n, key c ≠ k) : survivor n key k h = none := by
  induction h with
  | nil => rfl
  | cons a h ih =>
    obtain ⟨n, rfl⟩ := Nat.exists_eq_succ_of_ne_zero hn.ne'
    rw [List.take_succ_cons] at hk
    rw [survivor, if_neg (hk a List.mem_cons_self)]
    split
    · rfl
    · rename_i hout
      apply ih
      intro c hc hck
      rw [List.take_add_one, Nat.succ_sub_one] at *
      rcases List.mem_append.1 hc with hold | hlast
      · exact hk c (List.mem_cons_of_mem _ hold) hck
      · rw [Option.mem_toList] at hlast
        rw [hlast, Option.map_some, hck] at hout
        exact hout rfl

/-- The newest entry of a key is in the map unless an older one of the same
key has left the queue since. -/
theorem survivor_eq {n : Nat} {k : κ} {after : List α} {b : α}
    (rest : List α) (hkey : key b = k) (hafter : ∀ c ∈ after, key c ≠ k)
    (hlength : after.length < n) :
    survivor n key k (after ++ b :: rest) =
      if ∃ i < after.length, rest[n - 2 - i]?.map key = some k then none
      else some b := by
  induction after with
  | nil => simp [survivor, hkey]
  | cons x after ih =>
    rw [List.length_cons] at hlength
    have hindex : (after ++ b :: rest)[n - 1]? = rest[n - 2 - after.length]? := by
      rw [List.getElem?_append_right (by omega),
        show n - 1 - after.length = n - 2 - after.length + 1 by omega,
        List.getElem?_cons_succ]
    rw [List.cons_append, survivor, if_neg (hafter x List.mem_cons_self),
      hindex, ih (fun c hc => hafter c (List.mem_cons_of_mem _ hc)) (by omega)]
    simp only [List.length_cons, Nat.lt_succ_iff_lt_or_eq, or_and_right,
      exists_or, exists_eq_left]
    by_cases hout : rest[n - 2 - after.length]?.map key = some k
    · rw [if_pos hout, if_pos (Or.inr hout)]
    · rw [if_neg hout]
      simp only [hout, or_false]

/-- The newest entry with the key of one of the last `n`. -/
theorem mem_rtake_keys_iff_newest {n : Nat} {k : κ} {l : List α} :
    k ∈ (l.rtake n).map key ↔ ∃ before b after, l = before ++ b :: after ∧
      key b = k ∧ (∀ c ∈ after, key c ≠ k) ∧ after.length < n := by
  rw [mem_rtake_keys]
  constructor
  · rintro ⟨c, hc, hkc⟩
    obtain ⟨b, hb⟩ := Option.isSome_iff_exists.1
      (List.find?_isSome.2 ⟨c, hc, beq_iff_eq.2 hkc⟩ :
        ((l.reverse.take n).find? (key · == k)).isSome)
    obtain ⟨newer, older, htake, hkey, hnewer⟩ := find?_key_iff.1 hb
    have hlength := congrArg List.length htake
    rw [List.length_take, List.length_append, List.length_cons] at hlength
    refine ⟨(older ++ l.reverse.drop n).reverse, b, newer.reverse, ?_, hkey,
      fun c hc => hnewer c (List.mem_reverse.1 hc), ?_⟩
    · have hsplit := List.take_append_drop n l.reverse
      rw [htake] at hsplit
      conv_lhs => rw [← List.reverse_reverse l, ← hsplit]
      simp
    · rw [List.length_reverse]
      omega
  · rintro ⟨before, b, after, rfl, hkey, -, hlength⟩
    refine ⟨b, List.mem_of_getElem? (i := after.length) ?_, hkey⟩
    rw [List.getElem?_take_of_lt hlength]
    simp

/-- An entry `a` that has left the queue was out before the newest entry `b`
of its key came in. -/
def LeavesAlone (key : α → κ) (n : Nat) (l : List α) : Prop :=
  ∀ before a mid b after, l = before ++ a :: (mid ++ b :: after) →
    key a = key b → (∀ c ∈ after, key c ≠ key b) → after.length < n →
    n ≤ mid.length + 1 + after.length → n ≤ mid.length + 1

omit [DecidableEq κ] in
/-- It was if no key occurs twice. -/
theorem leavesAlone_of_nodup {n : Nat} {l : List α} (h : (l.map key).Nodup) :
    LeavesAlone key n l := by
  rintro before a mid b after rfl hkey _ _ _
  exact absurd hkey (nodup_keys_ne h)

/-- The map has the newest entry of each key in the queue exactly if no entry
takes a newer one of its key along when it leaves. -/
theorem survivor_newest_iff {n : Nat} {l : List α} :
    (∀ k ∈ (l.rtake n).map key,
      survivor n key k l.reverse = l.reverse.find? (key · == k)) ↔
      LeavesAlone key n l := by
  constructor
  · rintro h before a mid b after rfl hkey hafter hlength hleft
    by_contra hlate
    have hsplit : before ++ a :: (mid ++ b :: after) =
        (before ++ a :: mid) ++ b :: after := by simp
    have hreverse : (before ++ a :: (mid ++ b :: after)).reverse =
        after.reverse ++ b :: (before ++ a :: mid).reverse := by simp
    have hmap := h (key b) (mem_rtake_keys_iff_newest.2
      ⟨before ++ a :: mid, b, after, hsplit, rfl, hafter, hlength⟩)
    rw [find?_reverse_key_iff.2 ⟨before ++ a :: mid, after, hsplit, rfl, hafter⟩,
      hreverse, survivor_eq _ rfl
        (fun c hc => hafter c (List.mem_reverse.1 hc))
        (by rw [List.length_reverse]; exact hlength), if_pos] at hmap
    · cases hmap
    · rw [List.length_reverse]
      exact ⟨n - 2 - mid.length, by omega, getElem?_reverse_key_iff.2
        ⟨before, a, mid, rfl, by omega, hkey⟩⟩
  · intro h k hk
    obtain ⟨before, b, after, rfl, rfl, hafter, hlength⟩ :=
      mem_rtake_keys_iff_newest.1 hk
    have hreverse : (before ++ b :: after).reverse =
        after.reverse ++ b :: before.reverse := by simp
    rw [find?_reverse_key_iff.2 ⟨before, after, rfl, rfl, hafter⟩, hreverse,
      survivor_eq _ rfl (fun c hc => hafter c (List.mem_reverse.1 hc))
        (by rw [List.length_reverse]; exact hlength), if_neg]
    rintro ⟨i, hi, hout⟩
    rw [List.length_reverse] at hi
    obtain ⟨front, a, mid, rfl, hmid, hkey⟩ := getElem?_reverse_key_iff.1 hout
    have hgone := h front a mid b after (by simp) hkey hafter hlength (by omega)
    omega

end Survivors

end Recent
