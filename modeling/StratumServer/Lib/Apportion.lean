import Mathlib.Algebra.BigOperators.Group.List.Basic
import Mathlib.Algebra.Order.Floor.Ring
import Mathlib.Data.List.Sort
import Mathlib.Data.Rat.Floor
import Mathlib.Tactic.Ring

/-!
# Rounding the parts of a whole

A whole number is split in proportion to weights, and each part is cut to a
whole number.  `remainder_nonneg` and `remainder_le_length` say that what is
left is enough for at most one more unit for each part.

The rest is about lists whose elements have a key.  A list in the strict
order of the key is determined by its elements (`eq_of_strictly_sorted`), and
a list that is taken apart by the key has lost nothing
(`flatMap_filter_perm`).  Two lists that are related element by element stay
so when they are sorted (`forall₂_insertionSort`).
-/

namespace Apportion

/-- The parts of `total` in proportion to the weights. -/
theorem sum_parts {K : Type} [Field K] {weights : List K} (total : K)
    (h : weights.sum ≠ 0) :
    (weights.map fun w => w / weights.sum * total).sum = total := by
  have hparts : ∀ (l : List K) (s : K),
      (l.map fun w => w / s * total).sum = l.sum / s * total := by
    intro l s
    induction l with
    | nil => simp
    | cons w l ih =>
      simp only [List.map_cons, List.sum_cons, ih]
      ring
  rw [hparts, div_self h, one_mul]

section Rounding

variable {K : Type} [Field K] [LinearOrder K] [IsStrictOrderedRing K]
  [FloorRing K]

theorem sum_floor_le (xs : List K) :
    (((xs.map Int.floor).sum : ℤ) : K) ≤ xs.sum := by
  induction xs with
  | nil => simp
  | cons x xs ih =>
    simp only [List.map_cons, List.sum_cons, Int.cast_add]
    exact add_le_add (Int.floor_le x) ih

theorem sum_le_floor_add_length (xs : List K) :
    xs.sum ≤ (((xs.map Int.floor).sum + xs.length : ℤ) : K) := by
  induction xs with
  | nil => simp
  | cons x xs ih =>
    have hx : x ≤ (⌊x⌋ : K) + 1 := (Int.lt_floor_add_one x).le
    have hsum := add_le_add hx ih
    push_cast [List.map_cons, List.sum_cons, List.length_cons] at hsum ⊢
    linarith

variable {xs : List K} {n : ℤ}

/-- Parts that add up to less than one unit more than the whole do not exceed
it once they are cut. -/
theorem remainder_nonneg_of_lt (h : xs.sum < n + 1) :
    0 ≤ n - (xs.map Int.floor).sum := by
  have hlt : (((xs.map Int.floor).sum : ℤ) : K) < ((n + 1 : ℤ) : K) := by
    rw [Int.cast_add, Int.cast_one]
    exact lt_of_le_of_lt (sum_floor_le xs) h
  have := Int.cast_lt.1 hlt
  omega

/-- Parts that add up to less than one unit less than the whole leave at most
one unit for each. -/
theorem remainder_le_length_of_lt (h : (n : K) - 1 < xs.sum) :
    n - (xs.map Int.floor).sum ≤ xs.length := by
  have hlt : ((n - 1 : ℤ) : K) < (((xs.map Int.floor).sum + xs.length : ℤ) : K) := by
    rw [Int.cast_sub, Int.cast_one]
    exact lt_of_lt_of_le h (sum_le_floor_add_length xs)
  have := Int.cast_lt.1 hlt
  omega

/-- Numbers that differ by less than one, cut to whole numbers. -/
theorem abs_floor_sub_le {x y : K} (h : |y - x| < 1) : |⌊y⌋ - ⌊x⌋| ≤ 1 := by
  obtain ⟨hyx, hxy⟩ := abs_sub_lt_iff.1 h
  have hle : ⌊y⌋ ≤ ⌊x⌋ + 1 := by
    rw [← Int.floor_add_one]
    exact Int.floor_le_floor (by linarith)
  have hge : ⌊x⌋ ≤ ⌊y⌋ + 1 := by
    rw [← Int.floor_add_one]
    exact Int.floor_le_floor (by linarith)
  rw [abs_le]
  omega

/-- The parts that were cut do not exceed the whole. -/
theorem remainder_nonneg (h : xs.sum = n) :
    0 ≤ n - (xs.map Int.floor).sum := by
  have hle := sum_floor_le xs
  rw [h] at hle
  have := Int.cast_le.1 hle
  omega

/-- What is left is at most one unit for each part. -/
theorem remainder_le_length (h : xs.sum = n) :
    n - (xs.map Int.floor).sum ≤ xs.length := by
  have hle := sum_le_floor_add_length xs
  rw [h] at hle
  have := Int.cast_le.1 hle
  omega

end Rounding

/-- Lists that are in the strict order of a key and have the same elements
are equal. -/
theorem eq_of_strictly_sorted {α κ : Type} [LinearOrder κ] {key : α → κ}
    {l l' : List α} (h : l.Pairwise fun a b => key a < key b)
    (h' : l'.Pairwise fun a b => key a < key b)
    (hmem : ∀ a, a ∈ l ↔ a ∈ l') : l = l' := by
  have hirrefl : Std.Irrefl fun a b : α => key a < key b :=
    ⟨fun a => lt_irrefl (key a)⟩
  have hantisymm : Std.Antisymm fun a b : α => key a < key b :=
    ⟨fun a b hab hba => absurd hba hab.asymm⟩
  exact h.eq_of_mem_iff h' hmem

/-- A list taken apart by a key. -/
theorem flatMap_filter_perm {α κ : Type} [DecidableEq κ] {key : α → κ}
    {keys : List κ} {l : List α} (hnodup : keys.Nodup)
    (hmem : ∀ a ∈ l, key a ∈ keys) :
    (keys.flatMap fun k => l.filter fun a => key a == k).Perm l := by
  induction keys generalizing l with
  | nil =>
    have hnil : l = [] := List.eq_nil_iff_forall_not_mem.2 fun a ha => by
      cases hmem a ha
    rw [hnil]
    exact List.Perm.refl _
  | cons k keys ih =>
    obtain ⟨hk, hnodup'⟩ := List.nodup_cons.1 hnodup
    -- What is left after `k` has the other keys, and loses nothing to them.
    have hrest : (keys.flatMap fun k' => l.filter fun a => key a == k') =
        keys.flatMap fun k' => (l.filter fun a => !(key a == k)).filter
          fun a => key a == k' := by
      refine List.flatMap_congr fun k' hk' => ?_
      rw [List.filter_filter]
      refine List.filter_congr fun a _ => ?_
      by_cases heq : key a = k'
      · have hne : k' ≠ k := fun h => hk (h ▸ hk')
        simp [heq, hne]
      · simp [heq]
    rw [List.flatMap_cons, hrest]
    refine List.Perm.trans (List.Perm.append_left _ (ih hnodup' ?_))
      (List.filter_append_perm _ l)
    intro a ha
    obtain ⟨hal, hne⟩ := List.mem_filter.1 ha
    rcases List.mem_cons.1 (hmem a hal) with heq | htail
    · simp [heq] at hne
    · exact htail

section Related

variable {α β κ : Type} {R : α → β → Prop} {l : List α} {l' : List β}

theorem exists_related (h : List.Forall₂ R l l') {b : β} (hb : b ∈ l') :
    ∃ a ∈ l, R a b := by
  induction h with
  | nil => cases hb
  | cons hab _ ih =>
    rcases List.mem_cons.1 hb with rfl | htail
    · exact ⟨_, List.mem_cons_self, hab⟩
    · obtain ⟨a, ha, hR⟩ := ih htail
      exact ⟨a, List.mem_cons_of_mem _ ha, hR⟩

/-- Lists with the same keys, whose elements are related when they have the
same key. -/
theorem forall₂_of_keys (key : α → κ) (key' : β → κ)
    (hkeys : l.map key = l'.map key')
    (hR : ∀ a ∈ l, ∀ b ∈ l', key a = key' b → R a b) :
    List.Forall₂ R l l' := by
  induction l generalizing l' with
  | nil =>
    rw [List.map_nil, eq_comm, List.map_eq_nil_iff] at hkeys
    subst hkeys
    exact .nil
  | cons a l ih =>
    cases l' with
    | nil => cases hkeys
    | cons b l' =>
      rw [List.map_cons, List.map_cons, List.cons.injEq] at hkeys
      refine .cons (hR a List.mem_cons_self b List.mem_cons_self hkeys.1)
        (ih hkeys.2 fun a ha b hb => ?_)
      exact hR a (List.mem_cons_of_mem _ ha) b (List.mem_cons_of_mem _ hb)

variable {r : α → α → Prop} {s : β → β → Prop} [DecidableRel r]
  [DecidableRel s] (hrs : ∀ a b a' b', R a b → R a' b' → (r a a' ↔ s b b'))

include hrs

theorem forall₂_orderedInsert {a : α} {b : β} (hab : R a b)
    (h : List.Forall₂ R l l') :
    List.Forall₂ R (l.orderedInsert r a) (l'.orderedInsert s b) := by
  induction h with
  | nil => exact .cons hab .nil
  | @cons a' b' l l' hab' h ih =>
    rw [List.orderedInsert_cons, List.orderedInsert_cons]
    by_cases hr : r a a'
    · rw [if_pos hr, if_pos ((hrs _ _ _ _ hab hab').1 hr)]
      exact .cons hab (.cons hab' h)
    · rw [if_neg hr, if_neg fun hs => hr ((hrs _ _ _ _ hab hab').2 hs)]
      exact .cons hab' ih

/-- Sorting both lists keeps their elements together. -/
theorem forall₂_insertionSort (h : List.Forall₂ R l l') :
    List.Forall₂ R (l.insertionSort r) (l'.insertionSort s) := by
  induction h with
  | nil => exact .nil
  | cons hab _ ih => exact forall₂_orderedInsert hrs hab ih

end Related

end Apportion
