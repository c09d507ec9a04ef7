import Mathlib.Algebra.BigOperators.Ring.Finset
import Mathlib.Algebra.Order.BigOperators.Group.Finset
import Mathlib.Algebra.Order.Floor.Ring
import Mathlib.Algebra.Order.Ring.Finset
import Mathlib.Data.List.Sort
import Mathlib.Tactic.Linarith

/-!
# The method of the largest remainders

Quotas that add up to a whole number are rounded so that the result adds up
to the same number.  Each quota is cut to a whole number first.  What is left
goes out one by one, to the largest fractions first; of equal fractions the
smaller index comes first.

There are five groups.

* What is left after the cut: no more than one unit for each fraction.
* The order in which the units go out.  `Ahead` is a strict total order, and
  `card_rank_lt` says that exactly `k` indices have a rank below `k`.
* The parts.  They add up (`sum_part`), and each is its quota rounded down or
  up (`part_eq_floor_or_ceil`).
* The parts without the order.  They are the one `Fair` rounding with
  the right sum (`eq_part_of_fair`).
* `part_mono`: an index whose quota grows while all the others shrink does
  not lose.
-/

namespace LargestRemainder

variable {ι K : Type} [Field K] [LinearOrder K] [FloorRing K] {s : Finset ι}
  {q q' : ι → K} {i j k : ι} {n : ℤ}

/-! ## The remainder -/

/-- What is left of `n` when every quota is cut. -/
def rest (s : Finset ι) (q : ι → K) (n : ℤ) : ℤ :=
  n - ∑ i ∈ s, ⌊q i⌋

/-- What is left is the sum of the fractions. -/
theorem cast_rest (h : ∑ i ∈ s, q i = n) :
    (rest s q n : K) = ∑ i ∈ s, Int.fract (q i) := by
  unfold rest Int.fract
  rw [Int.cast_sub, ← h, Int.cast_sum, Finset.sum_sub_distrib]

section Bounds

variable [IsStrictOrderedRing K]

theorem rest_nonneg (h : ∑ i ∈ s, q i = n) : 0 ≤ rest s q n := by
  have hsum : (0 : K) ≤ ∑ i ∈ s, Int.fract (q i) :=
    Finset.sum_nonneg fun i _ => Int.fract_nonneg (q i)
  rw [← cast_rest h] at hsum
  exact_mod_cast hsum

/-- What is left goes to indices with a fraction, and there are enough. -/
theorem rest_le_card_fract (h : ∑ i ∈ s, q i = n) :
    rest s q n ≤ (s.filter fun i => 0 < Int.fract (q i)).card := by
  have hle : (rest s q n : K) ≤
      ((s.filter fun i => 0 < Int.fract (q i)).card : K) := by
    rw [cast_rest h, Finset.card_filter, Nat.cast_sum]
    refine Finset.sum_le_sum fun i _ => ?_
    split
    · simpa using (Int.fract_lt_one (q i)).le
    · rename_i hfract
      simpa using not_lt.1 hfract
  exact_mod_cast hle

theorem rest_le_card (h : ∑ i ∈ s, q i = n) : rest s q n ≤ s.card := by
  refine (rest_le_card_fract h).trans ?_
  exact_mod_cast Finset.card_filter_le s _

end Bounds

/-! ## The order -/

variable [LinearOrder ι]

/-- `i` gets a unit before `j`. -/
def Ahead (q : ι → K) (i j : ι) : Prop :=
  Int.fract (q j) < Int.fract (q i) ∨
    Int.fract (q j) = Int.fract (q i) ∧ i < j

instance (q : ι → K) (i j : ι) : Decidable (Ahead q i j) :=
  inferInstanceAs (Decidable (_ ∨ _ ∧ _))

theorem Ahead.fract_le (h : Ahead q i j) :
    Int.fract (q j) ≤ Int.fract (q i) := by
  rcases h with hlt | ⟨heq, _⟩
  · exact hlt.le
  · exact heq.le

theorem not_ahead_self (i : ι) : ¬ Ahead q i i := by
  rintro (h | ⟨_, h⟩)
  · exact lt_irrefl _ h
  · exact lt_irrefl _ h

theorem Ahead.trans (hij : Ahead q i j) (hjk : Ahead q j k) :
    Ahead q i k := by
  rcases hij with hij | ⟨hij, hlt⟩
  · exact Or.inl (lt_of_le_of_lt hjk.fract_le hij)
  · rcases hjk with hjk | ⟨hjk, hlt'⟩
    · exact Or.inl (lt_of_lt_of_eq hjk hij)
    · exact Or.inr ⟨hjk.trans hij, hlt.trans hlt'⟩

theorem ahead_or_ahead (h : i ≠ j) : Ahead q i j ∨ Ahead q j i := by
  rcases lt_trichotomy (Int.fract (q i)) (Int.fract (q j)) with hlt | heq | hlt
  · exact Or.inr (Or.inl hlt)
  · rcases lt_or_gt_of_ne h with hij | hji
    · exact Or.inl (Or.inr ⟨heq.symm, hij⟩)
    · exact Or.inr (Or.inr ⟨heq, hji⟩)
  · exact Or.inl (Or.inl hlt)

/-- The number of indices that get a unit before `i`. -/
def rank (s : Finset ι) (q : ι → K) (i : ι) : ℕ :=
  (s.filter (Ahead q · i)).card

theorem rank_lt_rank (hi : i ∈ s) (h : Ahead q i j) :
    rank s q i < rank s q j := by
  refine Finset.card_lt_card (Finset.ssubset_iff_of_subset ?_ |>.2 ⟨i, ?_, ?_⟩)
  · intro k hk
    obtain ⟨hks, hki⟩ := Finset.mem_filter.1 hk
    exact Finset.mem_filter.2 ⟨hks, hki.trans h⟩
  · exact Finset.mem_filter.2 ⟨hi, h⟩
  · intro hmem
    exact not_ahead_self i (Finset.mem_filter.1 hmem).2

theorem ahead_of_rank_lt (hj : j ∈ s) (h : rank s q i < rank s q j) :
    Ahead q i j := by
  have hne : i ≠ j := by
    rintro rfl
    exact lt_irrefl _ h
  rcases ahead_or_ahead (q := q) hne with hij | hji
  · exact hij
  · exact absurd (rank_lt_rank hj hji) h.asymm

theorem rank_lt_card (hi : i ∈ s) : rank s q i < s.card := by
  refine Finset.card_lt_card (Finset.filter_ssubset.2 ⟨i, hi, ?_⟩)
  exact not_ahead_self i

theorem rank_injOn : Set.InjOn (rank s q) s := by
  intro i hi j hj heq
  by_contra hne
  rcases ahead_or_ahead (q := q) hne with hij | hji
  · exact absurd heq (rank_lt_rank hi hij).ne
  · exact absurd heq (rank_lt_rank hj hji).ne'

/-- The ranks are the numbers below the number of indices. -/
theorem image_rank : s.image (rank s q) = Finset.range s.card := by
  refine Finset.eq_of_subset_of_card_le ?_ ?_
  · intro r hr
    obtain ⟨i, hi, rfl⟩ := Finset.mem_image.1 hr
    exact Finset.mem_range.2 (rank_lt_card hi)
  · rw [Finset.card_range, Finset.card_image_of_injOn rank_injOn]

/-- As many indices as that have a rank below `m`. -/
theorem card_rank_lt {m : ℕ} (hm : m ≤ s.card) :
    (s.filter (rank s q · < m)).card = m := by
  have himage : (s.filter (rank s q · < m)).image (rank s q) =
      Finset.range m := by
    refine (Finset.filter_image (p := (· < m))).symm.trans ?_
    rw [image_rank]
    ext r
    simp only [Finset.mem_filter, Finset.mem_range]
    omega
  have hinj : Set.InjOn (rank s q) (s.filter (rank s q · < m)) :=
    rank_injOn.mono (Finset.coe_subset.2 (Finset.filter_subset _ _))
  rw [← Finset.card_image_of_injOn hinj, himage, Finset.card_range]

/-! ### Lists in this order -/

theorem pairwise_ahead_orderedInsert {l : List ι} (hl : l.Pairwise (Ahead q))
    (hi : ∀ j ∈ l, i < j) :
    (l.orderedInsert (fun i j => Int.fract (q j) ≤ Int.fract (q i)) i).Pairwise
      (Ahead q) := by
  induction l with
  | nil => exact List.pairwise_singleton _ _
  | cons j l ih =>
    obtain ⟨hj, hl⟩ := List.pairwise_cons.1 hl
    rw [List.orderedInsert_cons]
    split
    · rename_i hle
      have hij : Ahead q i j := by
        rcases hle.lt_or_eq with hlt | heq
        · exact Or.inl hlt
        · exact Or.inr ⟨heq, hi j List.mem_cons_self⟩
      refine List.pairwise_cons.2 ⟨fun k hk => ?_, List.pairwise_cons.2 ⟨hj, hl⟩⟩
      rcases List.mem_cons.1 hk with rfl | htail
      · exact hij
      · exact hij.trans (hj k htail)
    · rename_i hlt
      refine List.pairwise_cons.2 ⟨fun k hk => ?_,
        ih hl fun k hk => hi k (List.mem_cons_of_mem _ hk)⟩
      rcases (List.mem_orderedInsert _).1 hk with rfl | htail
      · exact Or.inl (not_le.1 hlt)
      · exact hj k htail

/-- A stable sort by the fractions puts indices that were in order into the
order in which the units go out. -/
theorem pairwise_ahead_insertionSort {l : List ι}
    (hl : l.Pairwise (· < ·)) :
    (l.insertionSort fun i j => Int.fract (q j) ≤ Int.fract (q i)).Pairwise
      (Ahead q) := by
  induction l with
  | nil => exact List.Pairwise.nil
  | cons i l ih =>
    obtain ⟨hi, hl⟩ := List.pairwise_cons.1 hl
    refine pairwise_ahead_orderedInsert (ih hl) fun j hj => hi j ?_
    exact (List.perm_insertionSort _ l).mem_iff.1 hj

/-- In such a list the rank of an index is its place. -/
theorem rank_of_getElem {l : List ι} (hl : l.Pairwise (Ahead q)) {m : ℕ}
    (hi : l[m]? = some i) : rank l.toFinset q i = m := by
  obtain ⟨hm, rfl⟩ := List.getElem?_eq_some_iff.1 hi
  have hnodup : l.Nodup := by
    refine hl.imp fun hij heq => ?_
    rw [heq] at hij
    exact not_ahead_self _ hij
  have hfilter : l.toFinset.filter (Ahead q · l[m]) = (l.take m).toFinset := by
    ext x
    rw [Finset.mem_filter, List.mem_toFinset, List.mem_toFinset,
      List.mem_take_iff_getElem]
    constructor
    · rintro ⟨hx, hahead⟩
      obtain ⟨j, hj, rfl⟩ := List.mem_iff_getElem.1 hx
      refine ⟨j, lt_min ?_ hj, rfl⟩
      by_contra hmj
      rcases (not_lt.1 hmj).lt_or_eq with hlt | rfl
      · have hback := List.pairwise_iff_getElem.1 hl m j hm hj hlt
        exact not_ahead_self _ (hahead.trans hback)
      · exact not_ahead_self _ hahead
    · rintro ⟨j, hj, rfl⟩
      have hjm : j < m := hj.trans_le (min_le_left _ _)
      exact ⟨List.getElem_mem _,
        List.pairwise_iff_getElem.1 hl j m (hjm.trans hm) hm hjm⟩
  unfold rank
  rw [hfilter, List.toFinset_card_of_nodup (hnodup.sublist (List.take_sublist _ _)),
    List.length_take_of_le hm.le]

/-! ## The parts -/

/-- The part of `i`: its quota cut to a whole number, and one of the units
that are left. -/
def part (s : Finset ι) (q : ι → K) (n : ℤ) (i : ι) : ℤ :=
  ⌊q i⌋ + if (rank s q i : ℤ) < rest s q n then 1 else 0

theorem part_of_rank_lt (h : (rank s q i : ℤ) < rest s q n) :
    part s q n i = ⌊q i⌋ + 1 := by
  rw [part, if_pos h]

theorem part_of_le_rank (h : rest s q n ≤ rank s q i) :
    part s q n i = ⌊q i⌋ := by
  rw [part, if_neg (not_lt.2 h), add_zero]

theorem part_cases (s : Finset ι) (q : ι → K) (n : ℤ) (i : ι) :
    (rank s q i : ℤ) < rest s q n ∧ part s q n i = ⌊q i⌋ + 1 ∨
      rest s q n ≤ rank s q i ∧ part s q n i = ⌊q i⌋ := by
  rcases lt_or_ge (rank s q i : ℤ) (rest s q n) with h | h
  · exact Or.inl ⟨h, part_of_rank_lt h⟩
  · exact Or.inr ⟨h, part_of_le_rank h⟩

theorem floor_le_part (s : Finset ι) (q : ι → K) (n : ℤ) (i : ι) :
    ⌊q i⌋ ≤ part s q n i := by
  rcases part_cases s q n i with ⟨_, h⟩ | ⟨_, h⟩ <;> omega

theorem part_congr (h : ∀ i ∈ s, q i = q' i) (hi : i ∈ s) :
    part s q n i = part s q' n i := by
  have hrank : rank s q i = rank s q' i := by
    refine congrArg Finset.card (Finset.filter_congr fun j hj => ?_)
    rw [Ahead, Ahead, h i hi, h j hj]
  have hrest : rest s q n = rest s q' n :=
    congrArg (n - ·) (Finset.sum_congr rfl fun j hj => congrArg _ (h j hj))
  rw [part, part, hrank, hrest, h i hi]

section Sums

variable [IsStrictOrderedRing K]

/-- As many indices as there are units left get one. -/
theorem card_roundedUp (h : ∑ i ∈ s, q i = n) :
    ((s.filter fun i => part s q n i = ⌊q i⌋ + 1).card : ℤ) = rest s q n := by
  obtain ⟨m, hm⟩ := Int.eq_ofNat_of_zero_le (rest_nonneg h)
  have hcard : m ≤ s.card := by
    have := rest_le_card h
    omega
  have hfilter : (s.filter fun i => part s q n i = ⌊q i⌋ + 1) =
      s.filter (rank s q · < m) := by
    refine Finset.filter_congr fun i _ => ?_
    rcases part_cases s q n i with ⟨hrank, hpart⟩ | ⟨hrank, hpart⟩
    · exact iff_of_true hpart (by omega)
    · exact iff_of_false (by omega) (by omega)
  rw [hfilter, card_rank_lt hcard, hm]

/-- The parts add up. -/
theorem sum_part (h : ∑ i ∈ s, q i = n) : ∑ i ∈ s, part s q n i = n := by
  have hsplit : ∀ i ∈ s, part s q n i =
      ⌊q i⌋ + if part s q n i = ⌊q i⌋ + 1 then 1 else 0 := by
    intro i _
    rcases part_cases s q n i with ⟨_, hpart⟩ | ⟨_, hpart⟩
    · rw [if_pos hpart, hpart]
    · rw [if_neg (by omega), hpart, add_zero]
  rw [Finset.sum_congr rfl hsplit, Finset.sum_add_distrib, Finset.sum_boole]
  have hcard := card_roundedUp h
  have hrest : rest s q n = n - ∑ i ∈ s, ⌊q i⌋ := rfl
  omega

/-- An index that gets one more unit has a fraction. -/
theorem fract_pos_of_rank_lt (h : ∑ i ∈ s, q i = n)
    (hrank : (rank s q i : ℤ) < rest s q n) : 0 < Int.fract (q i) := by
  by_contra hfract
  have hzero : Int.fract (q i) = 0 :=
    le_antisymm (not_lt.1 hfract) (Int.fract_nonneg _)
  -- All the indices with a fraction are served before `i`.
  have hsubset : (s.filter fun j => 0 < Int.fract (q j)) ⊆
      s.filter (Ahead q · i) := by
    intro j hj
    obtain ⟨hjs, hpos⟩ := Finset.mem_filter.1 hj
    refine Finset.mem_filter.2 ⟨hjs, Or.inl ?_⟩
    rw [hzero]
    exact hpos
  have hcard := Finset.card_le_card hsubset
  have hle := rest_le_card_fract h
  unfold rank at hrank
  omega

/-- The part of an index that gets one more unit is the quota rounded up. -/
theorem part_eq_ceil (h : ∑ i ∈ s, q i = n)
    (hrank : (rank s q i : ℤ) < rest s q n) : part s q n i = ⌈q i⌉ := by
  have hpos := fract_pos_of_rank_lt h hrank
  rw [part_of_rank_lt hrank, eq_comm, Int.ceil_eq_iff]
  have hfloor := Int.floor_add_fract (q i)
  have hlt := Int.fract_lt_one (q i)
  push_cast
  constructor <;> linarith

/-- Each part is its quota rounded down or up. -/
theorem part_eq_floor_or_ceil (h : ∑ i ∈ s, q i = n) (i : ι) :
    part s q n i = ⌊q i⌋ ∨ part s q n i = ⌈q i⌉ := by
  rcases part_cases s q n i with ⟨hrank, _⟩ | ⟨_, hpart⟩
  · exact Or.inr (part_eq_ceil h hrank)
  · exact Or.inl hpart

theorem part_le_ceil (h : ∑ i ∈ s, q i = n) (i : ι) :
    part s q n i ≤ ⌈q i⌉ := by
  rcases part_eq_floor_or_ceil h i with heq | heq
  · exact heq.le.trans (Int.floor_le_ceil _)
  · exact heq.le

/-- When a quota grows by at most `d`, its part grows by at most `d + 1`. -/
theorem part_le_part_add {d : ℤ} (h' : ∑ i ∈ s, q' i = n)
    (hq : q' i ≤ q i + d) : part s q' n i ≤ part s q n i + d + 1 := by
  have hceil : ⌈q' i⌉ ≤ ⌈q i⌉ + d := by
    rw [← Int.ceil_add_intCast]
    exact Int.ceil_mono hq
  have hround := Int.ceil_le_floor_add_one (q i)
  have hlow := floor_le_part s q n i
  have hhigh := part_le_ceil h' i
  omega

/-- When a quota grows by `d + 3` or more, its part grows by more than
`d + 1`. -/
theorem part_add_lt_part {d : ℤ} (h : ∑ i ∈ s, q i = n)
    (hq : q i + d + 3 ≤ q' i) : part s q n i + d + 1 < part s q' n i := by
  have hlow : (⌊q' i⌋ : K) ≤ part s q' n i := by
    exact_mod_cast floor_le_part s q' n i
  have hhigh : (part s q n i : K) ≤ ⌈q i⌉ := by
    exact_mod_cast part_le_ceil h i
  have hfloor := Int.sub_one_lt_floor (q' i)
  have hceil := Int.ceil_lt_add_one (q i)
  have hlt : (part s q n i : K) + d + 1 < part s q' n i := by linarith
  exact_mod_cast hlt

/-! ## Rounding without the order

The parts are the one rounding with the right sum in which no unit could be
moved to an index that misses more. -/

/-- Moving a unit from `i` to `j` does not bring `p` nearer to `q`. -/
def Fair (s : Finset ι) (q : ι → K) (p : ι → ℤ) : Prop :=
  ∀ i ∈ s, ∀ j ∈ s, q j - p j - (q i - p i) < 1 ∨
    q j - p j - (q i - p i) = 1 ∧ i < j

theorem fair_part (s : Finset ι) (q : ι → K) (n : ℤ) :
    Fair s q (part s q n) := by
  intro i hi j hj
  have hi₀ := Int.fract_nonneg (q i)
  have hj₀ := Int.fract_nonneg (q j)
  have hi₁ := Int.fract_lt_one (q i)
  have hj₁ := Int.fract_lt_one (q j)
  unfold Int.fract at hi₀ hj₀ hi₁ hj₁
  rcases part_cases s q n i with ⟨hri, hpi⟩ | ⟨hri, hpi⟩ <;>
    rcases part_cases s q n j with ⟨hrj, hpj⟩ | ⟨hrj, hpj⟩ <;>
    rw [hpi, hpj] <;> push_cast
  · exact Or.inl (by linarith)
  · -- Only `i` gets a unit, so it comes first.
    have hahead : Ahead q i j := ahead_of_rank_lt hj (by omega)
    unfold Ahead Int.fract at hahead
    rcases hahead with hlt | ⟨heq, hij⟩
    · exact Or.inl (by linarith)
    · exact Or.inr ⟨by linarith, hij⟩
  · exact Or.inl (by linarith)
  · exact Or.inl (by linarith)

theorem eq_part_of_fair {p : ι → ℤ} (h : ∑ i ∈ s, q i = n)
    (hp : ∑ i ∈ s, p i = n) (hb : Fair s q p) :
    ∀ i ∈ s, p i = part s q n i := by
  have hsum := sum_part h
  -- Two different roundings would differ in both directions.
  by_contra hne
  obtain ⟨i, hi, hlt⟩ : ∃ i ∈ s, p i < part s q n i := by
    by_contra hnone
    push Not at hne hnone
    obtain ⟨j, hj, hji⟩ := hne
    have hlt := Finset.sum_lt_sum hnone
      ⟨j, hj, lt_of_le_of_ne (hnone j hj) (Ne.symm hji)⟩
    omega
  obtain ⟨j, hj, hgt⟩ : ∃ j ∈ s, part s q n j < p j := by
    by_contra hnone
    push Not at hnone
    have hlt' := Finset.sum_lt_sum hnone ⟨i, hi, hlt⟩
    omega
  have hlt' : (p i : K) + 1 ≤ part s q n i := by exact_mod_cast hlt
  have hgt' : (part s q n j : K) + 1 ≤ p j := by exact_mod_cast hgt
  rcases fair_part s q n i hi j hj with hij | ⟨hij, hlt₁⟩ <;>
    rcases hb j hj i hi with hji | ⟨hji, hlt₂⟩
  · linarith
  · linarith
  · linarith
  · exact absurd hlt₁ hlt₂.asymm

/-! ## More for one -/

/-- An index that is served before another one, and after it when its own
quota has grown and the other one has shrunk, has passed a whole number. -/
theorem not_ahead_of_le (hi : q i ≤ q' i) (hfi : ⌊q' i⌋ = ⌊q i⌋)
    (hj : q' j ≤ q j) (hfj : ⌊q' j⌋ = ⌊q j⌋) (h : Ahead q i j) :
    ¬ Ahead q' j i := by
  intro h'
  have hfracti : Int.fract (q i) ≤ Int.fract (q' i) := by
    unfold Int.fract
    rw [hfi]
    linarith
  have hfractj : Int.fract (q' j) ≤ Int.fract (q j) := by
    unfold Int.fract
    rw [hfj]
    linarith
  rcases h with h | ⟨_, hij⟩
  · have := h'.fract_le
    linarith
  · rcases h' with h' | ⟨_, hji⟩
    · have := Ahead.fract_le (q := q) (i := i) (j := j) (Or.inr ⟨‹_›, hij⟩)
      linarith
    · exact absurd hij hji.asymm

theorem part_mono (h : ∑ k ∈ s, q k = n) (h' : ∑ k ∈ s, q' k = n)
    (hi : i ∈ s) (hup : q i ≤ q' i)
    (hdown : ∀ j ∈ s, j ≠ i → q' j ≤ q j) :
    part s q n i ≤ part s q' n i := by
  by_contra hlt
  have hlt := not_le.1 hlt
  -- What `i` loses, another index `j` gains.
  obtain ⟨j, hj, hji, hgain⟩ : ∃ j ∈ s, j ≠ i ∧ part s q n j < part s q' n j := by
    by_contra hnone
    have hle : ∀ j ∈ s, part s q' n j ≤ part s q n j := by
      intro j hj
      by_cases hji : j = i
      · rw [hji]
        exact hlt.le
      · exact not_lt.1 fun hgain => hnone ⟨j, hj, hji, hgain⟩
    have hsum := Finset.sum_lt_sum hle ⟨i, hi, hlt⟩
    rw [sum_part h, sum_part h'] at hsum
    exact lt_irrefl _ hsum
  have hfloori := Int.floor_le_floor hup
  have hfloorj := Int.floor_le_floor (hdown j hj hji)
  rcases part_cases s q n i with ⟨hri, hpi⟩ | ⟨hri, hpi⟩ <;>
    rcases part_cases s q' n i with ⟨hri', hpi'⟩ | ⟨hri', hpi'⟩ <;>
    rcases part_cases s q n j with ⟨hrj, hpj⟩ | ⟨hrj, hpj⟩ <;>
    rcases part_cases s q' n j with ⟨hrj', hpj'⟩ | ⟨hrj', hpj'⟩ <;>
    try omega
  -- Both floors are the same, so `i` is served first before and `j` after.
  have hahead : Ahead q i j := ahead_of_rank_lt hj (by omega)
  have hahead' : Ahead q' j i := ahead_of_rank_lt hi (by omega)
  exact not_ahead_of_le hup (by omega) (hdown j hj hji) (by omega) hahead
    hahead'

end Sums

end LargestRemainder
