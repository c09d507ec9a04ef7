import Mathlib.Data.List.Basic

/-!
# Texts with separators

A text that is put together from parts with a separator between them can be
taken apart again when the parts do not contain the separator.  `sep_inj`
cuts off the first part, and `repr_sep_inj` and `int_sep_inj` do so for a
number, whose digits contain no separator.

`intercalate_inj` takes all parts at once, and it asks for less: if the parts
of one text contain no separator, those of another text with as many parts
contain none either, because the two texts have equally many separators.
-/

namespace Text

/-- The part in front of the first separator is determined. -/
theorem append_sep_inj {α : Type} {c : α} {l₁ l₂ r₁ r₂ : List α}
    (h₁ : c ∉ l₁) (h₂ : c ∉ l₂) (h : l₁ ++ c :: r₁ = l₂ ++ c :: r₂) :
    l₁ = l₂ ∧ r₁ = r₂ := by
  induction l₁ generalizing l₂ with
  | nil =>
    cases l₂ with
    | nil => exact ⟨rfl, (List.cons.inj h).2⟩
    | cons b l₂ =>
      have hb : c = b := (List.cons.inj h).1
      exact absurd (hb ▸ List.mem_cons_self) h₂
  | cons a l₁ ih =>
    cases l₂ with
    | nil =>
      have ha : a = c := (List.cons.inj h).1
      exact absurd (ha ▸ List.mem_cons_self) h₁
    | cons b l₂ =>
      obtain ⟨rfl, htail⟩ := List.cons.inj h
      obtain ⟨rfl, rfl⟩ := ih (fun hc => h₁ (List.mem_cons_of_mem _ hc))
        (fun hc => h₂ (List.mem_cons_of_mem _ hc)) htail
      exact ⟨rfl, rfl⟩

/-- The part after the last separator. -/
theorem takeWhile_reverse_sep {α : Type} [DecidableEq α] {c : α}
    {l r : List α} (hr : c ∉ r) :
    ((l ++ c :: r).reverse.takeWhile (· ≠ c)).reverse = r := by
  have hall : ∀ a ∈ r.reverse, decide (a ≠ c) = true := by
    intro a ha
    rw [decide_eq_true_iff]
    rintro rfl
    exact hr (List.mem_reverse.1 ha)
  rw [List.reverse_append, List.reverse_cons, List.append_assoc,
    List.takeWhile_append_of_pos hall]
  simp

/-- The part in front of the first separator, for texts. -/
theorem sep_inj {sep : String} {c : Char} (hsep : sep.toList = [c])
    {a₁ a₂ b₁ b₂ : String} (h₁ : c ∉ a₁.toList) (h₂ : c ∉ a₂.toList)
    (h : a₁ ++ (sep ++ b₁) = a₂ ++ (sep ++ b₂)) : a₁ = a₂ ∧ b₁ = b₂ := by
  have hlist := congrArg String.toList h
  simp only [String.toList_append, hsep, List.singleton_append] at hlist
  obtain ⟨ha, hb⟩ := append_sep_inj h₁ h₂ hlist
  exact ⟨String.toList_inj.1 ha, String.toList_inj.1 hb⟩

theorem notMem_repr {c : Char} (hc : c.isDigit = false) (n : Nat) :
    c ∉ n.repr.toList := by
  intro h
  rw [Nat.toList_repr] at h
  have hdigit := Nat.isDigit_of_mem_toDigits (by decide) (by decide) h
  rw [hc] at hdigit
  exact Bool.false_ne_true hdigit

/-- The digits determine a number. -/
theorem eq_of_repr {m n : Nat} (h : m.repr = n.repr) : m = n := by
  have hdigits := congrArg String.toList h
  rw [Nat.toList_repr, Nat.toList_repr] at hdigits
  have hnum := congrArg (fun ds => Nat.ofDigitChars 10 ds 0) hdigits
  simpa using hnum

/-- A number in front of a separator is determined. -/
theorem repr_sep_inj {sep : String} {c : Char} (hsep : sep.toList = [c])
    (hc : c.isDigit = false) {m n : Nat} {b₁ b₂ : String}
    (h : m.repr ++ (sep ++ b₁) = n.repr ++ (sep ++ b₂)) : m = n ∧ b₁ = b₂ := by
  obtain ⟨hrepr, hb⟩ := sep_inj hsep (notMem_repr hc m) (notMem_repr hc n) h
  exact ⟨eq_of_repr hrepr, hb⟩

/-! ## Numbers with a sign -/

theorem notMem_int_repr {c : Char} (hc : c.isDigit = false) (hsign : c ≠ '-')
    (z : Int) : c ∉ z.repr.toList := by
  rw [Int.repr_eq_if]
  split
  · exact notMem_repr hc _
  · rw [String.toList_append]
    intro h
    rcases List.mem_append.1 h with hminus | hdigits
    · exact hsign (List.mem_singleton.1 hminus)
    · exact notMem_repr hc _ hdigits

/-- The text of a number determines it. -/
theorem eq_of_int_repr {a b : Int} (h : a.repr = b.repr) : a = b := by
  have hminus : ∀ m n : Nat, m.repr ≠ "-" ++ n.repr := by
    intro m n heq
    refine notMem_repr (c := '-') (by decide) m ?_
    rw [heq, String.toList_append]
    exact List.mem_append_left _ (by decide)
  rw [Int.repr_eq_if, Int.repr_eq_if] at h
  split at h <;> split at h
  · have hnat := eq_of_repr h
    omega
  · exact absurd h (hminus _ _)
  · exact absurd h.symm (hminus _ _)
  · have hnat := eq_of_repr ((String.append_right_inj _).1 h)
    omega

/-- A number with a sign in front of a separator is determined. -/
theorem int_sep_inj {sep : String} {c : Char} (hsep : sep.toList = [c])
    (hc : c.isDigit = false) (hsign : c ≠ '-') {a b : Int} {b₁ b₂ : String}
    (h : a.repr ++ (sep ++ b₁) = b.repr ++ (sep ++ b₂)) : a = b ∧ b₁ = b₂ := by
  obtain ⟨hrepr, hb⟩ := sep_inj hsep (notMem_int_repr hc hsign a)
    (notMem_int_repr hc hsign b) h
  exact ⟨eq_of_int_repr hrepr, hb⟩

/-! ## All parts at once -/

section Parts

variable {α : Type} [DecidableEq α] {c : α} {ps qs : List (List α)}

/-- The separators of a text are those between its parts and those in
them. -/
theorem count_intercalate (c : α) (p : List α) (ps : List (List α)) :
    ([c].intercalate (p :: ps)).count c =
      ps.length + (p :: ps).flatten.count c := by
  induction ps generalizing p with
  | nil => simp
  | cons q ps ih =>
    rw [List.intercalate_cons_cons, List.count_append, List.count_append, ih,
      List.flatten_cons (l := p), List.count_append,
      List.count_singleton_self, List.length_cons]
    omega

/-- As many parts in a text with as many separators: if those of one side
contain no separator, then those of the other side do not. -/
theorem notMem_of_intercalate_eq (hlength : ps.length = qs.length)
    (hps : ∀ p ∈ ps, c ∉ p) (h : [c].intercalate ps = [c].intercalate qs) :
    ∀ q ∈ qs, c ∉ q := by
  cases ps with
  | nil =>
    rw [List.length_eq_zero_iff.1 hlength.symm]
    exact fun q hq => absurd hq List.not_mem_nil
  | cons p ps =>
    cases qs with
    | nil => cases hlength
    | cons q qs =>
      have hcount := congrArg (List.count c) h
      have hzero : (p :: ps).flatten.count c = 0 := by
        refine List.count_eq_zero.2 fun hmem => ?_
        obtain ⟨r, hr, hmem⟩ := List.mem_flatten.1 hmem
        exact hps r hr hmem
      rw [count_intercalate, count_intercalate, hzero] at hcount
      rw [List.length_cons, List.length_cons] at hlength
      have hzero' : (q :: qs).flatten.count c = 0 := by omega
      intro r hr hmem
      exact List.count_eq_zero.1 hzero' (List.mem_flatten.2 ⟨r, hr, hmem⟩)

/-- Two texts with as many parts, of which one has no separator in its
parts, are equal only if the parts are. -/
theorem intercalate_inj (hlength : ps.length = qs.length)
    (hps : ∀ p ∈ ps, c ∉ p) (h : [c].intercalate ps = [c].intercalate qs) :
    ps = qs := by
  have hqs := notMem_of_intercalate_eq hlength hps h
  by_cases hnil : ps = []
  · rw [hnil, List.length_nil] at hlength
    rw [hnil, List.length_eq_zero_iff.1 hlength.symm]
  · have hnil' : qs ≠ [] := by
      rintro rfl
      exact hnil (List.length_eq_zero_iff.1 hlength)
    rw [← List.splitOn_intercalate c hps hnil, h,
      List.splitOn_intercalate c hqs hnil']

end Parts

end Text
