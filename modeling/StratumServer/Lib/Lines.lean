import Mathlib.Data.List.Basic

/-!
# Lines of a stream

A stream is cut at a separator.  `linesFrom held` lists the complete lines of
a stream when `held` has been read of the first one, and `restFrom held` is
what is left after them.  So a reader that holds a part of a line needs no
other state, and a stream that comes in pieces is read like the whole:
`linesFrom_append`.
-/

namespace Lines

variable {α : Type} [DecidableEq α] (sep : α)

/-- The complete lines, without the separator. -/
def linesFrom : List α → List α → List (List α)
  | _, [] => []
  | held, a :: as =>
    if a = sep then held :: linesFrom [] as else linesFrom (held ++ [a]) as

/-- What follows the last separator. -/
def restFrom : List α → List α → List α
  | held, [] => held
  | held, a :: as =>
    if a = sep then restFrom [] as else restFrom (held ++ [a]) as

theorem linesFrom_append (held as bs : List α) :
    linesFrom sep held (as ++ bs) =
      linesFrom sep held as ++ linesFrom sep (restFrom sep held as) bs := by
  induction as generalizing held with
  | nil => rfl
  | cons a as ih =>
    simp only [List.cons_append, linesFrom, restFrom]
    split
    · rw [ih, List.cons_append]
    · exact ih _

theorem restFrom_append (held as bs : List α) :
    restFrom sep held (as ++ bs) = restFrom sep (restFrom sep held as) bs := by
  induction as generalizing held with
  | nil => rfl
  | cons a as ih =>
    simp only [List.cons_append, restFrom]
    split
    · exact ih _
    · exact ih _

variable {sep}

/-- A piece without a separator completes no line. -/
theorem linesFrom_of_notMem {as : List α} (h : sep ∉ as) (held : List α) :
    linesFrom sep held as = [] ∧ restFrom sep held as = held ++ as := by
  induction as generalizing held with
  | nil => exact ⟨rfl, (List.append_nil held).symm⟩
  | cons a as ih =>
    have ha : ¬ a = sep := fun heq => h (heq ▸ List.mem_cons_self)
    simp only [linesFrom, restFrom, if_neg ha]
    obtain ⟨hlines, hrest⟩ := ih (fun hmem => h (List.mem_cons_of_mem _ hmem))
      (held ++ [a])
    refine ⟨hlines, ?_⟩
    rw [hrest, List.append_assoc, List.singleton_append]

/-- The first separator of a piece completes a line. -/
theorem linesFrom_of_sep {as : List α} (h : sep ∉ as) (held bs : List α) :
    linesFrom sep held (as ++ sep :: bs) =
        (held ++ as) :: linesFrom sep [] bs ∧
      restFrom sep held (as ++ sep :: bs) = restFrom sep [] bs := by
  obtain ⟨hlines, hrest⟩ := linesFrom_of_notMem h held
  rw [linesFrom_append, restFrom_append, hlines, hrest, List.nil_append]
  simp only [linesFrom, restFrom]
  exact ⟨rfl, rfl⟩

/-- The lines of a stream that was put together line by line. -/
theorem linesFrom_flatMap {texts : List (List α)} (h : ∀ t ∈ texts, sep ∉ t) :
    linesFrom sep [] (texts.flatMap (· ++ [sep])) = texts ∧
      restFrom sep [] (texts.flatMap (· ++ [sep])) = [] := by
  induction texts with
  | nil => exact ⟨rfl, rfl⟩
  | cons t texts ih =>
    obtain ⟨ht, htexts⟩ := List.forall_mem_cons.1 h
    obtain ⟨hlines, hrest⟩ := linesFrom_of_sep ht []
      (texts.flatMap (· ++ [sep]))
    rw [List.flatMap_cons, List.append_assoc, List.singleton_append, hlines,
      hrest, (ih htexts).1, (ih htexts).2]
    exact ⟨rfl, rfl⟩

/-- The first part of a stream gives the first lines. -/
theorem linesFrom_isPrefix (sep : α) {as bs : List α} (h : as <+: bs)
    (held : List α) : linesFrom sep held as <+: linesFrom sep held bs := by
  obtain ⟨cs, rfl⟩ := h
  rw [linesFrom_append]
  exact List.prefix_append _ _

/-- Every separator completes a line. -/
theorem length_linesFrom (sep : α) (held as : List α) :
    (linesFrom sep held as).length = as.count sep := by
  induction as generalizing held with
  | nil => rfl
  | cons a as ih =>
    simp only [linesFrom]
    by_cases ha : a = sep
    · rw [if_pos ha, ha, List.length_cons, ih, List.count_cons_self]
    · rw [if_neg ha, ih, List.count_cons_of_ne ha]

/-- The part of a piece before its first separator, and the part after. -/
theorem cut (sep : α) (as : List α) :
    (sep ∉ as ∧ as.dropWhile (· ≠ sep) = []) ∨
      ∃ bs, as.dropWhile (· ≠ sep) = sep :: bs ∧
        sep ∉ as.takeWhile (· ≠ sep) ∧
        as = as.takeWhile (· ≠ sep) ++ sep :: bs := by
  induction as with
  | nil => exact Or.inl ⟨List.not_mem_nil, rfl⟩
  | cons a as ih =>
    by_cases ha : a = sep
    · refine Or.inr ⟨as, ?_, ?_, ?_⟩ <;> simp [ha]
    · rcases ih with ⟨hnot, hdrop⟩ | ⟨bs, hdrop, hnot, heq⟩
      · refine Or.inl ⟨?_, ?_⟩
        · simp [hnot, Ne.symm ha]
        · simpa [ha] using hdrop
      · refine Or.inr ⟨bs, ?_, ?_, ?_⟩
        · simpa [ha] using hdrop
        · simpa [ha, Ne.symm ha] using hnot
        · simpa [ha] using heq

end Lines
