import Mathlib.Data.List.Basic

/-!
# Sequences of calls

A system that is called from outside, one call after the other: `step s a` is
the state after the call `a` in the state `s`.  `Meets ok` says that each
call of a sequence meets a condition in the state before it, and
`Meets.invariant` is the rule for what holds after such a sequence.

A system may write down what it does, newest first.  `Each P` says that every
entry satisfies `P` with what was written before it.
-/

namespace Calls

variable {σ α : Type} {step : σ → α → σ} {ok : σ → α → Prop}

/-- Each call of the sequence meets `ok` in the state before it. -/
def Meets (step : σ → α → σ) (ok : σ → α → Prop) : σ → List α → Prop
  | _, [] => True
  | s, a :: as => ok s a ∧ Meets step ok (step s a) as

instance Meets.decidable [∀ s a, Decidable (ok s a)] :
    ∀ (s : σ) (as : List α), Decidable (Meets step ok s as)
  | _, [] => inferInstanceAs (Decidable True)
  | s, a :: as =>
    have := Meets.decidable (step s a) as
    inferInstanceAs (Decidable (ok s a ∧ Meets step ok (step s a) as))

theorem meets_of_forall (h : ∀ s a, ok s a) (s : σ) (as : List α) :
    Meets step ok s as := by
  induction as generalizing s with
  | nil => trivial
  | cons a as ih => exact ⟨h s a, ih _⟩

/-- What a call that meets the condition keeps holds after the sequence. -/
theorem Meets.invariant {I : σ → Prop}
    (hstep : ∀ s a, I s → ok s a → I (step s a)) {s : σ} {as : List α}
    (hI : I s) (h : Meets step ok s as) : I (as.foldl step s) := by
  induction as generalizing s with
  | nil => exact hI
  | cons a as ih => exact ih (hstep s a hI h.1) h.2

/-- What a call satisfies when the condition is met and `I` holds before
it. -/
theorem Meets.imp {I : σ → Prop} {ok' : σ → α → Prop}
    (hstep : ∀ s a, I s → ok s a → ok' s a ∧ I (step s a)) {s : σ}
    {as : List α} (hI : I s) (h : Meets step ok s as) :
    Meets step ok' s as := by
  induction as generalizing s with
  | nil => trivial
  | cons a as ih =>
    obtain ⟨hok', hI'⟩ := hstep s a hI h.1
    exact ⟨hok', ih hI' h.2⟩

/-! ## What is written down -/

section Each

variable {ε : Type} {P : List ε → ε → Prop}

/-- Every entry satisfies `P` with what was written before it. -/
def Each (P : List ε → ε → Prop) : List ε → Prop
  | [] => True
  | e :: earlier => P earlier e ∧ Each P earlier

instance Each.decidable [∀ earlier e, Decidable (P earlier e)] :
    ∀ entries : List ε, Decidable (Each P entries)
  | [] => inferInstanceAs (Decidable True)
  | e :: earlier =>
    have := Each.decidable earlier
    inferInstanceAs (Decidable (P earlier e ∧ Each P earlier))

theorem Each.append {entries earlier : List ε} (h : Each P earlier)
    (hentries : ∀ e ∈ entries, ∀ earlier, P earlier e) :
    Each P (entries ++ earlier) := by
  induction entries with
  | nil => exact h
  | cons e entries ih =>
    exact ⟨hentries e List.mem_cons_self _,
      ih fun e' he' => hentries e' (List.mem_cons_of_mem _ he')⟩

end Each

end Calls
