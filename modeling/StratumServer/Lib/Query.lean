import Mathlib.Data.List.Basic
import Mathlib.Data.List.Range
import Mathlib.Data.List.Sort

/-!
# Queries that are put together at run time

A program builds the `WHERE` clause of a query from optional filters.  Each
filter that is there adds a condition with the next parameter number, and its
value to the list of parameters.

* `Where` is such a clause.  It carries that its conditions are numbered from
  one on, so that every condition finds its own parameter.
* `Where.select` runs it.  The engine refuses a clause that names a column of
  a table that is not joined, or whose parameters are not as many as the
  values.  `select_eq` says that it is not refused, and which rows it gives.
* `leftJoin` pairs the rows of a table with those of another one.  If at most
  one row of the other table belongs to each of them, it is a `map`.
* `ORDER BY key DESC` is `insertionSort` with the larger keys first.  The keys
  go down strictly if no two of them are equal.
-/

namespace Sql

/-! ## The `WHERE` clause -/

/-- A condition on a column, with the number of its parameter. -/
structure Condition (κ : Type) where
  column : κ
  param : Nat
  deriving DecidableEq, Repr

/-- A clause under construction: its conditions, which are joined by `AND`,
and the values of its parameters. -/
structure Where (κ ν : Type) where
  conditions : List (Condition κ)
  params : List ν
  numbered : conditions.map (·.param) = List.range' 1 params.length

namespace Where

variable {κ ν ρ : Type}

/-- The clause without a condition. -/
def empty : Where κ ν := ⟨[], [], rfl⟩

/-- Adds a condition, if there is a value for it. -/
def push (w : Where κ ν) (column : κ) : Option ν → Where κ ν
  | none => w
  | some value =>
    { conditions := w.conditions ++ [⟨column, w.params.length + 1⟩]
      params := w.params ++ [value]
      numbered := by
        rw [List.map_append, w.numbered, List.length_append,
          List.length_singleton, List.range'_concat]
        simp [Nat.add_comm] }

/-- The number of parameters that the engine counts. -/
def parameters (w : Where κ ν) : Nat :=
  (w.conditions.map (·.param)).foldl max 0

/-- Whether a row satisfies the conditions.  `holds` is the comparison of a
column of the row with a value. -/
def accepts (holds : ρ → κ → ν → Bool) (w : Where κ ν) (row : ρ) : Bool :=
  w.conditions.all fun c =>
    (w.params[c.param - 1]?).any fun value => holds row c.column value

/-- Runs the clause over rows that have the given columns. -/
def select (columns : κ → Bool) (holds : ρ → κ → ν → Bool) (w : Where κ ν)
    (rows : List ρ) : Option (List ρ) :=
  if w.conditions.all (fun c => columns c.column) ∧
      w.parameters = w.params.length then
    some (rows.filter (w.accepts holds))
  else none

theorem param_mem (w : Where κ ν) {c : Condition κ} (hc : c ∈ w.conditions) :
    1 ≤ c.param ∧ c.param ≤ w.params.length := by
  have hmem : c.param ∈ w.conditions.map (·.param) := List.mem_map_of_mem hc
  rw [w.numbered, List.mem_range'_1] at hmem
  omega

/-- The engine counts as many parameters as there are values. -/
theorem parameters_eq (w : Where κ ν) : w.parameters = w.params.length := by
  rw [parameters, w.numbered]
  generalize w.params.length = n
  induction n with
  | zero => rfl
  | succ n ih =>
    rw [List.range'_concat, List.foldl_append, ih, List.foldl_cons,
      List.foldl_nil]
    omega

/-- A condition that is added does not change what the others say. -/
theorem accepts_push (holds : ρ → κ → ν → Bool) (w : Where κ ν) (column : κ)
    (value : Option ν) (row : ρ) : (w.push column value).accepts holds row =
      (w.accepts holds row && value.all (holds row column)) := by
  cases value with
  | none =>
    rw [Option.all_none, Bool.and_true]
    rfl
  | some value =>
    have hold : (w.conditions.all fun c =>
        ((w.params ++ [value])[c.param - 1]?).any fun value =>
          holds row c.column value) = w.accepts holds row := by
      rw [accepts, Bool.eq_iff_iff, List.all_eq_true, List.all_eq_true]
      refine forall₂_congr fun c hc => ?_
      have hparam := w.param_mem hc
      rw [List.getElem?_append_left (by omega)]
    change ((w.conditions ++ [Condition.mk column (w.params.length + 1)]).all fun c =>
      ((w.params ++ [value])[c.param - 1]?).any fun value =>
        holds row c.column value) = _
    rw [List.all_append, hold]
    simp

/-- The columns of a clause are those that were added. -/
theorem columns_push (columns : κ → Bool) (w : Where κ ν) (column : κ)
    (value : Option ν) :
    (w.push column value).conditions.all (fun c => columns c.column) =
      (w.conditions.all (fun c => columns c.column) &&
        (value.isNone || columns column)) := by
  cases value with
  | none =>
    rw [Option.isNone_none, Bool.true_or, Bool.and_true]
    rfl
  | some value =>
    change ((w.conditions ++ [_]).all fun c => _) = _
    simp

/-- A clause whose columns are there gives the rows that satisfy it. -/
theorem select_eq {columns : κ → Bool} {holds : ρ → κ → ν → Bool}
    {w : Where κ ν} (h : w.conditions.all (fun c => columns c.column) = true)
    (rows : List ρ) :
    w.select columns holds rows = some (rows.filter (w.accepts holds)) := by
  rw [select, if_pos ⟨h, w.parameters_eq⟩]

end Where

/-! ## `LEFT JOIN` -/

section Join

variable {α β : Type} (on : α → β → Bool)

/-- The rows of `l`, each with the rows of `r` that belong to it.  A row
without any is kept, with `NULL`s for the other columns. -/
def leftJoin (l : List α) (r : List β) : List (α × Option β) :=
  l.flatMap fun a =>
    match r.filter (on a) with
    | [] => [(a, none)]
    | bs => bs.map fun b => (a, some b)

variable {on}

theorem leftJoin_eq_map {l : List α} {r : List β}
    (h : ∀ a ∈ l, (r.filter (on a)).length ≤ 1) :
    leftJoin on l r = l.map fun a => (a, r.find? (on a)) := by
  unfold leftJoin
  rw [← List.flatMap_pure_eq_map]
  refine List.flatMap_congr fun a ha => ?_
  have hone := h a ha
  change _ = [(a, r.find? (on a))]
  rw [← List.head?_filter]
  cases hfilter : r.filter (on a) with
  | nil => rfl
  | cons b bs =>
    rw [hfilter, List.length_cons] at hone
    rw [List.length_eq_zero_iff.1 (show bs.length = 0 by omega)]
    rfl

/-- At most one element of a list has a property that no two of them
share. -/
theorem length_filter_le_one {p : β → Bool} {r : List β}
    (h : r.Pairwise fun b b' => ¬ (p b = true ∧ p b' = true)) :
    (r.filter p).length ≤ 1 := by
  induction h with
  | nil => exact Nat.zero_le 1
  | @cons b r hb _ ih =>
    by_cases hp : p b = true
    · have hnone : r.filter p = [] := by
        rw [List.filter_eq_nil_iff]
        exact fun b' hb' hp' => hb b' hb' ⟨hp, hp'⟩
      rw [List.filter_cons_of_pos hp, hnone, List.length_singleton]
    · rw [List.filter_cons_of_neg hp]
      exact ih

end Join

/-! ## `ORDER BY` -/

section Order

variable {α : Type} (key : α → Nat)

theorem pairwise_sortDesc (l : List α) :
    (l.insertionSort fun a b => key b ≤ key a).Pairwise
      fun a b => key b ≤ key a := by
  have htotal : Std.Total fun a b : α => key b ≤ key a :=
    ⟨fun a b => le_total _ _⟩
  have htrans : IsTrans α fun a b => key b ≤ key a :=
    ⟨fun _ _ _ hab hbc => le_trans hbc hab⟩
  exact List.pairwise_insertionSort _ _

variable {key}

/-- Keys that are all different go down strictly. -/
theorem pairwise_sortDesc_lt {l : List α}
    (h : l.Pairwise fun a b => key a ≠ key b) :
    (l.insertionSort fun a b => key b ≤ key a).Pairwise
      fun a b => key b < key a := by
  have hne := (List.perm_insertionSort (fun a b : α => key b ≤ key a) l).symm.pairwise
    h Ne.symm
  refine ((pairwise_sortDesc key l).and hne).imp ?_
  rintro a b ⟨hle, hne⟩
  exact lt_of_le_of_ne hle (Ne.symm hne)

end Order

end Sql
