import StratumServer.Lib.Table

/-!
# Foreign keys

A column may refer to a row of another table by its id: `FOREIGN KEY (column)
REFERENCES t(id)`.  `Resolves column rows t` says that it does in all of the
rows.  A `NULL` refers to nothing.

A statement changes the rows that refer and the table that they refer to.
`Resolves.step` is the rule for it: the table keeps its ids, and each row
refers as an old one did, or to a row that is there.
-/

namespace Sql

variable {ρ τ : Type} [Record τ]

/-! ## Ids -/

namespace Table

/-- The table has a row with this id. -/
def HasId (t : Table τ) (n : Nat) : Prop := ∃ r ∈ t.rows, Record.id r = n

/-- No id is lost from one table to the next. -/
def IdsStay (t t' : Table τ) : Prop := ∀ n, t.HasId n → t'.HasId n

theorem HasId.of_mem {t : Table τ} {r : τ} (h : r ∈ t.rows) :
    t.HasId (Record.id r) :=
  ⟨r, h, rfl⟩

theorem HasId.of_insert {t t' : Table τ} {r : τ} {n : Nat}
    (h : t.insert r = some (n, t')) : t'.HasId n := by
  obtain ⟨_, _, _, hrows⟩ := insert_some h
  refine ⟨Record.withId n r, ?_, Record.id_withId n r⟩
  rw [hrows]
  exact List.mem_append_right _ (List.mem_singleton.2 rfl)

theorem IdsStay.refl (t : Table τ) : t.IdsStay t := fun _ h => h

theorem IdsStay.of_subset {t t' : Table τ} (h : ∀ r ∈ t.rows, r ∈ t'.rows) :
    t.IdsStay t' := by
  rintro n ⟨r, hr, hid⟩
  exact ⟨r, h r hr, hid⟩

/-- Rows that change in other columns keep their ids. -/
theorem IdsStay.of_map {t t' : Table τ} {f : τ → τ}
    (hrows : t'.rows = t.rows.map f) (hf : ∀ r, Record.id (f r) = Record.id r) :
    t.IdsStay t' := by
  rintro n ⟨r, hr, hid⟩
  refine ⟨f r, ?_, (hf r).trans hid⟩
  rw [hrows]
  exact List.mem_map_of_mem hr

/-- The new rows are those that were given, but for their ids. -/
theorem mem_of_insertMany {t t' : Table τ} {rs : List τ}
    (h : t.insertMany rs = some t') {r : τ} (hr : r ∈ t'.rows) :
    r ∈ t.rows ∨ ∃ n, ∃ r' ∈ rs, r = Record.withId n r' := by
  induction rs generalizing t with
  | nil =>
    cases h
    exact Or.inl hr
  | cons r' rs ih =>
    simp only [insertMany, List.foldlM_cons] at h
    obtain ⟨t₁, ht₁, hrest⟩ := Option.bind_eq_some_iff.1 h
    obtain ⟨⟨n, t₂⟩, hinsert, rfl⟩ := Option.map_eq_some_iff.1 ht₁
    obtain ⟨_, _, _, hrows⟩ := insert_some hinsert
    rcases ih hrest with hmem | ⟨m, r'', hr'', heq⟩
    · rw [hrows] at hmem
      rcases List.mem_append.1 hmem with hold | hnew
      · exact Or.inl hold
      · exact Or.inr ⟨n, r', List.mem_cons_self, List.mem_singleton.1 hnew⟩
    · exact Or.inr ⟨m, r'', List.mem_cons_of_mem _ hr'', heq⟩

end Table

/-! ## References -/

/-- The column refers to rows of the table. -/
def Resolves (column : ρ → Option Nat) (rows : List ρ) (t : Table τ) : Prop :=
  ∀ r ∈ rows, ∀ n, column r = some n → t.HasId n

namespace Resolves

variable {column : ρ → Option Nat} {rows rows' : List ρ} {t t' : Table τ}

theorem nil : Resolves column [] t := fun _ => nofun

theorem step (h : Resolves column rows t) (hids : t.IdsStay t')
    (hrows : ∀ r' ∈ rows', (∃ r ∈ rows, column r = column r') ∨
      ∀ n, column r' = some n → t'.HasId n) : Resolves column rows' t' := by
  intro r' hr' n hn
  rcases hrows r' hr' with ⟨r, hr, hcolumn⟩ | hnew
  · exact hids n (h r hr n (hcolumn.trans hn))
  · exact hnew n hn

/-- New rows that refer to a row that is there. -/
theorem add (h : Resolves column rows t) (hids : t.IdsStay t')
    (hrows : ∀ r ∈ rows', r ∈ rows ∨ ∃ n, column r = some n ∧ t'.HasId n) :
    Resolves column rows' t' := by
  refine h.step hids fun r hr => ?_
  rcases hrows r hr with hold | ⟨n, hn, hid⟩
  · exact Or.inl ⟨r, hold, rfl⟩
  · refine Or.inr fun m hm => ?_
    rw [← Option.some.inj (hn.symm.trans hm)]
    exact hid

/-- Rows that stay as they are. -/
theorem mono (h : Resolves column rows t) (hids : t.IdsStay t')
    (hrows : ∀ r ∈ rows', r ∈ rows) : Resolves column rows' t' :=
  h.step hids fun r hr => Or.inl ⟨r, hrows r hr, rfl⟩

end Resolves

end Sql
