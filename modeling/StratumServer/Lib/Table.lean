import Mathlib.Data.List.Basic
import Mathlib.Data.List.Pairwise

/-!
# SQL tables with an automatic id and one `UNIQUE` key

A table is a list of rows in insertion order.  Each row has an id that the
table gives out (`INTEGER PRIMARY KEY AUTOINCREMENT`), and it may have a key
that no other row shares (`UNIQUE`).  A row whose key has a `NULL` part has
no key: SQL treats two `NULL`s as different values, so such a row never
conflicts with another one.

`Table` carries the id order and the uniqueness of the keys as fields.  A
table that breaks them cannot be built, so no proof about a user of the
table has to show them again.

There are three groups.

* The rows.  `Record` names the id and the key of a row type.
* The statements: `insert`, `insertOrGet`, `modify` and `delete`, each
  with one lemma that says which rows the new table has.  A statement that
  finds a conflict and goes on has drawn an id that no row gets (`burn`).
* The two rules that the fields give: `eq_of_id` and `eq_of_key`.
-/

namespace Sql

/-! ## The rows -/

/-- A row type: the id column, and the value of the `UNIQUE` columns.  The
key is `none` when one of those columns is `NULL`, and for a table that has
no `UNIQUE` constraint. -/
class Record (ρ : Type) where
  Key : Type
  [decKey : DecidableEq Key]
  id : ρ → Nat
  key : ρ → Option Key
  withId : Nat → ρ → ρ
  id_withId : ∀ n r, id (withId n r) = n
  key_withId : ∀ n r, key (withId n r) = key r

attribute [reducible, instance] Record.decKey
attribute [simp] Record.id_withId Record.key_withId

variable {ρ : Type} [Record ρ]

/-- Two rows that a `UNIQUE` constraint does not allow together. -/
def Conflict (a b : ρ) : Prop :=
  ∃ k, Record.key a = some k ∧ Record.key b = some k

instance (a b : ρ) : Decidable (Conflict a b) :=
  match ha : Record.key a, hb : Record.key b with
  | some k, some l =>
    decidable_of_iff (k = l) ⟨fun h => ⟨k, ha, h ▸ hb⟩, fun ⟨m, hm, hm'⟩ => by
      rw [ha] at hm
      rw [hb] at hm'
      cases hm
      cases hm'
      rfl⟩
  | none, _ => isFalse fun ⟨_, hm, _⟩ => by rw [ha] at hm; cases hm
  | some _, none => isFalse fun ⟨_, _, hm⟩ => by rw [hb] at hm; cases hm

/-- A table: its rows in the order of their ids, and the last id that was
given out. -/
structure Table (ρ : Type) [Record ρ] where
  seq : Nat
  rows : List ρ
  ids_lt : rows.Pairwise (fun a b => Record.id a < Record.id b)
  ids_le : ∀ r ∈ rows, Record.id r ≤ seq
  keys_ne : rows.Pairwise (fun a b => ¬ Conflict a b)

namespace Table

/-- The table that `CREATE TABLE` leaves. -/
def empty : Table ρ := ⟨0, [], .nil, by simp, .nil⟩

/-! ## The two rules -/

theorem eq_of_pairwise {α : Type} {R : α → α → Prop} {l : List α}
    (hl : l.Pairwise R) {a b : α} (ha : a ∈ l) (hb : b ∈ l)
    (hab : ¬ R a b) (hba : ¬ R b a) : a = b := by
  induction hl with
  | nil => cases ha
  | cons hhead _ ih =>
    rcases List.mem_cons.1 ha with rfl | ha'
    · rcases List.mem_cons.1 hb with rfl | hb'
      · rfl
      · exact absurd (hhead _ hb') hab
    · rcases List.mem_cons.1 hb with rfl | hb'
      · exact absurd (hhead _ ha') hba
      · exact ih ha' hb'

/-- Two rows of a table with one id are one row. -/
theorem eq_of_id (t : Table ρ) {a b : ρ} (ha : a ∈ t.rows) (hb : b ∈ t.rows)
    (h : Record.id a = Record.id b) : a = b :=
  eq_of_pairwise t.ids_lt ha hb (by omega) (by omega)

/-- Two rows of a table with one key are one row. -/
theorem eq_of_key (t : Table ρ) {a b : ρ} (ha : a ∈ t.rows) (hb : b ∈ t.rows)
    {k : Record.Key ρ} (hka : Record.key a = some k)
    (hkb : Record.key b = some k) : a = b :=
  eq_of_pairwise t.keys_ne ha hb (fun h => h ⟨k, hka, hkb⟩)
    (fun h => h ⟨k, hkb, hka⟩)

/-- A row that is looked up by its id. -/
theorem find?_id_iff (t : Table ρ) {id : Nat} {r : ρ} :
    t.rows.find? (Record.id · == id) = some r ↔
      r ∈ t.rows ∧ Record.id r = id := by
  constructor
  · intro h
    have hid := List.find?_some h
    exact ⟨List.mem_of_find?_eq_some h, eq_of_beq hid⟩
  · rintro ⟨hr, rfl⟩
    have hsome : (t.rows.find? (Record.id · == Record.id r)).isSome := by
      rw [List.find?_isSome]
      exact ⟨r, hr, beq_self_eq_true _⟩
    obtain ⟨r', hr'⟩ := Option.isSome_iff_exists.1 hsome
    have hid := List.find?_some hr'
    rw [hr', t.eq_of_id (List.mem_of_find?_eq_some hr') hr (eq_of_beq hid)]

/-! ## `INSERT` -/

/-- The new row of an `INSERT` that no row of the table stands against. -/
private def push (t : Table ρ) (r : ρ)
    (h : ∀ a ∈ t.rows, ¬ Conflict a r) : Table ρ where
  seq := t.seq + 1
  rows := t.rows ++ [Record.withId (t.seq + 1) r]
  ids_lt := by
    refine List.pairwise_append.2 ⟨t.ids_lt, List.pairwise_singleton _ _, ?_⟩
    intro a ha b hb
    rw [List.mem_singleton.1 hb, Record.id_withId]
    exact Nat.lt_succ_of_le (t.ids_le a ha)
  ids_le := by
    intro a ha
    rcases List.mem_append.1 ha with ha | ha
    · exact Nat.le_succ_of_le (t.ids_le a ha)
    · have hid : Record.id a = t.seq + 1 := by
        rw [List.mem_singleton.1 ha, Record.id_withId]
      exact Nat.le_of_eq hid
  keys_ne := by
    refine List.pairwise_append.2 ⟨t.keys_ne, List.pairwise_singleton _ _, ?_⟩
    intro a ha b hb
    rw [List.mem_singleton.1 hb]
    rintro ⟨k, hka, hkb⟩
    rw [Record.key_withId] at hkb
    exact h a ha ⟨k, hka, hkb⟩

/-- `INSERT`: the new id with the new table, or nothing when the row breaks
the `UNIQUE` constraint. -/
def insert (t : Table ρ) (r : ρ) : Option (Nat × Table ρ) :=
  if h : ∀ a ∈ t.rows, ¬ Conflict a r then
    some (t.seq + 1, t.push r h)
  else
    none

/-- An id is drawn that no row gets.  `INSERT OR IGNORE` and `ON CONFLICT DO
UPDATE` draw the id before they find the conflict, and `AUTOINCREMENT` does
not give it out again. -/
def burn (t : Table ρ) : Table ρ :=
  { t with
    seq := t.seq + 1
    ids_le := fun r hr => Nat.le_succ_of_le (t.ids_le r hr) }

@[simp]
theorem burn_rows (t : Table ρ) : t.burn.rows = t.rows := rfl

/-- `INSERT OR IGNORE`, and the id of the row that now has the key: the id
just given out, or else the id that a `SELECT` by the key finds.  The flag
says whether the row is new. -/
def insertOrGet (t : Table ρ) (r : ρ) : Option (Nat × Bool × Table ρ) :=
  match t.insert r with
  | some (n, t') => some (n, true, t')
  | none =>
    (t.rows.find? fun a => decide (Conflict a r)).map fun a =>
      (Record.id a, false, t.burn)

/-- Several `INSERT`s in a row; nothing when one of them fails. -/
def insertMany (t : Table ρ) (rs : List ρ) : Option (Table ρ) :=
  rs.foldlM (fun t r => (t.insert r).map Prod.snd) t

theorem insert_some {t t' : Table ρ} {r : ρ} {n : Nat}
    (h : t.insert r = some (n, t')) :
    (∀ a ∈ t.rows, ¬ Conflict a r) ∧ n = t.seq + 1 ∧ t'.seq = t.seq + 1 ∧
      t'.rows = t.rows ++ [Record.withId n r] := by
  unfold insert at h
  split at h
  · rename_i hc
    cases h
    exact ⟨hc, rfl, rfl, rfl⟩
  · cases h

theorem mem_of_insert {t t' : Table ρ} {r a : ρ} {n : Nat}
    (h : t.insert r = some (n, t')) (ha : a ∈ t.rows) : a ∈ t'.rows := by
  obtain ⟨_, _, _, hrows⟩ := insert_some h
  rw [hrows]
  exact List.mem_append_left _ ha

theorem insert_none {t : Table ρ} {r : ρ} (h : t.insert r = none) :
    ∃ a ∈ t.rows, Conflict a r := by
  unfold insert at h
  split at h
  · cases h
  · rename_i hc
    push Not at hc
    exact hc

theorem insert_isSome {t : Table ρ} {r : ρ}
    (h : ∀ a ∈ t.rows, ¬ Conflict a r) : ∃ n t', t.insert r = some (n, t') :=
  ⟨_, _, dif_pos h⟩

/-- Rows of a table without a key can always be inserted. -/
theorem insertMany_isSome
    (hkey : ∀ r : ρ, Record.key r = none) (rows : List ρ) (t : Table ρ) :
    ∃ t', t.insertMany rows = some t' := by
  induction rows generalizing t with
  | nil => exact ⟨t, rfl⟩
  | cons r rows ih =>
    have hfree : ∀ a ∈ t.rows, ¬ Conflict a r := by
      rintro a _ ⟨k, hk, _⟩
      rw [hkey] at hk
      cases hk
    obtain ⟨n, t₁, ht₁⟩ := insert_isSome hfree
    obtain ⟨t₂, ht₂⟩ := ih t₁
    refine ⟨t₂, ?_⟩
    simp only [insertMany, List.foldlM_cons, ht₁, Option.map_some]
    exact ht₂

/-- The new rows are those that were given, with their ids. -/
theorem insertMany_some {t t' : Table ρ} {rs : List ρ}
    (h : t.insertMany rs = some t') :
    ∃ new, t'.rows = t.rows ++ new ∧ ∀ {β : Type} (f : ρ → β),
      (∀ n r, f (Record.withId n r) = f r) → new.map f = rs.map f := by
  induction rs generalizing t with
  | nil =>
    cases h
    exact ⟨[], (List.append_nil _).symm, fun _ _ => rfl⟩
  | cons r rs ih =>
    simp only [insertMany, List.foldlM_cons] at h
    obtain ⟨t₁, ht₁, hrest⟩ := Option.bind_eq_some_iff.1 h
    obtain ⟨⟨n, t₂⟩, hinsert, rfl⟩ := Option.map_eq_some_iff.1 ht₁
    obtain ⟨_, _, _, hrows⟩ := insert_some hinsert
    obtain ⟨new, hnew, hmap⟩ := ih hrest
    refine ⟨Record.withId n r :: new, ?_, fun f hf => ?_⟩
    · rw [hnew, hrows, List.append_assoc]
      rfl
    · rw [List.map_cons, List.map_cons, hf, hmap f hf]

/-- `insertOrGet` gives the id of the row that has the key afterwards: the
new row, or one that was there. -/
theorem insertOrGet_cases (t : Table ρ) (r : ρ) :
    ∃ n isNew t', t.insertOrGet r = some (n, isNew, t') ∧
      (isNew = true ∧ (∀ a ∈ t.rows, ¬ Conflict a r) ∧ n = t.seq + 1 ∧
          t'.rows = t.rows ++ [Record.withId n r] ∨
        isNew = false ∧ (∃ a ∈ t.rows, Conflict a r ∧ Record.id a = n) ∧
          t' = t.burn) := by
  unfold insertOrGet
  cases h : t.insert r with
  | some p =>
    obtain ⟨n, t'⟩ := p
    obtain ⟨hfree, hn, _, hrows⟩ := insert_some h
    exact ⟨n, true, t', rfl, Or.inl ⟨rfl, hfree, hn, hrows⟩⟩
  | none =>
    obtain ⟨a, ha, hc⟩ := insert_none h
    cases hf : t.rows.find? fun a => decide (Conflict a r) with
    | none => exact absurd hc (by simpa using List.find?_eq_none.1 hf a ha)
    | some b =>
      have hb := List.find?_some hf
      exact ⟨_, false, t.burn, rfl, Or.inr ⟨rfl, ⟨b, List.mem_of_find?_eq_some hf,
        by simpa using hb, rfl⟩, rfl⟩⟩

/-! ## `UPDATE` and `DELETE` -/

/-- A change of a row that no `UPDATE` of the program goes beyond: the id
and the key stay. -/
def Keeps (f : ρ → ρ) : Prop :=
  ∀ r, Record.id (f r) = Record.id r ∧ Record.key (f r) = Record.key r

/-- `UPDATE ... SET f WHERE p`. -/
def modify (t : Table ρ) (p : ρ → Bool) (f : ρ → ρ) (hf : Keeps f) :
    Table ρ where
  seq := t.seq
  rows := t.rows.map fun r => if p r then f r else r
  ids_lt := by
    refine List.Pairwise.map _ ?_ t.ids_lt
    intro a b hab
    split_ifs <;> simpa only [(hf a).1, (hf b).1] using hab
  ids_le := by
    intro a ha
    obtain ⟨b, hb, rfl⟩ := List.mem_map.1 ha
    split_ifs
    · rw [(hf b).1]
      exact t.ids_le b hb
    · exact t.ids_le b hb
  keys_ne := by
    refine List.Pairwise.map _ ?_ t.keys_ne
    intro a b hab
    unfold Conflict at hab ⊢
    split_ifs <;> simpa only [(hf a).2, (hf b).2] using hab

/-- Only the rows of the table matter for `WHERE`. -/
theorem modify_congr {t : Table ρ} {p q : ρ → Bool} {f : ρ → ρ}
    (hf : Keeps f) (h : ∀ r ∈ t.rows, p r = q r) :
    t.modify p f hf = t.modify q f hf := by
  have hrows : t.rows.map (fun r => if p r then f r else r) =
      t.rows.map fun r => if q r then f r else r := by
    apply List.map_congr_left
    intro r hr
    rw [h r hr]
  unfold modify
  simp only [hrows]

/-- An `UPDATE` that sets the columns to fixed values, made twice. -/
theorem modify_modify {t : Table ρ} {p q : ρ → Bool} {f : ρ → ρ}
    (hf : Keeps f) (hff : ∀ r, f (f r) = f r) (hq : ∀ r, q (f r) = q r) :
    (t.modify p f hf).modify q f hf = t.modify (fun r => p r || q r) f hf := by
  unfold modify
  simp only [List.map_map]
  congr 1
  apply List.map_congr_left
  intro r _
  by_cases hp : p r = true
  · simp [hp, hq, hff]
  · simp [hp]

theorem modify_false {t : Table ρ} {f : ρ → ρ} (hf : Keeps f) :
    t.modify (fun _ => false) f hf = t := by
  unfold modify
  simp

/-- `DELETE ... WHERE p`. -/
def delete (t : Table ρ) (p : ρ → Bool) : Table ρ where
  seq := t.seq
  rows := t.rows.filter fun r => !p r
  ids_lt := t.ids_lt.filter _
  ids_le := fun r hr => t.ids_le r (List.mem_filter.1 hr).1
  keys_ne := t.keys_ne.filter _

end Table

end Sql
