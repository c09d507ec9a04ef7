import StratumServer.Blocks.Confirmations
import StratumServer.Shares.Failures

/-!
# The promotion of immature blocks

`check_maturation`, alone on a connection whose statements may fail.  A call
that succeeds should promote and return the immature blocks with enough
confirmations, counted in the integers.  The code counts in `i32`, and it
narrows `min_confirmations` from `u64` to `i32`.

`maturation_ok` says what a call that succeeds does, in the arithmetic of the
code, and `maturesExactly_iff` says when this is what it should do.
-/

namespace StratumServer

open Sql Tasks AccountingService

/-- One call of `check_maturation` on a connection. -/
def maturation (answers : (o : Op) → o.Res) (tipHeight : Int)
    (minConfirmations : Nat) (fates : Nat → Fate) (db : Database) :
    Except Error (List FoundBlock) × Attempt :=
  (checkMaturation tipHeight minConfirmations).run.exec (Op.onConn answers)
    ⟨⟨db, none⟩, fates, []⟩

/-- The block after it has matured. -/
def FoundBlock.mature (now : Nat) (b : FoundBlock) : FoundBlock :=
  { b with status := .matured, maturedAt := some now }

theorem FoundBlock.keeps_mature (now : Nat) :
    Table.Keeps (FoundBlock.mature now) :=
  fun _ => ⟨rfl, rfl⟩

/-- The database after the blocks with `p` have matured. -/
def promote (p : FoundBlock → Bool) (db : Database) : Database :=
  { db with
    foundBlocks := db.foundBlocks.modify p (FoundBlock.mature db.now)
      (FoundBlock.keeps_mature db.now) }

/-! ## What a call should do -/

/-- The block has enough confirmations, and it has not matured yet. -/
def due (tipHeight : Int) (minConfirmations : Nat) (b : FoundBlock) : Bool :=
  b.status == .immature &&
    decide ((minConfirmations : Int) ≤ tipHeight - b.height + 1)

/-- The difference and the sum in `tip_height - block.height + 1` are numbers
of type `i32`. -/
def CountFits (tipHeight height : Int) : Prop :=
  -(2 ^ 31) ≤ tipHeight - height ∧ tipHeight - height + 1 < 2 ^ 31

instance (tipHeight height : Int) : Decidable (CountFits tipHeight height) :=
  inferInstanceAs (Decidable (_ ∧ _))

/-- No count overflows, and every call that succeeds promotes and returns the
blocks that are due, newest first, and changes nothing else. -/
def MaturesExactly (answers : (o : Op) → o.Res) (tipHeight : Int)
    (minConfirmations : Nat) (db : Database) : Prop :=
  (∀ b ∈ db.foundBlocks.rows, b.status = .immature →
    CountFits tipHeight b.height) ∧
  ∀ fates matured t,
    maturation answers tipHeight minConfirmations fates db = (.ok matured, t) →
      matured = db.foundBlocks.rows.reverse.filter
        (due tipHeight minConfirmations) ∧
      t.conn = ⟨promote (due tipHeight minConfirmations) db, none⟩

/-! ## Promoting several blocks -/

theorem promote_congr {p q : FoundBlock → Bool} {db : Database}
    (h : ∀ b ∈ db.foundBlocks.rows, p b = q b) :
    promote p db = promote q db := by
  unfold promote
  rw [Table.modify_congr _ h]

theorem promote_promote {p q : FoundBlock → Bool} {db : Database}
    (hq : ∀ now b, q (FoundBlock.mature now b) = q b) :
    promote q (promote p db) = promote (fun b => p b || q b) db := by
  unfold promote
  dsimp only
  have hmature : ∀ b, FoundBlock.mature db.now (FoundBlock.mature db.now b) =
    FoundBlock.mature db.now b := fun _ => rfl
  rw [Table.modify_modify _ hmature (hq db.now)]

theorem promote_false {db : Database} : promote (fun _ => false) db = db := by
  unfold promote
  rw [Table.modify_false]

/-! ## The loop -/

variable {answers : (o : Op) → o.Res} {tipHeight : Int} {minConfirmations : Nat}

/-- A section that succeeds outside of a transaction. -/
theorem exec_section_ok {d : DbOp} {t t' : Attempt} {a : d.Res}
    (hclosed : t.conn.saved = none)
    (h : (db d).run.exec (Op.onConn answers) t = (.ok a, t')) :
    d.run t.conn.data = (.ok a, t'.conn.data) ∧ t'.conn.saved = none := by
  obtain ⟨new, r, t₁, hrun, _, _, hout⟩ :=
    d.atomic t _ (Conn.eq_of_closed hclosed)
  rw [d.eval_script] at hout
  cases hrun.symm.trans h
  generalize t'.conn = c at hout
  cases hout with
  | done hdone _ => exact ⟨d.run_of_meaning hdone, rfl⟩

/-- The test of the loop, in the arithmetic of the code. -/
def passes (tipHeight : Int) (minConfirmations : Nat) (b : FoundBlock) : Bool :=
  decide (toI32 minConfirmations ≤ confirms tipHeight b.height)

/-- One round of the loop that succeeds. -/
theorem matureBlock_ok {matured matured' : List FoundBlock} {b : FoundBlock}
    {t t' : Attempt} (hclosed : t.conn.saved = none)
    (h : (matureBlock tipHeight minConfirmations matured b).run.exec
      (Op.onConn answers) t = (.ok matured', t')) :
    matured' = matured ++ [b].filter (passes tipHeight minConfirmations) ∧
      t'.conn.data = promote
        (fun r => passes tipHeight minConfirmations b && b.id == r.id)
        t.conn.data ∧
      t'.conn.saved = none := by
  unfold matureBlock at h
  split_ifs at h with hpasses
  · have hpass : passes tipHeight minConfirmations b = true :=
      decide_eq_true hpasses
    obtain ⟨_, t₁, hmark, hrest⟩ := Prog.exec_exceptBind_eq_ok h
    obtain ⟨hrun, hclosed'⟩ := exec_section_ok hclosed hmark
    cases hrest
    refine ⟨by simp [hpass], ?_, hclosed'⟩
    have hdata : promote (fun r => r.id == b.id) t.conn.data = t'.conn.data :=
      congrArg Prod.snd hrun
    rw [← hdata]
    apply promote_congr
    intro r _
    rw [hpass, Bool.true_and, BEq.comm]
  · have hpass : passes tipHeight minConfirmations b = false :=
      decide_eq_false hpasses
    cases h
    simp [hpass, promote_false, hclosed]

/-- The loop, when it succeeds. -/
theorem matureBlocks_ok (l : List FoundBlock)
    {matured matured' : List FoundBlock} {t t' : Attempt}
    (hclosed : t.conn.saved = none)
    (h : (l.foldlM (matureBlock tipHeight minConfirmations) matured).run.exec
      (Op.onConn answers) t = (.ok matured', t')) :
    matured' = matured ++ l.filter (passes tipHeight minConfirmations) ∧
      t'.conn.data = promote (fun r => l.any fun b =>
        passes tipHeight minConfirmations b && b.id == r.id) t.conn.data ∧
      t'.conn.saved = none := by
  induction l generalizing matured t with
  | nil =>
    cases h
    simp [promote_false, hclosed]
  | cons b l ih =>
    rw [List.foldlM_cons] at h
    obtain ⟨matured₁, t₁, hstep, hrest⟩ := Prog.exec_exceptBind_eq_ok h
    obtain ⟨hmatured₁, hdata₁, hclosed₁⟩ := matureBlock_ok hclosed hstep
    obtain ⟨hmatured, hdata, hclosed'⟩ := ih hclosed₁ hrest
    refine ⟨?_, ?_, hclosed'⟩
    · rw [hmatured, hmatured₁, List.append_assoc, ← List.filter_append]
      rfl
    · rw [hdata, hdata₁, promote_promote fun _ _ => rfl]
      apply promote_congr
      intro r _
      rw [List.any_cons]

/-- What a call that succeeds does. -/
theorem maturation_ok {fates : Nat → Fate} {data : Database}
    {matured : List FoundBlock} {t : Attempt}
    (h : maturation answers tipHeight minConfirmations fates data =
      (.ok matured, t)) :
    matured = data.foundBlocks.rows.reverse.filter (fun b =>
        passes tipHeight minConfirmations b && b.status == .immature) ∧
      t.conn = ⟨promote (fun b => passes tipHeight minConfirmations b &&
        b.status == .immature) data, none⟩ := by
  unfold maturation checkMaturation at h
  obtain ⟨immature, t₁, hlist, hrest⟩ := Prog.exec_exceptBind_eq_ok h
  obtain ⟨hrun, hclosed₁⟩ := exec_section_ok rfl hlist
  have himmature : data.foundBlocks.rows.reverse.filter
      (fun b => b.status == .immature) = immature :=
    Except.ok.inj (congrArg Prod.fst hrun)
  have hdata₁ : data = t₁.conn.data := congrArg Prod.snd hrun
  obtain ⟨hmatured, hdata, hclosed⟩ := matureBlocks_ok immature hclosed₁ hrest
  constructor
  · rw [hmatured, ← himmature, List.nil_append, List.filter_filter]
  · rw [Conn.eq_of_closed hclosed, hdata, ← hdata₁]
    congr 1
    apply promote_congr
    intro b hb
    -- an id has one row, so the listed block with the id of `b` is `b`
    rw [Bool.eq_iff_iff, List.any_eq_true, Bool.and_eq_true, ← himmature]
    constructor
    · rintro ⟨b', hb', hpass⟩
      rw [List.mem_filter, List.mem_reverse] at hb'
      rw [Bool.and_eq_true, beq_iff_eq] at hpass
      rw [← data.foundBlocks.eq_of_id hb'.1 hb hpass.2]
      exact ⟨hpass.1, hb'.2⟩
    · rintro ⟨hpass, hstatus⟩
      refine ⟨b, List.mem_filter.2 ⟨List.mem_reverse.2 hb, hstatus⟩, ?_⟩
      rw [hpass, Bool.true_and, beq_self_eq_true]

/-- The loop succeeds when no statement is made to fail. -/
theorem matureBlocks_succeed (l matured : List FoundBlock) (data : Database)
    (log : List (Command Stmt × Fate)) :
    ∃ matured' t, (l.foldlM (matureBlock tipHeight minConfirmations)
      matured).run.exec (Op.onConn answers)
      ⟨⟨data, none⟩, fun _ => .succeeds, log⟩ = (.ok matured', t) := by
  induction l generalizing matured data log with
  | nil => exact ⟨matured, _, rfl⟩
  | cons b l ih =>
    rw [List.foldlM_cons]
    by_cases hpasses : toI32 minConfirmations ≤ confirms tipHeight b.height
    · have hstep : (matureBlock tipHeight minConfirmations matured b).run.exec
          (Op.onConn answers) ⟨⟨data, none⟩, fun _ => .succeeds, log⟩ =
          (.ok (matured ++ [b]),
            ⟨⟨promote (fun r => r.id == b.id) data, none⟩, fun _ => .succeeds,
              (.run (.single (.markMatured b.id)), .succeeds) :: log⟩) := by
        unfold matureBlock
        rw [if_pos hpasses]
        rfl
      rw [Prog.exec_exceptBind_ok hstep]
      exact ih ..
    · have hstep : (matureBlock tipHeight minConfirmations matured b).run.exec
          (Op.onConn answers) ⟨⟨data, none⟩, fun _ => .succeeds, log⟩ =
          (.ok matured, ⟨⟨data, none⟩, fun _ => .succeeds, log⟩) := by
        unfold matureBlock
        rw [if_neg hpasses]
        rfl
      rw [Prog.exec_exceptBind_ok hstep]
      exact ih ..

theorem maturation_succeeds (data : Database) :
    ∃ matured t, maturation answers tipHeight minConfirmations
      (fun _ => .succeeds) data = (.ok matured, t) :=
  matureBlocks_succeed ..

/-! ## The arithmetic -/

/-- Without an overflow in the count, the test goes wrong only for a minimum
that does not fit, and then only for a count that reaches what the minimum is
narrowed to. -/
theorem passes_iff {b : FoundBlock} (hfits : CountFits tipHeight b.height) :
    (passes tipHeight minConfirmations b = true ↔
      (minConfirmations : Int) ≤ tipHeight - b.height + 1) ↔
    (minConfirmations < 2 ^ 31 ∨
      tipHeight - b.height + 1 < toI32 minConfirmations) := by
  obtain ⟨hlow, hhigh⟩ := hfits
  have hcount : confirms tipHeight b.height = tipHeight - b.height + 1 :=
    toI32_of_lt (by omega) hhigh
  unfold passes
  rw [decide_eq_true_iff, hcount]
  by_cases hmin : minConfirmations < 2 ^ 31
  · have hsame : toI32 minConfirmations = minConfirmations :=
      toI32_of_lt (by omega) (by omega)
    rw [hsame]
    exact iff_of_true Iff.rfl (Or.inl hmin)
  · have hfew : ¬ (minConfirmations : Int) ≤ tipHeight - b.height + 1 := by
      omega
    simp only [hfew, hmin, iff_false, false_or, not_le]

theorem MaturesExactly.minimum {data : Database} {b : FoundBlock}
    (h : MaturesExactly answers tipHeight minConfirmations data)
    (hb : b ∈ data.foundBlocks.rows) (himmature : b.status = .immature) :
    minConfirmations < 2 ^ 31 ∨
      tipHeight - b.height + 1 < toI32 minConfirmations := by
  obtain ⟨hfits, hexact⟩ := h
  apply (passes_iff (hfits b hb himmature)).1
  obtain ⟨matured, t, hcall⟩ := maturation_succeeds data
  have hreturned := (hexact _ _ _ hcall).1
  rw [(maturation_ok hcall).1] at hreturned
  have hmem := congrArg (b ∈ ·) hreturned
  simpa [due, hb, himmature] using hmem

/-- `check_maturation` is exact if and only if no count of confirmations
leaves the type `i32`, and the minimum fits in that type or is narrowed to a
number that no immature block has reached. -/
theorem maturesExactly_iff (answers : (o : Op) → o.Res) (tipHeight : Int)
    (minConfirmations : Nat) (data : Database) :
    MaturesExactly answers tipHeight minConfirmations data ↔
      ∀ b ∈ data.foundBlocks.rows, b.status = .immature →
        CountFits tipHeight b.height ∧
          (minConfirmations < 2 ^ 31 ∨
            tipHeight - b.height + 1 < toI32 minConfirmations) := by
  constructor
  · intro h b hb himmature
    exact ⟨h.1 b hb himmature, h.minimum hb himmature⟩
  · intro h
    refine ⟨fun b hb himmature => (h b hb himmature).1, ?_⟩
    intro fates matured t hcall
    obtain ⟨hmatured, hconn⟩ := maturation_ok hcall
    have hsame : ∀ b ∈ data.foundBlocks.rows,
        (passes tipHeight minConfirmations b && b.status == .immature) =
          due tipHeight minConfirmations b := by
      intro b hb
      by_cases himmature : b.status = .immature
      · obtain ⟨hfits, hmin⟩ := h b hb himmature
        have hiff := (passes_iff hfits).2 hmin
        rw [Bool.eq_iff_iff]
        simp [due, himmature, hiff]
      · have hstatus : (b.status == .immature) = false :=
          beq_false_of_ne himmature
        simp [due, hstatus]
    rw [hmatured, hconn, promote_congr hsame]
    refine ⟨List.filter_congr fun b hb => ?_, rfl⟩
    exact hsame b (List.mem_reverse.1 hb)

/-- A block that has just been found at the given height. -/
def freshBlock (height : Int) : FoundBlock where
  roundId := 1
  blockHash := "00"
  height := height
  templateId := none
  persistSource := none
  coinbaseValue := 0
  networkTargetHex := ""

/-- The database with this block alone. -/
def freshBlockOnly (height : Int) : Database :=
  (FoundBlockRepository.recordFoundBlock (freshBlock height) (initSchema 0)).2

/-- With 2^32 as the minimum, a block matures with its first confirmation.
And at the highest tip, the count for the first block of the chain
overflows. -/
theorem maturesExactly_fails :
    ¬ MaturesExactly noAnswers 1000 (2 ^ 32) (freshBlockOnly 1000) ∧
      ¬ MaturesExactly noAnswers (2 ^ 31 - 1) 100 (freshBlockOnly 0) := by
  have hmem : ∀ height, ({ freshBlock height with id := 1 } : FoundBlock) ∈
      (freshBlockOnly height).foundBlocks.rows :=
    fun _ => List.mem_singleton.2 rfl
  constructor
  · intro h
    have hmin := h.minimum (hmem 1000) rfl
    revert hmin
    decide
  · intro h
    have hfits := h.1 _ (hmem 0) rfl
    revert hfits
    decide

end StratumServer
