import StratumServer.Accounting.Statements
import StratumServer.Payouts.Window
import StratumServer.Payouts.Work

/-!
# Shares of the same second

The query of `calculate_pplns_window` sorts by `created_at`, which counts
seconds, and has no second criterion.  So the database may return the rows of
one second in any order, and where the window ends within a second, the order
decides who is in it.

There are four groups.

* The orders of the rows, and the window for each of them (`windowOf`).
* The second in which the window ends.  The rows that are newer are all in the
  window, whatever their order, and the rows of that second make the
  difference.
* Ties that agree.  `TiesAgree` is the condition on that second: it is needed
  as a whole, or its rows are alike, or there is one address only.
* The payouts.  Where the ties agree, all orders give the same payouts
  (`tieFree_of_tiesAgree`).
-/

namespace StratumServer

open LargestRemainder

/-! ## The orders -/

/-- An order of the rows that satisfies `ORDER BY created_at DESC`. -/
structure RowOrder (db : Database) (foundAt : Nat)
    (l : List PplnsShareEntry) : Prop where
  perm : l.Perm (windowRows db foundAt)
  newestFirst : l.Pairwise fun a b => b.createdAt ≤ a.createdAt

/-- The order of the ids is one of them. -/
theorem rowOrder_windowRows (db : Database) (foundAt : Nat) :
    RowOrder db foundAt (windowRows db foundAt) :=
  ⟨List.Perm.refl _, windowRows_newestFirst db foundAt⟩

/-- The window for the rows in this order. -/
def windowOf (settings : PayoutSettings) (networkDifficulty : ℚ)
    (l : List PplnsShareEntry) : List PplnsShareEntry :=
  cutoff (settings.nMultiplier * networkDifficulty) 0 l

theorem calculatePplnsWindow_eq (db : Database) (foundAt : Nat)
    (settings : PayoutSettings) (networkDifficulty : ℚ) :
    calculatePplnsWindow db foundAt settings.nMultiplier networkDifficulty =
      windowOf settings networkDifficulty (windowRows db foundAt) := rfl

/-! ## The second in which the window ends -/

/-- The rows after a second. -/
def newerThan (rows : List PplnsShareEntry) (t : Nat) : List PplnsShareEntry :=
  rows.filter (t < ·.createdAt)

/-- The rows of a second. -/
def atSecond (rows : List PplnsShareEntry) (t : Nat) : List PplnsShareEntry :=
  rows.filter (·.createdAt = t)

/-- A list that is sorted by the second has the rows after a second first,
then those of the second. -/
theorem eq_seconds {l : List PplnsShareEntry}
    (h : l.Pairwise fun a b => b.createdAt ≤ a.createdAt) (t : Nat) :
    l = newerThan l t ++ (atSecond l t ++ l.filter (·.createdAt < t)) := by
  unfold newerThan atSecond
  induction l with
  | nil => rfl
  | cons e l ih =>
    obtain ⟨hhead, htail⟩ := List.pairwise_cons.1 h
    have hrest := ih htail
    rcases lt_trichotomy t e.createdAt with hlt | rfl | hgt
    · rw [List.filter_cons_of_pos (by simpa using hlt),
        List.filter_cons_of_neg (by simpa using hlt.ne'),
        List.filter_cons_of_neg (by simpa using hlt.le), List.cons_append,
        ← hrest]
    · have hnewer : l.filter (e.createdAt < ·.createdAt) = [] :=
        List.filter_eq_nil_iff.2 fun x hx => by simpa using hhead x hx
      rw [hnewer, List.nil_append] at hrest
      rw [List.filter_cons_of_neg (by simp), hnewer, List.nil_append,
        List.filter_cons_of_pos (by simp), List.filter_cons_of_neg (by simp),
        List.cons_append, ← hrest]
    · have hnewer : l.filter (t < ·.createdAt) = [] :=
        List.filter_eq_nil_iff.2 fun x hx => by
          simpa using (hhead x hx).trans hgt.le
      have hsecond : l.filter (·.createdAt = t) = [] :=
        List.filter_eq_nil_iff.2 fun x hx => by
          simpa using ((hhead x hx).trans_lt hgt).ne
      rw [hnewer, hsecond, List.nil_append, List.nil_append] at hrest
      rw [List.filter_cons_of_neg (by simpa using hgt.le), hnewer,
        List.filter_cons_of_neg (by simpa using hgt.ne), hsecond,
        List.filter_cons_of_pos (by simpa using hgt), List.nil_append,
        List.nil_append, ← hrest]

theorem work_perm {l l' : List PplnsShareEntry} (h : l.Perm l') :
    work l = work l' :=
  (h.map _).sum_eq

theorem difficulty_le_work {l : List PplnsShareEntry}
    (hpos : ∀ e ∈ l, 0 < e.difficulty) {e : PplnsShareEntry} (he : e ∈ l) :
    e.difficulty ≤ work l := by
  refine List.single_le_sum (fun d hd => ?_) _ (List.mem_map_of_mem he)
  obtain ⟨x, hx, rfl⟩ := List.mem_map.1 hd
  exact (hpos x hx).le

section Cutoff

variable {threshold cumulative : ℚ} {l l' : List PplnsShareEntry}

/-- Rows that do not reach the threshold are kept. -/
theorem cutoff_append_of_lt (hpos : ∀ e ∈ l, 0 < e.difficulty)
    (h : l = [] ∨ cumulative + work l < threshold) :
    cutoff threshold cumulative (l ++ l') =
      l ++ cutoff threshold (cumulative + work l) l' := by
  induction l generalizing cumulative with
  | nil => rw [work_nil, add_zero, List.nil_append, List.nil_append]
  | cons e l ih =>
    have hlt := h.resolve_left (List.cons_ne_nil e l)
    rw [work_cons, ← add_assoc] at hlt
    have hrest : ∀ x ∈ l, 0 < x.difficulty :=
      fun x hx => hpos x (List.mem_cons_of_mem _ hx)
    have hbelow : ¬ threshold ≤ cumulative + e.difficulty := by
      have hnonneg := work_nonneg hrest
      exact not_le.2 (by linarith)
    rw [List.cons_append, cutoff, if_neg hbelow, ih hrest (Or.inr hlt),
      work_cons, add_assoc, List.cons_append]

/-- Rows that reach the threshold are the last ones that count. -/
theorem cutoff_append_of_le (hne : l ≠ [])
    (h : threshold ≤ cumulative + work l) :
    cutoff threshold cumulative (l ++ l') = cutoff threshold cumulative l := by
  induction l generalizing cumulative with
  | nil => exact absurd rfl hne
  | cons e l ih =>
    rw [List.cons_append, cutoff, cutoff]
    split_ifs with hreached
    · rfl
    · rw [work_cons, ← add_assoc] at h
      rw [ih ?_ h]
      rintro rfl
      rw [work_nil, add_zero] at h
      exact hreached h

/-- Rows that are all needed are all kept. -/
theorem cutoff_of_needed (hpos : ∀ e ∈ l, 0 < e.difficulty)
    (h : ∀ e ∈ l, cumulative + work l - e.difficulty < threshold) :
    cutoff threshold cumulative l = l := by
  induction l generalizing cumulative with
  | nil => rfl
  | cons e l ih =>
    have hrest : ∀ x ∈ l, 0 < x.difficulty :=
      fun x hx => hpos x (List.mem_cons_of_mem _ hx)
    rw [cutoff]
    split_ifs with hreached
    · -- Another row would not be needed.
      cases l with
      | nil => rfl
      | cons x l =>
        have hneeded := h x (List.mem_cons_of_mem _ List.mem_cons_self)
        have hle := work_nonneg fun y hy => hrest y (List.mem_cons_of_mem _ hy)
        rw [work_cons, work_cons] at hneeded
        linarith
    · congr 1
      refine ih hrest fun x hx => ?_
      have hneeded := h x (List.mem_cons_of_mem _ hx)
      rwa [work_cons, ← add_assoc] at hneeded

/-- Of rows that are alike, it does not matter which are kept. -/
theorem cutoff_alike {a : String} {d : ℚ}
    (h : ∀ e ∈ l, (e.payoutAddress, e.difficulty) = (a, d))
    (h' : ∀ e ∈ l', (e.payoutAddress, e.difficulty) = (a, d))
    (hlength : l.length = l'.length) :
    SameWork (cutoff threshold cumulative l)
      (cutoff threshold cumulative l') := by
  induction l generalizing cumulative l' with
  | nil =>
    rw [List.eq_nil_of_length_eq_zero hlength.symm]
    exact List.Perm.refl _
  | cons e l ih =>
    cases l' with
    | nil => cases hlength
    | cons e' l' =>
      have he := h e List.mem_cons_self
      have he' := h' e' List.mem_cons_self
      have hdifficulty : e.difficulty = e'.difficulty :=
        congrArg Prod.snd (he.trans he'.symm)
      have hrest : SameWork
          (cutoff threshold (cumulative + e'.difficulty) l)
          (cutoff threshold (cumulative + e'.difficulty) l') :=
        ih (fun x hx => h x (List.mem_cons_of_mem _ hx))
          (fun x hx => h' x (List.mem_cons_of_mem _ hx))
          (Nat.succ.inj hlength)
      rw [cutoff, cutoff, hdifficulty]
      unfold SameWork at hrest ⊢
      split_ifs
      · rw [List.map_singleton, List.map_singleton, he, he']
      · rw [List.map_cons, List.map_cons, he, he']
        exact hrest.cons _

end Cutoff

/-- The window ends in the second `t`, with all the rows that are newer. -/
structure EndsIn (rows : List PplnsShareEntry) (threshold : ℚ) (t : Nat) :
    Prop where
  newer : newerThan rows t = [] ∨ work (newerThan rows t) < threshold
  second : atSecond rows t ≠ []
  reached : threshold ≤ work (newerThan rows t) + work (atSecond rows t)

/-- The order of the rows does not matter for where the window ends. -/
theorem EndsIn.perm {rows rows' : List PplnsShareEntry} {threshold : ℚ}
    {t : Nat} (h : EndsIn rows threshold t) (hperm : rows.Perm rows') :
    EndsIn rows' threshold t := by
  have hnewer : (newerThan rows t).Perm (newerThan rows' t) := hperm.filter _
  have hsecond : (atSecond rows t).Perm (atSecond rows' t) := hperm.filter _
  refine ⟨?_, fun hnil => h.second ?_, ?_⟩
  · rw [← work_perm hnewer]
    refine h.newer.imp_left fun hnil => ?_
    rw [hnil] at hnewer
    exact hnewer.nil_eq.symm
  · rw [hnil] at hsecond
    exact hsecond.eq_nil
  · rw [← work_perm hnewer, ← work_perm hsecond]
    exact h.reached

section Orders

variable {db : Database} {foundAt : Nat} {settings : PayoutSettings}
  {networkDifficulty : ℚ} {l l' : List PplnsShareEntry} {t : Nat}

/-- A list that is sorted by the second, cut behind the row `e`: before the cut
are all rows that are newer than `e`, and rows of its second. -/
theorem cut_at_second {kept older : List PplnsShareEntry} {e : PplnsShareEntry}
    (h : (kept ++ [e] ++ older).Pairwise fun a b => b.createdAt ≤ a.createdAt) :
    kept ++ [e] = newerThan (kept ++ [e] ++ older) e.createdAt ++
      atSecond (kept ++ [e]) e.createdAt := by
  obtain ⟨hsorted, _, hcut⟩ := List.pairwise_append.1 h
  have hnone : (kept ++ [e]).filter (·.createdAt < e.createdAt) = [] := by
    refine List.filter_eq_nil_iff.2 fun x hx => ?_
    rcases List.mem_append.1 hx with hx | hx
    · have hle := (List.pairwise_append.1 hsorted).2.2 x hx e List.mem_cons_self
      simpa using hle
    · simp [List.mem_singleton.1 hx]
  have holder : newerThan older e.createdAt = [] := by
    refine List.filter_eq_nil_iff.2 fun x hx => ?_
    have hle := hcut e (List.mem_append_right _ List.mem_cons_self) x hx
    simpa using hle
  have hsplit := eq_seconds hsorted e.createdAt
  rw [hnone, List.append_nil] at hsplit
  have hnewer : newerThan (kept ++ [e] ++ older) e.createdAt =
      newerThan (kept ++ [e]) e.createdAt := by
    unfold newerThan at holder ⊢
    rw [List.filter_append, holder, List.append_nil]
  rw [hnewer]
  exact hsplit

variable (settings networkDifficulty) in
/-- The window is the whole list, or it ends in some second. -/
theorem RowOrder.whole_or_endsIn (hl : RowOrder db foundAt l)
    (hpos : ∀ e ∈ l, 0 < e.difficulty) :
    windowOf settings networkDifficulty l = l ∨
      ∃ t, EndsIn l (settings.nMultiplier * networkDifficulty) t := by
  have hcut : IsCut (settings.nMultiplier * networkDifficulty) 0 l
      (windowOf settings networkDifficulty l) := isCut_cutoff _ l 0
  generalize windowOf settings networkDifficulty l = c at hcut
  obtain ⟨⟨older, rfl, hor⟩, hbelow⟩ := hcut
  rcases hor with rfl | ⟨hne, hreached⟩
  · exact Or.inl (List.append_nil c).symm
  -- The window ends in the second of its last row.
  obtain ⟨kept, e, rfl⟩ := (List.eq_nil_or_concat' c).resolve_left hne
  have hsplit := cut_at_second hl.newestFirst
  have hmem : e ∈ atSecond (kept ++ [e]) e.createdAt :=
    List.mem_filter.2 ⟨List.mem_append_right _ List.mem_cons_self, by simp⟩
  have hsub : (atSecond (kept ++ [e]) e.createdAt).Sublist
      (atSecond (kept ++ [e] ++ older) e.createdAt) :=
    (List.sublist_append_left _ _).filter _
  refine Or.inr ⟨e.createdAt, ?_, List.ne_nil_of_mem (hsub.subset hmem), ?_⟩
  · by_cases hnil : newerThan (kept ++ [e] ++ older) e.createdAt = []
    · exact Or.inl hnil
    · have hlt := hbelow _ _ hsplit hnil (List.ne_nil_of_mem hmem)
      exact Or.inr (by rwa [zero_add] at hlt)
  · rw [zero_add, hsplit, work_append] at hreached
    have hle : work (atSecond (kept ++ [e]) e.createdAt) ≤
        work (atSecond (kept ++ [e] ++ older) e.createdAt) := by
      refine (hsub.map _).sum_le_sum fun d hd => ?_
      obtain ⟨x, hx, rfl⟩ := List.mem_map.1 hd
      exact (hpos x (List.mem_filter.1 hx).1).le
    linarith

/-- The window of an order, when the second in which it ends is known. -/
theorem RowOrder.windowOf_eq (hl : RowOrder db foundAt l)
    (hpos : ∀ e ∈ l, 0 < e.difficulty)
    (h : EndsIn l (settings.nMultiplier * networkDifficulty) t) :
    windowOf settings networkDifficulty l = newerThan l t ++
      cutoff (settings.nMultiplier * networkDifficulty) (work (newerThan l t))
        (atSecond l t) := by
  have hsplit := eq_seconds hl.newestFirst t
  unfold windowOf
  conv_lhs => rw [hsplit]
  have hnewer : ∀ e ∈ newerThan l t, 0 < e.difficulty :=
    fun e he => hpos e (List.mem_filter.1 he).1
  rw [cutoff_append_of_lt hnewer (by simpa using h.newer), zero_add,
    cutoff_append_of_le h.second h.reached]

end Orders

/-! ## Ties that agree -/

/-- The window may end before the row `e` in the second of `e`: the rows that
are newer do not reach the threshold, and the others up to that second do. -/
def MayMiss (rows : List PplnsShareEntry) (threshold : ℚ)
    (e : PplnsShareEntry) : Prop :=
  (newerThan rows e.createdAt = [] ∨
      work (newerThan rows e.createdAt) < threshold) ∧
    threshold ≤ work (newerThan rows e.createdAt) +
      work (atSecond rows e.createdAt) - e.difficulty

/-- Where the window may end before a row of a second, the rows of that second
have one address and one difficulty, or all rows up to then have one
address. -/
def TiesAgree (rows : List PplnsShareEntry) (threshold : ℚ) : Prop :=
  ∀ e ∈ rows, MayMiss rows threshold e →
    (∀ x ∈ atSecond rows e.createdAt,
        (x.payoutAddress, x.difficulty) = (e.payoutAddress, e.difficulty)) ∨
      ∀ x ∈ newerThan rows e.createdAt ++ atSecond rows e.createdAt,
        x.payoutAddress = e.payoutAddress

instance (rows : List PplnsShareEntry) (threshold : ℚ)
    (e : PplnsShareEntry) : Decidable (MayMiss rows threshold e) :=
  inferInstanceAs (Decidable ((_ ∨ _) ∧ _))

instance (rows : List PplnsShareEntry) (threshold : ℚ) :
    Decidable (TiesAgree rows threshold) :=
  inferInstanceAs (Decidable (∀ _ ∈ _, _ → _ ∨ _))

/-- The shares are of one address. -/
def OneAddress (shares : List PplnsShareEntry) (a : String) : Prop :=
  shares ≠ [] ∧ ∀ e ∈ shares, 0 < e.difficulty ∧ e.payoutAddress = a

section Windows

variable {db : Database} {foundAt : Nat} {settings : PayoutSettings}
  {networkDifficulty : ℚ} {l l' : List PplnsShareEntry} {t : Nat}

/-- The rows of the second are all needed, so every order keeps them. -/
theorem RowOrder.windowOf_of_needed (hl : RowOrder db foundAt l)
    (hpos : ∀ e ∈ windowRows db foundAt, 0 < e.difficulty)
    (ht : EndsIn (windowRows db foundAt)
      (settings.nMultiplier * networkDifficulty) t)
    (hneeded : ∀ e ∈ atSecond (windowRows db foundAt) t,
      work (newerThan (windowRows db foundAt) t) +
          work (atSecond (windowRows db foundAt) t) - e.difficulty <
        settings.nMultiplier * networkDifficulty) :
    windowOf settings networkDifficulty l = newerThan l t ++ atSecond l t := by
  have hl_pos : ∀ e ∈ l, 0 < e.difficulty :=
    fun e he => hpos e (hl.perm.subset he)
  have hnewer : (newerThan l t).Perm (newerThan (windowRows db foundAt) t) :=
    hl.perm.filter _
  have hsecond : (atSecond l t).Perm (atSecond (windowRows db foundAt) t) :=
    hl.perm.filter _
  rw [hl.windowOf_eq hl_pos (ht.perm hl.perm.symm)]
  congr 1
  refine cutoff_of_needed (fun e he => hl_pos e (List.mem_filter.1 he).1)
    fun e he => ?_
  rw [work_perm hnewer, work_perm hsecond]
  exact hneeded e (hsecond.subset he)

/-- All rows up to the second are of one address, and so is every window. -/
theorem RowOrder.oneAddress (hl : RowOrder db foundAt l)
    (hpos : ∀ e ∈ windowRows db foundAt, 0 < e.difficulty)
    (ht : EndsIn (windowRows db foundAt)
      (settings.nMultiplier * networkDifficulty) t) {a : String}
    (halone : ∀ x ∈ newerThan (windowRows db foundAt) t ++
      atSecond (windowRows db foundAt) t, x.payoutAddress = a) :
    OneAddress (windowOf settings networkDifficulty l) a := by
  have hl_pos : ∀ e ∈ l, 0 < e.difficulty :=
    fun e he => hpos e (hl.perm.subset he)
  have hends := ht.perm hl.perm.symm
  rw [hl.windowOf_eq hl_pos hends]
  obtain ⟨⟨older, hcut, hor⟩, _⟩ := isCut_cutoff
    (settings.nMultiplier * networkDifficulty) (atSecond l t)
    (work (newerThan l t))
  refine ⟨fun hnil => ?_, fun e he => ?_⟩
  · have hempty := (List.append_eq_nil_iff.1 hnil).2
    rw [hempty] at hcut hor
    rcases hor with rfl | ⟨hne, _⟩
    · exact hends.second hcut
    · exact hne rfl
  · have hmem : e ∈ newerThan l t ++ atSecond l t := by
      rcases List.mem_append.1 he with he | he
      · exact List.mem_append_left _ he
      · rw [hcut]
        exact List.mem_append_right _ (List.mem_append_left _ he)
    have hperm : (newerThan l t ++ atSecond l t).Perm
        (newerThan (windowRows db foundAt) t ++
          atSecond (windowRows db foundAt) t) :=
      (hl.perm.filter _).append (hl.perm.filter _)
    refine ⟨hl_pos e ?_, halone e (hperm.subset hmem)⟩
    rcases List.mem_append.1 hmem with he | he <;>
      exact (List.mem_filter.1 he).1

/-- The rows of the second are alike, so it does not matter which are kept. -/
theorem RowOrder.sameWork_of_alike (hl : RowOrder db foundAt l)
    (hl' : RowOrder db foundAt l')
    (hpos : ∀ e ∈ windowRows db foundAt, 0 < e.difficulty)
    (ht : EndsIn (windowRows db foundAt)
      (settings.nMultiplier * networkDifficulty) t) {a : String} {d : ℚ}
    (halike : ∀ x ∈ atSecond (windowRows db foundAt) t,
      (x.payoutAddress, x.difficulty) = (a, d)) :
    SameWork (windowOf settings networkDifficulty l)
      (windowOf settings networkDifficulty l') := by
  have hperm := hl.perm.trans hl'.perm.symm
  have hnewer : (newerThan l t).Perm (newerThan l' t) := hperm.filter _
  have hsecond : (atSecond l t).Perm (atSecond l' t) := hperm.filter _
  rw [hl.windowOf_eq (fun e he => hpos e (hl.perm.subset he))
      (ht.perm hl.perm.symm),
    hl'.windowOf_eq (fun e he => hpos e (hl'.perm.subset he))
      (ht.perm hl'.perm.symm), work_perm hnewer]
  unfold SameWork
  rw [List.map_append, List.map_append]
  refine (hnewer.map _).append (cutoff_alike (a := a) (d := d)
    (fun e he => ?_) (fun e he => ?_) hsecond.length_eq)
  · exact halike e ((hl.perm.filter _).subset he)
  · exact halike e ((hl'.perm.filter _).subset he)

/-- The second in which the windows end is the same for all orders, and the
ties agree in it. -/
theorem RowOrder.agree_of_endsIn (hl : RowOrder db foundAt l)
    (hl' : RowOrder db foundAt l')
    (hpos : ∀ e ∈ windowRows db foundAt, 0 < e.difficulty)
    (hties : TiesAgree (windowRows db foundAt)
      (settings.nMultiplier * networkDifficulty))
    (ht : EndsIn (windowRows db foundAt)
      (settings.nMultiplier * networkDifficulty) t) :
    SameWork (windowOf settings networkDifficulty l)
        (windowOf settings networkDifficulty l') ∨
      ∃ a, OneAddress (windowOf settings networkDifficulty l) a ∧
        OneAddress (windowOf settings networkDifficulty l') a := by
  by_cases hneeded : ∀ e ∈ atSecond (windowRows db foundAt) t,
      work (newerThan (windowRows db foundAt) t) +
          work (atSecond (windowRows db foundAt) t) - e.difficulty <
        settings.nMultiplier * networkDifficulty
  · left
    have hperm := hl.perm.trans hl'.perm.symm
    rw [hl.windowOf_of_needed hpos ht hneeded,
      hl'.windowOf_of_needed hpos ht hneeded]
    exact ((hperm.filter _).append (hperm.filter _)).map _
  · push Not at hneeded
    obtain ⟨e, he, hmiss⟩ := hneeded
    obtain ⟨hrow, hsecond⟩ := List.mem_filter.1 he
    obtain rfl := of_decide_eq_true hsecond
    rcases hties e hrow ⟨ht.newer, hmiss⟩ with halike | halone
    · exact Or.inl (hl.sameWork_of_alike hl' hpos ht halike)
    · exact Or.inr ⟨_, hl.oneAddress hpos ht halone,
        hl'.oneAddress hpos ht halone⟩

/-- Where the ties agree, all orders lead to the same work, or to windows of
one address. -/
theorem windows_agree (hl : RowOrder db foundAt l)
    (hl' : RowOrder db foundAt l')
    (hpos : ∀ e ∈ windowRows db foundAt, 0 < e.difficulty)
    (hties : TiesAgree (windowRows db foundAt)
      (settings.nMultiplier * networkDifficulty)) :
    SameWork (windowOf settings networkDifficulty l)
        (windowOf settings networkDifficulty l') ∨
      ∃ a, OneAddress (windowOf settings networkDifficulty l) a ∧
        OneAddress (windowOf settings networkDifficulty l') a := by
  rcases hl.whole_or_endsIn settings networkDifficulty
      (fun e he => hpos e (hl.perm.subset he)) with hwhole | ⟨t, ht⟩
  · rcases hl'.whole_or_endsIn settings networkDifficulty
        (fun e he => hpos e (hl'.perm.subset he)) with hwhole' | ⟨t, ht⟩
    · left
      rw [hwhole, hwhole']
      exact (hl.perm.trans hl'.perm.symm).map _
    · exact hl.agree_of_endsIn hl' hpos hties (ht.perm hl'.perm)
  · exact hl.agree_of_endsIn hl' hpos hties (ht.perm hl.perm)

end Windows

/-! ## The payouts -/

/-- The plan for the rows in the given order. -/
def planOf (db : Database) (block : FoundBlock) (networkDifficulty : ℚ)
    (grossReward : Int) (settings : PayoutSettings)
    (l : List PplnsShareEntry) : PayoutPlan :=
  buildPayoutPlan block networkDifficulty grossReward settings
    (dustBalances db) (windowOf settings networkDifficulty l)

/-- The plan of the sections for payouts is the one for the order of the
ids. -/
theorem planFor_eq_planOf (db : Database) (foundAt : Nat) (block : FoundBlock)
    (networkDifficulty : ℚ) (grossReward : Int) (settings : PayoutSettings) :
    (planFor block networkDifficulty grossReward settings foundAt db).2 =
      planOf db block networkDifficulty grossReward settings
        (windowRows db foundAt) := rfl

/-- All orders of the rows give every address the same amount and the same
dust. -/
def TieFree (db : Database) (foundAt : Nat) (block : FoundBlock)
    (networkDifficulty : ℚ) (grossReward : Int) (settings : PayoutSettings) :
    Prop :=
  ∀ l l', RowOrder db foundAt l → RowOrder db foundAt l' → ∀ a,
    received (planOf db block networkDifficulty grossReward settings l) a =
      received (planOf db block networkDifficulty grossReward settings l') a

section Received

variable {block : FoundBlock} {networkDifficulty : ℚ} {grossReward : Int}
  {settings : PayoutSettings} {dustBalances : List (String × Int)}
  {shares shares' : List PplnsShareEntry}

theorem received_congr (h : SameWork shares shares') (a : String) :
    received (buildPayoutPlan block networkDifficulty grossReward settings
        dustBalances shares) a =
      received (buildPayoutPlan block networkDifficulty grossReward settings
        dustBalances shares') a := by
  have hbare := congrArg (List.map PayoutOutput.triple) (outputs_congr h block
    networkDifficulty grossReward settings dustBalances)
  rw [List.map_map, List.map_map] at hbare
  have htriples : (buildPayoutPlan block networkDifficulty grossReward settings
      dustBalances shares).outputs.map PayoutOutput.triple =
      (buildPayoutPlan block networkDifficulty grossReward settings
        dustBalances shares').outputs.map PayoutOutput.triple := hbare
  rw [received_eq_triples, received_eq_triples, htriples]

/-- The only address of a window gets the whole net reward. -/
theorem receivedTotal_oneAddress {b : String} (h : OneAddress shares b)
    (hnet : 0 < netReward grossReward settings) (a : String) :
    receivedTotal (buildPayoutPlan block networkDifficulty grossReward settings
        dustBalances shares) a =
      if a = b then netReward grossReward settings else 0 := by
  obtain ⟨hne, hall⟩ := h
  have haddresses : addresses shares = {b} := by
    ext x
    rw [mem_addresses, Finset.mem_singleton, List.mem_map]
    constructor
    · rintro ⟨e, he, rfl⟩
      exact (hall e he).2
    · rintro rfl
      obtain ⟨e, he⟩ := List.exists_mem_of_ne_nil _ hne
      exact ⟨e, he, (hall e he).2⟩
  have hweight : 0 < ∑ c ∈ addresses shares,
      weight grossReward dustBalances shares c := by
    rw [haddresses, Finset.sum_singleton]
    obtain ⟨e, he⟩ := List.exists_mem_of_ne_nil _ hne
    have hwork : 0 < shareWork shares b := by
      have hself : shares.filter (·.payoutAddress == b) = shares :=
        List.filter_eq_self.2 fun x hx => beq_iff_eq.2 (hall x hx).2
      unfold shareWork
      rw [hself]
      exact ((hall e he).1).trans_le
        (difficulty_le_work (fun x hx => (hall x hx).1) he)
    exact add_pos_of_pos_of_nonneg hwork (dustBonus_nonneg _ _ _)
  split_ifs with hab
  · rw [hab, receivedTotal_of_mem (by rw [haddresses]; simp) hweight hnet]
    have hquota : ∑ c ∈ addresses shares, quota
        (weight grossReward dustBalances shares) (addresses shares)
        (netReward grossReward settings) c = netReward grossReward settings :=
      sum_quota hweight.ne'
    have hsum := sum_part hquota
    unfold partOf
    rw [haddresses, Finset.sum_singleton] at hsum
    rw [haddresses]
    exact hsum
  · refine receivedTotal_eq_zero fun hmem => hab ?_
    have ha := hmem.1
    rwa [haddresses, Finset.mem_singleton] at ha

end Received

/-- The ties do not matter when there is no reward, and when all shares count
and the ties agree. -/
theorem tieFree_of_tiesAgree {db : Database} {foundAt : Nat}
    {networkDifficulty : ℚ} {grossReward : Int} {settings : PayoutSettings}
    (h : netReward grossReward settings ≤ 0 ∨
      (∀ e ∈ windowRows db foundAt, 0 < e.difficulty) ∧
        TiesAgree (windowRows db foundAt)
          (settings.nMultiplier * networkDifficulty)) (block : FoundBlock) :
    TieFree db foundAt block networkDifficulty grossReward settings := by
  intro l l' hl hl' a
  unfold planOf
  rcases le_or_gt (netReward grossReward settings) 0 with hnet | hnet
  · rw [received_eq_zero fun h => absurd h.2.2 (not_lt.2 hnet),
      received_eq_zero fun h => absurd h.2.2 (not_lt.2 hnet)]
  · obtain ⟨hpos, hties⟩ := h.resolve_left (not_le.2 hnet)
    rcases windows_agree hl hl' hpos hties with hsame | ⟨b, hone, hone'⟩
    · exact received_congr hsame a
    · rw [received_eq_clipPart, received_eq_clipPart,
        receivedTotal_oneAddress hone hnet, receivedTotal_oneAddress hone' hnet]

/-- An accepted share of difficulty one, with the worker and the second. -/
def addShareOf (workerId : Nat) (nonce : String) (now : Nat) (db : Database) :
    Database :=
  (ShareRepository.insertShareAndOutcomeAtomic
    { workerId, sessionId := "s", jobId := "j", templateId := 1,
      templateEpoch := 1, extranonce1 := "", extranonce2 := "",
      ntimeHex6b := "", nonceHex8b := nonce, difficulty := 1,
      dedupeKey := nonce }
    { sessionId := "s", workerId, jobId := "j", roundId := some 1,
      dedupeKey := nonce, status := .accepted, rejectReason := none,
      lowDiffOk := some true, networkTargetOk := some false,
      blockHash := none }
    { db with now }).2

/-- Two shares of a worker in one second, and one of another worker after
that. -/
def alikeShares : Database :=
  let db := (WorkerRepository.upsert "lotus_a" (some "rig") (initSchema 0)).2
  let db := (WorkerRepository.upsert "lotus_b" (some "rig") db).2
  let db := (RoundRepository.getOrCreateCurrentRound 1 db).2
  addShareOf 2 "n3" 11 (addShareOf 1 "n2" 10 (addShareOf 1 "n1" 10 db))

/-- The window has room for one of the two shares.  They are alike, so both
workers get one half. -/
theorem tieFree_of_tiesAgree_sample :
    let settings := { smallFee with nMultiplier := 2 }
    (∀ e ∈ windowRows alikeShares 11, 0 < e.difficulty) ∧
      TiesAgree (windowRows alikeShares 11) (settings.nMultiplier * 1) ∧
      (windowOf settings 1 (windowRows alikeShares 11)).length = 2 ∧
      TieFree alikeShares 11 sampleBlock 1 100 settings := by
  intro settings
  have hpos : ∀ e ∈ windowRows alikeShares 11, 0 < e.difficulty := by
    decide +kernel
  have hties : TiesAgree (windowRows alikeShares 11)
      (settings.nMultiplier * 1) := by
    decide +kernel
  exact ⟨hpos, hties, by decide +kernel,
    tieFree_of_tiesAgree (Or.inr ⟨hpos, hties⟩) sampleBlock⟩

/-- Two workers with a share each, both in the same second. -/
def tiedShares : Database :=
  let db := (WorkerRepository.upsert "lotus_a" (some "rig") (initSchema 0)).2
  let db := (WorkerRepository.upsert "lotus_b" (some "rig") db).2
  let db := (RoundRepository.getOrCreateCurrentRound 1 db).2
  addShareOf 2 "n2" 10 (addShareOf 1 "n1" 10 db)

def tiedRows : List PplnsShareEntry :=
  [⟨1, 1, 1, "lotus_a", 1, 10⟩, ⟨2, 2, 2, "lotus_b", 1, 10⟩]

/-- The window has room for one of the two shares, and the order of the rows
decides who gets the whole reward. -/
theorem tieFree_fails :
    let settings := { smallFee with nMultiplier := 1 }
    ¬ TieFree tiedShares 10 sampleBlock 1 100 settings ∧
      received (planOf tiedShares sampleBlock 1 100 settings tiedRows)
        "lotus_a" = (99, 0) ∧
      received (planOf tiedShares sampleBlock 1 100 settings tiedRows.reverse)
        "lotus_a" = (0, 0) := by
  intro settings
  have hfirst : received (planOf tiedShares sampleBlock 1 100 settings tiedRows)
      "lotus_a" = (99, 0) := by
    decide +kernel
  have hlast : received (planOf tiedShares sampleBlock 1 100 settings
      tiedRows.reverse) "lotus_a" = (0, 0) := by
    decide +kernel
  have hrows : windowRows tiedShares 10 = tiedRows := by decide +kernel
  refine ⟨fun h => ?_, hfirst, hlast⟩
  have hsame := h tiedRows tiedRows.reverse
    ⟨by rw [hrows], by decide⟩
    ⟨by rw [hrows]; exact List.reverse_perm _, by decide⟩ "lotus_a"
  rw [hfirst, hlast] at hsame
  exact absurd hsame (by decide)

end StratumServer
