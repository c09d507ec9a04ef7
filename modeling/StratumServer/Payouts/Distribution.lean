import StratumServer.Accounting.PayoutSections
import StratumServer.Lib.Apportion
import Mathlib.Algebra.Order.BigOperators.Group.List
import Mathlib.Data.String.Basic

/-!
# What a payout plan distributes

`build_payout_plan` splits the net reward over the addresses of the window.

There are three groups.

* The work by address.  `Tallied` says that a list has one entry for each
  address of some shares, with the sum of their difficulties.
* The outputs.  They have the addresses of the window, each once
  (`planFor_addresses`), and they share out the net reward without a
  remainder (`planFor_sum`).
* What the outputs depend on: the sums of the difficulties, and not the order
  of the shares (`outputs_congr`).
-/

namespace StratumServer

/-! ## The work by address -/

/-- One entry for each address of the shares, with the sum of the
difficulties. -/
structure Tallied (acc : List AddressWork) (shares : List PplnsShareEntry) :
    Prop where
  nodup : (acc.map (·.address)).Nodup
  mem : ∀ a, a ∈ acc.map (·.address) ↔ a ∈ shares.map (·.payoutAddress)
  work : ∀ e ∈ acc, e.work =
    ((shares.filter (·.payoutAddress == e.address)).map (·.difficulty)).sum

namespace Tallied

variable {acc acc' : List AddressWork} {shares : List PplnsShareEntry}

theorem nil : Tallied [] [] :=
  ⟨List.nodup_nil, fun _ => Iff.rfl, fun _ => nofun⟩

theorem perm (h : Tallied acc shares) (hperm : acc'.Perm acc) :
    Tallied acc' shares := by
  have haddresses := hperm.map (·.address)
  refine ⟨haddresses.nodup_iff.2 h.nodup, fun a => ?_, fun e he => ?_⟩
  · rw [haddresses.mem_iff]
    exact h.mem a
  · exact h.work e (hperm.mem_iff.1 he)

/-- No share has the address yet. -/
theorem filter_eq_nil (h : Tallied acc shares) {a : String}
    (ha : a ∉ acc.map (·.address)) :
    shares.filter (·.payoutAddress == a) = [] := by
  rw [List.filter_eq_nil_iff]
  intro s hs heq
  refine ha ((h.mem a).2 (List.mem_map.2 ⟨s, hs, ?_⟩))
  exact eq_of_beq heq

/-- One more share. -/
theorem add (h : Tallied acc shares) (share : PplnsShareEntry) :
    Tallied (addWork acc share) (shares ++ [share]) := by
  have hfilter : ∀ a, (shares ++ [share]).filter (·.payoutAddress == a) =
      shares.filter (·.payoutAddress == a) ++
        if share.payoutAddress = a then [share] else [] := by
    intro a
    rw [List.filter_append]
    by_cases ha : share.payoutAddress = a <;> simp [ha]
  unfold addWork
  split
  · rename_i hany
    have hold : share.payoutAddress ∈ acc.map (·.address) := by
      obtain ⟨e, he, heq⟩ := List.any_eq_true.1 hany
      exact List.mem_map.2 ⟨e, he, eq_of_beq heq⟩
    have haddresses : (acc.map fun e =>
        if e.address == share.payoutAddress then
          { e with work := e.work + share.difficulty }
        else e).map (·.address) = acc.map (·.address) := by
      rw [List.map_map]
      refine List.map_congr_left fun e _ => ?_
      simp only [Function.comp_apply]
      split <;> rfl
    refine ⟨haddresses ▸ h.nodup, fun a => ?_, fun e he => ?_⟩
    · rw [haddresses, h.mem, List.map_append, List.mem_append]
      refine ⟨Or.inl, fun ha => ha.elim id fun ha => ?_⟩
      rw [List.mem_singleton.1 ha]
      exact (h.mem _).1 hold
    · obtain ⟨e₀, he₀, rfl⟩ := List.mem_map.1 he
      have hwork := h.work e₀ he₀
      by_cases heq : e₀.address = share.payoutAddress
      · simp only [heq, beq_self_eq_true, if_true] at hwork ⊢
        rw [hfilter, if_pos rfl, List.map_append, List.sum_append, hwork]
        simp
      · rw [if_neg (by simp [heq]), hfilter, if_neg (Ne.symm heq),
          List.append_nil]
        exact hwork
  · rename_i hany
    have hnew : share.payoutAddress ∉ acc.map (·.address) := by
      intro hmem
      obtain ⟨e, he, heq⟩ := List.mem_map.1 hmem
      exact hany (List.any_eq_true.2 ⟨e, he, beq_iff_eq.2 heq⟩)
    refine ⟨?_, fun a => ?_, fun e he => ?_⟩
    · rw [List.map_append, List.nodup_append]
      refine ⟨h.nodup, List.nodup_singleton _, fun a ha b hb heq => ?_⟩
      rw [heq, List.mem_singleton.1 hb] at ha
      exact hnew ha
    · rw [List.map_append, List.mem_append, List.map_append, List.mem_append,
        h.mem]
      simp
    · rw [hfilter]
      rcases List.mem_append.1 he with hold | hlast
      · have hne : share.payoutAddress ≠ e.address := by
          intro heq
          exact hnew (heq ▸ List.mem_map_of_mem hold)
        rw [if_neg hne, List.append_nil]
        exact h.work e hold
      · rw [List.mem_singleton.1 hlast, if_pos rfl, h.filter_eq_nil hnew]
        simp

end Tallied

theorem tallied_foldl (shares : List PplnsShareEntry) :
    Tallied (shares.foldl addWork []) shares := by
  induction shares using List.reverseRecOn with
  | nil => exact .nil
  | append_singleton shares share ih =>
    rw [List.foldl_append]
    exact ih.add share

theorem workByAddr_tallied (shares : List PplnsShareEntry) :
    Tallied (workByAddr shares) shares :=
  (tallied_foldl shares).perm (List.perm_insertionSort _ _)

theorem workByAddr_sorted (shares : List PplnsShareEntry) :
    (workByAddr shares).Pairwise fun a b => a.address < b.address := by
  have htotal : Std.Total fun a b : AddressWork => a.address ≤ b.address :=
    ⟨fun a b => le_total a.address b.address⟩
  have htrans : IsTrans AddressWork fun a b => a.address ≤ b.address :=
    ⟨fun _ _ _ hab hbc => le_trans hab hbc⟩
  have hsorted : (workByAddr shares).Pairwise
      fun a b => a.address ≤ b.address := List.pairwise_insertionSort _ _
  have hne := List.pairwise_map.1 (workByAddr_tallied shares).nodup
  exact hsorted.imp₂ (fun a b hle hne => lt_of_le_of_ne hle hne) hne

/-! ## The outputs -/

/-- The fee of the pool. -/
def poolFee (grossReward : Int) (feeBps : Nat) : Int :=
  if 0 < grossReward then
    ((grossReward.toNat * feeBps % 2 ^ 64 / 10000 : Nat) : Int)
  else 0

theorem poolFee_eq (grossReward : Int) (feeBps : Nat) :
    poolFee grossReward feeBps =
      ((grossReward.toNat * feeBps % 2 ^ 64 / 10000 : Nat) : Int) := by
  unfold poolFee
  split_ifs with hpos
  · rfl
  · have hzero : grossReward.toNat = 0 := by omega
    simp [hzero]

theorem poolFee_nonneg (grossReward : Int) (feeBps : Nat) :
    0 ≤ poolFee grossReward feeBps := by
  rw [poolFee_eq]
  exact Int.natCast_nonneg _

/-- The weights of the addresses: their work, and the dust. -/
def weights (grossReward : Int) (dustBalances : List (String × Int))
    (shares : List PplnsShareEntry) : List AddressWork :=
  (workByAddr shares).map (addDust grossReward dustBalances)

/-- The net reward shared out, in the order of the addresses. -/
def allocated (netReward : Int) (works : List AddressWork) : List Alloc :=
  let allocs := works.map (alloc (works.map (·.work)).sum netReward)
  (giveRemainder (netReward - (allocs.map (·.whole)).sum)
    (allocs.insertionSort fun a b => b.fractional ≤ a.fractional)).insertionSort
      fun a b => a.address ≤ b.address

/-- The outputs of a plan. -/
def planOutputs (netReward minPayoutSat : Int) (works : List AddressWork) :
    List PayoutOutput :=
  if 0 < (works.map (·.work)).sum ∧ 0 < netReward then
    (allocated netReward works).map (payoutOutput minPayoutSat)
  else []

/-- The loop of the seventh step. -/
theorem foldl_clip (minPayoutSat : Int) (allocs : List Alloc)
    (acc : List PayoutOutput × Int) :
    allocs.foldl (clip minPayoutSat) acc =
      (acc.1 ++ allocs.map (payoutOutput minPayoutSat),
        acc.2 + ((allocs.map (payoutOutput minPayoutSat)).map
          (·.dustCarriedForward)).sum) := by
  induction allocs generalizing acc with
  | nil => simp
  | cons a allocs ih =>
    rw [List.foldl_cons, ih]
    by_cases h : a.whole < minPayoutSat <;>
      simp [clip, payoutOutput, h, add_assoc]

/-- The outputs of a plan, with what they carry forward. -/
def clipped (netReward minPayoutSat : Int) (works : List AddressWork) :
    List PayoutOutput × Int :=
  if 0 < (works.map (·.work)).sum ∧ 0 < netReward then
    (allocated netReward works).foldl (clip minPayoutSat) ([], 0)
  else ([], 0)

theorem clipped_eq (netReward minPayoutSat : Int) (works : List AddressWork) :
    clipped netReward minPayoutSat works =
      (planOutputs netReward minPayoutSat works,
        ((planOutputs netReward minPayoutSat works).map
          (·.dustCarriedForward)).sum) := by
  unfold clipped planOutputs
  split
  · rw [foldl_clip, List.nil_append, Int.zero_add]
  · rfl

section Plan

variable (block : FoundBlock) (networkDifficulty : ℚ) (grossReward : Int)
  (settings : PayoutSettings) (dustBalances : List (String × Int))
  (shares : List PplnsShareEntry)

theorem outputs_eq :
    (buildPayoutPlan block networkDifficulty grossReward settings dustBalances
      shares).outputs =
    planOutputs (grossReward - poolFee grossReward settings.feeBps)
      settings.minPayoutSat (weights grossReward dustBalances shares) :=
  congrArg Prod.fst (clipped_eq
    (grossReward - poolFee grossReward settings.feeBps) settings.minPayoutSat
    (weights grossReward dustBalances shares))

/-- The total of a plan is the sum of what its outputs carry forward. -/
theorem dustCarriedForwardTotal_eq :
    (buildPayoutPlan block networkDifficulty grossReward settings dustBalances
      shares).dustCarriedForwardTotal =
    ((buildPayoutPlan block networkDifficulty grossReward settings dustBalances
      shares).outputs.map (·.dustCarriedForward)).sum := by
  rw [outputs_eq]
  exact congrArg Prod.snd (clipped_eq
    (grossReward - poolFee grossReward settings.feeBps) settings.minPayoutSat
    (weights grossReward dustBalances shares))

end Plan

/-- The address, the amount and the dust of a payout. -/
def Payout.triple (p : Payout) : String × Int × Int :=
  (p.payoutAddress, p.amount, p.dustCarriedForward)

/-- The same of an output. -/
def PayoutOutput.triple (o : PayoutOutput) : String × Int × Int :=
  (o.payoutAddress, o.amount, o.dustCarriedForward)

/-- The work that the dust of an address counts as. -/
def dustBonus (grossReward : Int) (dustBalances : List (String × Int))
    (address : String) : ℚ :=
  match dustBalances.reverse.find? (·.1 == address) with
  | some (_, dust) =>
    if 0 < grossReward ∧ 0 < dust then (dust : ℚ) / (grossReward : ℚ) else 0
  | none => 0

theorem addDust_eq (grossReward : Int) (dustBalances : List (String × Int))
    (e : AddressWork) : addDust grossReward dustBalances e =
      { e with work := e.work + dustBonus grossReward dustBalances e.address } := by
  unfold addDust dustBonus
  cases dustBalances.reverse.find? (·.1 == e.address) with
  | none => simp
  | some p =>
    dsimp only
    split <;> simp

theorem dustBonus_nonneg (grossReward : Int)
    (dustBalances : List (String × Int)) (address : String) :
    0 ≤ dustBonus grossReward dustBalances address := by
  unfold dustBonus
  split
  · split
    · rename_i hpos
      exact div_nonneg (Int.cast_nonneg hpos.2.le) (Int.cast_nonneg hpos.1.le)
    · exact le_refl 0
  · exact le_refl 0

theorem weights_addresses (grossReward : Int)
    (dustBalances : List (String × Int)) (shares : List PplnsShareEntry) :
    (weights grossReward dustBalances shares).map (·.address) =
      (workByAddr shares).map (·.address) := by
  unfold weights
  rw [List.map_map]
  refine List.map_congr_left fun e _ => ?_
  rw [Function.comp_apply, addDust_eq]

/-! ### The remainder -/

theorem giveRemainder_addresses (n : Int) (l : List Alloc) :
    (giveRemainder n l).map (·.address) = l.map (·.address) := by
  induction l generalizing n with
  | nil => rfl
  | cons a l ih =>
    unfold giveRemainder
    split
    · rfl
    · rw [List.map_cons, List.map_cons, ih]

/-- A remainder that is no more than one unit for each is handed out
completely. -/
theorem giveRemainder_sum {n : Int} {l : List Alloc} (hn : 0 ≤ n)
    (hlength : n ≤ l.length) :
    ((giveRemainder n l).map (·.whole)).sum = (l.map (·.whole)).sum + n := by
  induction l generalizing n with
  | nil =>
    simp only [List.length_nil] at hlength
    simp only [giveRemainder, List.map_nil, List.sum_nil]
    omega
  | cons a l ih =>
    rw [List.length_cons] at hlength
    unfold giveRemainder
    split
    · omega
    · have hrest := ih (n := n - 1) (by omega) (by push_cast at hlength; omega)
      simp only [List.map_cons, List.sum_cons, hrest]
      omega

/-- Nobody loses by the remainder. -/
theorem whole_le_giveRemainder {n : Int} {l : List Alloc} {a' : Alloc}
    (ha' : a' ∈ giveRemainder n l) : ∃ a ∈ l, a.whole ≤ a'.whole := by
  induction l generalizing n with
  | nil => cases ha'
  | cons a l ih =>
    unfold giveRemainder at ha'
    split at ha'
    · exact ⟨a', ha', le_refl _⟩
    · rcases List.mem_cons.1 ha' with rfl | htail
      · exact ⟨a, List.mem_cons_self, by simp⟩
      · obtain ⟨a₀, ha₀, hle⟩ := ih htail
        exact ⟨a₀, List.mem_cons_of_mem _ ha₀, hle⟩

/-! ### What is shared out -/

section Allocated

variable {netReward : Int} {works : List AddressWork}

theorem allocated_addresses :
    ((allocated netReward works).map (·.address)).Perm
      (works.map (·.address)) := by
  unfold allocated
  dsimp only
  refine ((List.perm_insertionSort _ _).map _).trans ?_
  rw [giveRemainder_addresses]
  refine ((List.perm_insertionSort _ _).map _).trans ?_
  rw [List.map_map]
  exact List.Perm.refl _

/-- The net reward is shared out without a remainder. -/
theorem allocated_sum (hwork : (works.map (·.work)).sum ≠ 0) :
    ((allocated netReward works).map (·.whole)).sum = netReward := by
  have hwhole : (works.map (alloc (works.map (·.work)).sum netReward)).map
      (·.whole) = ((works.map (·.work)).map fun w =>
        w / (works.map (·.work)).sum * (netReward : ℚ)).map Int.floor := by
    rw [List.map_map, List.map_map, List.map_map]
    rfl
  have hparts := Apportion.sum_parts (netReward : ℚ) hwork
  have hnonneg := Apportion.remainder_nonneg hparts
  have hlength := Apportion.remainder_le_length hparts
  rw [← hwhole] at hnonneg hlength
  have hperm := List.perm_insertionSort
    (fun a b : Alloc => b.fractional ≤ a.fractional)
    (works.map (alloc (works.map (·.work)).sum netReward))
  unfold allocated
  dsimp only
  rw [((List.perm_insertionSort _ _).map _).sum_eq,
    giveRemainder_sum hnonneg (by
      rw [hperm.length_eq]
      simpa using hlength), (hperm.map _).sum_eq]
  omega

theorem allocated_nonneg (hwork : ∀ e ∈ works, 0 ≤ e.work)
    (hnet : 0 ≤ netReward) {a : Alloc} (ha : a ∈ allocated netReward works) :
    0 ≤ a.whole := by
  have ha₁ := (List.perm_insertionSort _ _).mem_iff.1 ha
  obtain ⟨a₂, ha₂, hle⟩ := whole_le_giveRemainder ha₁
  have ha₃ := (List.perm_insertionSort _ _).mem_iff.1 ha₂
  obtain ⟨e, he, rfl⟩ := List.mem_map.1 ha₃
  have hsum : 0 ≤ (works.map (·.work)).sum := by
    refine List.sum_nonneg fun w hw => ?_
    obtain ⟨e', he', rfl⟩ := List.mem_map.1 hw
    exact hwork e' he'
  have hpart : 0 ≤ e.work / (works.map (·.work)).sum * (netReward : ℚ) :=
    mul_nonneg (div_nonneg (hwork e he) hsum) (Int.cast_nonneg hnet)
  exact (Int.floor_nonneg.2 hpart).trans hle

end Allocated

/-! ### The outputs of a plan -/

section Outputs

variable {netReward minPayoutSat : Int} {works : List AddressWork}

theorem payoutOutput_address (a : Alloc) :
    (payoutOutput minPayoutSat a).payoutAddress = a.address := by
  unfold payoutOutput
  split <;> rfl

theorem payoutOutput_sum (a : Alloc) :
    (payoutOutput minPayoutSat a).amount +
      (payoutOutput minPayoutSat a).dustCarriedForward = a.whole := by
  unfold payoutOutput
  split <;> simp

/-- A part is paid or carried forward, as a whole. -/
theorem payoutOutput_clip (a : Alloc) :
    (payoutOutput minPayoutSat a).amount = 0 ∨
      (payoutOutput minPayoutSat a).dustCarriedForward = 0 := by
  unfold payoutOutput
  split
  · exact Or.inl rfl
  · exact Or.inr rfl

/-- A plan with outputs shares something out. -/
theorem planOutputs_of_ne_nil
    (h : planOutputs netReward minPayoutSat works ≠ []) :
    0 < (works.map (·.work)).sum ∧ 0 < netReward ∧
      planOutputs netReward minPayoutSat works =
        (allocated netReward works).map (payoutOutput minPayoutSat) := by
  unfold planOutputs at h ⊢
  split at h
  · rename_i hpos
    rw [if_pos hpos]
    exact ⟨hpos.1, hpos.2, rfl⟩
  · exact absurd rfl h

/-- The outputs have the addresses of the window, each once. -/
theorem planOutputs_addresses
    (h : planOutputs netReward minPayoutSat works ≠ []) :
    ((planOutputs netReward minPayoutSat works).map (·.payoutAddress)).Perm
      (works.map (·.address)) := by
  obtain ⟨_, _, heq⟩ := planOutputs_of_ne_nil h
  have haddresses : (allocated netReward works).map
      ((·.payoutAddress) ∘ payoutOutput minPayoutSat) =
        (allocated netReward works).map (·.address) :=
    List.map_congr_left fun a _ => payoutOutput_address a
  rw [heq, List.map_map, haddresses]
  exact allocated_addresses

/-- The amounts and the dust add up to the net reward. -/
theorem planOutputs_sum (h : planOutputs netReward minPayoutSat works ≠ []) :
    ((planOutputs netReward minPayoutSat works).map (·.amount)).sum +
      ((planOutputs netReward minPayoutSat works).map
        (·.dustCarriedForward)).sum = netReward := by
  obtain ⟨hwork, _, heq⟩ := planOutputs_of_ne_nil h
  rw [heq, List.map_map, List.map_map, ← List.sum_map_add]
  calc ((allocated netReward works).map fun a =>
          (payoutOutput minPayoutSat a).amount +
            (payoutOutput minPayoutSat a).dustCarriedForward).sum
      = ((allocated netReward works).map (·.whole)).sum := by
        rw [List.map_congr_left fun a _ => payoutOutput_sum a]
    _ = netReward := allocated_sum hwork.ne'

theorem planOutputs_clip {o : PayoutOutput}
    (ho : o ∈ planOutputs netReward minPayoutSat works) :
    o.amount = 0 ∨ o.dustCarriedForward = 0 := by
  obtain ⟨_, _, heq⟩ := planOutputs_of_ne_nil (List.ne_nil_of_mem ho)
  rw [heq] at ho
  obtain ⟨a, _, rfl⟩ := List.mem_map.1 ho
  exact payoutOutput_clip a

/-- What an output says is not negative. -/
theorem planOutputs_nonneg (hwork : ∀ e ∈ works, 0 ≤ e.work)
    {o : PayoutOutput} (ho : o ∈ planOutputs netReward minPayoutSat works) :
    0 ≤ o.dustCarriedForward ∧ 0 ≤ o.amount := by
  obtain ⟨_, hnet, heq⟩ := planOutputs_of_ne_nil (List.ne_nil_of_mem ho)
  rw [heq] at ho
  obtain ⟨a, ha, rfl⟩ := List.mem_map.1 ho
  have hwhole := allocated_nonneg hwork hnet.le ha
  unfold payoutOutput
  split
  · exact ⟨hwhole, le_refl 0⟩
  · exact ⟨le_refl 0, hwhole⟩

end Outputs

theorem weights_nonneg {grossReward : Int} {dustBalances : List (String × Int)}
    {shares : List PplnsShareEntry} (h : ∀ s ∈ shares, 0 ≤ s.difficulty) :
    ∀ e ∈ weights grossReward dustBalances shares, 0 ≤ e.work := by
  have hwork : ∀ e ∈ workByAddr shares, 0 ≤ e.work := by
    intro e he
    rw [(workByAddr_tallied shares).work e he]
    refine List.sum_nonneg fun d hd => ?_
    obtain ⟨s, hs, rfl⟩ := List.mem_map.1 hd
    exact h s (List.mem_filter.1 hs).1
  intro e he
  obtain ⟨e₀, he₀, rfl⟩ := List.mem_map.1 he
  rw [addDust_eq]
  exact add_nonneg (hwork e₀ he₀) (dustBonus_nonneg _ _ _)

/-! ### The plan for a block -/

section PlanFor

variable {block : FoundBlock} {difficulty : ℚ} {reward : Int}
  {settings : PayoutSettings} {found : Nat} {db : Database}

theorem planFor_outputs :
    (planFor block difficulty reward settings found db).2.outputs =
      planOutputs (reward - poolFee reward settings.feeBps)
        settings.minPayoutSat (weights reward (dustBalances db)
          (planFor block difficulty reward settings found db).1) :=
  outputs_eq block difficulty reward settings (dustBalances db) _

theorem planFor_grossReward :
    (planFor block difficulty reward settings found db).2.grossReward =
      reward := rfl

theorem planFor_poolFeeAmount :
    (planFor block difficulty reward settings found db).2.poolFeeAmount =
      poolFee reward settings.feeBps := rfl

/-- A plan with outputs has one for each address of the window. -/
theorem planFor_addresses
    (h : (planFor block difficulty reward settings found db).2.outputs ≠ []) :
    ((planFor block difficulty reward settings found db).2.outputs.map
        (·.payoutAddress)).Perm
      ((workByAddr (planFor block difficulty reward settings found db).1).map
        (·.address)) := by
  rw [planFor_outputs] at h ⊢
  have hperm := planOutputs_addresses h
  rwa [weights_addresses] at hperm

theorem planFor_nodup :
    ((planFor block difficulty reward settings found db).2.outputs.map
      (·.payoutAddress)).Nodup := by
  by_cases h : (planFor block difficulty reward settings found db).2.outputs = []
  · rw [h]
    exact List.nodup_nil
  · exact (planFor_addresses h).nodup_iff.2 (workByAddr_tallied _).nodup

/-- The fee, the amounts and the dust of a plan add up to the reward. -/
theorem planFor_sum
    (h : (planFor block difficulty reward settings found db).2.outputs ≠ []) :
    reward = poolFee reward settings.feeBps +
      ((planFor block difficulty reward settings found db).2.outputs.map
        (·.amount)).sum +
      ((planFor block difficulty reward settings found db).2.outputs.map
        (·.dustCarriedForward)).sum := by
  rw [planFor_outputs] at h ⊢
  have hsum := planOutputs_sum h
  omega

end PlanFor

/-! ## What the outputs depend on -/

/-- An entry without its worker. -/
def AddressWork.bare (e : AddressWork) : AddressWork := { e with workerId := 0 }

@[inherit_doc AddressWork.bare]
def Alloc.bare (a : Alloc) : Alloc := { a with workerId := 0 }

@[inherit_doc AddressWork.bare]
def PayoutOutput.bare (o : PayoutOutput) : PayoutOutput :=
  { o with workerId := 0 }

theorem addDust_bare (grossReward : Int) (dustBalances : List (String × Int))
    (e : AddressWork) : addDust grossReward dustBalances e.bare =
      (addDust grossReward dustBalances e).bare := by
  rw [addDust_eq, addDust_eq]
  rfl

theorem giveRemainder_bare (n : Int) (l : List Alloc) :
    giveRemainder n (l.map Alloc.bare) = (giveRemainder n l).map Alloc.bare := by
  induction l generalizing n with
  | nil => rfl
  | cons a l ih =>
    simp only [List.map_cons, giveRemainder]
    split
    · rfl
    · rw [List.map_cons, ih]
      rfl

theorem payoutOutput_bare (minPayoutSat : Int) (a : Alloc) :
    payoutOutput minPayoutSat a.bare = (payoutOutput minPayoutSat a).bare := by
  unfold payoutOutput
  change (if a.whole < minPayoutSat then _ else _) = _
  split <;> rfl

theorem allocated_bare (netReward : Int) (works : List AddressWork) :
    allocated netReward (works.map AddressWork.bare) =
      (allocated netReward works).map Alloc.bare := by
  have hwork : (works.map AddressWork.bare).map (·.work) =
      works.map (·.work) := by
    rw [List.map_map]
    rfl
  have hallocs : (works.map AddressWork.bare).map
      (alloc (works.map (·.work)).sum netReward) =
        (works.map (alloc (works.map (·.work)).sum netReward)).map
          Alloc.bare := by
    rw [List.map_map, List.map_map]
    rfl
  have hwhole : ∀ l : List Alloc, (l.map Alloc.bare).map (·.whole) =
      l.map (·.whole) := by
    intro l
    rw [List.map_map]
    rfl
  unfold allocated
  dsimp only
  rw [hwork, hallocs, hwhole,
    List.map_insertionSort (fun a b : Alloc => a.address ≤ b.address)
      (fun a b : Alloc => a.address ≤ b.address) Alloc.bare _
      (fun _ _ _ _ => Iff.rfl),
    ← giveRemainder_bare,
    List.map_insertionSort (fun a b : Alloc => b.fractional ≤ a.fractional)
      (fun a b : Alloc => b.fractional ≤ a.fractional) Alloc.bare _
      (fun _ _ _ _ => Iff.rfl)]

/-- The worker of an entry only goes into the worker of its output. -/
theorem planOutputs_bare (netReward minPayoutSat : Int)
    (works : List AddressWork) :
    planOutputs netReward minPayoutSat (works.map AddressWork.bare) =
      (planOutputs netReward minPayoutSat works).map PayoutOutput.bare := by
  have hwork : (works.map AddressWork.bare).map (·.work) =
      works.map (·.work) := by
    rw [List.map_map]
    rfl
  unfold planOutputs
  rw [hwork, allocated_bare]
  split
  · rw [List.map_map, List.map_map]
    exact List.map_congr_left fun a _ => payoutOutput_bare minPayoutSat a
  · rfl

/-- Two windows with the same difficulties for each address. -/
def SameWork (shares shares' : List PplnsShareEntry) : Prop :=
  (shares.map fun s => (s.payoutAddress, s.difficulty)).Perm
    (shares'.map fun s => (s.payoutAddress, s.difficulty))

theorem SameWork.mem_iff {shares shares' : List PplnsShareEntry}
    (h : SameWork shares shares') (a : String) :
    a ∈ shares.map (·.payoutAddress) ↔ a ∈ shares'.map (·.payoutAddress) := by
  have hfst := (h.map Prod.fst).mem_iff (a := a)
  rwa [List.map_map, List.map_map] at hfst

theorem SameWork.sum_eq {shares shares' : List PplnsShareEntry}
    (h : SameWork shares shares') (a : String) :
    ((shares.filter (·.payoutAddress == a)).map (·.difficulty)).sum =
      ((shares'.filter (·.payoutAddress == a)).map (·.difficulty)).sum := by
  have hsums := ((h.filter fun p => p.1 == a).map Prod.snd).sum_eq
  rwa [List.filter_map, List.filter_map, List.map_map, List.map_map] at hsums

theorem mem_workByAddr_bare (shares : List PplnsShareEntry) (e : AddressWork) :
    e ∈ (workByAddr shares).map AddressWork.bare ↔
      e.workerId = 0 ∧ e.address ∈ shares.map (·.payoutAddress) ∧
        e.work = ((shares.filter
          (·.payoutAddress == e.address)).map (·.difficulty)).sum := by
  have htallied := workByAddr_tallied shares
  constructor
  · intro he
    obtain ⟨e₀, he₀, rfl⟩ := List.mem_map.1 he
    exact ⟨rfl, (htallied.mem _).1 (List.mem_map.2 ⟨e₀, he₀, rfl⟩),
      htallied.work e₀ he₀⟩
  · intro ⟨hworker, haddress, hwork⟩
    obtain ⟨e₀, he₀, heq⟩ := List.mem_map.1 ((htallied.mem _).2 haddress)
    refine List.mem_map.2 ⟨e₀, he₀, ?_⟩
    have hwork₀ := htallied.work e₀ he₀
    cases e with
    | mk address workerId work =>
      simp only at hworker heq hwork
      subst hworker heq
      rw [hwork, ← hwork₀]
      rfl

/-- The work by address does not depend on the order of the shares. -/
theorem workByAddr_congr {shares shares' : List PplnsShareEntry}
    (h : SameWork shares shares') :
    (workByAddr shares).map AddressWork.bare =
      (workByAddr shares').map AddressWork.bare := by
  have hsorted : ∀ shares : List PplnsShareEntry,
      ((workByAddr shares).map AddressWork.bare).Pairwise
        fun a b => a.address < b.address :=
    fun shares => List.pairwise_map.2 (workByAddr_sorted shares)
  refine Apportion.eq_of_strictly_sorted (hsorted shares) (hsorted shares')
    fun e => ?_
  rw [mem_workByAddr_bare, mem_workByAddr_bare, h.mem_iff, h.sum_eq]

/-- The outputs do not depend on the order of the shares. -/
theorem outputs_congr {shares shares' : List PplnsShareEntry}
    (h : SameWork shares shares') (block : FoundBlock) (networkDifficulty : ℚ)
    (grossReward : Int) (settings : PayoutSettings)
    (dustBalances : List (String × Int)) :
    (buildPayoutPlan block networkDifficulty grossReward settings dustBalances
        shares).outputs.map PayoutOutput.bare =
      (buildPayoutPlan block networkDifficulty grossReward settings
        dustBalances shares').outputs.map PayoutOutput.bare := by
  have hweights : ∀ shares,
      (weights grossReward dustBalances shares).map AddressWork.bare =
        ((workByAddr shares).map AddressWork.bare).map
          (addDust grossReward dustBalances) := by
    intro shares
    unfold weights
    rw [List.map_map, List.map_map]
    exact List.map_congr_left fun e _ => (addDust_bare _ _ e).symm
  rw [outputs_eq, outputs_eq, ← planOutputs_bare, ← planOutputs_bare,
    hweights, hweights, workByAddr_congr h]

end StratumServer
