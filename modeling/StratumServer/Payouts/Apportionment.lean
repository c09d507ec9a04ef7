import StratumServer.Lib.LargestRemainder
import StratumServer.Payouts.Distribution
import Mathlib.Algebra.BigOperators.Field

/-!
# The rounding of a payout plan

`build_payout_plan` cuts the quotas of the addresses to whole satoshis, sorts
by the fractions, hands out the remainder and sorts back.  This is the method
of the largest remainders, over the addresses of the window.

There are three groups.

* The weights as a function of the address: the difficulties of its shares,
  and the dust.
* The allocations.  `whole_eq_part` says that the loop over the sorted list
  gives every address its part.
* The outputs: every satoshi is accounted for (`plan_accounts`), and they are
  the parts (`outputs_largestRemainder`).
-/

namespace StratumServer

open LargestRemainder

/-! ## The weights -/

/-- The addresses that have a share. -/
def addresses (shares : List PplnsShareEntry) : Finset String :=
  (shares.map (·.payoutAddress)).toFinset

/-- The work of the shares of an address. -/
def shareWork (shares : List PplnsShareEntry) (a : String) : ℚ :=
  ((shares.filter (·.payoutAddress == a)).map (·.difficulty)).sum

/-- The weight of an address: its work, and what its dust counts as. -/
def weight (grossReward : Int) (dustBalances : List (String × Int))
    (shares : List PplnsShareEntry) (a : String) : ℚ :=
  shareWork shares a + dustBonus grossReward dustBalances a

/-- The quota of an address: its exact part of the net reward. -/
def quota (f : String → ℚ) (s : Finset String) (netReward : Int)
    (a : String) : ℚ :=
  f a / (∑ b ∈ s, f b) * (netReward : ℚ)

theorem sum_quota {f : String → ℚ} {s : Finset String} {netReward : Int}
    (h : ∑ b ∈ s, f b ≠ 0) : ∑ a ∈ s, quota f s netReward a = netReward := by
  unfold quota
  rw [← Finset.sum_mul, ← Finset.sum_div, div_self h, one_mul]

/-- The work of all addresses is the work of all shares. -/
theorem sum_shareWork {shares : List PplnsShareEntry} {s : Finset String}
    (h : addresses shares ⊆ s) :
    ∑ a ∈ s, shareWork shares a = (shares.map (·.difficulty)).sum := by
  induction shares with
  | nil => simp [shareWork]
  | cons x shares ih =>
    have hx : x.payoutAddress ∈ s := h (by simp [addresses])
    have hrest : addresses shares ⊆ s := by
      intro a ha
      refine h (List.mem_toFinset.2 ?_)
      exact List.mem_cons_of_mem _ (List.mem_toFinset.1 ha)
    have hcons : ∀ a, shareWork (x :: shares) a =
        (if x.payoutAddress = a then x.difficulty else 0) +
          shareWork shares a := by
      intro a
      by_cases ha : x.payoutAddress = a <;> simp [shareWork, ha]
    rw [Finset.sum_congr rfl fun a _ => hcons a, Finset.sum_add_distrib,
      Finset.sum_ite_eq, if_pos hx, ih hrest, List.map_cons, List.sum_cons]

theorem shareWork_nonneg {shares : List PplnsShareEntry}
    (h : ∀ x ∈ shares, 0 ≤ x.difficulty) (a : String) :
    0 ≤ shareWork shares a := by
  refine List.sum_nonneg fun d hd => ?_
  obtain ⟨x, hx, rfl⟩ := List.mem_map.1 hd
  exact h x (List.mem_filter.1 hx).1

theorem weight_nonneg {grossReward : Int} {dustBalances : List (String × Int)}
    {shares : List PplnsShareEntry} (h : ∀ x ∈ shares, 0 ≤ x.difficulty)
    (a : String) : 0 ≤ weight grossReward dustBalances shares a :=
  add_nonneg (shareWork_nonneg h a) (dustBonus_nonneg _ _ _)

section Weights

variable {grossReward : Int} {dustBalances : List (String × Int)}
  {shares : List PplnsShareEntry}

theorem mem_addresses {a : String} :
    a ∈ addresses shares ↔ a ∈ shares.map (·.payoutAddress) :=
  List.mem_toFinset

theorem weights_sorted :
    ((weights grossReward dustBalances shares).map (·.address)).Pairwise
      (· < ·) := by
  rw [weights_addresses]
  exact List.pairwise_map.2 (workByAddr_sorted shares)

variable (grossReward dustBalances) in
theorem weights_toFinset :
    ((weights grossReward dustBalances shares).map (·.address)).toFinset =
      addresses shares := by
  ext a
  rw [List.mem_toFinset, weights_addresses, mem_addresses]
  exact (workByAddr_tallied shares).mem a

theorem weights_work {e : AddressWork}
    (he : e ∈ weights grossReward dustBalances shares) :
    e.work = weight grossReward dustBalances shares e.address := by
  obtain ⟨e₀, he₀, rfl⟩ := List.mem_map.1 he
  rw [addDust_eq, (workByAddr_tallied shares).work e₀ he₀]
  rfl

theorem weights_sum :
    ((weights grossReward dustBalances shares).map (·.work)).sum =
      ∑ a ∈ addresses shares, weight grossReward dustBalances shares a := by
  rw [← weights_toFinset grossReward dustBalances,
    List.sum_toFinset _ (weights_sorted.imp fun h => ne_of_lt h), List.map_map]
  refine congrArg List.sum (List.map_congr_left fun e he => ?_)
  exact weights_work he

end Weights

/-! ## The allocations -/

/-- The remainder goes to the first entries of the list. -/
theorem mem_giveRemainder {n : Int} {l : List Alloc} {a' : Alloc}
    (h : a' ∈ giveRemainder n l) : ∃ (m : Nat) (hm : m < l.length),
      a'.address = l[m].address ∧
        a'.whole = l[m].whole + if (m : Int) < n then 1 else 0 := by
  induction l generalizing n with
  | nil => cases h
  | cons a l ih =>
    unfold giveRemainder at h
    split at h
    · rename_i hn
      obtain ⟨m, hm, rfl⟩ := List.mem_iff_getElem.1 h
      refine ⟨m, hm, rfl, ?_⟩
      rw [if_neg (by omega), Int.add_zero]
    · rename_i hn
      rcases List.mem_cons.1 h with rfl | htail
      · refine ⟨0, Nat.zero_lt_succ _, rfl, ?_⟩
        rw [if_pos (by simpa using hn)]
        rfl
      · obtain ⟨m, hm, haddress, hwhole⟩ := ih htail
        have hiff : (m : Int) < n - 1 ↔ ((m + 1 : Nat) : Int) < n := by omega
        refine ⟨m + 1, Nat.succ_lt_succ hm, haddress, ?_⟩
        rw [hwhole, List.getElem_cons_succ]
        simp only [hiff]

/-- An entry that the remainder was handed out to belongs to one before it. -/
theorem part_of_giveRemainder {n : Int} {l : List Alloc} {a' : Alloc}
    (h : a' ∈ giveRemainder n l) : ∃ a ∈ l, a'.address = a.address ∧
      a'.workerId = a.workerId ∧ a.whole ≤ a'.whole ∧ a'.whole ≤ a.whole + 1 := by
  induction l generalizing n with
  | nil => cases h
  | cons a l ih =>
    unfold giveRemainder at h
    split at h
    · exact ⟨a', h, rfl, rfl, le_refl _, by omega⟩
    · rcases List.mem_cons.1 h with rfl | htail
      · exact ⟨a, List.mem_cons_self, rfl, rfl, by simp, by simp⟩
      · obtain ⟨b, hb, hrest⟩ := ih htail
        exact ⟨b, List.mem_cons_of_mem _ hb, hrest⟩

section Allocations

variable {netReward : Int} {works : List AddressWork} {f : String → ℚ}

variable (hsorted : (works.map (·.address)).Pairwise (· < ·))
  (hwork : ∀ e ∈ works, e.work = f e.address)

include hsorted hwork

theorem sum_works : (works.map (·.work)).sum =
    ∑ a ∈ (works.map (·.address)).toFinset, f a := by
  rw [List.sum_toFinset _ (hsorted.imp fun h => ne_of_lt h), List.map_map]
  exact congrArg List.sum (List.map_congr_left hwork)

variable (netReward) in
/-- The quota of an entry, cut to a whole number and with its fraction. -/
theorem alloc_eq {e : AddressWork} (he : e ∈ works) :
    (alloc (works.map (·.work)).sum netReward e).whole =
        ⌊quota f (works.map (·.address)).toFinset netReward e.address⌋ ∧
      (alloc (works.map (·.work)).sum netReward e).fractional =
        Int.fract (quota f (works.map (·.address)).toFinset netReward
          e.address) := by
  unfold alloc quota
  rw [sum_works hsorted hwork, hwork e he]
  exact ⟨rfl, rfl⟩

theorem remainder_eq_rest :
    netReward - ((works.map (alloc (works.map (·.work)).sum netReward)).map
        (·.whole)).sum =
      rest (works.map (·.address)).toFinset
        (quota f (works.map (·.address)).toFinset netReward) netReward := by
  unfold rest
  rw [List.sum_toFinset _ (hsorted.imp fun h => ne_of_lt h), List.map_map,
    List.map_map]
  refine congrArg (netReward - List.sum ·) (List.map_congr_left fun e he => ?_)
  exact (alloc_eq netReward hsorted hwork he).1

variable (netReward) in
/-- The sort by the fractions, seen on the addresses. -/
theorem byFraction_addresses :
    ((works.map (alloc (works.map (·.work)).sum netReward)).insertionSort
        fun a b => b.fractional ≤ a.fractional).map (·.address) =
      (works.map (·.address)).insertionSort fun i j =>
        Int.fract (quota f (works.map (·.address)).toFinset netReward j) ≤
          Int.fract (quota f (works.map (·.address)).toFinset netReward i) := by
  rw [List.map_insertionSort (fun a b : Alloc => b.fractional ≤ a.fractional)
    (fun i j => Int.fract (quota f (works.map (·.address)).toFinset
      netReward j) ≤ Int.fract (quota f (works.map (·.address)).toFinset
        netReward i)) (·.address), List.map_map]
  · rfl
  · intro a ha b hb
    obtain ⟨e, he, rfl⟩ := List.mem_map.1 ha
    obtain ⟨e', he', rfl⟩ := List.mem_map.1 hb
    rw [(alloc_eq netReward hsorted hwork he).2,
      (alloc_eq netReward hsorted hwork he').2]
    rfl

/-- Every address gets its part. -/
theorem whole_eq_part {a : Alloc} (ha : a ∈ allocated netReward works) :
    a.whole = part (works.map (·.address)).toFinset
      (quota f (works.map (·.address)).toFinset netReward) netReward
      a.address := by
  obtain ⟨m, hm, haddress, hwhole⟩ :=
    mem_giveRemainder ((List.perm_insertionSort _ _).mem_iff.1 ha)
  -- The place in the sorted list is the rank of the address.
  have haddresses := byFraction_addresses netReward hsorted hwork
  have hplace : ((works.map (·.address)).insertionSort fun i j =>
      Int.fract (quota f (works.map (·.address)).toFinset netReward j) ≤
        Int.fract (quota f (works.map (·.address)).toFinset netReward i))[m]? =
      some a.address := by
    rw [← haddresses, List.getElem?_map, List.getElem?_eq_getElem hm, haddress]
    rfl
  have hrank := rank_of_getElem (pairwise_ahead_insertionSort hsorted) hplace
  rw [List.toFinset_eq_of_perm _ _ (List.perm_insertionSort _ _)] at hrank
  obtain ⟨e, he, halloc⟩ := List.mem_map.1
    ((List.perm_insertionSort _ _).mem_iff.1 (List.getElem_mem hm))
  have hfloor := (alloc_eq netReward hsorted hwork he).1
  have heq : e.address = a.address := by
    rw [haddress, ← halloc]
    rfl
  rw [halloc, heq] at hfloor
  rw [hwhole, hfloor, remainder_eq_rest hsorted hwork, part, hrank]

omit hwork in
/-- The allocations are in the order of the addresses. -/
theorem allocated_addresses_eq :
    (allocated netReward works).map (·.address) = works.map (·.address) := by
  have htotal : Std.Total fun a b : Alloc => a.address ≤ b.address :=
    ⟨fun a b => le_total a.address b.address⟩
  have htrans : IsTrans Alloc fun a b => a.address ≤ b.address :=
    ⟨fun _ _ _ hab hbc => le_trans hab hbc⟩
  have hle : ((allocated netReward works).map (·.address)).Pairwise
      (· ≤ ·) := by
    unfold allocated
    exact List.pairwise_map.2 (List.pairwise_insertionSort _ _)
  exact allocated_addresses.eq_of_pairwise
    (fun a b _ _ hab hba => le_antisymm hab hba) hle
    (hsorted.imp fun h => h.le)

end Allocations

/-! ## The outputs -/

section Outputs

variable (block : FoundBlock) (networkDifficulty : ℚ) {grossReward : Int}
  {settings : PayoutSettings} {dustBalances : List (String × Int)}
  {shares : List PplnsShareEntry}

/-- What is shared out: the reward without the fee. -/
def netReward (grossReward : Int) (settings : PayoutSettings) : Int :=
  grossReward - poolFee grossReward settings.feeBps

/-- The part of the net reward that an address should get: its quota, rounded
by the largest remainders. -/
def partOf (grossReward : Int) (settings : PayoutSettings)
    (dustBalances : List (String × Int)) (shares : List PplnsShareEntry)
    (a : String) : Int :=
  part (addresses shares) (quota (weight grossReward dustBalances shares)
      (addresses shares) (netReward grossReward settings))
    (netReward grossReward settings) a

theorem outputs_eq_of_pos
    (hweight : 0 < ∑ a ∈ addresses shares, weight grossReward dustBalances
      shares a)
    (hnet : 0 < netReward grossReward settings) :
    (buildPayoutPlan block networkDifficulty grossReward settings dustBalances
        shares).outputs =
      (allocated (netReward grossReward settings)
        (weights grossReward dustBalances shares)).map
          (payoutOutput settings.minPayoutSat) := by
  rw [outputs_eq, planOutputs, weights_sum, if_pos ⟨hweight, hnet⟩]
  rfl

/-- The outputs are in the order of the addresses. -/
theorem outputs_addresses
    (hweight : 0 < ∑ a ∈ addresses shares, weight grossReward dustBalances
      shares a)
    (hnet : 0 < netReward grossReward settings) :
    (buildPayoutPlan block networkDifficulty grossReward settings dustBalances
        shares).outputs.map (·.payoutAddress) =
      (workByAddr shares).map (·.address) := by
  rw [outputs_eq_of_pos block networkDifficulty hweight hnet, List.map_map,
    ← weights_addresses grossReward dustBalances,
    ← allocated_addresses_eq weights_sorted]
  exact List.map_congr_left fun a _ => payoutOutput_address a

/-- An output is made of the part of its address. -/
theorem mem_outputs
    (hweight : 0 < ∑ a ∈ addresses shares, weight grossReward dustBalances
      shares a)
    (hnet : 0 < netReward grossReward settings) {o : PayoutOutput}
    (ho : o ∈ (buildPayoutPlan block networkDifficulty grossReward settings
      dustBalances shares).outputs) :
    ∃ a : Alloc, a.address = o.payoutAddress ∧
      a.whole = part (addresses shares) (quota (weight grossReward dustBalances
          shares) (addresses shares) (netReward grossReward settings))
        (netReward grossReward settings) o.payoutAddress ∧
      o = payoutOutput settings.minPayoutSat a := by
  rw [outputs_eq_of_pos block networkDifficulty hweight hnet] at ho
  obtain ⟨a, ha, rfl⟩ := List.mem_map.1 ho
  refine ⟨a, (payoutOutput_address a).symm, ?_, rfl⟩
  rw [payoutOutput_address, whole_eq_part weights_sorted
    (fun e he => weights_work he) ha, weights_toFinset]

/-- Every satoshi is accounted for: the amounts, the dust and the fee add up
to the reward, and an output is either paid or carried forward. -/
theorem plan_accounts (hnonneg : ∀ x ∈ shares, 0 ≤ x.difficulty)
    (hwork : 0 < (shares.map (·.difficulty)).sum)
    (hnet : 0 < grossReward - (buildPayoutPlan block networkDifficulty
      grossReward settings dustBalances shares).poolFeeAmount) :
    let plan := buildPayoutPlan block networkDifficulty grossReward settings
      dustBalances shares
    (plan.outputs.map (·.amount)).sum +
        (plan.outputs.map (·.dustCarriedForward)).sum + plan.poolFeeAmount =
      grossReward ∧
    plan.dustCarriedForwardTotal =
      (plan.outputs.map (·.dustCarriedForward)).sum ∧
    ∀ o ∈ plan.outputs, 0 ≤ o.amount ∧
      (settings.minPayoutSat ≤ o.amount ∧ o.dustCarriedForward = 0 ∨
        o.amount = 0 ∧ o.dustCarriedForward < settings.minPayoutSat) := by
  intro plan
  have hweight : 0 < ∑ a ∈ addresses shares, weight grossReward dustBalances
      shares a := by
    unfold weight
    rw [Finset.sum_add_distrib, sum_shareWork (Finset.Subset.refl _)]
    refine add_pos_of_pos_of_nonneg hwork (Finset.sum_nonneg fun a _ => ?_)
    exact dustBonus_nonneg _ _ _
  have houtputs : plan.outputs = planOutputs (netReward grossReward settings)
      settings.minPayoutSat (weights grossReward dustBalances shares) :=
    outputs_eq _ _ _ _ _ _
  have hne : planOutputs (netReward grossReward settings)
      settings.minPayoutSat (weights grossReward dustBalances shares) ≠ [] := by
    intro hnil
    have haddresses := outputs_addresses block networkDifficulty hweight hnet
    rw [outputs_eq] at haddresses
    unfold netReward at hnil
    rw [hnil] at haddresses
    have hempty : addresses shares = ∅ := by
      rw [← weights_toFinset grossReward dustBalances, weights_addresses,
        ← haddresses]
      rfl
    rw [hempty, Finset.sum_empty] at hweight
    exact lt_irrefl _ hweight
  refine ⟨?_, dustCarriedForwardTotal_eq _ _ _ _ _ _, fun o ho => ?_⟩
  · have hsum := planOutputs_sum hne
    rw [← houtputs] at hsum
    have hfee : plan.poolFeeAmount = poolFee grossReward settings.feeBps := rfl
    unfold netReward at hsum
    omega
  · rw [houtputs] at ho
    have hamount := (planOutputs_nonneg (weights_nonneg hnonneg) ho).2
    refine ⟨hamount, ?_⟩
    rw [(planOutputs_of_ne_nil hne).2.2] at ho
    obtain ⟨a, _, rfl⟩ := List.mem_map.1 ho
    unfold payoutOutput
    split
    · rename_i hlt
      exact Or.inr ⟨rfl, hlt⟩
    · rename_i hge
      exact Or.inl ⟨not_lt.1 hge, rfl⟩

/-- Two addresses, one of them with two workers and with dust.  The third
share is for no work. -/
def sampleShares : List PplnsShareEntry :=
  [⟨1, 1, 1, "lotus_b", 2, 10⟩, ⟨2, 2, 2, "lotus_a", 1, 11⟩,
    ⟨3, 3, 2, "lotus_a", 0, 12⟩, ⟨4, 4, 3, "lotus_b", 4, 13⟩]

def sampleBlock : FoundBlock where
  roundId := 1
  blockHash := "hash"
  height := 1
  templateId := none
  persistSource := none
  coinbaseValue := 200
  networkTargetHex := ""

/-- One percent fee, and at least twenty satoshis for a payout. -/
def smallFee : PayoutSettings :=
  { feeBps := 100, feeAddress := none, minPayoutSat := 20, nMultiplier := 2 }

/-- A plan with a payout, dust and a fee. -/
theorem plan_accounts_sample :
    let plan := buildPayoutPlan sampleBlock 1 100 smallFee [("lotus_a", 30)]
      sampleShares
    plan.outputs.map (fun o => (o.amount, o.dustCarriedForward)) =
      [(0, 18), (81, 0)] ∧
    plan.poolFeeAmount = 1 ∧
    (plan.outputs.map (·.amount)).sum +
      (plan.outputs.map (·.dustCarriedForward)).sum + plan.poolFeeAmount =
        100 :=
  ⟨by decide +kernel, by decide +kernel, (plan_accounts sampleBlock 1
    (by decide +kernel) (by decide +kernel) (by decide +kernel)).1⟩

/-- The addresses whose output is one unit above the quota that was cut. -/
def roundedUp (q : String → ℚ) (outputs : List PayoutOutput) :
    Finset String :=
  ((outputs.filter fun o => o.amount + o.dustCarriedForward ==
    ⌊q o.payoutAddress⌋ + 1).map (·.payoutAddress)).toFinset

/-- The outputs are the parts of the method of the largest remainders. -/
theorem outputs_largestRemainder
    (hweight : 0 < ∑ a ∈ addresses shares, weight grossReward dustBalances
      shares a)
    (hnet : 0 < grossReward - (buildPayoutPlan block networkDifficulty
      grossReward settings dustBalances shares).poolFeeAmount) :
    let plan := buildPayoutPlan block networkDifficulty grossReward settings
      dustBalances shares
    let q := quota (weight grossReward dustBalances shares) (addresses shares)
      (grossReward - plan.poolFeeAmount)
    (plan.outputs.map (·.payoutAddress)).Pairwise (· < ·) ∧
    (∀ a, a ∈ plan.outputs.map (·.payoutAddress) ↔ a ∈ addresses shares) ∧
    (∀ o ∈ plan.outputs,
      o.amount + o.dustCarriedForward = ⌊q o.payoutAddress⌋ ∨
        o.amount + o.dustCarriedForward = ⌈q o.payoutAddress⌉) ∧
    ((roundedUp q plan.outputs).card : Int) =
      grossReward - plan.poolFeeAmount - ∑ a ∈ addresses shares, ⌊q a⌋ ∧
    ∀ a ∈ roundedUp q plan.outputs,
      ∀ b ∈ addresses shares, b ∉ roundedUp q plan.outputs →
        Ahead q a b := by
  intro plan q
  have haddresses : plan.outputs.map (·.payoutAddress) =
      (workByAddr shares).map (·.address) :=
    outputs_addresses block networkDifficulty hweight hnet
  have hmem : ∀ a, a ∈ plan.outputs.map (·.payoutAddress) ↔
      a ∈ addresses shares := by
    intro a
    rw [haddresses, mem_addresses]
    exact (workByAddr_tallied shares).mem a
  have hpart : ∀ o ∈ plan.outputs, o.amount + o.dustCarriedForward =
      part (addresses shares) q (netReward grossReward settings)
        o.payoutAddress := by
    intro o ho
    obtain ⟨a, _, hwhole, rfl⟩ :=
      mem_outputs block networkDifficulty hweight hnet ho
    rw [payoutOutput_sum]
    exact hwhole
  have hsum : ∑ a ∈ addresses shares, q a =
      (netReward grossReward settings : ℤ) := sum_quota hweight.ne'
  have hrounded : roundedUp q plan.outputs = (addresses shares).filter fun a =>
      part (addresses shares) q (netReward grossReward settings) a =
        ⌊q a⌋ + 1 := by
    ext a
    rw [Finset.mem_filter, roundedUp, List.mem_toFinset, List.mem_map, ← hmem,
      List.mem_map]
    constructor
    · rintro ⟨o, ho, rfl⟩
      obtain ⟨ho, heq⟩ := List.mem_filter.1 ho
      refine ⟨⟨o, ho, rfl⟩, ?_⟩
      rw [← hpart o ho]
      exact eq_of_beq heq
    · rintro ⟨⟨o, ho, rfl⟩, heq⟩
      refine ⟨o, List.mem_filter.2 ⟨ho, ?_⟩, rfl⟩
      rw [hpart o ho, heq]
      exact beq_self_eq_true _
  refine ⟨?_, hmem, fun o ho => ?_, ?_, ?_⟩
  · rw [haddresses]
    exact List.pairwise_map.2 (workByAddr_sorted shares)
  · rw [hpart o ho]
    exact part_eq_floor_or_ceil hsum o.payoutAddress
  · rw [hrounded, card_roundedUp hsum]
    rfl
  · intro a ha b hb hnot
    rw [hrounded, Finset.mem_filter] at ha hnot
    refine ahead_of_rank_lt hb ?_
    rcases part_cases (addresses shares) q (netReward grossReward settings) a
      with ⟨hranka, _⟩ | ⟨_, hparta⟩
    · rcases part_cases (addresses shares) q (netReward grossReward settings) b
        with ⟨_, hpartb⟩ | ⟨hrankb, _⟩
      · exact absurd ⟨hb, hpartb⟩ hnot
      · omega
    · omega

/-- In this plan one of the two addresses is rounded up. -/
theorem outputs_largestRemainder_sample :
    let plan := buildPayoutPlan sampleBlock 1 100 smallFee [("lotus_a", 30)]
      sampleShares
    let q := quota (weight 100 [("lotus_a", 30)] sampleShares)
      (addresses sampleShares) (100 - plan.poolFeeAmount)
    roundedUp q plan.outputs = {"lotus_a"} ∧
      ((roundedUp q plan.outputs).card : Int) = 100 - plan.poolFeeAmount -
        ∑ a ∈ addresses sampleShares, ⌊q a⌋ :=
  ⟨by decide +kernel, (outputs_largestRemainder sampleBlock 1
    (by decide +kernel) (by decide +kernel)).2.2.2.1⟩

end Outputs

end StratumServer
