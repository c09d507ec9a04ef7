import StratumServer.Payouts.Work
import Mathlib.Algebra.Order.Archimedean.Basic
import Mathlib.Tactic.FieldSimp
import Mathlib.Tactic.Linarith
import Mathlib.Tactic.Positivity

/-!
# The bonus for dust

A plan counts the dust of an address as extra work, one satoshi as one part of
the gross reward.  It does not multiply by the work of the window, so what a
satoshi of dust is worth depends on the unit of the work: with little work in
the window it is worth more than a satoshi.

`bonusBounded_iff` says for which shares the bonus of an address never exceeds
its dust by more than the rounding.
-/

namespace StratumServer

open LargestRemainder

/-! ## Raising a balance -/

/-- The balance that a plan finds for an address.  A later entry of the list
replaces an earlier one. -/
def dustOf (dustBalances : List (String × Int)) (a : String) : Int :=
  ((dustBalances.reverse.find? (·.1 == a)).map (·.2)).getD 0

/-- The second list has `d` more for the address, and nothing else is
different. -/
def Raised (dust dust' : List (String × Int)) (a : String) (d : Int) : Prop :=
  ∀ b, dustOf dust' b = dustOf dust b + if b = a then d else 0

theorem raised_append (dust : List (String × Int)) (a : String) (d : Int) :
    Raised dust (dust ++ [(a, dustOf dust a + d)]) a d := by
  intro b
  unfold dustOf
  rw [List.reverse_append]
  by_cases hb : b = a
  · simp [hb]
  · simp [hb, Ne.symm hb]

theorem dustBonus_eq_dustOf (grossReward : Int) (dust : List (String × Int))
    (a : String) : dustBonus grossReward dust a =
      if 0 < grossReward ∧ 0 < dustOf dust a then
        (dustOf dust a : ℚ) / grossReward
      else 0 := by
  unfold dustBonus dustOf
  cases dust.reverse.find? (·.1 == a) with
  | none => simp
  | some p => rfl

/-- A balance below zero counts for nothing. -/
theorem dustBonus_of_pos {grossReward : Int} (hgross : 0 < grossReward)
    (dust : List (String × Int)) (a : String) :
    dustBonus grossReward dust a =
      ((max (dustOf dust a) 0 : Int) : ℚ) / grossReward := by
  rw [dustBonus_eq_dustOf]
  split_ifs with h
  · rw [max_eq_left h.2.le]
  · rw [max_eq_right (not_lt.1 fun hpos => h ⟨hgross, hpos⟩), Int.cast_zero,
      zero_div]

/-- What `d` satoshis more count as, on top of the balance. -/
def gain (grossReward balance d : Int) : ℚ :=
  ((max (balance + d) 0 - max balance 0 : Int) : ℚ) / grossReward

theorem gain_nonneg {grossReward balance d : Int} (hgross : 0 < grossReward)
    (hd : 0 < d) : 0 ≤ gain grossReward balance d := by
  apply div_nonneg
  · exact_mod_cast (by omega : 0 ≤ max (balance + d) 0 - max balance 0)
  · exact_mod_cast hgross.le

theorem mul_gain_le {grossReward balance d : Int} (hgross : 0 < grossReward)
    (hd : 0 < d) : grossReward * gain grossReward balance d ≤ d := by
  have hpos : (0 : ℚ) < grossReward := by exact_mod_cast hgross
  unfold gain
  rw [mul_div_cancel₀ _ hpos.ne']
  exact_mod_cast (by omega : max (balance + d) 0 - max balance 0 ≤ d)

theorem weight_raised {grossReward d : Int} {dust dust' : List (String × Int)}
    {a : String} (hgross : 0 < grossReward) (h : Raised dust dust' a d)
    (shares : List PplnsShareEntry) (b : String) :
    weight grossReward dust' shares b = weight grossReward dust shares b +
      if b = a then gain grossReward (dustOf dust a) d else 0 := by
  unfold weight gain
  rw [dustBonus_of_pos hgross, dustBonus_of_pos hgross, h b]
  split_ifs with hb
  · rw [hb]
    push_cast
    ring
  · rw [add_zero, add_zero]

/-! ## The quota of an address whose weight grows -/

section Quota

variable {f f' : String → ℚ} {s : Finset String} {a : String} {δ : ℚ}
  (ha : a ∈ s) (hraised : ∀ b, f' b = f b + if b = a then δ else 0)

include ha hraised

theorem sum_raised : ∑ b ∈ s, f' b = ∑ b ∈ s, f b + δ := by
  rw [Finset.sum_congr rfl fun b _ => hraised b, Finset.sum_add_distrib,
    Finset.sum_ite_eq' s a, if_pos ha]

theorem quota_raised (hpos : 0 < ∑ b ∈ s, f b) (hδ : 0 ≤ δ) (n : Int) :
    quota f' s n a = quota f s n a +
      n * δ * (∑ b ∈ s, f b - f a) /
        ((∑ b ∈ s, f b) * (∑ b ∈ s, f b + δ)) := by
  have hpos' : 0 < ∑ b ∈ s, f b + δ := by linarith
  unfold quota
  rw [sum_raised ha hraised, hraised a, if_pos rfl]
  field_simp
  ring

/-- With enough work in the window, the quota grows by no more than the
dust. -/
theorem quota_raised_le (hpos : 0 < ∑ b ∈ s, f b) (hδ : 0 ≤ δ) {n d : Int}
    (hn : 0 < n) (hnδ : n * δ ≤ d)
    (hothers : ∑ b ∈ s, f b - f a ≤ (∑ b ∈ s, f b) ^ 2) :
    quota f' s n a ≤ quota f s n a + d := by
  have hpos' : 0 < ∑ b ∈ s, f b + δ := by linarith
  have hn' : (0 : ℚ) < n := by exact_mod_cast hn
  have hnδ' : 0 ≤ n * δ := mul_nonneg hn'.le hδ
  rw [quota_raised ha hraised hpos hδ, add_le_add_iff_left,
    div_le_iff₀ (mul_pos hpos hpos')]
  generalize ∑ b ∈ s, f b = W at *
  calc n * δ * (W - f a) ≤ n * δ * W ^ 2 := by gcongr
    _ ≤ d * W ^ 2 := by gcongr
    _ ≤ d * (W * (W + δ)) := by
      have hd : (0 : ℚ) ≤ d := hnδ'.trans hnδ
      have hsquare : W ^ 2 ≤ W * (W + δ) := by nlinarith
      gcongr

end Quota

/-! ## The work that is enough -/

/-- The work `w` of an address is enough in a window with the work `total`: a
quarter, or so much that the others have no more than the square of the
total. -/
def EnoughWork (total w : ℚ) : Prop :=
  1 / 4 ≤ w ∨ 1 / 2 ≤ total ∧ total - w ≤ total ^ 2

instance (total w : ℚ) : Decidable (EnoughWork total w) :=
  inferInstanceAs (Decidable (_ ∨ _ ∧ _))

/-- Enough work stays enough when the others get more. -/
theorem EnoughWork.le_sq {total w x : ℚ} (h : EnoughWork total w)
    (hx : total - w ≤ x) : x ≤ (x + w) ^ 2 := by
  rcases h with hw | ⟨htotal, hothers⟩
  · nlinarith [sq_nonneg (x + w - 1 / 2)]
  · nlinarith [sq_nonneg (x + w - total)]

/-- Too little work, and the others can have so much that a satoshi of dust is
worth more than one. -/
theorem sq_lt_of_not_enoughWork {total w : ℚ} (h : ¬ EnoughWork total w) :
    (max total (1 / 2)) ^ 2 < max total (1 / 2) - w := by
  obtain ⟨hw, hothers⟩ := not_or.1 h
  rcases le_total (1 / 2) total with htotal | htotal
  · rw [max_eq_left htotal]
    exact not_le.1 fun hle => hothers ⟨htotal, hle⟩
  · rw [max_eq_right htotal]
    linarith

/-! ## What the others weigh -/

section Others

variable {grossReward : Int} {dust : List (String × Int)}
  {shares : List PplnsShareEntry} {a : String}

/-- The weights add up to the work and the bonuses. -/
theorem sum_weight : ∑ b ∈ addresses shares, weight grossReward dust shares b =
    (shares.map (·.difficulty)).sum +
      ∑ b ∈ addresses shares, dustBonus grossReward dust b := by
  unfold weight
  rw [Finset.sum_add_distrib, sum_shareWork (Finset.Subset.refl _)]

theorem sum_weight_pos (h : 0 < (shares.map (·.difficulty)).sum) :
    0 < ∑ b ∈ addresses shares, weight grossReward dust shares b := by
  rw [sum_weight]
  have hbonus : 0 ≤ ∑ b ∈ addresses shares, dustBonus grossReward dust b :=
    Finset.sum_nonneg fun b _ => dustBonus_nonneg _ _ _
  linarith

/-- What the others weigh, when the address has enough work or is alone. -/
theorem others_le_sq (ha : a ∈ addresses shares)
    (hpos : 0 < (shares.map (·.difficulty)).sum)
    (h : (∀ b ∈ addresses shares, b = a) ∨
      EnoughWork (shares.map (·.difficulty)).sum (shareWork shares a)) :
    ∑ b ∈ addresses shares, weight grossReward dust shares b -
        weight grossReward dust shares a ≤
      (∑ b ∈ addresses shares, weight grossReward dust shares b) ^ 2 := by
  rcases h with halone | henough
  · have hsingle : addresses shares = {a} :=
      Finset.eq_singleton_iff_unique_mem.2 ⟨ha, halone⟩
    rw [hsingle, Finset.sum_singleton, sub_self]
    exact sq_nonneg _
  · have hbonus := Finset.single_le_sum
      (fun b _ => dustBonus_nonneg grossReward dust b) ha
    have hown := dustBonus_nonneg grossReward dust a
    rw [sum_weight]
    unfold weight
    set total := (shares.map (·.difficulty)).sum
    set bonus := ∑ b ∈ addresses shares, dustBonus grossReward dust b
    have hle := henough.le_sq
      (x := total + bonus - (shareWork shares a + dustBonus grossReward dust a))
      (by linarith)
    refine hle.trans (pow_le_pow_left₀ ?_ ?_ 2) <;> linarith

end Others

/-! ## The bound -/

/-- Whatever the reward, the settings and the dust: `d` satoshis more of dust
bring the address at most `d + 1` satoshis more. -/
def BonusBounded (shares : List PplnsShareEntry) (a : String) : Prop :=
  ∀ (block : FoundBlock) (networkDifficulty : ℚ) (grossReward : Int)
    (settings : PayoutSettings) (dust dust' : List (String × Int)) (d : Int),
    0 < grossReward → 0 < d → Raised dust dust' a d →
    receivedTotal (buildPayoutPlan block networkDifficulty grossReward settings
        dust' shares) a ≤
      receivedTotal (buildPayoutPlan block networkDifficulty grossReward settings
        dust shares) a + d + 1

theorem netReward_le (grossReward : Int) (settings : PayoutSettings) :
    netReward grossReward settings ≤ grossReward := by
  have hfee := poolFee_nonneg grossReward settings.feeBps
  unfold netReward
  omega

section Bound

variable {shares : List PplnsShareEntry} {a : String}

theorem bonusBounded_of_enoughWork
    (hpos : 0 < (shares.map (·.difficulty)).sum)
    (h : (∀ b ∈ addresses shares, b = a) ∨
      EnoughWork (shares.map (·.difficulty)).sum (shareWork shares a)) :
    BonusBounded shares a := by
  intro block networkDifficulty grossReward settings dust dust' d hgross hd
    hraised
  by_cases hgets : a ∈ addresses shares ∧ 0 < netReward grossReward settings
  · obtain ⟨ha, hnet⟩ := hgets
    have hgain : 0 ≤ gain grossReward (dustOf dust a) d :=
      gain_nonneg hgross hd
    have hnetgain : netReward grossReward settings *
        gain grossReward (dustOf dust a) d ≤ d := by
      have hle : (netReward grossReward settings : ℚ) ≤ grossReward := by
        exact_mod_cast netReward_le grossReward settings
      exact (mul_le_mul_of_nonneg_right hle hgain).trans (mul_gain_le hgross hd)
    rw [receivedTotal_of_mem ha (sum_weight_pos hpos) hnet,
      receivedTotal_of_mem ha (sum_weight_pos hpos) hnet]
    apply part_le_part_add (sum_quota (sum_weight_pos hpos).ne')
    exact quota_raised_le ha (weight_raised hgross hraised shares)
      (sum_weight_pos hpos) hgain hnet hnetgain (others_le_sq ha hpos h)
  · have hnone : ∀ dust, receivedTotal (buildPayoutPlan block networkDifficulty
        grossReward settings dust shares) a = 0 :=
      fun dust => receivedTotal_eq_zero fun hpos => hgets ⟨hpos.1, hpos.2.2⟩
    rw [hnone, hnone]
    omega

/-- When the others weigh more than the square, there are an amount of dust
and a reward from which on it is worth three satoshis more than it is. -/
theorem exists_excess {W x : ℚ} (hW : 0 < W) (hx : W ^ 2 < x) :
    ∃ d M : Nat, 0 < d ∧ 0 < M ∧ ∀ g : ℚ, M ≤ g →
      (d + 3) * (W * (W + d / g)) ≤ d * x := by
  have hexcess : 0 < x - W ^ 2 := by linarith
  obtain ⟨d, hd⟩ := exists_nat_ge ((3 * W ^ 2 + 1) / (x - W ^ 2))
  obtain ⟨M, hM⟩ := exists_nat_gt ((d + 3) * W * d)
  have hdpos : (0 : ℚ) < d := lt_of_lt_of_le (by positivity) hd
  have hMpos : (0 : ℚ) < M := lt_trans (by positivity) hM
  refine ⟨d, M, by exact_mod_cast hdpos, by exact_mod_cast hMpos, ?_⟩
  intro g hg
  have hsmall : (d + 3) * W * (d / g) ≤ 1 := by
    rw [← mul_div_assoc, div_le_one (hMpos.trans_le hg)]
    exact (hM.trans_le hg).le
  rw [div_le_iff₀ hexcess] at hd
  linarith

/-- The dust of one address that counts as `bonus`, for a reward that is a
multiple of the denominator. -/
theorem dustBonus_single {bonus : ℚ} (hbonus : 0 ≤ bonus) {M : Nat}
    (hM : 0 < M) (b c : String) :
    dustBonus (bonus.den * M) [(b, bonus.num * M)] c =
      if c = b then bonus else 0 := by
  have hden : (0 : Int) < bonus.den * M := by
    have := bonus.den_pos
    positivity
  have hM' : (M : ℚ) ≠ 0 := by exact_mod_cast hM.ne'
  rw [dustBonus_of_pos hden]
  split_ifs with hc
  · have hbalance : dustOf [(b, bonus.num * M)] c = bonus.num * M := by
      simp [dustOf, hc]
    have hnum : 0 ≤ bonus.num * M :=
      mul_nonneg (Rat.num_nonneg.2 hbonus) (Int.natCast_nonneg _)
    rw [hbalance, max_eq_left hnum]
    push_cast
    rw [mul_div_mul_right _ _ hM', Rat.num_div_den]
  · have hbalance : dustOf [(b, bonus.num * M)] c = 0 := by
      simp [dustOf, Ne.symm hc]
    rw [hbalance, max_self, Int.cast_zero, zero_div]

/-- With too little work, and another address in the window, some dust is worth
too much. -/
theorem not_bonusBounded {b : String}
    (hpos : 0 < (shares.map (·.difficulty)).sum) (ha : a ∈ addresses shares)
    (hb : b ∈ addresses shares) (hba : b ≠ a)
    (h : ¬ EnoughWork (shares.map (·.difficulty)).sum (shareWork shares a)) :
    ¬ BonusBounded shares a := by
  set total := (shares.map (·.difficulty)).sum
  set W := max total (1 / 2)
  have hW : 0 < W := hpos.trans_le (le_max_left _ _)
  have hbonus : 0 ≤ W - total := sub_nonneg.2 (le_max_left _ _)
  obtain ⟨d, M, hd, hM, hexcess⟩ :=
    exists_excess hW (sq_lt_of_not_enoughWork h)
  -- without a fee, and with the dust that makes the weights add up to `W`
  set gross : Int := (W - total).den * M
  set dust := [(b, (W - total).num * (M : Int))]
  let settings : PayoutSettings :=
    { feeBps := 0, feeAddress := none, minPayoutSat := 0, nMultiplier := 2 }
  have hbonuses := dustBonus_single hbonus hM b
  have hgross : 0 < gross := by
    have := (W - total).den_pos
    positivity
  have hMgross : (M : ℚ) ≤ gross := by
    have hle : (M : Int) ≤ gross := by
      change (M : Int) ≤ ((W - total).den : Int) * M
      exact_mod_cast Nat.le_mul_of_pos_left M (W - total).den_pos
    exact_mod_cast hle
  have hnet : netReward gross settings = gross := by
    simp [netReward, poolFee_eq, settings]
  have hsum : ∑ c ∈ addresses shares, weight gross dust shares c = W := by
    rw [sum_weight, Finset.sum_congr rfl fun c _ => hbonuses c,
      Finset.sum_ite_eq' _ b, if_pos hb]
    ring
  have hown : weight gross dust shares a = shareWork shares a := by
    unfold weight
    rw [hbonuses a, if_neg hba.symm, add_zero]
  have hbalance : dustOf dust a = 0 := by simp [dustOf, dust, hba]
  have hgain : gain gross (dustOf dust a) d = d / gross := by
    rw [hbalance]
    simp [gain]
  intro hbounded
  have hle := hbounded sampleBlock 1 gross settings dust _ d hgross
    (by exact_mod_cast hd) (raised_append dust a d)
  have hnetpos : 0 < netReward gross settings := lt_of_lt_of_eq hgross hnet.symm
  rw [receivedTotal_of_mem ha (sum_weight_pos hpos) hnetpos,
    receivedTotal_of_mem ha (sum_weight_pos hpos) hnetpos] at hle
  refine absurd hle (not_le.2 ?_)
  apply part_add_lt_part (sum_quota (sum_weight_pos hpos).ne')
  have hgross' : (0 : ℚ) < gross := by exact_mod_cast hgross
  have hgainpos : (0 : ℚ) ≤ d / gross := by positivity
  rw [quota_raised ha (weight_raised hgross (raised_append dust a d) shares)
    (sum_weight_pos hpos) (by rw [hgain]; exact hgainpos), hnet, hsum, hown,
    hgain, mul_div_cancel₀ _ hgross'.ne', add_assoc, add_le_add_iff_left,
    le_div_iff₀ (by positivity)]
  exact hexcess gross hMgross

end Bound

/-- The bonus of an address is bounded if and only if the address is the only
one, or has no share, or has enough work. -/
theorem bonusBounded_iff (shares : List PplnsShareEntry) (a : String)
    (hpos : 0 < (shares.map (·.difficulty)).sum) :
    BonusBounded shares a ↔
      (∀ b ∈ addresses shares, b = a) ∨ a ∉ addresses shares ∨
        EnoughWork (shares.map (·.difficulty)).sum (shareWork shares a) := by
  constructor
  · intro h
    by_contra hnot
    obtain ⟨hothers, hmem, hlittle⟩ : (∃ b ∈ addresses shares, b ≠ a) ∧
        a ∈ addresses shares ∧
        ¬ EnoughWork (shares.map (·.difficulty)).sum (shareWork shares a) := by
      push Not at hnot
      exact hnot
    obtain ⟨b, hb, hba⟩ := hothers
    exact not_bonusBounded hpos hmem hb hba hlittle h
  · rintro (halone | hnone | henough)
    · exact bonusBounded_of_enoughWork hpos (Or.inl halone)
    · intro block networkDifficulty grossReward settings dust dust' d _ hd _
      rw [receivedTotal_eq_zero fun hpos => hnone hpos.1,
        receivedTotal_eq_zero fun hpos => hnone hpos.1]
      omega
    · exact bonusBounded_of_enoughWork hpos (Or.inr henough)

/-- Two miners whose shares add up to more than one. -/
theorem bonusBounded_sample :
    0 < (sampleShares.map (·.difficulty)).sum ∧
      BonusBounded sampleShares "lotus_a" := by
  have hpos : 0 < (sampleShares.map (·.difficulty)).sum := by decide +kernel
  refine ⟨hpos, (bonusBounded_iff _ _ hpos).2 ?_⟩
  exact Or.inr (Or.inr (by decide +kernel))

/-- Two miners at a difficulty of one hundredth. -/
def lightShares : List PplnsShareEntry :=
  [⟨1, 1, 1, "lotus_a", 1 / 100, 10⟩, ⟨2, 2, 2, "lotus_b", 1 / 100, 11⟩]

/-- With a reward of one million, 100 satoshis of dust bring 2488 satoshis
more. -/
theorem bonusBounded_fails : ¬ BonusBounded lightShares "lotus_a" ∧
    receivedTotal (buildPayoutPlan sampleBlock 1 1000000
      { smallFee with feeBps := 0 } [] lightShares) "lotus_a" = 500000 ∧
    receivedTotal (buildPayoutPlan sampleBlock 1 1000000
      { smallFee with feeBps := 0 } [("lotus_a", 100)] lightShares) "lotus_a" =
        502488 := by
  have hbefore : receivedTotal (buildPayoutPlan sampleBlock 1 1000000
      { smallFee with feeBps := 0 } [] lightShares) "lotus_a" = 500000 := by
    decide +kernel
  have hafter : receivedTotal (buildPayoutPlan sampleBlock 1 1000000
      { smallFee with feeBps := 0 } [("lotus_a", 100)] lightShares) "lotus_a" =
        502488 := by
    decide +kernel
  refine ⟨fun h => ?_, hbefore, hafter⟩
  have hle := h sampleBlock 1 1000000 { smallFee with feeBps := 0 } []
    [("lotus_a", 100)] 100 (by decide) (by decide)
    (raised_append [] "lotus_a" 100)
  rw [hbefore, hafter] at hle
  exact absurd hle (by decide)

end StratumServer
