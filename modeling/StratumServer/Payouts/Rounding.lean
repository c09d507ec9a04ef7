import StratumServer.Lib.Binary64
import StratumServer.Payout.Rounded
import StratumServer.Payouts.Apportionment

/-!
# The payout plan that the floating point numbers give

`Payout/Rounded` computes the plan with the roundings of `f64`.  Here it is
compared with the exact plan.

`Computed k` relates a weight to what `k` roundings make of it.  The relation
goes through the steps of `build_payout_plan`: a share is one more rounding
(`computed_addWork`), the dust four more (`computed_addDust`), the sum one for
each address (`approx_total`), and the reward of an address three more
(`approx_reward`).  In the end the rewards are less than one satoshi off, so the
remainder is still handed out completely.
-/

namespace StratumServer

open RelativeError Binary64

/-! ## The weights -/

/-- An entry, and what was computed for it with at most `k` roundings. -/
structure Computed (k : Nat) (e e' : AddressWork) : Prop where
  address : e'.address = e.address
  workerId : e'.workerId = e.workerId
  approx : arithmetic.Approx k e.work e'.work
  low : 2 ^ (-100 : Int) ≤ e.work
  high : e.work ≤ k * 2 ^ (100 : Int)

/-- The sums of the weights are far below the end of the range. -/
theorem mul_range_le {j k : Nat} (hj : j ≤ 2 ^ 53) (hk : k ≤ 2 ^ 53) :
    (j : ℚ) * (k * 2 ^ (100 : Int)) ≤ 2 ^ (206 : Int) := by
  have hj' : (j : ℚ) ≤ 2 ^ 53 := by exact_mod_cast hj
  have hk' : (k : ℚ) ≤ 2 ^ 53 := by exact_mod_cast hk
  calc (j : ℚ) * (k * 2 ^ (100 : Int)) ≤ 2 ^ 53 * (2 ^ 53 * 2 ^ (100 : Int)) := by
        gcongr
    _ = 2 ^ (206 : Int) := by norm_num

theorem low_range {x : ℚ} (h : 2 ^ (-100 : Int) ≤ x) : 2 ^ (-1000 : Int) ≤ x :=
  le_trans (zpow_le_zpow_right₀ (by norm_num) (by norm_num)) h

theorem high_range {x : ℚ} (h : x ≤ 2 ^ (206 : Int)) : x ≤ 2 ^ (1000 : Int) :=
  le_trans h (zpow_le_zpow_right₀ (by norm_num) (by norm_num))

namespace Computed

variable {j k : Nat} {e e' : AddressWork}

theorem pos (h : Computed k e e') : 0 < e.work :=
  lt_of_lt_of_le (zpow_pos (by norm_num) _) h.low

theorem mono (h : Computed j e e') (hjk : j ≤ k) : Computed k e e' where
  address := h.address
  workerId := h.workerId
  approx := h.approx.mono Rounding.factor_pos Rounding.factor_le_one h.pos.le hjk
  low := h.low
  high := by
    have hcast : (j : ℚ) ≤ k := by exact_mod_cast hjk
    exact h.high.trans (by gcongr)

/-- More work, with one more rounding. -/
theorem add (h : Computed k e e') {x x' : ℚ} (hx : arithmetic.Approx k x x')
    (hx0 : 0 ≤ x) (hhigh : x ≤ 2 ^ (100 : Int)) (hk : k ≤ 2 ^ 52) :
    Computed (k + 1) { e with work := e.work + x }
      { e' with work := nearest (e'.work + x') } where
  address := h.address
  workerId := h.workerId
  low := le_trans h.low (by simpa using hx0)
  high := by
    push_cast
    rw [add_mul, one_mul]
    exact add_le_add h.high hhigh
  approx := by
    have hsum : e.work + x ≤ ((k + 1 : Nat) : ℚ) * ((1 : Nat) * 2 ^ (100 : Int)) := by
      push_cast
      linarith [h.high]
    refine approx_nearest (h.approx.add hx) hk ?_ ?_
    · exact low_range (le_trans h.low (by simpa using hx0))
    · exact high_range (hsum.trans (mul_range_le (by omega) (by norm_num)))

end Computed

/-- The difficulty of a share is far from the ends of the range. -/
def Moderate (share : PplnsShareEntry) : Prop :=
  2 ^ (-100 : Int) ≤ share.difficulty ∧ share.difficulty ≤ 2 ^ (100 : Int)

theorem Moderate.pos {share : PplnsShareEntry} (h : Moderate share) :
    0 < share.difficulty :=
  lt_of_lt_of_le (zpow_pos (by norm_num) _) h.1

section Works

variable {k : Nat} {acc acc' : List AddressWork}

theorem computed_addresses (h : List.Forall₂ (Computed k) acc acc') :
    acc'.map (·.address) = acc.map (·.address) := by
  induction h with
  | nil => rfl
  | cons he _ ih => rw [List.map_cons, List.map_cons, he.address, ih]

/-- One more share. -/
theorem computed_addWork (h : List.Forall₂ (Computed k) acc acc')
    {share : PplnsShareEntry} (hshare : Moderate share) (hk : k ≤ 2 ^ 52) :
    List.Forall₂ (Computed (k + 1)) (addWork acc share)
      (Rounded.addWork nearest acc' share) := by
  have hrefl : arithmetic.Approx k share.difficulty share.difficulty :=
    .refl Rounding.factor_pos Rounding.factor_le_one hshare.pos.le k
  have hany : acc'.any (·.address == share.payoutAddress) =
      acc.any (·.address == share.payoutAddress) := by
    have hmap : ∀ l : List AddressWork,
        l.any (·.address == share.payoutAddress) =
          (l.map (·.address)).any (· == share.payoutAddress) := by
      intro l
      rw [List.any_map]
      rfl
    rw [hmap, hmap, computed_addresses h]
  unfold addWork Rounded.addWork
  rw [hany]
  split
  · rw [List.forall₂_map_left_iff, List.forall₂_map_right_iff]
    refine h.imp fun e e' he => ?_
    by_cases heq : e.address = share.payoutAddress
    · rw [if_pos (beq_iff_eq.2 heq),
        if_pos (beq_iff_eq.2 (he.address.trans heq))]
      exact he.add hrefl hshare.pos.le hshare.2 hk
    · rw [if_neg fun h => heq (beq_iff_eq.1 h),
        if_neg fun h => heq (he.address.symm.trans (beq_iff_eq.1 h))]
      exact he.mono (Nat.le_succ k)
  · refine List.rel_append (h.imp fun e e' he => he.mono (Nat.le_succ k)) ?_
    refine .cons ⟨rfl, rfl, ?_, hshare.1, ?_⟩ .nil
    · rw [zero_add]
      refine approx_nearest hrefl hk (low_range hshare.1) (high_range ?_)
      exact hshare.2.trans (zpow_le_zpow_right₀ (by norm_num) (by norm_num))
    · refine hshare.2.trans (le_mul_of_one_le_left (by positivity) ?_)
      push_cast
      linarith [Nat.cast_nonneg (α := ℚ) k]

/-- The loop over the shares. -/
theorem computed_foldl {shares : List PplnsShareEntry}
    (hshares : ∀ s ∈ shares, Moderate s) :
    ∀ {k : Nat} {acc acc' : List AddressWork},
      List.Forall₂ (Computed k) acc acc' → k + shares.length ≤ 2 ^ 52 →
      List.Forall₂ (Computed (k + shares.length)) (shares.foldl addWork acc)
        (shares.foldl (Rounded.addWork nearest) acc') := by
  induction shares with
  | nil => exact fun h _ => h
  | cons share shares ih =>
    intro k acc acc' h hk
    rw [List.length_cons] at hk
    have hfirst := computed_addWork h (hshares share List.mem_cons_self)
      (by omega)
    have hrest := ih (fun s hs => hshares s (List.mem_cons_of_mem _ hs)) hfirst
      (by omega)
    rw [List.length_cons, show k + (shares.length + 1) = k + 1 + shares.length
      from by omega]
    exact hrest

theorem computed_workByAddr {shares : List PplnsShareEntry}
    (hshares : ∀ s ∈ shares, Moderate s) (hlength : shares.length ≤ 2 ^ 52) :
    List.Forall₂ (Computed shares.length) (workByAddr shares)
      (Rounded.workByAddr nearest shares) := by
  have hfold := computed_foldl hshares (k := 0) .nil (by omega)
  rw [Nat.zero_add] at hfold
  refine Apportion.forall₂_insertionSort (fun a b a' b' hab hab' => ?_) hfold
  rw [hab.address, hab'.address]

end Works

/-- A whole number that becomes a floating point number. -/
theorem approx_intCast {n : Int} (hpos : 0 < n) (hn : n < 2 ^ 63) :
    arithmetic.Approx 1 (n : ℚ) (nearest n) := by
  have hlow : (1 : ℚ) ≤ n := by exact_mod_cast hpos
  have hhigh : (n : ℚ) ≤ 2 ^ 63 := by exact_mod_cast hn.le
  have hrefl : arithmetic.Approx 0 (n : ℚ) n :=
    .refl Rounding.factor_pos Rounding.factor_le_one (by linarith) 0
  refine approx_nearest hrefl (by norm_num) (low_range ?_) (high_range ?_)
  · exact le_trans (by norm_num) hlow
  · exact le_trans hhigh (by norm_num)

section Dust

variable {grossReward : Int} {dustBalances : List (String × Int)}

/-- What the dust of an address counts as: two conversions and a quotient. -/
theorem approx_dustWeight {dust : Int} (hdust : 0 < dust) (hdust63 : dust < 2 ^ 63)
    (hgross : 0 < grossReward) (hgross63 : grossReward < 2 ^ 63) :
    arithmetic.Approx 3 ((dust : ℚ) / grossReward)
      (nearest (nearest dust / nearest grossReward)) := by
  have hdust1 : (1 : ℚ) ≤ dust := by exact_mod_cast hdust
  have hgross1 : (1 : ℚ) ≤ grossReward := by exact_mod_cast hgross
  have hquot := (approx_intCast hdust hdust63).div Rounding.factor_pos
    (approx_intCast hgross hgross63) (by linarith) (by linarith)
  have hdust' : (dust : ℚ) ≤ 2 ^ 63 := by exact_mod_cast hdust63.le
  have hgross' : (grossReward : ℚ) ≤ 2 ^ 63 := by exact_mod_cast hgross63.le
  refine approx_nearest hquot (by norm_num) (low_range ?_) (high_range ?_)
  · rw [le_div_iff₀ (by linarith)]
    calc 2 ^ (-100 : Int) * (grossReward : ℚ) ≤ 2 ^ (-100 : Int) * 2 ^ 63 := by gcongr
      _ ≤ 1 := by norm_num
      _ ≤ dust := hdust1
  · calc (dust : ℚ) / grossReward ≤ dust := div_le_self (by linarith) hgross1
      _ ≤ 2 ^ 63 := hdust'
      _ ≤ 2 ^ (206 : Int) := by norm_num

/-- The second step. -/
theorem computed_addDust {k : Nat} {e e' : AddressWork} (h : Computed k e e')
    (hk : k + 3 ≤ 2 ^ 52) (hgross63 : grossReward < 2 ^ 63)
    (hdust63 : ∀ p ∈ dustBalances, p.2 < 2 ^ 63) :
    Computed (k + 4) (addDust grossReward dustBalances e)
      (Rounded.addDust nearest grossReward dustBalances e') := by
  have hsame : dustBalances.reverse.find? (·.1 == e'.address) =
      dustBalances.reverse.find? (·.1 == e.address) := by rw [h.address]
  unfold addDust Rounded.addDust
  rw [hsame]
  cases hfind : dustBalances.reverse.find? (·.1 == e.address) with
  | none => exact h.mono (by omega)
  | some p =>
    dsimp only
    split
    · rename_i hpos
      obtain ⟨hgross, hdust⟩ := hpos
      have hmem := List.mem_reverse.1 (List.mem_of_find?_eq_some hfind)
      have hgross1 : (1 : ℚ) ≤ grossReward := by exact_mod_cast hgross
      have hdust0 : (0 : ℚ) < p.2 := by exact_mod_cast hdust
      have hdust' : (p.2 : ℚ) ≤ 2 ^ 63 := by exact_mod_cast (hdust63 p hmem).le
      have hweight := approx_dustWeight hdust (hdust63 p hmem) hgross hgross63
      have hpos : 0 < (p.2 : ℚ) / grossReward := div_pos hdust0 (by linarith)
      refine (h.mono (Nat.le_add_right k 3)).add ?_ hpos.le ?_ hk
      · exact hweight.mono Rounding.factor_pos Rounding.factor_le_one hpos.le
          (by omega)
      · calc (p.2 : ℚ) / grossReward ≤ p.2 := div_le_self hdust0.le hgross1
          _ ≤ 2 ^ 63 := hdust'
          _ ≤ 2 ^ (100 : Int) := by norm_num
    · exact h.mono (by omega)

end Dust

/-! ## The total -/

/-- The sum of the weights: one rounding for each. -/
theorem approx_total {k : Nat} {works works' : List AddressWork}
    (h : List.Forall₂ (Computed k) works works') :
    ∀ {j : Nat} {x y : ℚ}, arithmetic.Approx (k + j) x y → 0 ≤ x →
      x ≤ j * (k * 2 ^ (100 : Int)) → k + j + works.length ≤ 2 ^ 52 →
      arithmetic.Approx (k + j + works.length) (x + (works.map (·.work)).sum)
        ((works'.map (·.work)).foldl (fun total work => nearest (total + work)) y) := by
  induction h with
  | nil =>
    intro j x y hxy _ _ _
    simpa using hxy
  | @cons e e' works works' he _ ih =>
    intro j x y hxy hx hhigh hlength
    rw [List.length_cons] at hlength
    -- The first weight, in the precision of the sum so far.
    have hwork := he.approx.mono Rounding.factor_pos Rounding.factor_le_one he.pos.le
      (Nat.le_add_right k j)
    have hnext : x + e.work ≤ ((j + 1 : Nat) : ℚ) * (k * 2 ^ (100 : Int)) := by
      push_cast
      linarith [he.high]
    have hnearest : arithmetic.Approx (k + j + 1) (x + e.work) (nearest (y + e'.work)) := by
      refine approx_nearest (hxy.add hwork) (by omega) ?_ ?_
      · exact low_range (le_trans he.low (by linarith))
      · exact high_range (hnext.trans (mul_range_le (by omega) (by omega)))
    have hrest := ih (j := j + 1) hnearest (by linarith [he.pos]) hnext (by omega)
    rw [List.map_cons, List.sum_cons, List.map_cons, List.foldl_cons,
      List.length_cons, ← add_assoc x, show k + j + (works.length + 1) =
        k + (j + 1) + works.length from by omega]
    exact hrest

/-! ## The rewards -/

/-- The reward of one address: a quotient, a conversion and a product. -/
theorem approx_reward {k m : Nat} {e e' : AddressWork} (he : Computed k e e')
    {W T : ℚ} (htotal : arithmetic.Approx m W T) (hle : e.work ≤ W)
    (hW : W ≤ 2 ^ (206 : Int)) {net : Int} (hnet : 0 < net) (hnet53 : net < 2 ^ 53)
    (hkm : k + m + 2 ≤ 2 ^ 52) :
    arithmetic.Approx (k + m + 3) (e.work / W * net)
      (nearest (nearest (e'.work / T) * nearest net)) := by
  have hWpos : 0 < W := lt_of_lt_of_le he.pos hle
  have hquot := he.approx.div Rounding.factor_pos htotal he.pos hWpos
  have hlow : (2 : ℚ) ^ (-306 : Int) ≤ e.work / W := by
    rw [le_div_iff₀ hWpos]
    calc (2 : ℚ) ^ (-306 : Int) * W ≤ 2 ^ (-306 : Int) * 2 ^ (206 : Int) :=
          mul_le_mul_of_nonneg_left hW (zpow_pos (by norm_num) _).le
      _ = 2 ^ (-100 : Int) := (zpow_add₀ two_ne_zero _ _).symm
      _ ≤ e.work := he.low
  have hone : e.work / W ≤ 1 := (div_le_one hWpos).2 hle
  have hlow' : (2 : ℚ) ^ (-1000 : Int) ≤ e.work / W :=
    le_trans (zpow_le_zpow_right₀ (by norm_num) (by norm_num)) hlow
  have hquot' : arithmetic.Approx (k + m + 1) (e.work / W) (nearest (e'.work / T)) :=
    approx_nearest hquot (by omega) hlow' (high_range (hone.trans (by norm_num)))
  have hnet1 : (1 : ℚ) ≤ net := by exact_mod_cast hnet
  have hnet' : (net : ℚ) ≤ 2 ^ 53 := by exact_mod_cast hnet53.le
  have hprod := hquot'.mul Rounding.factor_pos
    (approx_intCast hnet (hnet53.trans (by norm_num))) (div_pos he.pos hWpos)
    (by linarith)
  refine approx_nearest hprod hkm ?_ ?_
  · exact hlow'.trans (le_mul_of_one_le_right (div_pos he.pos hWpos).le hnet1)
  · calc e.work / W * net ≤ 1 * 2 ^ 53 := by gcongr
      _ ≤ 2 ^ (206 : Int) := by norm_num
      _ ≤ 2 ^ (1000 : Int) := zpow_le_zpow_right₀ (by norm_num) (by norm_num)

/-! ## Handing out the remainder -/

/-- The parts with the remainder, in the order of the addresses. -/
def shareOut (netReward : Int) (parts : List Alloc) : List Alloc :=
  (giveRemainder (netReward - (parts.map (·.whole)).sum)
    (parts.insertionSort fun a b => b.fractional ≤ a.fractional)).insertionSort
      fun a b => a.address ≤ b.address

section ShareOut

variable {netReward : Int} {parts parts' : List Alloc}

theorem part_of_shareOut {a' : Alloc} (h : a' ∈ shareOut netReward parts) :
    ∃ a ∈ parts, a'.address = a.address ∧ a'.workerId = a.workerId ∧
      a.whole ≤ a'.whole ∧ a'.whole ≤ a.whole + 1 := by
  obtain ⟨a, ha, hrest⟩ :=
    part_of_giveRemainder ((List.perm_insertionSort _ _).mem_iff.1 h)
  exact ⟨a, (List.perm_insertionSort _ _).mem_iff.1 ha, hrest⟩

theorem shareOut_addresses
    (hsorted : (parts.map (·.address)).Pairwise (· < ·)) :
    (shareOut netReward parts).map (·.address) = parts.map (·.address) := by
  have htotal : Std.Total fun a b : Alloc => a.address ≤ b.address :=
    ⟨fun a b => le_total a.address b.address⟩
  have htrans : IsTrans Alloc fun a b => a.address ≤ b.address :=
    ⟨fun _ _ _ hab hbc => le_trans hab hbc⟩
  have hperm : ((shareOut netReward parts).map (·.address)).Perm
      (parts.map (·.address)) := by
    refine ((List.perm_insertionSort _ _).map _).trans ?_
    rw [giveRemainder_addresses]
    exact (List.perm_insertionSort _ _).map _
  have hle : ((shareOut netReward parts).map (·.address)).Pairwise (· ≤ ·) :=
    List.pairwise_map.2 (List.pairwise_insertionSort _ _)
  exact hperm.eq_of_pairwise (fun a b _ _ hab hba => le_antisymm hab hba) hle
    (hsorted.imp fun h => h.le)

theorem shareOut_sum (hnonneg : 0 ≤ netReward - (parts.map (·.whole)).sum)
    (hlength : netReward - (parts.map (·.whole)).sum ≤ parts.length) :
    ((shareOut netReward parts).map (·.whole)).sum = netReward := by
  have hsort := (List.perm_insertionSort
    (fun a b : Alloc => b.fractional ≤ a.fractional) parts).map (·.whole)
  unfold shareOut
  rw [((List.perm_insertionSort _ _).map _).sum_eq,
    giveRemainder_sum hnonneg (by rwa [List.length_insertionSort]), hsort.sum_eq]
  omega

/-- Two parts of one address that differ by at most so much. -/
structure NearPart (d : Int) (a a' : Alloc) : Prop where
  address : a'.address = a.address
  workerId : a'.workerId = a.workerId
  whole : |a'.whole - a.whole| ≤ d

/-- The remainder makes parts differ by one more at most. -/
theorem shareOut_near (hsorted : (parts.map (·.address)).Pairwise (· < ·))
    (h : List.Forall₂ (NearPart 1) parts parts') :
    List.Forall₂ (NearPart 2) (shareOut netReward parts)
      (shareOut netReward parts') := by
  have haddresses : parts'.map (·.address) = parts.map (·.address) := by
    clear hsorted
    induction h with
    | nil => rfl
    | cons hp _ ih => rw [List.map_cons, List.map_cons, hp.address, ih]
  refine Apportion.forall₂_of_keys (·.address) (·.address) ?_
    fun a ha a' ha' haa => ?_
  · rw [shareOut_addresses hsorted, shareOut_addresses (haddresses ▸ hsorted),
      haddresses]
  · obtain ⟨p, hp, haddress, hworker, hlow, hhigh⟩ := part_of_shareOut ha
    obtain ⟨p', hp', haddress', hworker', hlow', hhigh'⟩ := part_of_shareOut ha'
    obtain ⟨q, hq, hnear⟩ := Apportion.exists_related h hp'
    -- Both parts are of one address, so they are related to each other.
    have heq : q = p := by
      refine List.inj_on_of_nodup_map (hsorted.imp fun h => ne_of_lt h) hq hp ?_
      rw [← hnear.address, ← haddress', ← haa, haddress]
    subst heq
    have hwhole := abs_le.1 hnear.whole
    refine ⟨haa.symm, ?_, abs_le.2 ?_⟩
    · rw [hworker', hnear.workerId, hworker]
    · omega

end ShareOut

/-! ## The plans -/

/-- Numbers for which the roundings stay below a satoshi. -/
structure InRange (grossReward : Int) (settings : PayoutSettings)
    (dustBalances : List (String × Int)) (shares : List PplnsShareEntry) :
    Prop where
  moderate : ∀ s ∈ shares, Moderate s
  gross : grossReward < 2 ^ 63
  dust : ∀ p ∈ dustBalances, p.2 < 2 ^ 63
  budget : (3 * shares.length + 11) * (netReward grossReward settings + 1) < 2 ^ 53

/-- The weights as they are computed. -/
def roundedWeights (grossReward : Int) (dustBalances : List (String × Int))
    (shares : List PplnsShareEntry) : List AddressWork :=
  (Rounded.workByAddr nearest shares).map
    (Rounded.addDust nearest grossReward dustBalances)

/-- The allocations as they are computed. -/
def roundedParts (netReward : Int) (works : List AddressWork) : List Alloc :=
  works.map (Rounded.alloc nearest (Rounded.totalWork nearest works) netReward)

/-- The exact reward of an entry. -/
def exactReward (netReward : Int) (works : List AddressWork) (e : AddressWork) : ℚ :=
  e.work / (works.map (·.work)).sum * netReward

/-- The reward of an entry as it is computed. -/
def roundedReward (netReward : Int) (works : List AddressWork) (e : AddressWork) :
    ℚ :=
  nearest (nearest (e.work / Rounded.totalWork nearest works) * nearest netReward)

/-- An entry of the exact plan and of the computed one, with the numbers that
their rewards are. -/
structure Rewarded (k : Nat) (netReward : Int) (works works' : List AddressWork)
    (e e' : AddressWork) : Prop where
  address : e'.address = e.address
  workerId : e'.workerId = e.workerId
  nonneg : 0 ≤ exactReward netReward works e
  le : exactReward netReward works e ≤ netReward
  approx : arithmetic.Approx k (exactReward netReward works e)
    (roundedReward netReward works' e')

/-- The outputs of the computed plan, with what they carry forward. -/
def roundedClipped (netReward minPayoutSat : Int) (works : List AddressWork) :
    List PayoutOutput × Int :=
  if 0 < Rounded.totalWork nearest works ∧ 0 < netReward then
    (shareOut netReward (roundedParts netReward works)).foldl
      (clip minPayoutSat) ([], 0)
  else ([], 0)

section Clipped

variable {netReward : Int} (minPayoutSat : Int) {works : List AddressWork}

theorem roundedClipped_of_pos (htotal : 0 < Rounded.totalWork nearest works)
    (hnet : 0 < netReward) : roundedClipped netReward minPayoutSat works =
      ((shareOut netReward (roundedParts netReward works)).map
          (payoutOutput minPayoutSat),
        (((shareOut netReward (roundedParts netReward works)).map
          (payoutOutput minPayoutSat)).map (·.dustCarriedForward)).sum) := by
  unfold roundedClipped
  rw [if_pos ⟨htotal, hnet⟩, foldl_clip, List.nil_append, Int.zero_add]

end Clipped

section Plans

variable (block : FoundBlock) (networkDifficulty : ℚ) {grossReward : Int}
  {settings : PayoutSettings} {dustBalances : List (String × Int)}
  {shares : List PplnsShareEntry}

/-- The weights of the plan, with four roundings more than shares. -/
theorem computed_weights (h : InRange grossReward settings dustBalances shares)
    (hlength : shares.length + 3 ≤ 2 ^ 52) :
    List.Forall₂ (Computed (shares.length + 4))
      (weights grossReward dustBalances shares)
      (roundedWeights grossReward dustBalances shares) := by
  have hworks := computed_workByAddr h.moderate (by omega)
  unfold weights roundedWeights
  rw [List.forall₂_map_left_iff, List.forall₂_map_right_iff]
  exact hworks.imp fun e e' he => computed_addDust he hlength h.gross h.dust

theorem length_weights_le :
    (weights grossReward dustBalances shares).length ≤ shares.length := by
  have hsub : (weights grossReward dustBalances shares).map (·.address) ⊆
      shares.map (·.payoutAddress) := by
    rw [weights_addresses]
    exact fun a ha => ((workByAddr_tallied shares).mem a).1 ha
  have hnodup : ((weights grossReward dustBalances shares).map
      (·.address)).Nodup := weights_sorted.imp fun h => ne_of_lt h
  simpa using (List.subperm_of_subset hnodup hsub).length_le

namespace InRange

variable (h : InRange grossReward settings dustBalances shares)
  (hnet : 0 < netReward grossReward settings)

include h hnet

theorem bounds : 3 * shares.length + 11 ≤ 2 ^ 52 ∧
    netReward grossReward settings < 2 ^ 53 := by
  have hbudget := h.budget
  constructor
  · have : ((3 * shares.length + 11 : Nat) : Int) ≤ 2 ^ 52 := by
      push_cast
      nlinarith
    exact_mod_cast this
  · nlinarith

/-- No weight is above the total. -/
theorem computed_le_total :
    List.Forall₂ (fun e e' => e.work ≤
          ((weights grossReward dustBalances shares).map (·.work)).sum ∧
        Computed (shares.length + 4) e e')
      (weights grossReward dustBalances shares)
      (roundedWeights grossReward dustBalances shares) := by
  have hlength := (h.bounds hnet).1
  refine (List.forall₂_and_left _ _).2 ⟨fun e he => ?_, computed_weights h (by omega)⟩
  refine List.single_le_sum (fun w hw => ?_) _ (List.mem_map_of_mem he)
  obtain ⟨e, he, rfl⟩ := List.mem_map.1 hw
  exact weights_nonneg (fun s hs => (h.moderate s hs).pos.le) e he

/-- The total is not large. -/
theorem total_le : ((weights grossReward dustBalances shares).map (·.work)).sum ≤
    2 ^ (206 : Int) := by
  have hlength := (h.bounds hnet).1
  have hle : (weights grossReward dustBalances shares).length ≤ shares.length :=
    length_weights_le
  have hhigh : ∀ w ∈ (weights grossReward dustBalances shares).map (·.work),
      w ≤ ((shares.length + 4 : Nat) : ℚ) * 2 ^ (100 : Int) := by
    intro w hw
    obtain ⟨e, he, rfl⟩ := List.mem_map.1 hw
    obtain ⟨e', _, hcomputed⟩ :=
      Apportion.exists_related (computed_weights h (by omega)).flip he
    exact hcomputed.high
  have hsum := List.sum_le_card_nsmul _ _ hhigh
  rw [List.length_map, nsmul_eq_mul] at hsum
  exact hsum.trans (mul_range_le (by omega) (by omega))

/-- The total, with a rounding for each address. -/
theorem approx_totalWork :
    arithmetic.Approx (2 * shares.length + 4)
      ((weights grossReward dustBalances shares).map (·.work)).sum
      (Rounded.totalWork nearest
        (roundedWeights grossReward dustBalances shares)) := by
  have hlength := (h.bounds hnet).1
  have hle : (weights grossReward dustBalances shares).length ≤ shares.length :=
    length_weights_le
  have hzero : arithmetic.Approx (shares.length + 4 + 0) 0 0 :=
    .refl Rounding.factor_pos Rounding.factor_le_one (le_refl 0) _
  have htotal := approx_total (computed_weights h (by omega)) hzero (le_refl 0)
    (by simp) (by omega)
  rw [zero_add] at htotal
  refine htotal.mono Rounding.factor_pos Rounding.factor_le_one ?_ (by omega)
  refine List.sum_nonneg fun w hw => ?_
  obtain ⟨e, he, rfl⟩ := List.mem_map.1 hw
  exact weights_nonneg (fun s hs => (h.moderate s hs).pos.le) e he

/-- The exact rewards, and the computed ones. -/
theorem rewarded :
    List.Forall₂ (Rewarded (3 * shares.length + 11)
        (netReward grossReward settings)
        (weights grossReward dustBalances shares)
        (roundedWeights grossReward dustBalances shares))
      (weights grossReward dustBalances shares)
      (roundedWeights grossReward dustBalances shares) := by
  obtain ⟨hlength, hnet53⟩ := h.bounds hnet
  have hnet0 : (0 : ℚ) ≤ netReward grossReward settings := by
    exact_mod_cast hnet.le
  refine (h.computed_le_total hnet).imp fun e e' he => ?_
  obtain ⟨hle, hcomputed⟩ := he
  have htotal0 := hcomputed.pos.le.trans hle
  refine ⟨hcomputed.address, hcomputed.workerId, ?_, ?_, ?_⟩
  · exact mul_nonneg (div_nonneg hcomputed.pos.le htotal0) hnet0
  · exact mul_le_of_le_one_left hnet0 (div_le_one_of_le₀ hle htotal0)
  · have hreward := approx_reward hcomputed (h.approx_totalWork hnet) hle
      (h.total_le hnet) hnet hnet53 (by omega)
    rwa [show shares.length + 4 + (2 * shares.length + 4) + 3 =
      3 * shares.length + 11 from by omega] at hreward

omit hnet in
/-- So many roundings of a number up to the net reward are less than a
satoshi. -/
theorem abs_sub_lt_one {x y : ℚ}
    (happrox : arithmetic.Approx (3 * shares.length + 11) x y) (hx : 0 ≤ x)
    (hle : x ≤ netReward grossReward settings) : |y - x| < 1 := by
  have hy : 0 ≤ y :=
    le_trans (mul_nonneg (pow_pos Rounding.factor_pos _).le hx) happrox.le
  refine happrox.abs_sub_lt arithmetic.unit_lt_one arithmetic.unit_pos.le hx hy ?_
  have hbudget : ((3 * shares.length + 11 : Nat) : ℚ) *
      (netReward grossReward settings + 1) < 2 ^ 53 := by
    exact_mod_cast h.budget
  rw [show arithmetic.unit = 1 / 2 ^ 53 from rfl]
  calc ((3 * shares.length + 11 : Nat) : ℚ) * (1 / 2 ^ 53) * (x + 1)
      ≤ ((3 * shares.length + 11 : Nat) : ℚ) * (1 / 2 ^ 53) *
          (netReward grossReward settings + 1) := by gcongr
    _ = ((3 * shares.length + 11 : Nat) : ℚ) *
          (netReward grossReward settings + 1) / 2 ^ 53 := by ring
    _ < 1 := (div_lt_one (by norm_num)).2 hbudget

/-- The parts are at most one satoshi off. -/
theorem near_parts :
    List.Forall₂ (NearPart 1)
      ((weights grossReward dustBalances shares).map (alloc
        ((weights grossReward dustBalances shares).map (·.work)).sum
        (netReward grossReward settings)))
      (roundedParts (netReward grossReward settings)
        (roundedWeights grossReward dustBalances shares)) := by
  unfold roundedParts
  rw [List.forall₂_map_left_iff, List.forall₂_map_right_iff]
  refine (h.rewarded hnet).imp fun e e' he => ⟨he.address, he.workerId, ?_⟩
  exact Apportion.abs_floor_sub_le (h.abs_sub_lt_one he.approx he.nonneg he.le)

/-- The parts leave a remainder of at most one satoshi for each. -/
theorem remainder_bounds
    (hweight : 0 < ((weights grossReward dustBalances shares).map (·.work)).sum) :
    0 ≤ netReward grossReward settings - ((roundedParts
        (netReward grossReward settings)
        (roundedWeights grossReward dustBalances shares)).map (·.whole)).sum ∧
    netReward grossReward settings - ((roundedParts
        (netReward grossReward settings)
        (roundedWeights grossReward dustBalances shares)).map (·.whole)).sum ≤
      (roundedParts (netReward grossReward settings)
        (roundedWeights grossReward dustBalances shares)).length := by
  have hnet0 : (0 : ℚ) ≤ netReward grossReward settings := by
    exact_mod_cast hnet.le
  -- The exact rewards add up to the net reward.
  have hexact : ((weights grossReward dustBalances shares).map (exactReward
      (netReward grossReward settings)
      (weights grossReward dustBalances shares))).sum =
      netReward grossReward settings := by
    rw [← Apportion.sum_parts (netReward grossReward settings : ℚ) hweight.ne',
      List.map_map]
    rfl
  have hsum : arithmetic.Approx (3 * shares.length + 11)
      (netReward grossReward settings)
      ((roundedWeights grossReward dustBalances shares).map (roundedReward
        (netReward grossReward settings)
        (roundedWeights grossReward dustBalances shares))).sum := by
    rw [← hexact]
    refine Within.sum ?_
    rw [List.forall₂_map_left_iff, List.forall₂_map_right_iff]
    exact (h.rewarded hnet).imp fun e e' he => he.approx
  obtain ⟨hlt, hgt⟩ := abs_sub_lt_iff.1 (h.abs_sub_lt_one hsum hnet0 (le_refl _))
  have hwhole : (roundedParts (netReward grossReward settings)
      (roundedWeights grossReward dustBalances shares)).map (·.whole) =
      ((roundedWeights grossReward dustBalances shares).map (roundedReward
        (netReward grossReward settings)
        (roundedWeights grossReward dustBalances shares))).map Int.floor := by
    unfold roundedParts
    rw [List.map_map, List.map_map]
    rfl
  have hlength : (roundedParts (netReward grossReward settings)
      (roundedWeights grossReward dustBalances shares)).length =
      ((roundedWeights grossReward dustBalances shares).map (roundedReward
        (netReward grossReward settings)
        (roundedWeights grossReward dustBalances shares))).length := by
    simp [roundedParts]
  rw [hwhole, hlength]
  constructor
  · exact Apportion.remainder_nonneg_of_lt (by linarith)
  · exact Apportion.remainder_le_length_of_lt (by linarith)

end InRange

/-- Two outputs for one address whose sums differ by at most two satoshis. -/
structure NearOutput (o o' : PayoutOutput) : Prop where
  payoutAddress : o'.payoutAddress = o.payoutAddress
  workerId : o'.workerId = o.workerId
  near : |(o'.amount + o'.dustCarriedForward) -
    (o.amount + o.dustCarriedForward)| ≤ 2

theorem nearOutput {minPayoutSat : Int} {a a' : Alloc} (h : NearPart 2 a a') :
    NearOutput (payoutOutput minPayoutSat a) (payoutOutput minPayoutSat a') := by
  have hworker : ∀ b : Alloc, (payoutOutput minPayoutSat b).workerId =
      b.workerId := by
    intro b
    unfold payoutOutput
    split <;> rfl
  constructor
  · rw [payoutOutput_address, payoutOutput_address, h.address]
  · rw [hworker, hworker, h.workerId]
  · rw [payoutOutput_sum, payoutOutput_sum]
    exact h.whole

theorem outputs_sum (minPayoutSat : Int) (allocs : List Alloc) :
    ((allocs.map (payoutOutput minPayoutSat)).map (·.amount)).sum +
      ((allocs.map (payoutOutput minPayoutSat)).map (·.dustCarriedForward)).sum =
        (allocs.map (·.whole)).sum := by
  rw [List.map_map, List.map_map, ← List.sum_map_add]
  refine congrArg List.sum (List.map_congr_left fun a _ => ?_)
  exact payoutOutput_sum a

/-- The plan that is computed with floating point numbers has the addresses of
the exact plan, and it distributes the reward completely.  What an address is
paid and what it carries forward are together up to two satoshis the same; at
the minimum one plan may pay what the other one clips. -/
theorem rounded_plan (h : InRange grossReward settings dustBalances shares) :
    let plan := Rounded.buildPayoutPlan nearest block networkDifficulty
      grossReward settings dustBalances shares
    List.Forall₂ NearOutput
      (buildPayoutPlan block networkDifficulty grossReward settings dustBalances
        shares).outputs plan.outputs ∧
    (plan.outputs ≠ [] →
      (plan.outputs.map (·.amount)).sum + plan.dustCarriedForwardTotal +
        plan.poolFeeAmount = grossReward) := by
  intro plan
  by_cases hpos : 0 < ((weights grossReward dustBalances shares).map
      (·.work)).sum ∧ 0 < netReward grossReward settings
  · obtain ⟨hweight, hnet⟩ := hpos
    have htotal := (h.approx_totalWork hnet).pos Rounding.factor_pos hweight
    obtain ⟨hnonneg, hlength⟩ := h.remainder_bounds hnet hweight
    have hclipped := roundedClipped_of_pos settings.minPayoutSat htotal hnet
    have houtputs : plan.outputs = _ := congrArg Prod.fst hclipped
    have hdust : plan.dustCarriedForwardTotal = _ := congrArg Prod.snd hclipped
    have hsorted : (((weights grossReward dustBalances shares).map (alloc
        ((weights grossReward dustBalances shares).map (·.work)).sum
        (netReward grossReward settings))).map (·.address)).Pairwise (· < ·) := by
      rw [List.map_map]
      exact weights_sorted
    constructor
    · rw [outputs_eq, planOutputs, if_pos ⟨hweight, hnet⟩, houtputs,
        List.forall₂_map_left_iff, List.forall₂_map_right_iff]
      exact (shareOut_near hsorted (h.near_parts hnet)).imp
        fun a a' ha => nearOutput ha
    · intro _
      rw [houtputs, hdust, outputs_sum, shareOut_sum hnonneg hlength]
      exact sub_add_cancel _ _
  · -- Neither plan has outputs: the totals are positive together.
    have hexact : planOutputs (netReward grossReward settings)
        settings.minPayoutSat (weights grossReward dustBalances shares) = [] :=
      if_neg hpos
    have hnil : plan.outputs = [] := by
      refine congrArg Prod.fst (if_neg fun htotal => hpos ⟨?_, htotal.2⟩)
      exact ((h.approx_totalWork htotal.2).pos_iff Rounding.factor_pos).2 htotal.1
    rw [outputs_eq, ← netReward, hexact, hnil]
    exact ⟨.nil, fun hne => absurd rfl hne⟩

/-- The shares of two addresses, with difficulties that are not powers of
two. -/
def sampleWindow : List PplnsShareEntry :=
  [⟨1, 1, 1, "lotus_b", 1 / 10, 10⟩, ⟨2, 2, 2, "lotus_a", 3, 11⟩,
    ⟨3, 3, 1, "lotus_b", 7 / 10, 12⟩]

theorem sampleWindow_inRange :
    InRange 260000000 smallFee [("lotus_a", 30)] sampleWindow where
  moderate := by
    intro s hs
    simp only [sampleWindow, List.mem_cons, List.not_mem_nil, or_false] at hs
    rcases hs with rfl | rfl | rfl <;> constructor <;> norm_num
  gross := by norm_num
  dust := by simp
  budget := by decide +kernel

/-- A block reward of 260 coins for this window. -/
theorem rounded_plan_sample :
    (buildPayoutPlan sampleBlock 1 260000000 smallFee [("lotus_a", 30)]
        sampleWindow).outputs.map (·.amount) = [203210528, 54189472] ∧
    List.Forall₂ NearOutput
      (buildPayoutPlan sampleBlock 1 260000000 smallFee [("lotus_a", 30)]
        sampleWindow).outputs
      (Rounded.buildPayoutPlan nearest sampleBlock 1 260000000 smallFee
        [("lotus_a", 30)] sampleWindow).outputs :=
  ⟨by decide +kernel, (rounded_plan sampleBlock 1 sampleWindow_inRange).1⟩

end Plans

/-! ## The amount of a coinbase output -/

/-- The amount that is read back from the number that the node prints for so
many satoshis. -/
def coinbaseAmount (satoshis : Nat) : Int :=
  Rounded.amountSat nearest (nearest (satoshis / 1000000))

theorem amountSat_eq {valueXpi : ℚ} {n : Int}
    (hfloor : ⌊nearest (valueXpi * 1000000)⌋ = n) (hn : n < 2 ^ 63) :
    Rounded.amountSat nearest valueXpi = n := by
  unfold Rounded.amountSat
  omega

/-- The number is rounded twice. -/
theorem approx_coinbase {n : Nat} (hpos : 0 < n) (hn : n < 2 ^ 51) :
    arithmetic.Approx 2 (n : ℚ) (nearest (nearest (n / 1000000) * 1000000)) := by
  have hlow : (1 : ℚ) ≤ n := by exact_mod_cast hpos
  have hhigh : (n : ℚ) ≤ 2 ^ 51 := by exact_mod_cast hn.le
  have hvalue : arithmetic.Approx 1 ((n : ℚ) / 1000000) (nearest (n / 1000000)) := by
    refine approx_nearest (.refl Rounding.factor_pos Rounding.factor_le_one
      (by positivity) 0) (by norm_num) (low_range ?_) (high_range ?_)
    · norm_num
      linarith
    · norm_num
      linarith
  have hproduct := hvalue.mul Rounding.factor_pos
    (.refl (x := 1000000) Rounding.factor_pos Rounding.factor_le_one
      (by norm_num) 0) (by positivity) (by norm_num)
  rw [div_mul_cancel₀ _ (by norm_num)] at hproduct
  refine approx_nearest hproduct (by norm_num) (low_range ?_) (high_range ?_)
  · exact le_trans (by norm_num) hlow
  · exact hhigh.trans (by norm_num)

theorem coinbaseAmount_near {n : Nat} (hpos : 0 < n) (hn : n < 2 ^ 51) :
    coinbaseAmount n = n ∨ coinbaseAmount n = n - 1 := by
  have happrox := approx_coinbase hpos hn
  have hlow : (1 : ℚ) ≤ n := by exact_mod_cast hpos
  have hhigh : (n : ℚ) + 1 ≤ 2 ^ 51 := by exact_mod_cast hn
  have hnear : |nearest (nearest (n / 1000000) * 1000000) - (n : ℚ)| < 1 := by
    refine happrox.abs_sub_lt arithmetic.unit_lt_one arithmetic.unit_pos.le
      (by linarith) (happrox.pos Rounding.factor_pos (by linarith)).le ?_
    rw [show arithmetic.unit = 1 / 2 ^ 53 from rfl]
    push_cast
    linarith
  obtain ⟨hlt, hgt⟩ := abs_sub_lt_iff.1 hnear
  have hle : ⌊nearest (nearest ((n : ℚ) / 1000000) * 1000000)⌋ < (n : Int) + 1 := by
    rw [Int.floor_lt]
    push_cast
    linarith
  have hge : (n : Int) - 1 ≤ ⌊nearest (nearest ((n : ℚ) / 1000000) * 1000000)⌋ := by
    rw [Int.le_floor]
    push_cast
    linarith
  have hamount : coinbaseAmount n = _ := amountSat_eq rfl (by omega)
  rw [hamount]
  omega

theorem coinbaseAmount_of_dvd {n : Nat} (hpos : 0 < n) (hn : n < 2 ^ 51)
    (hdvd : 15625 ∣ n) : coinbaseAmount n = n := by
  obtain ⟨q, rfl⟩ := hdvd
  have hvalue : ((15625 * q : Nat) : ℚ) / 1000000 = q * 2 ^ (-6 : Int) := by
    push_cast
    norm_num
    ring
  have hproduct : (q * 2 ^ (-6 : Int) : ℚ) * 1000000 =
      (15625 * q : Nat) * 2 ^ (0 : Int) := by
    push_cast
    norm_num
    ring
  unfold coinbaseAmount
  rw [hvalue, nearest_of_bits (by omega) (by omega) (by norm_num)]
  refine amountSat_eq ?_ (by omega)
  rw [hproduct, nearest_of_bits hpos (by omega) (by norm_num), zpow_zero, mul_one,
    Int.floor_natCast]

/-- For 249 satoshis the node prints `0.000249`, and the product comes out below
the whole number. -/
theorem coinbaseAmount_short : coinbaseAmount 249 = 248 := by
  have hvalue : nearest ((249 : Nat) / 1000000) = 4593239274353678 / 2 ^ 64 := by
    rw [nearest_eq (e := -12) (by norm_num) (by norm_num) (by norm_num),
      roundEven_eq (n := 4593239274353678) (by norm_num [abs_lt])]
    norm_num
  have hproduct : nearest ((4593239274353678 / 2 ^ 64 : ℚ) * 1000000) =
      8760908650119167 / 2 ^ 45 := by
    rw [nearest_eq (e := 7) (by norm_num) (by norm_num) (by norm_num),
      roundEven_eq (n := 8760908650119167) (by norm_num [abs_lt])]
    norm_num
  refine amountSat_eq ?_ (by norm_num)
  rw [hvalue, hproduct, Int.floor_eq_iff]
  norm_num

/-- The amount of a coinbase output is exact or one satoshi short.  It is exact
when the value has few binary digits, and for some values it is short. -/
theorem coinbase_amount :
    (∀ n : Nat, 0 < n → n < 2 ^ 51 →
      (coinbaseAmount n = n ∨ coinbaseAmount n = n - 1) ∧
      (15625 ∣ n → coinbaseAmount n = n)) ∧
    ∃ n : Nat, 0 < n ∧ n < 2 ^ 51 ∧ coinbaseAmount n = n - 1 :=
  ⟨fun _ hpos hn => ⟨coinbaseAmount_near hpos hn, coinbaseAmount_of_dvd hpos hn⟩,
    249, by norm_num, by norm_num, coinbaseAmount_short⟩

end StratumServer
