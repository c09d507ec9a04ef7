import StratumServer.Config
import StratumServer.Payouts.Apportionment

/-!
# The fee of the pool

The fee of a payout should be the configured part of the reward, rounded
down, and nothing when the fee is switched off.  `feeExact_iff` says for which
configurations it is: `main` never reads `fee.enabled`, the product with
`fee_bps` is taken in `u64`, and `Config::load` accepts a rate of more than
10000 basis points.
-/

namespace StratumServer

/-- The fee that the configuration asks for. -/
def FeeSettings.exact (fee : FeeSettings) (grossReward : Int) : Int :=
  if fee.enabled then grossReward * fee.feeBps.toNat / 10000 else 0

/-- For a block with the coinbase value, the reward is a part of that value,
and every plan for it has the exact fee, which is a part of the reward.  No
product leaves the type `u64` on the way. -/
structure FeeExact (cfg : TomlConfig) (coinbaseValue : Nat) : Prop where
  reward_nonneg : 0 ≤ rewardFromCoinbase coinbaseValue
  reward_le : rewardFromCoinbase coinbaseValue ≤ coinbaseValue
  product_lt : cfg.fee.enabled = true →
    rewardFromCoinbase coinbaseValue * cfg.fee.feeBps.toNat < 2 ^ 64
  plan : ∀ block networkDifficulty dustBalances shares, ∀ plan,
    plan = buildPayoutPlan block networkDifficulty
      (rewardFromCoinbase coinbaseValue) cfg.payoutSettings dustBalances
      shares →
    plan.poolFeeAmount = cfg.fee.exact (rewardFromCoinbase coinbaseValue) ∧
      0 ≤ plan.poolFeeAmount ∧ plan.poolFeeAmount ≤ plan.grossReward

/-- A coinbase value that is an `i64` is halved without loss. -/
theorem rewardFromCoinbase_eq {coinbaseValue : Nat}
    (h : coinbaseValue < 2 ^ 63) :
    rewardFromCoinbase coinbaseValue =
      ((coinbaseValue - coinbaseValue / 2 : Nat) : Int) := by
  unfold rewardFromCoinbase toI64
  exact Int.bmod_eq_of_le (by omega) (by omega)

theorem poolFee_of_lt {reward feeBps : Nat} (h : reward * feeBps < 2 ^ 64) :
    poolFee reward feeBps = (reward : Int) * feeBps / 10000 := by
  rw [poolFee_eq, Int.toNat_natCast, Nat.mod_eq_of_lt h]
  push_cast
  rfl

/-- The property of the fee alone. -/
theorem feeExact_iff_poolFee {cfg : TomlConfig} {coinbaseValue reward : Nat}
    (hreward : rewardFromCoinbase coinbaseValue = reward)
    (hle : reward ≤ coinbaseValue) :
    FeeExact cfg coinbaseValue ↔
      (cfg.fee.enabled = true → reward * cfg.fee.feeBps.toNat < 2 ^ 64) ∧
        poolFee reward cfg.fee.feeBps.toNat = cfg.fee.exact reward ∧
        poolFee reward cfg.fee.feeBps.toNat ≤ reward := by
  constructor
  · intro h
    obtain ⟨hexact, _, hfee⟩ := h.plan sampleBlock 0 [] [] _ rfl
    have hproduct := h.product_lt
    rw [hreward] at hexact hfee hproduct
    exact ⟨fun henabled => by exact_mod_cast hproduct henabled, hexact, hfee⟩
  · rintro ⟨hproduct, hexact, hfee⟩
    constructor
    · rw [hreward]
      exact Int.natCast_nonneg _
    · rw [hreward]
      exact_mod_cast hle
    · intro henabled
      rw [hreward]
      exact_mod_cast hproduct henabled
    · rintro block networkDifficulty dustBalances shares plan rfl
      rw [hreward]
      exact ⟨hexact, poolFee_nonneg _ _, hfee⟩

/-- The fee is exact if and only if one of two things holds.  The fee is
switched on, its product with the reward is a `u64`, and it does not exceed
the reward.  Or it is switched off, and what is left of the product in a `u64`
is too little for a fee of one satoshi. -/
theorem feeExact_iff (cfg : TomlConfig) (coinbaseValue : Nat)
    (h : coinbaseValue < 2 ^ 63) :
    FeeExact cfg coinbaseValue ↔
      ∀ reward, reward = coinbaseValue - coinbaseValue / 2 →
        if cfg.fee.enabled then
          reward * cfg.fee.feeBps.toNat < 2 ^ 64 ∧
            reward * cfg.fee.feeBps.toNat < 10000 * (reward + 1)
        else reward * cfg.fee.feeBps.toNat % 2 ^ 64 < 10000 := by
  rw [feeExact_iff_poolFee (rewardFromCoinbase_eq h) (Nat.sub_le _ _)]
  simp only [forall_eq]
  generalize coinbaseValue - coinbaseValue / 2 = reward
  unfold FeeSettings.exact
  cases cfg.fee.enabled with
  | true =>
    simp only [if_true, forall_const]
    apply and_congr_right
    intro hproduct
    rw [poolFee_of_lt hproduct]
    have hdiv : (reward : Int) * cfg.fee.feeBps.toNat / 10000 ≤ reward ↔
        reward * cfg.fee.feeBps.toNat < 10000 * (reward + 1) := by
      generalize hn : reward * cfg.fee.feeBps.toNat = n
      have hn' : (reward : Int) * cfg.fee.feeBps.toNat = n := by
        rw [← hn]
        push_cast
        rfl
      rw [hn']
      omega
    simpa using hdiv
  | false =>
    simp only [Bool.false_eq_true, if_false, IsEmpty.forall_iff, true_and]
    rw [poolFee_eq, Int.toNat_natCast]
    generalize reward * cfg.fee.feeBps.toNat % 2 ^ 64 = n
    omega

/-- The default fee of one per cent, for a block that pays 260 XPI. -/
theorem feeExact_default :
    260000000 < 2 ^ 63 ∧ FeeExact {} 260000000 := by
  refine ⟨by decide, (feeExact_iff _ _ (by decide)).2 ?_⟩
  rintro _ rfl
  decide

/-- A file with the fee section, which `load` accepts. -/
theorem load_fee (fee : FeeSettings) :
    ∃ host cfg, TomlConfig.load host = .ok cfg ∧ cfg.fee = fee :=
  ⟨_, _, TomlConfig.load_plainHost { network := "mainnet", fee } rfl, rfl⟩

/-- The default fee is taken although it is switched off, a rate of 20000
basis points takes twice the reward, and with the largest coinbase value and a
rate of 3000000000 basis points the product wraps around. -/
theorem feeExact_fails :
    (∃ host cfg, TomlConfig.load host = .ok cfg ∧ cfg.fee.enabled = false ∧
      ¬ FeeExact cfg 260000000) ∧
    (∃ host cfg, TomlConfig.load host = .ok cfg ∧ cfg.fee.feeBps = 20000 ∧
      ¬ FeeExact cfg 260000000) ∧
    ∃ host cfg, TomlConfig.load host = .ok cfg ∧ cfg.fee.feeBps = 3000000000 ∧
      ¬ FeeExact cfg (2 ^ 63 - 1) := by
  refine ⟨?_, ?_, ?_⟩
  · obtain ⟨host, cfg, hload, hfee⟩ := load_fee { enabled := false }
    refine ⟨host, cfg, hload, by rw [hfee], fun h => ?_⟩
    have hexact := ((feeExact_iff_poolFee (rewardFromCoinbase_eq (by decide))
      (by decide)).1 h).2.1
    rw [hfee] at hexact
    revert hexact
    decide
  · obtain ⟨host, cfg, hload, hfee⟩ := load_fee { feeBps := 20000 }
    refine ⟨host, cfg, hload, by rw [hfee], fun h => ?_⟩
    have hle := ((feeExact_iff_poolFee (rewardFromCoinbase_eq (by decide))
      (by decide)).1 h).2.2
    rw [hfee] at hle
    revert hle
    decide
  · obtain ⟨host, cfg, hload, hfee⟩ := load_fee { feeBps := 3000000000 }
    refine ⟨host, cfg, hload, by rw [hfee], fun h => ?_⟩
    have hproduct := ((feeExact_iff_poolFee (rewardFromCoinbase_eq (by decide))
      (by decide)).1 h).1
    rw [hfee] at hproduct
    exact absurd (hproduct rfl) (by decide)

end StratumServer
