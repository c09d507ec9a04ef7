import StratumServer.Payout.Plan

/-!
# The payout plan in floating point

`build_payout_plan` with the roundings of `f64`: each operation on numbers is
followed by `fl`, which takes an exact result to the number that is stored.
`buildPayoutPlan_id` says that `Payout/Plan` is the same function without
rounding.
-/

namespace StratumServer.Rounded

variable (fl : ℚ → ℚ)

/-- One share added to the work of its address. -/
def addWork (acc : List AddressWork) (share : PplnsShareEntry) :
    List AddressWork :=
  if acc.any (·.address == share.payoutAddress) then
    acc.map fun e =>
      if e.address == share.payoutAddress then
        { e with work := fl (e.work + share.difficulty) }
      else e
  else
    acc ++ [⟨share.payoutAddress, share.workerId, fl (0 + share.difficulty)⟩]

/-- The `BTreeMap` of the first step. -/
def workByAddr (shares : List PplnsShareEntry) : List AddressWork :=
  (shares.foldl (addWork fl) []).insertionSort fun a b => a.address ≤ b.address

/-- The second step: dust counts as extra work. -/
def addDust (grossReward : Int) (dustBalances : List (String × Int))
    (e : AddressWork) : AddressWork :=
  match dustBalances.reverse.find? (·.1 == e.address) with
  | some (_, dust) =>
    if 0 < grossReward ∧ 0 < dust then
      let dustWeight := fl (fl dust / fl grossReward)
      { e with work := fl (e.work + dustWeight) }
    else e
  | none => e

/-- The sum of the weights, in the order of the addresses. -/
def totalWork (works : List AddressWork) : ℚ :=
  (works.map (·.work)).foldl (fun total work => fl (total + work)) 0

/-- The part of one address, cut to whole satoshis. -/
def alloc (totalWorkUnits : ℚ) (netReward : Int) (e : AddressWork) : Alloc :=
  let fractionalReward := fl (fl (e.work / totalWorkUnits) * fl netReward)
  let whole := ⌊fractionalReward⌋
  { address := e.address, workerId := e.workerId, whole := whole,
    fractional := fl (fractionalReward - fl whole) }

/-- `build_payout_plan`. -/
def buildPayoutPlan (block : FoundBlock) (networkDifficulty : ℚ)
    (grossReward : Int) (settings : PayoutSettings)
    (dustBalances : List (String × Int)) (shares : List PplnsShareEntry) :
    PayoutPlan :=
  let works := (workByAddr fl shares).map (addDust fl grossReward dustBalances)
  let totalWorkUnits := totalWork fl works
  let poolFeeAmount : Int :=
    if 0 < grossReward then
      ((grossReward.toNat * settings.feeBps % 2 ^ 64 / 10000 : Nat) : Int)
    else 0
  let netReward := grossReward - poolFeeAmount
  let (outputs, dustCarriedForwardTotal) :=
    if 0 < totalWorkUnits ∧ 0 < netReward then
      let allocs := works.map (alloc fl totalWorkUnits netReward)
      let remainder := netReward - (allocs.map (·.whole)).sum
      let byFraction := allocs.insertionSort fun a b =>
        b.fractional ≤ a.fractional
      let byAddress := (giveRemainder remainder byFraction).insertionSort
        fun a b => a.address ≤ b.address
      byAddress.foldl (clip settings.minPayoutSat) ([], 0)
    else ([], 0)
  { roundId := block.roundId, blockHeight := block.height,
    blockHash := block.blockHash, networkDifficulty := networkDifficulty,
    totalWorkUnits := totalWorkUnits, grossReward := grossReward,
    poolFeeAmount := poolFeeAmount, poolFeeAddress := settings.feeAddress,
    outputs := outputs, dustCarriedForwardTotal := dustCarriedForwardTotal,
    retryKey := s!"{block.blockHash}:{outputs.length}" }

/-- The amount of an output in satoshis: `(value_xpi * SATS_PER_XPI_F64) as i64`
for a value that is not negative. -/
def amountSat (valueXpi : ℚ) : Int := min ⌊fl (valueXpi * 1000000)⌋ (2 ^ 63 - 1)

/-! ## Without rounding -/

theorem addWork_id : addWork id = StratumServer.addWork := by
  funext acc share
  simp [addWork, StratumServer.addWork]

theorem addDust_id (grossReward : Int) (dustBalances : List (String × Int)) :
    addDust id grossReward dustBalances =
      StratumServer.addDust grossReward dustBalances := by
  funext e
  rfl

theorem totalWork_id (works : List AddressWork) :
    totalWork id works = (works.map (·.work)).sum :=
  List.sum_eq_foldl.symm

theorem alloc_id (total : ℚ) (netReward : Int) :
    alloc id total netReward = StratumServer.alloc total netReward := rfl

/-- Without rounding the plan is the exact one. -/
theorem buildPayoutPlan_id : buildPayoutPlan id = StratumServer.buildPayoutPlan := by
  funext block networkDifficulty grossReward settings dustBalances shares
  unfold buildPayoutPlan workByAddr
  rw [addWork_id, addDust_id]
  simp only [totalWork_id, alloc_id]
  rfl

end StratumServer.Rounded
