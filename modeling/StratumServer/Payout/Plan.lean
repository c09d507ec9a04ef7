import StratumServer.Accounting.Schema
import Mathlib.Data.List.Sort
import Mathlib.Data.Rat.Floor

/-!
# The payout plan

`reward_from_coinbase`, the PPLNS window and `build_payout_plan`.  All three
are functions: the window reads the database, and the plan is computed from
the window, the dust balances and the settings.

`f64` is modelled by the rationals, so `floor` and the fractional parts are
exact here.  The sums of the source are `i64` and `u64`; the one product that
can leave its range, `gross_reward as u64 * fee_bps as u64`, wraps.
-/

namespace StratumServer

/-- A natural number as an `i64`: the conversion `as i64` keeps the low 64
bits. -/
def toI64 (n : Nat) : Int := (n : Int).bmod (2 ^ 64)

/-- `reward_from_coinbase`: what is left of the coinbase value after the
miner fund has taken its half. -/
def rewardFromCoinbase (coinbaseValue : Nat) : Int :=
  let minerfund := coinbaseValue / 2
  toI64 (coinbaseValue - minerfund)

/-- The settings of a payout: `fee_bps`, `fee_address`, `min_payout_sat` and
`n_multiplier`. -/
structure PayoutSettings where
  feeBps : Nat
  feeAddress : Option String
  minPayoutSat : Int
  nMultiplier : ℚ
  deriving DecidableEq, Repr

/-! ## The window -/

/-- An accepted share that the window may hold. -/
structure PplnsShareEntry where
  shareId : Nat
  shareOutcomeId : Nat
  workerId : Nat
  payoutAddress : String
  difficulty : ℚ
  createdAt : Nat
  deriving DecidableEq, Repr

/-- The row that the query of `calculate_pplns_window` makes of an outcome:
the three joins drop an outcome whose share, worker or round is missing. -/
def pplnsEntry (db : Database) (so : ShareOutcome) : Option PplnsShareEntry := do
  let s ← db.shares.rows.find? (·.id == so.shareId)
  let w ← db.workers.rows.find? (·.id == so.workerId)
  let roundId ← so.roundId
  let _ ← db.rounds.rows.find? (·.id == roundId)
  return { shareId := so.shareId, shareOutcomeId := so.id,
           workerId := so.workerId, payoutAddress := w.payoutAddress,
           difficulty := s.difficulty, createdAt := so.createdAt }

/-- The entries up to and including the first one at which the sum of the
difficulties, started at `cumulative`, reaches the threshold; all of them
when it never does. -/
def cutoff (threshold : ℚ) : ℚ → List PplnsShareEntry → List PplnsShareEntry
  | _, [] => []
  | cumulative, e :: es =>
    if threshold ≤ cumulative + e.difficulty then [e]
    else e :: cutoff threshold (cumulative + e.difficulty) es

/-- `calculate_pplns_window`.  Rows with one time stay in the order of their
ids. -/
def calculatePplnsWindow (db : Database) (foundAt : Nat)
    (nMultiplier networkDifficulty : ℚ) : List PplnsShareEntry :=
  let rows := db.shareOutcomes.rows.filter fun so =>
    so.status == .accepted && decide (so.createdAt ≤ foundAt)
  let allShares := (rows.filterMap (pplnsEntry db)).insertionSort
    fun a b => b.createdAt ≤ a.createdAt
  cutoff (nMultiplier * networkDifficulty) 0 allShares

/-! ## The plan -/

/-- One miner's payment. -/
structure PayoutOutput where
  payoutAddress : String
  workerId : Nat
  amount : Int
  dustCarriedForward : Int
  deriving DecidableEq, Repr

/-- A payout plan for a found block. -/
structure PayoutPlan where
  roundId : Nat
  blockHeight : Int
  blockHash : String
  networkDifficulty : ℚ
  totalWorkUnits : ℚ
  grossReward : Int
  poolFeeAmount : Int
  poolFeeAddress : Option String
  outputs : List PayoutOutput
  dustCarriedForwardTotal : Int
  retryKey : String
  deriving DecidableEq, Repr

/-- The work of one address: the worker of its first share, and the sum of
the difficulties. -/
structure AddressWork where
  address : String
  workerId : Nat
  work : ℚ
  deriving DecidableEq, Repr

/-- One share added to the work of its address. -/
def addWork (acc : List AddressWork) (share : PplnsShareEntry) :
    List AddressWork :=
  if acc.any (·.address == share.payoutAddress) then
    acc.map fun e =>
      if e.address == share.payoutAddress then
        { e with work := e.work + share.difficulty }
      else e
  else
    acc ++ [⟨share.payoutAddress, share.workerId, share.difficulty⟩]

/-- The `BTreeMap` of the first step: one entry for each address, in the
order of the addresses. -/
def workByAddr (shares : List PplnsShareEntry) : List AddressWork :=
  (shares.foldl addWork []).insertionSort fun a b => a.address ≤ b.address

/-- The second step: dust counts as extra work, in units of the reward. -/
def addDust (grossReward : Int) (dustBalances : List (String × Int))
    (e : AddressWork) : AddressWork :=
  match dustBalances.reverse.find? (·.1 == e.address) with
  | some (_, dust) =>
    if 0 < grossReward ∧ 0 < dust then
      { e with work := e.work + (dust : ℚ) / (grossReward : ℚ) }
    else e
  | none => e

/-- What one address gets before the remainder is handed out. -/
structure Alloc where
  address : String
  workerId : Nat
  whole : Int
  fractional : ℚ
  deriving DecidableEq, Repr

/-- The exact part of one address, cut to whole satoshis. -/
def alloc (totalWorkUnits : ℚ) (netReward : Int) (e : AddressWork) : Alloc :=
  let fractionalReward := e.work / totalWorkUnits * (netReward : ℚ)
  let whole := ⌊fractionalReward⌋
  { address := e.address, workerId := e.workerId, whole := whole,
    fractional := fractionalReward - (whole : ℚ) }

/-- One more satoshi for each of the first allocations, as long as there is
a remainder. -/
def giveRemainder : Int → List Alloc → List Alloc
  | _, [] => []
  | remainder, a :: as =>
    if remainder ≤ 0 then a :: as
    else { a with whole := a.whole + 1 } :: giveRemainder (remainder - 1) as

/-- The output of one allocation: below the minimum it becomes dust. -/
def payoutOutput (minPayoutSat : Int) (a : Alloc) : PayoutOutput :=
  if a.whole < minPayoutSat then
    { payoutAddress := a.address, workerId := a.workerId, amount := 0,
      dustCarriedForward := a.whole }
  else
    { payoutAddress := a.address, workerId := a.workerId, amount := a.whole,
      dustCarriedForward := 0 }

/-- The seventh step for one allocation: its output, and the dust so far. -/
def clip (minPayoutSat : Int) (acc : List PayoutOutput × Int) (a : Alloc) :
    List PayoutOutput × Int :=
  (acc.1 ++ [payoutOutput minPayoutSat a],
    if a.whole < minPayoutSat then acc.2 + a.whole else acc.2)

/-- `build_payout_plan`. -/
def buildPayoutPlan (block : FoundBlock) (networkDifficulty : ℚ)
    (grossReward : Int) (settings : PayoutSettings)
    (dustBalances : List (String × Int)) (shares : List PplnsShareEntry) :
    PayoutPlan :=
  let works := (workByAddr shares).map (addDust grossReward dustBalances)
  let totalWorkUnits := (works.map (·.work)).sum
  let poolFeeAmount : Int :=
    if 0 < grossReward then
      ((grossReward.toNat * settings.feeBps % 2 ^ 64 / 10000 : Nat) : Int)
    else 0
  let netReward := grossReward - poolFeeAmount
  let (outputs, dustCarriedForwardTotal) :=
    if 0 < totalWorkUnits ∧ 0 < netReward then
      let allocs := works.map (alloc totalWorkUnits netReward)
      let remainder := netReward - (allocs.map (·.whole)).sum
      let byFraction := allocs.insertionSort fun a b =>
        b.fractional ≤ a.fractional
      let byAddress := (giveRemainder remainder byFraction).insertionSort
        fun a b => a.address ≤ b.address
      byAddress.foldl (clip settings.minPayoutSat) ([], 0)
    else ([], 0)
  { roundId := block.roundId, blockHeight := block.height,
    blockHash := block.blockHash, networkDifficulty := networkDifficulty,
    totalWorkUnits := totalWorkUnits, grossReward := grossReward,
    poolFeeAmount := poolFeeAmount, poolFeeAddress := settings.feeAddress,
    outputs := outputs, dustCarriedForwardTotal := dustCarriedForwardTotal,
    retryKey := s!"{block.blockHash}:{outputs.length}" }

end StratumServer
