import StratumServer.System.Operations

/-!
# The payout transaction

`InternalSigner::build_payout_tx` makes the outputs of a payout transaction
from a plan: a `Fixed` output for each miner, and for the pool a `Leftover`
output, which takes what the others and the network fee leave.  The hashes and
the scripts are those of the library, and so are their parsers.

`buildPayoutTx_ok` says what a transaction has that is built.
-/

namespace StratumServer

/-- `TxBuilderOutput`. -/
inductive TxBuilderOutput (Script : Type)
  | fixed (value : Int) (script : Script)
  | leftover (script : Script)
  deriving DecidableEq, Repr

/-- `TxBuilder`, with its one input: the output of the coinbase that is spent,
and what is signed about it. -/
structure TxBuilder (Hash Script : Type) where
  version : Nat := 2
  prevTxid : Hash
  prevOutIdx : Nat
  value : Int
  outputScript : Script
  outputs : List (TxBuilderOutput Script)
  lockTime : Nat := 0
  deriving DecidableEq, Repr

/-- The parsers of the library; an error comes with its text. -/
structure TxLibrary (Hash Script : Type) where
  /-- `Sha256d::from_hex_be`. -/
  txid : String → Except String Hash
  /-- `hex::decode` and `Script::from_slice`. -/
  script : String → Except String Script
  /-- A `LotusAddress`, and its script. -/
  address : String → Except String Script

namespace InternalSigner

variable {Hash Script : Type} (lib : TxLibrary Hash Script)

/-- `address_to_script`. -/
def addressToScript (address : String) : Except Error Script :=
  (lib.address address).mapError fun e =>
    .bail s!"invalid payout address '{address}': {e}"

/-- The output of one miner. -/
def minerOutput (output : PayoutOutput) :
    Except Error (TxBuilderOutput Script) := do
  return .fixed output.amount (← addressToScript lib output.payoutAddress)

/-- The output of the pool, if there is a fee and an address for it. -/
def feeOutput (plan : PayoutPlan) :
    Except Error (List (TxBuilderOutput Script)) :=
  match plan.poolFeeAddress with
  | some feeAddress =>
    if 0 < plan.poolFeeAmount then do
      return [.leftover (← addressToScript lib feeAddress)]
    else return []
  | none => return []

/-- `InternalSigner::build_payout_tx`, without the keys. -/
def buildPayoutTx (data : SignedBatchData) :
    Except Error (TxBuilder Hash Script) := do
  if data.plan.outputs.isEmpty then
    throw (.bail s!"refusing to build payout tx with zero miner outputs (batch has {data.plan.outputs.length} payees? pool_fee={data.plan.poolFeeAmount})")
  let prevTxid ← (lib.txid data.coinbaseTxid).mapError fun e =>
    .bail s!"invalid coinbase txid: {e}"
  let outputScript ← (lib.script data.coinbaseScriptPubkeyHex).mapError fun e =>
    .bail s!"invalid coinbase script hex: {e}"
  let miners ← data.plan.outputs.mapM (minerOutput lib)
  let fee ← feeOutput lib data.plan
  return { prevTxid, prevOutIdx := data.coinbaseVout,
           value := data.coinbaseAmount, outputScript,
           outputs := miners ++ fee }

end InternalSigner

/-! ## What is built -/

section Built

variable {Hash Script : Type}

/-- The value of a `Fixed` output. -/
def TxBuilderOutput.value? : TxBuilderOutput Script → Option Int
  | .fixed value _ => some value
  | .leftover _ => none

/-- The values of the `Fixed` outputs. -/
def TxBuilder.fixedValues (tx : TxBuilder Hash Script) : List Int :=
  tx.outputs.filterMap (·.value?)

/-- There is an output that takes what is left. -/
def TxBuilder.hasLeftover (tx : TxBuilder Hash Script) : Bool :=
  tx.outputs.any (·.value?.isNone)

variable {lib : TxLibrary Hash Script}

theorem bind_eq_ok {ε α β : Type} {x : Except ε α} {f : α → Except ε β} {b : β}
    (h : x >>= f = .ok b) : ∃ a, x = .ok a ∧ f a = .ok b := by
  cases x with
  | error e => cases h
  | ok a => exact ⟨a, rfl, h⟩

theorem minerOutputs_values {outputs : List PayoutOutput}
    {built : List (TxBuilderOutput Script)}
    (h : outputs.mapM (InternalSigner.minerOutput lib) = .ok built) :
    built.map (·.value?) = outputs.map fun o => some o.amount := by
  induction outputs generalizing built with
  | nil =>
    cases h
    rfl
  | cons o outputs ih =>
    rw [List.mapM_cons] at h
    obtain ⟨b, hb, h⟩ := bind_eq_ok h
    obtain ⟨bs, hbs, h⟩ := bind_eq_ok h
    obtain ⟨script, _, hscript⟩ := bind_eq_ok hb
    cases h
    cases hscript
    rw [List.map_cons, List.map_cons, ih hbs]
    rfl

theorem feeOutput_values {plan : PayoutPlan}
    {built : List (TxBuilderOutput Script)}
    (h : InternalSigner.feeOutput lib plan = .ok built) :
    built.map (·.value?) =
      if plan.poolFeeAddress.isSome ∧ 0 < plan.poolFeeAmount then [none]
      else [] := by
  unfold InternalSigner.feeOutput at h
  cases haddress : plan.poolFeeAddress with
  | none =>
    rw [haddress] at h
    cases h
    simp
  | some feeAddress =>
    rw [haddress] at h
    dsimp only at h
    split_ifs at h with hfee
    · obtain ⟨script, _, hscript⟩ := bind_eq_ok h
      cases hscript
      rw [if_pos ⟨rfl, hfee⟩]
      rfl
    · cases h
      simp [hfee]

/-- A transaction that is built has a `Fixed` output for each output of the
plan, at least one, and a `Leftover` output if there is a fee and an
address for it. -/
theorem buildPayoutTx_ok {data : SignedBatchData} {tx : TxBuilder Hash Script}
    (h : InternalSigner.buildPayoutTx lib data = .ok tx) :
    data.plan.outputs ≠ [] ∧ tx.value = data.coinbaseAmount ∧
      tx.fixedValues = data.plan.outputs.map (·.amount) ∧
      (tx.hasLeftover = true ↔
        data.plan.poolFeeAddress.isSome ∧ 0 < data.plan.poolFeeAmount) := by
  unfold InternalSigner.buildPayoutTx at h
  split_ifs at h with hempty
  · cases h
  · obtain ⟨_, _, h⟩ := bind_eq_ok h
    obtain ⟨_, _, h⟩ := bind_eq_ok h
    obtain ⟨miners, hminers, h⟩ := bind_eq_ok h
    obtain ⟨fee, hfee, h⟩ := bind_eq_ok h
    cases h
    have hminers' := minerOutputs_values hminers
    have hfee' := feeOutput_values hfee
    refine ⟨by simpa using hempty, rfl, ?_, ?_⟩
    · have hfixed : (miners ++ fee).filterMap (·.value?) =
          ((miners ++ fee).map (·.value?)).filterMap id := by
        rw [List.filterMap_map]
        rfl
      unfold TxBuilder.fixedValues
      rw [hfixed, List.map_append, hminers', hfee']
      split_ifs <;> simp [List.filterMap_map]
    · have hany : (miners ++ fee).any (·.value?.isNone) =
          ((miners ++ fee).map (·.value?)).any Option.isNone := by
        rw [List.any_map]
        rfl
      unfold TxBuilder.hasLeftover
      rw [hany, List.map_append, hminers', hfee']
      split_ifs with hleft <;> simp [hleft]

end Built

end StratumServer
