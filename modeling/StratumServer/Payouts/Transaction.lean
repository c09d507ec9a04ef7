import StratumServer.Payout.Signer
import StratumServer.Payouts.Work

/-!
# The transaction of a plan

The transaction that `build_payout_tx` makes from the outputs of a plan, and
from these outputs after they have been stored and read back.

* `paysMiners_iff`: every miner gets at least the minimum if and only if no
  part of the reward is below it.  A part below the minimum becomes a `Fixed`
  output of zero, and the guard of the builder only asks whether there are
  outputs at all.
* `leavesRoom_iff`: there is something left for the network fee if and only
  if the fee of the pool or the dust is.
-/

namespace StratumServer

open LargestRemainder Sql

/-! ## The amounts of a plan -/

section Amounts

variable {block : FoundBlock} {networkDifficulty : ℚ} {grossReward : Int}
  {settings : PayoutSettings} {dustBalances : List (String × Int)}
  {shares : List PplnsShareEntry}

/-- What is paid of a part. -/
def paidPart (minPayoutSat n : Int) : Int :=
  if n < minPayoutSat then 0 else n

theorem clipPart_amount (minPayoutSat : Int) (a : String) (n : Int) :
    (clipPart minPayoutSat a n).2.1 = paidPart minPayoutSat n := by
  unfold clipPart paidPart
  split <;> rfl

/-- The amounts of a plan with outputs. -/
theorem amounts_eq
    (hne : (buildPayoutPlan block networkDifficulty grossReward settings
      dustBalances shares).outputs ≠ []) :
    0 < ∑ a ∈ addresses shares, weight grossReward dustBalances shares a ∧
    (buildPayoutPlan block networkDifficulty grossReward settings dustBalances
        shares).outputs.map (·.amount) =
      (addresses shares).sort.map fun a => paidPart settings.minPayoutSat
        (partOf grossReward settings dustBalances shares a) := by
  have htriples := triples_eq block networkDifficulty grossReward settings
    dustBalances shares
  split_ifs at htriples with hpos
  · refine ⟨hpos.1, ?_⟩
    have hamounts := congrArg (List.map fun x : String × Int × Int => x.2.1)
      htriples
    simp only [List.map_map, Function.comp_def, clipPart_amount] at hamounts
    exact hamounts
  · exact absurd (List.map_eq_nil_iff.1 htriples) hne

end Amounts

/-! ## The outputs that reach the signer -/

/-- The outputs of the plan, as they are or as `process_pending_payouts` reads
them after they have been stored for a new batch. -/
inductive Carried (plan : PayoutPlan) : List PayoutOutput → Prop
  | direct : Carried plan plan.outputs
  | stored {batchId : Nat} {shares : List PplnsShareEntry} {db db' : Database}
    {payouts : List Payout} (hnew : ∀ p ∈ db.payouts.rows, p.batchId ≠ batchId)
    (hwritten : PlanWritten batchId plan shares db db')
    (hread : PayoutRepository.getPayoutsByBatch batchId db' =
      (.ok payouts, db')) :
    Carried plan (payouts.map fun p =>
      { payoutAddress := p.payoutAddress, workerId := p.workerId,
        amount := p.amount, dustCarriedForward := p.dustCarriedForward })

/-- Nothing is lost on the way. -/
theorem Carried.eq {plan : PayoutPlan} {outputs : List PayoutOutput}
    (h : Carried plan outputs) : outputs = plan.outputs := by
  cases h with
  | direct => rfl
  | @stored batchId shares db db' payouts hnew hwritten hread =>
    obtain ⟨new, hrows, hmap⟩ := Table.insertMany_some hwritten.payouts
    have hbatch : new.map (·.batchId) =
        (payoutRows batchId plan).map (·.batchId) := hmap _ fun _ _ => rfl
    have hall : ∀ p ∈ new, p.batchId = batchId := by
      intro p hp
      have hmem : p.batchId ∈ new.map (·.batchId) :=
        List.mem_map.2 ⟨p, hp, rfl⟩
      rw [hbatch] at hmem
      obtain ⟨row, hrow, heq⟩ := List.mem_map.1 hmem
      obtain ⟨o, _, rfl⟩ := List.mem_map.1 hrow
      exact heq.symm
    have hpayouts : payouts = new := by
      have hfilter : db'.payouts.rows.filter (·.batchId == batchId) = payouts :=
        Except.ok.inj (congrArg Prod.fst hread)
      rw [← hfilter, hrows, List.filter_append]
      have hold : db.payouts.rows.filter (·.batchId == batchId) = [] := by
        simpa using hnew
      have hkeep : new.filter (·.batchId == batchId) = new := by
        simpa using hall
      rw [hold, hkeep, List.nil_append]
    rw [hpayouts, hmap _ fun _ _ => rfl, payoutRows, List.map_map]
    exact List.map_id _

/-! ## At least the minimum for every miner -/

/-- Every `Fixed` output has at least the minimum, so that the pool is not
left with everything. -/
structure PaysMiners {Hash Script : Type} (minPayoutSat : Int)
    (tx : TxBuilder Hash Script) : Prop where
  fixed : ∀ v ∈ tx.fixedValues, minPayoutSat ≤ v
  paid : ∃ v ∈ tx.fixedValues, 0 < v
  rest : 0 < tx.fixedValues.sum

theorem PaysMiners.of_fixed {Hash Script : Type} {minPayoutSat : Int}
    {tx : TxBuilder Hash Script} (hmin : 1 ≤ minPayoutSat)
    (hne : tx.fixedValues ≠ [])
    (hfixed : ∀ v ∈ tx.fixedValues, minPayoutSat ≤ v) :
    PaysMiners minPayoutSat tx := by
  have hpos : ∀ v ∈ tx.fixedValues, 0 < v := by
    intro v hv
    have := hfixed v hv
    omega
  obtain ⟨v, hv⟩ := List.exists_mem_of_ne_nil _ hne
  exact ⟨hfixed, ⟨v, hv, hpos v hv⟩, List.sum_pos _ hpos hne⟩

/-- A transaction that is built pays every miner the minimum if and only if
every address has a part of the reward that reaches it. -/
theorem paysMiners_iff {Hash Script : Type} (lib : TxLibrary Hash Script)
    (block : FoundBlock) (networkDifficulty : ℚ) (grossReward : Int)
    (settings : PayoutSettings) (dustBalances : List (String × Int))
    (shares : List PplnsShareEntry) (data : SignedBatchData)
    (tx : TxBuilder Hash Script) (hmin : 1 ≤ settings.minPayoutSat)
    (hcarried : Carried (buildPayoutPlan block networkDifficulty grossReward
      settings dustBalances shares) data.plan.outputs)
    (htx : InternalSigner.buildPayoutTx lib data = .ok tx) :
    PaysMiners settings.minPayoutSat tx ↔
      ∀ a ∈ addresses shares, settings.minPayoutSat ≤
        partOf grossReward settings dustBalances shares a := by
  obtain ⟨hne, _, hfixed, _⟩ := buildPayoutTx_ok htx
  rw [hcarried.eq] at hne hfixed
  rw [(amounts_eq hne).2] at hfixed
  have hmem : ∀ v, v ∈ tx.fixedValues ↔ ∃ a ∈ addresses shares,
      paidPart settings.minPayoutSat
        (partOf grossReward settings dustBalances shares a) = v := by
    intro v
    rw [hfixed, List.mem_map]
    simp only [Finset.mem_sort]
  constructor
  · intro h a ha
    have hv := h.fixed _ ((hmem _).2 ⟨a, ha, rfl⟩)
    unfold paidPart at hv
    split_ifs at hv with hlt
    · omega
    · exact hv
  · intro h
    apply PaysMiners.of_fixed hmin
    · have hamounts := (amounts_eq hne).2
      intro hnil
      rw [hfixed, ← hamounts] at hnil
      exact hne (List.map_eq_nil_iff.1 hnil)
    · intro v hv
      obtain ⟨a, ha, rfl⟩ := (hmem v).1 hv
      have hpart := h a ha
      unfold paidPart
      rwa [if_neg (not_lt.2 hpart)]

/-- Parsers that take every text. -/
def anyText : TxLibrary String String where
  txid := .ok
  script := .ok
  address := .ok

/-- The plan with the coinbase output that it is about. -/
def signedData (plan : PayoutPlan) : SignedBatchData where
  plan := plan
  coinbaseTxid := "txid"
  coinbaseVout := 0
  coinbaseAmount := plan.grossReward
  coinbaseScriptPubkeyHex := ""

/-- Two miners with the same work. -/
def evenShares : List PplnsShareEntry :=
  [⟨1, 1, 1, "lotus_a", 1, 10⟩, ⟨2, 2, 2, "lotus_b", 1, 11⟩]

/-- The fee of the sample goes to an address. -/
def smallFeeAt : PayoutSettings :=
  { smallFee with feeAddress := some "lotus_pool" }

/-- The transaction for the sample plans, with the given amounts. -/
def samplePayoutTx (grossReward toA toB : Int) : TxBuilder String String where
  prevTxid := "txid"
  prevOutIdx := 0
  value := grossReward
  outputScript := ""
  outputs := [.fixed toA "lotus_a", .fixed toB "lotus_b",
    .leftover "lotus_pool"]

theorem paysMiners_even : PaysMiners 20 (samplePayoutTx 100 50 49) := by
  apply (paysMiners_iff anyText sampleBlock 1 100 smallFeeAt [] evenShares
    (signedData (buildPayoutPlan sampleBlock 1 100 smallFeeAt [] evenShares)) _
    (by decide) .direct (by decide +kernel)).2
  decide +kernel

/-- A reward of 30 satoshis with a minimum of 20: no part reaches the
minimum, the outputs of the miners are zero, and the pool is left with
everything. -/
theorem paysMiners_fails :
    let settings := { smallFeeAt with feeBps := 500 }
    let plan := buildPayoutPlan sampleBlock 1 30 settings [] evenShares
    InternalSigner.buildPayoutTx anyText (signedData plan) =
        .ok (samplePayoutTx 30 0 0) ∧
      ¬ PaysMiners settings.minPayoutSat (samplePayoutTx 30 0 0) := by
  refine ⟨by decide +kernel, fun h => ?_⟩
  exact lt_irrefl _ h.rest

/-! ## Something for the network fee -/

/-- The amounts of a plan are the net reward without the parts that are too
small. -/
theorem sum_amounts {block : FoundBlock} {networkDifficulty : ℚ}
    {grossReward : Int} {settings : PayoutSettings}
    {dustBalances : List (String × Int)} {shares : List PplnsShareEntry}
    (hne : (buildPayoutPlan block networkDifficulty grossReward settings
      dustBalances shares).outputs ≠ []) :
    ((buildPayoutPlan block networkDifficulty grossReward settings dustBalances
        shares).outputs.map (·.amount)).sum +
      ∑ a ∈ (addresses shares).filter (fun a => partOf grossReward settings
        dustBalances shares a < settings.minPayoutSat),
        partOf grossReward settings dustBalances shares a =
      netReward grossReward settings := by
  obtain ⟨hweight, hamounts⟩ := amounts_eq hne
  have hlist : ((addresses shares).sort.map fun a => paidPart
      settings.minPayoutSat (partOf grossReward settings dustBalances shares
        a)).sum = ∑ a ∈ addresses shares, paidPart settings.minPayoutSat
          (partOf grossReward settings dustBalances shares a) := by
    rw [← List.sum_toFinset _ (Finset.sort_nodup _ _), Finset.sort_toFinset]
  have hpart : ∑ a ∈ addresses shares,
      partOf grossReward settings dustBalances shares a =
        netReward grossReward settings :=
    sum_part (sum_quota hweight.ne')
  rw [hamounts, hlist, Finset.sum_filter, ← Finset.sum_add_distrib, ← hpart]
  apply Finset.sum_congr rfl
  intro a _
  unfold paidPart
  split_ifs <;> simp

/-- A transaction for the whole reward that is built has a `Leftover` output,
or pays less than it spends, if and only if there is an address for a fee
of one satoshi or more, or the fee and the parts that are too small add up to
something. -/
theorem leavesRoom_iff {Hash Script : Type} (lib : TxLibrary Hash Script)
    (block : FoundBlock) (networkDifficulty : ℚ) (grossReward : Int)
    (settings : PayoutSettings) (dustBalances : List (String × Int))
    (shares : List PplnsShareEntry) (data : SignedBatchData)
    (tx : TxBuilder Hash Script)
    (hplan : data.plan = buildPayoutPlan block networkDifficulty grossReward
      settings dustBalances shares)
    (hamount : data.coinbaseAmount = data.plan.grossReward)
    (htx : InternalSigner.buildPayoutTx lib data = .ok tx) :
    tx.hasLeftover = true ∨ tx.fixedValues.sum < tx.value ↔
      settings.feeAddress.isSome ∧
          10000 ≤ grossReward.toNat * settings.feeBps % 2 ^ 64 ∨
        0 < ((grossReward.toNat * settings.feeBps % 2 ^ 64 / 10000 : Nat) : Int) +
          ∑ a ∈ (addresses shares).filter (fun a => partOf grossReward settings
            dustBalances shares a < settings.minPayoutSat),
            partOf grossReward settings dustBalances shares a := by
  obtain ⟨hne, hvalue, hfixed, hleftover⟩ := buildPayoutTx_ok htx
  rw [hplan] at hne hfixed hleftover hamount
  have hsum := sum_amounts hne
  have hfee := poolFee_eq grossReward settings.feeBps
  have hpositive : 0 < (buildPayoutPlan block networkDifficulty grossReward
      settings dustBalances shares).poolFeeAmount ↔
      10000 ≤ grossReward.toNat * settings.feeBps % 2 ^ 64 := by
    change 0 < poolFee grossReward settings.feeBps ↔ _
    rw [hfee]
    omega
  have hspent : tx.value = grossReward := hvalue.trans hamount
  unfold netReward at hsum
  rw [hleftover, hpositive, hfixed, hspent]
  apply or_congr Iff.rfl
  rw [← hfee]
  constructor
  · intro h
    linarith
  · intro h
    linarith

/-- The plan of the two miners leaves the fee of the pool. -/
theorem leavesRoom_even :
    (samplePayoutTx 100 50 49).hasLeftover = true ∨
      (samplePayoutTx 100 50 49).fixedValues.sum <
        (samplePayoutTx 100 50 49).value := by
  apply (leavesRoom_iff anyText sampleBlock 1 100 smallFeeAt [] evenShares
    (signedData (buildPayoutPlan sampleBlock 1 100 smallFeeAt [] evenShares)) _
    rfl rfl (by decide +kernel)).2
  exact Or.inl (by decide)

/-- Without a fee and without dust, the transaction pays all that it
spends. -/
theorem leavesRoom_fails :
    let settings := { smallFeeAt with feeBps := 0 }
    let plan := buildPayoutPlan sampleBlock 1 100 settings [] evenShares
    let tx := { samplePayoutTx 100 50 50 with
      outputs := [.fixed 50 "lotus_a", .fixed 50 "lotus_b"] }
    InternalSigner.buildPayoutTx anyText (signedData plan) = .ok tx ∧
      ¬ (tx.hasLeftover = true ∨ tx.fixedValues.sum < tx.value) := by
  refine ⟨by decide +kernel, by decide⟩

end StratumServer
