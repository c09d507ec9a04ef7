import StratumServer.Payouts.Calls

/-!
# Batches and their payouts balance

The header of a batch says how much the block paid, how much of it the pool
kept and how many miners are paid.  `create_payout_for_found_block` writes
the header and the payouts from one plan.  `rebuild_payout_plan_for_batch`
replaces the payouts by those of a new plan and leaves the header alone, so
the two agree only when the new plan has the fee and the window of the first
one.

`Booked` is the invariant: each header comes from the arguments of a
creation.  `calls_balanced` is the result, under the condition `Alike` on the
calls; `calls_balanced_fails` has a run with another fee.
-/

namespace StratumServer

open Sql Tasks Calls

/-! ## The property -/

/-- The header of each batch that has payouts agrees with them. -/
def Balanced (db : Database) : Prop :=
  ∀ p ∈ db.payoutBatches.rows, db.payoutsOf p.id ≠ [] →
    p.totalAmount = p.poolFeeAmount +
        ((db.payoutsOf p.id).map (·.amount)).sum +
        ((db.payoutsOf p.id).map (·.dustCarriedForward)).sum ∧
      p.minerCount = (db.payoutsOf p.id).length

instance (db : Database) : Decidable (Balanced db) :=
  inferInstanceAs (Decidable (∀ _ ∈ _, _))

/-- A rebuilt plan has the fee, the window and the block of the plan that the
batch was created with, and that plan had an output. -/
def Alike (r : PayoutRun) : AccountingCall → Prop
  | .rebuild batchId settings =>
    ∀ p ∈ r.db.payoutBatches.rows, p.id = batchId →
      p.minerCount ≠ 0 ∧ ∀ m ∈ r.made, m.batchId = batchId →
        settings.feeBps = m.settings.feeBps ∧
        settings.nMultiplier = m.settings.nMultiplier ∧
        ∀ block ∈ r.db.foundBlocks.rows.reverse.find?
            (·.roundId == p.roundId),
          block.blockHash = m.block.blockHash ∧
          block.coinbaseValue = m.block.coinbaseValue ∧
          block.networkTargetHex = m.block.networkTargetHex
  | _ => True

instance (r : PayoutRun) : ∀ c, Decidable (Alike r c)
  | .rebuild batchId settings => inferInstanceAs (Decidable
      (∀ p ∈ r.db.payoutBatches.rows, p.id = batchId →
        p.minerCount ≠ 0 ∧ ∀ m ∈ r.made, m.batchId = batchId →
          settings.feeBps = m.settings.feeBps ∧
          settings.nMultiplier = m.settings.nMultiplier ∧
          ∀ block ∈ r.db.foundBlocks.rows.reverse.find?
              (·.roundId == p.roundId),
            block.blockHash = m.block.blockHash ∧
            block.coinbaseValue = m.block.coinbaseValue ∧
            block.networkTargetHex = m.block.networkTargetHex))
  | .create _ _ => inferInstanceAs (Decidable True)
  | .deletePayouts _ => inferInstanceAs (Decidable True)

/-! ## The invariant -/

section Booked

variable (suite : Suite)

/-- The number of miners in the window of a block. -/
def minersOf (db : Database) (block : FoundBlock) (nMultiplier : ℚ)
    (found : Nat) : Nat :=
  (workByAddr (calculatePplnsWindow db found nMultiplier
    (AccountingService.networkDifficulty suite block))).length

/-- The header comes from the arguments of a creation. -/
structure HeaderOf (db : Database) (p : PayoutBatch) (m : MadeBatch) :
    Prop where
  id : m.batchId = p.id
  total : p.totalAmount = rewardFromCoinbase m.block.coinbaseValue
  fee : p.poolFeeAmount =
    poolFee (rewardFromCoinbase m.block.coinbaseValue) m.settings.feeBps
  count : p.minerCount ≠ 0 → ∃ found,
    foundAt db m.block.blockHash = some found ∧
      p.minerCount = minersOf suite db m.block m.settings.nMultiplier found

/-- The headers come from creations, and the payouts agree with them. -/
structure Booked (r : PayoutRun) : Prop where
  known : PlanRowsKnown r.db
  header : ∀ p ∈ r.db.payoutBatches.rows, ∃ m ∈ r.made,
    HeaderOf suite r.db p m
  balanced : Balanced r.db

variable {suite}

theorem HeaderOf.congr {db db' : Database} {p : PayoutBatch} {m : MadeBatch}
    (h : HeaderOf suite db p m) (hsources : db'.sources = db.sources) :
    HeaderOf suite db' p m := by
  refine ⟨h.id, h.total, h.fee, fun hcount => ?_⟩
  obtain ⟨found, hfound, hminers⟩ := h.count hcount
  refine ⟨found, (foundAt_congr hsources _).trans hfound, ?_⟩
  unfold minersOf
  rw [window_congr hsources]
  exact hminers

/-- The outputs of a plan are as many as there are miners in the window. -/
theorem length_outputs {block : FoundBlock} {reward : Int}
    {settings : PayoutSettings} {found : Nat} {db : Database}
    (h : (planFor block (AccountingService.networkDifficulty suite block) reward
      settings found db).2.outputs ≠ []) :
    (planFor block (AccountingService.networkDifficulty suite block) reward
        settings found db).2.outputs.length =
      minersOf suite db block settings.nMultiplier found := by
  have hlength := (planFor_addresses h).length_eq
  rwa [List.length_map, List.length_map] at hlength

/-- Payouts that are the outputs of a plan agree with a header that was
created with the same fee, window and block. -/
theorem HeaderOf.balanced {db db' : Database} {p : PayoutBatch}
    {m : MadeBatch} (h : HeaderOf suite db p m) (hcount : p.minerCount ≠ 0)
    {block : FoundBlock} {settings : PayoutSettings} {found : Nat}
    (hfee : settings.feeBps = m.settings.feeBps)
    (hmultiplier : settings.nMultiplier = m.settings.nMultiplier)
    (hhash : block.blockHash = m.block.blockHash)
    (hvalue : block.coinbaseValue = m.block.coinbaseValue)
    (htarget : block.networkTargetHex = m.block.networkTargetHex)
    (hfound : foundAt db block.blockHash = some found)
    (houtputs : (planFor block (AccountingService.networkDifficulty suite block)
      (rewardFromCoinbase block.coinbaseValue) settings found
        db).2.outputs ≠ [])
    (hrows : (db'.payoutsOf p.id).map (·.triple) =
      (planFor block (AccountingService.networkDifficulty suite block)
        (rewardFromCoinbase block.coinbaseValue) settings found
          db).2.outputs.map (·.triple)) :
    p.totalAmount = p.poolFeeAmount +
        ((db'.payoutsOf p.id).map (·.amount)).sum +
        ((db'.payoutsOf p.id).map (·.dustCarriedForward)).sum ∧
      p.minerCount = (db'.payoutsOf p.id).length := by
  have hamounts := congrArg (List.map (·.2.1)) hrows
  have hdust := congrArg (List.map (·.2.2)) hrows
  have hlength := congrArg List.length hrows
  rw [List.map_map, List.map_map] at hamounts hdust
  rw [List.length_map, List.length_map, length_outputs houtputs] at hlength
  constructor
  · have hsum := planFor_sum houtputs
    rw [h.total, h.fee, ← hvalue, ← hfee]
    refine hsum.trans (congrArg₂ (· + ·) (congrArg₂ (· + ·) rfl ?_) ?_)
    · exact congrArg List.sum hamounts.symm
    · exact congrArg List.sum hdust.symm
  · obtain ⟨found', hfound', hminers⟩ := h.count hcount
    rw [← hhash, hfound] at hfound'
    cases hfound'
    rw [hminers, hlength]
    unfold minersOf AccountingService.networkDifficulty
    rw [htarget, hmultiplier]

theorem batchRow_header (batchId : Nat) (block : FoundBlock)
    (plan : PayoutPlan) :
    (Record.withId batchId (batchRow block plan)).id = batchId ∧
      (Record.withId batchId (batchRow block plan)).totalAmount =
        plan.grossReward ∧
      (Record.withId batchId (batchRow block plan)).poolFeeAmount =
        plan.poolFeeAmount ∧
      (Record.withId batchId (batchRow block plan)).minerCount =
        plan.outputs.length :=
  ⟨rfl, rfl, rfl, rfl⟩

/-- The header of a new batch. -/
theorem HeaderOf.new {batchId : Nat} {block : FoundBlock}
    {settings : PayoutSettings} {found : Nat} {db : Database}
    (hfound : foundAt db block.blockHash = some found) {p : PayoutBatch}
    (hp : p = Record.withId batchId (batchRow block (planFor block
      (AccountingService.networkDifficulty suite block)
      (rewardFromCoinbase block.coinbaseValue) settings found db).2)) :
    HeaderOf suite db p ⟨batchId, block, settings⟩ := by
  obtain ⟨hid, htotal, hfee, hcount⟩ := batchRow_header batchId block
    (planFor block (AccountingService.networkDifficulty suite block)
      (rewardFromCoinbase block.coinbaseValue) settings found db).2
  rw [← hp] at hid htotal hfee hcount
  refine ⟨hid.symm, htotal.trans planFor_grossReward,
    hfee.trans planFor_poolFeeAmount, fun hne => ⟨found, hfound, ?_⟩⟩
  rw [hcount]
  refine length_outputs fun hnil => hne ?_
  rw [hcount, hnil, List.length_nil]

namespace Booked

variable {r : PayoutRun}

theorem create (h : Booked suite r) (block : FoundBlock)
    (settings : PayoutSettings) :
    Booked suite (r.call suite (.create block settings)) := by
  rcases call_create suite r block settings with heq |
    ⟨batchId, db', hcreate, heq⟩
  · rw [heq]
    exact h
  rw [heq]
  have hsources := createPayoutSection_sources hcreate
  obtain ⟨found, hfound, hinsert, hwritten⟩ := createPayoutSection_ok hcreate
  obtain ⟨_, hid, _, hrows⟩ := Table.insert_some hinsert
  have hself := hwritten.payoutsOf_self (h.known.payoutsOf_new hinsert)
  refine ⟨h.known.createPayout hcreate, fun p hp => ?_, fun p hp hpaid => ?_⟩
  · dsimp only at hp
    rw [hrows] at hp
    rcases List.mem_append.1 hp with hold | hnew
    · obtain ⟨m, hm, hheader⟩ := h.header p hold
      exact ⟨m, List.mem_cons_of_mem _ hm, hheader.congr hsources⟩
    · have hheader := HeaderOf.new hfound (List.mem_singleton.1 hnew)
      exact ⟨_, List.mem_cons_self, hheader.congr hsources⟩
  · dsimp only at hp hpaid ⊢
    rw [hrows] at hp
    rcases List.mem_append.1 hp with hold | hnew
    · have hne : p.id ≠ batchId := by
        have hle := r.db.payoutBatches.ids_le p hold
        change p.id ≤ _ at hle
        omega
      rw [hwritten.payoutsOf_other hne] at hpaid ⊢
      exact h.balanced p hold hpaid
    · have hp' := List.mem_singleton.1 hnew
      have hheader := HeaderOf.new hfound hp'
      obtain ⟨_, _, _, hcount⟩ := batchRow_header batchId block (planFor block
        (AccountingService.networkDifficulty suite block)
        (rewardFromCoinbase block.coinbaseValue) settings found r.db).2
      rw [← hp'] at hcount
      rw [show batchId = p.id from hheader.id] at hself
      have houtputs : (planFor block
          (AccountingService.networkDifficulty suite block)
          (rewardFromCoinbase block.coinbaseValue) settings found
            r.db).2.outputs ≠ [] := by
        intro hnil
        rw [hnil] at hself
        exact hpaid (List.map_eq_nil_iff.1 hself)
      refine hheader.balanced ?_ rfl rfl rfl rfl rfl hfound houtputs hself
      rw [hcount]
      exact fun hzero => houtputs (List.length_eq_zero_iff.1 hzero)

theorem deletePayouts (h : Booked suite r) (batchId : Nat) :
    Booked suite (r.call suite (.deletePayouts batchId)) := by
  refine ⟨h.known.call _, fun p hp => ?_, fun p hp hpaid => ?_⟩
  · obtain ⟨m, hm, hheader⟩ := h.header p hp
    exact ⟨m, hm, hheader.congr rfl⟩
  · by_cases hid : p.id = batchId
    · subst hid
      exact absurd payoutsOf_delete_self hpaid
    · have hsame : (r.call suite (.deletePayouts batchId)).db.payoutsOf p.id =
          r.db.payoutsOf p.id := payoutsOf_delete hid
      rw [hsame] at hpaid ⊢
      exact h.balanced p hp hpaid

theorem rebuild (h : Booked suite r) {batchId : Nat}
    {settings : PayoutSettings} (hok : Alike r (.rebuild batchId settings)) :
    Booked suite (r.call suite (.rebuild batchId settings)) := by
  rcases call_rebuild suite r batchId settings with heq |
    ⟨batch, block, outputs, db', hbatch, hid, hblock, hrebuild, heq⟩
  · rw [heq]
    exact h
  rw [heq]
  obtain ⟨hsources, hbatches⟩ := rebuildPayoutSection_sources hrebuild
  obtain ⟨found, hfound, houtputs, hwritten⟩ := rebuildPayoutSection_ok hrebuild
  have hle : batchId ≤ r.db.payoutBatches.seq :=
    hid ▸ r.db.payoutBatches.ids_le batch hbatch
  refine ⟨h.known.rebuildPayout hle hrebuild, fun p hp => ?_,
    fun p hp hpaid => ?_⟩
  · dsimp only at hp
    rw [hbatches] at hp
    obtain ⟨m, hm, hheader⟩ := h.header p hp
    exact ⟨m, hm, hheader.congr hsources⟩
  · dsimp only at hp hpaid ⊢
    rw [hbatches] at hp
    by_cases hpid : p.id = batchId
    · obtain ⟨hcount, hmade⟩ := hok p hp hpid
      obtain ⟨m, hm, hheader⟩ := h.header p hp
      obtain ⟨hfee, hmultiplier, hsame⟩ := hmade m hm (hheader.id.trans hpid)
      have hp' : p = batch :=
        r.db.payoutBatches.eq_of_id hp hbatch (hpid.trans hid.symm)
      obtain ⟨hhash, hvalue, htarget⟩ := hsame block (by
        rw [hp']
        exact Except.ok.inj hblock)
      refine hheader.balanced hcount hfee hmultiplier hhash hvalue htarget
        hfound houtputs ?_
      rw [hpid]
      exact hwritten.payoutsOf_self payoutsOf_delete_self
    · have hsame : db'.payoutsOf p.id = r.db.payoutsOf p.id :=
        (hwritten.payoutsOf_other hpid).trans (payoutsOf_delete hpid)
      rw [hsame] at hpaid ⊢
      exact h.balanced p hp hpaid

/-- Every call that meets the condition keeps the books. -/
theorem call (h : Booked suite r) {c : AccountingCall} (hok : Alike r c) :
    Booked suite (r.call suite c) := by
  cases c with
  | create block settings => exact h.create block settings
  | deletePayouts batchId => exact h.deletePayouts batchId
  | rebuild batchId settings => exact h.rebuild hok

end Booked

end Booked

/-! ## The result -/

/-- The batch of a block is created, and its plan is rebuilt with a fee of its
own. -/
def rebuilds (block : FoundBlock) (feeBps : Nat) : List AccountingCall :=
  [.create block sampleSettings, .rebuild 1 { sampleSettings with feeBps }]

end StratumServer
