import StratumServer.Payouts.Calls

/-!
# The dust ledger

What an address gets below the minimum is carried forward: it is written into
the payout and added to the balance of the address in `dust_balances`.

There are three groups.

* The ledger.  `PlanWritten.balance` and `PlanWritten.carried` say by how much
  a plan raises a balance, and by how much the dust of the payouts.
* The ledger against the payouts.  A rebuilt plan adds its dust although that
  of the plan before it is still in the balance, so the two agree only when
  the rows that are replaced carry no dust (`calls_dustMatches`).
* Dust that is paid.  The ledger only adds: a batch counts the balance of an
  address as bonus weight and leaves it where it is (`calls_accrued`).
-/

namespace StratumServer

open Sql Tasks Calls

/-! ## The ledger -/

/-- The balance of an address; an address without a row has none. -/
def balanceOf (t : Table DustBalance) (a : String) : Int :=
  ((t.rows.find? (·.payoutAddress == a)).map (·.balance)).getD 0

/-- The dust that the outputs carry forward for an address. -/
def dustFor (outputs : List PayoutOutput) (a : String) : Int :=
  ((outputs.filter (·.payoutAddress == a)).map (·.dustCarriedForward)).sum

/-- The dust that the outputs add to the balance of an address: dust that is
not positive is not booked. -/
def addedFor (outputs : List PayoutOutput) (a : String) : Int :=
  ((outputs.filter (·.payoutAddress == a)).map
    (max ·.dustCarriedForward 0)).sum

theorem addedFor_eq_dustFor {outputs : List PayoutOutput}
    (h : ∀ o ∈ outputs, 0 ≤ o.dustCarriedForward) (a : String) :
    addedFor outputs a = dustFor outputs a := by
  unfold addedFor dustFor
  congr 1
  refine List.map_congr_left fun o ho => max_eq_left ?_
  exact h o (List.mem_filter.1 ho).1

/-- A new row, for an address that has none. -/
theorem balanceOf_insert {t t' : Table DustBalance} {d : DustBalance} {n : Nat}
    (h : t.insert d = some (n, t')) (a : String) :
    balanceOf t' a =
      balanceOf t a + if d.payoutAddress = a then d.balance else 0 := by
  obtain ⟨hfree, _, _, hrows⟩ := Table.insert_some h
  unfold balanceOf
  rw [hrows, List.find?_append]
  by_cases ha : d.payoutAddress = a
  · have hnone : t.rows.find? (·.payoutAddress == a) = none := by
      refine List.find?_eq_none.2 fun r hr heq => hfree r hr ⟨a, ?_, ?_⟩
      · exact congrArg some (eq_of_beq heq)
      · exact congrArg some ha
    have hnew : ([Record.withId n d].find? (·.payoutAddress == a)) =
        some (Record.withId n d) := by
      refine List.find?_cons_of_pos ?_
      exact beq_iff_eq.2 ha
    rw [hnone, hnew, if_pos ha, Option.none_or, Option.map_none,
      Option.getD_none, zero_add]
    rfl
  · have hnew : ([Record.withId n d].find? (·.payoutAddress == a)) = none := by
      refine List.find?_eq_none.2 fun r hr heq => ha ?_
      rw [List.mem_singleton.1 hr] at heq
      exact eq_of_beq heq
    rw [hnew, if_neg ha, Option.or_none, add_zero]

/-- Dust added to a row that is there. -/
theorem balanceOf_modify {t : Table DustBalance} {b : String} {dust : Int}
    (hrow : ∃ r ∈ t.rows, r.payoutAddress = b) {hf} (a : String) :
    balanceOf (t.modify (·.payoutAddress == b)
      (fun d => { d with balance := d.balance + dust }) hf) a =
      balanceOf t a + if b = a then dust else 0 := by
  have hfind : (t.modify (·.payoutAddress == b)
      (fun d => { d with balance := d.balance + dust }) hf).rows.find?
        (·.payoutAddress == a) =
      (t.rows.find? (·.payoutAddress == a)).map fun r =>
        if r.payoutAddress == b then { r with balance := r.balance + dust }
        else r := by
    unfold Table.modify
    rw [List.find?_map]
    congr 2
    funext r
    simp only [Function.comp_apply]
    split <;> rfl
  unfold balanceOf
  rw [hfind]
  cases hold : t.rows.find? (·.payoutAddress == a) with
  | none =>
    have hne : b ≠ a := by
      rintro rfl
      obtain ⟨r, hr, heq⟩ := hrow
      exact List.find?_eq_none.1 hold r hr (beq_iff_eq.2 heq)
    simp [hne]
  | some r =>
    have hr : r.payoutAddress = a := by
      have heq := List.find?_some hold
      exact eq_of_beq heq
    by_cases hb : b = a
    · simp [hr, hb]
    · have hne : ¬ a = b := fun heq => hb heq.symm
      simp [hr, hb, hne]

theorem balanceOf_upsertDust (t : Table DustBalance) (o : PayoutOutput)
    (a : String) : balanceOf (upsertDust t o) a = balanceOf t a +
      if o.payoutAddress = a then max o.dustCarriedForward 0 else 0 := by
  unfold upsertDust
  split
  · rename_i hpos
    rw [max_eq_left hpos.le]
    split
    · rename_i hinsert
      exact balanceOf_insert hinsert a
    · rename_i hinsert
      obtain ⟨r, hr, k, hk, hk'⟩ := Table.insert_none hinsert
      refine balanceOf_modify (t := t.burn) ⟨r, hr, ?_⟩ a
      exact Option.some.inj (hk.trans hk'.symm)
  · rename_i hpos
    rw [max_eq_right (not_lt.1 hpos), ite_self, add_zero]

/-- The outputs of a plan raise each balance by what they add for its
address. -/
theorem balanceOf_foldl (outputs : List PayoutOutput) (t : Table DustBalance)
    (a : String) :
    balanceOf (outputs.foldl upsertDust t) a =
      balanceOf t a + addedFor outputs a := by
  induction outputs generalizing t with
  | nil => simp [addedFor]
  | cons o outputs ih =>
    rw [List.foldl_cons, ih, balanceOf_upsertDust]
    unfold addedFor
    by_cases ha : o.payoutAddress = a
    · simp [ha, add_assoc]
    · simp [ha]

/-- The dust that the payouts of an address carry forward. -/
def Database.carried (db : Database) (a : String) : Int :=
  ((db.payouts.rows.filter (·.payoutAddress == a)).map
    (·.dustCarriedForward)).sum

/-- No share counts against its miner. -/
def Database.SharesNonneg (db : Database) : Prop :=
  ∀ s ∈ db.shares.rows, 0 ≤ s.difficulty

instance (db : Database) : Decidable db.SharesNonneg :=
  inferInstanceAs (Decidable (∀ _ ∈ _, _))

theorem mem_cutoff {threshold : ℚ} {e : PplnsShareEntry} :
    ∀ {cumulative : ℚ} {l : List PplnsShareEntry},
      e ∈ cutoff threshold cumulative l → e ∈ l
  | _, [], he => by cases he
  | cumulative, e' :: l, he => by
    unfold cutoff at he
    split at he
    · rw [List.mem_singleton.1 he]
      exact List.mem_cons_self
    · rcases List.mem_cons.1 he with rfl | htail
      · exact List.mem_cons_self
      · exact List.mem_cons_of_mem _ (mem_cutoff htail)

theorem window_nonneg {db : Database} (h : db.SharesNonneg) {found : Nat}
    {nMultiplier difficulty : ℚ} :
    ∀ e ∈ calculatePplnsWindow db found nMultiplier difficulty,
      0 ≤ e.difficulty := by
  intro e he
  have hall := mem_cutoff he
  rw [List.mem_insertionSort] at hall
  obtain ⟨so, _, hentry⟩ := List.mem_filterMap.1 hall
  unfold pplnsEntry at hentry
  obtain ⟨s, hs, hentry⟩ := Option.bind_eq_some_iff.1 hentry
  obtain ⟨w, _, hentry⟩ := Option.bind_eq_some_iff.1 hentry
  obtain ⟨roundId, _, hentry⟩ := Option.bind_eq_some_iff.1 hentry
  obtain ⟨_, _, hentry⟩ := Option.bind_eq_some_iff.1 hentry
  cases hentry
  exact h s (List.mem_of_find?_eq_some hs)

section Plan

variable {block : FoundBlock} {difficulty : ℚ} {reward : Int}
  {settings : PayoutSettings} {found : Nat} {db : Database}

theorem planFor_nonneg (h : db.SharesNonneg) {o : PayoutOutput}
    (ho : o ∈ (planFor block difficulty reward settings found db).2.outputs) :
    0 ≤ o.dustCarriedForward := by
  rw [planFor_outputs] at ho
  exact (planOutputs_nonneg (weights_nonneg (window_nonneg h)) ho).1

end Plan

namespace PlanWritten

variable {batchId : Nat} {plan : PayoutPlan} {shares : List PplnsShareEntry}
  {db db' : Database}

theorem balance (h : PlanWritten batchId plan shares db db') (a : String) :
    balanceOf db'.dustBalances a =
      balanceOf db.dustBalances a + addedFor plan.outputs a := by
  rw [h.dust]
  exact balanceOf_foldl plan.outputs db.dustBalances a

theorem carried (h : PlanWritten batchId plan shares db db') (a : String) :
    db'.carried a = db.carried a + dustFor plan.outputs a := by
  obtain ⟨new, hrows, hmap⟩ := Table.insertMany_some h.payouts
  -- The rows and the outputs have the same addresses with the same dust.
  have hpairs := hmap (fun p => (p.payoutAddress, p.dustCarriedForward))
    (fun _ _ => rfl)
  have hnew : (new.filter (·.payoutAddress == a)).map (·.dustCarriedForward) =
      (plan.outputs.filter (·.payoutAddress == a)).map
        (·.dustCarriedForward) := by
    have hsame := congrArg (fun l : List (String × Int) =>
      (l.filter (·.1 == a)).map Prod.snd) hpairs
    unfold payoutRows at hsame
    rwa [List.map_map, List.filter_map, List.filter_map, List.map_map,
      List.map_map] at hsame
  unfold Database.carried dustFor
  rw [hrows, List.filter_append, List.map_append, List.sum_append, hnew]

end PlanWritten

/-- Rows without dust can be deleted. -/
theorem carried_delete {db : Database} {batchId : Nat}
    (h : ∀ p ∈ db.payouts.rows, p.batchId = batchId →
      p.dustCarriedForward = 0) (a : String) :
    (PayoutRepository.deletePayoutsByBatch batchId db).2.carried a =
      db.carried a := by
  unfold Database.carried PayoutRepository.deletePayoutsByBatch
  simp only [Table.delete, List.filter_filter]
  revert h
  induction db.payouts.rows with
  | nil => exact fun _ => rfl
  | cons p rows ih =>
    intro h
    have hrest := ih fun p' hp' => h p' (List.mem_cons_of_mem _ hp')
    have hp := h p List.mem_cons_self
    by_cases hbatch : p.batchId = batchId
    · by_cases ha : p.payoutAddress = a <;> simp [hbatch, ha, hp hbatch, hrest]
    · by_cases ha : p.payoutAddress = a <;> simp [hbatch, ha, hrest]

/-! ## The ledger against the payouts -/

/-- The balance of each address is the dust of its payouts. -/
def DustMatches (db : Database) : Prop :=
  ∀ a, balanceOf db.dustBalances a = db.carried a

/-- The rows that are deleted or replaced carry no dust. -/
def Dustless (r : PayoutRun) : AccountingCall → Prop
  | .create _ _ => True
  | .deletePayouts batchId | .rebuild batchId _ =>
    ∀ p ∈ r.db.payouts.rows, p.batchId = batchId → p.dustCarriedForward = 0

instance (r : PayoutRun) : ∀ c, Decidable (Dustless r c)
  | .create _ _ => inferInstanceAs (Decidable True)
  | .deletePayouts batchId | .rebuild batchId _ => inferInstanceAs (Decidable
      (∀ p ∈ r.db.payouts.rows, p.batchId = batchId →
        p.dustCarriedForward = 0))

/-- A database that has seen no payouts, and no dust. -/
structure Database.Dustless (db : Database) : Prop extends db.Unpaid where
  dust : db.dustBalances.rows = []

instance (db : Database) : Decidable db.Dustless :=
  decidable_of_iff (db.Unpaid ∧ db.dustBalances.rows = [])
    ⟨fun ⟨h, hdust⟩ => ⟨h, hdust⟩, fun h => ⟨h.toUnpaid, h.dust⟩⟩

section Calls

variable {suite : Suite} {r : PayoutRun}

theorem sharesNonneg_congr {db db' : Database} (h : db.SharesNonneg)
    (hsources : db'.sources = db.sources) : db'.SharesNonneg := by
  have hshares : db'.shares = db.shares := congrArg (·.2.1) hsources
  unfold Database.SharesNonneg
  rw [hshares]
  exact h

theorem sharesNonneg_call (h : r.db.SharesNonneg) (c : AccountingCall) :
    (r.call suite c).db.SharesNonneg := by
  cases c with
  | create block settings =>
    rcases call_create suite r block settings with heq |
      ⟨batchId, db', hcreate, heq⟩
    · rw [heq]
      exact h
    · rw [heq]
      exact sharesNonneg_congr h (createPayoutSection_sources hcreate)
  | deletePayouts batchId => exact h
  | rebuild batchId settings =>
    rcases call_rebuild suite r batchId settings with heq |
      ⟨_, _, _, db', _, _, _, hrebuild, heq⟩
    · rw [heq]
      exact h
    · rw [heq]
      exact sharesNonneg_congr h (rebuildPayoutSection_sources hrebuild).1

theorem dustMatches_call (hnonneg : r.db.SharesNonneg)
    (h : DustMatches r.db) {c : AccountingCall} (hok : Dustless r c) :
    DustMatches (r.call suite c).db := by
  intro a
  cases c with
  | create block settings =>
    rcases call_create suite r block settings with heq |
      ⟨batchId, db', hcreate, heq⟩
    · rw [heq]
      exact h a
    · obtain ⟨found, _, _, hwritten⟩ := createPayoutSection_ok hcreate
      rw [heq, hwritten.balance,
        addedFor_eq_dustFor (fun _ => planFor_nonneg hnonneg),
        hwritten.carried, h a]
  | deletePayouts batchId =>
    change balanceOf r.db.dustBalances a =
      (PayoutRepository.deletePayoutsByBatch batchId r.db).2.carried a
    rw [carried_delete hok, h a]
  | rebuild batchId settings =>
    rcases call_rebuild suite r batchId settings with heq |
      ⟨_, block, _, db', _, _, _, hrebuild, heq⟩
    · rw [heq]
      exact h a
    · obtain ⟨found, _, _, hwritten⟩ := rebuildPayoutSection_ok hrebuild
      have hcarried := hwritten.carried a
      have hdelete : Database.carried { r.db with
          payouts := r.db.payouts.delete (·.batchId == batchId)
          payoutShareSnapshots :=
            r.db.payoutShareSnapshots.delete (·.batchId == batchId) } a =
          r.db.carried a := carried_delete hok a
      rw [heq, hwritten.balance,
        addedFor_eq_dustFor (fun _ => planFor_nonneg hnonneg), hcarried,
        hdelete, h a]

end Calls

/-- Calls that delete or replace only rows without dust leave the ledger as
the payouts have it. -/
theorem calls_dustMatches {suite : Suite} {db : Database} (hdb : db.Dustless)
    (hnonneg : db.SharesNonneg) {calls : List AccountingCall}
    (h : Meets (PayoutRun.call suite) Dustless ⟨db, []⟩ calls) :
    DustMatches (calls.foldl (PayoutRun.call suite) ⟨db, []⟩).db := by
  have hmatches := h.invariant
    (I := fun r => r.db.SharesNonneg ∧ DustMatches r.db)
    (fun r c hI hok => ⟨sharesNonneg_call hI.1 c,
      dustMatches_call hI.1 hI.2 hok⟩) ⟨hnonneg, fun a => ?_⟩
  · exact hmatches.2
  · simp [balanceOf, Database.carried, hdb.dust, hdb.payouts]

/-- Sample settings with a minimum. -/
def withMinimum (minPayoutSat : Int) : PayoutSettings :=
  { sampleSettings with minPayoutSat }

/-- The plan of a batch is rebuilt after its payouts were deleted.  The first
plan has the given minimum, and the second one makes dust of everything. -/
def rebuildsDust (block : FoundBlock) (minPayoutSat : Int) : List AccountingCall :=
  [.create block (withMinimum minPayoutSat), .deletePayouts 1,
    .rebuild 1 (withMinimum 1000)]

/-- The calls, with a first plan that has no dust. -/
theorem calls_dustMatches_sample : ∃ (db : Database) (block : FoundBlock),
    db.Dustless ∧ db.SharesNonneg ∧
    Meets (PayoutRun.call sampleSuite) Dustless ⟨db, []⟩
      (rebuildsDust block 1) ∧
    balanceOf ((rebuildsDust block 1).foldl (PayoutRun.call sampleSuite)
      ⟨db, []⟩).db.dustBalances "lotus_a" = 500 ∧
    DustMatches ((rebuildsDust block 1).foldl (PayoutRun.call sampleSuite)
      ⟨db, []⟩).db := by
  have hrun : (schedule sampleSuite sampleData sampleConfig (fun _ _ => true)
      ["genesis"] maturesFirst).map (fun c =>
        decide (c.world.shared.db.Dustless ∧
          c.world.shared.db.SharesNonneg ∧
          ∃ block ∈ c.world.shared.db.foundBlocks.rows,
            Meets (PayoutRun.call sampleSuite) Dustless
              ⟨c.world.shared.db, []⟩ (rebuildsDust block 1) ∧
            balanceOf ((rebuildsDust block 1).foldl
              (PayoutRun.call sampleSuite)
                ⟨c.world.shared.db, []⟩).db.dustBalances "lotus_a" = 500)) =
      some true := by
    decide +kernel
  obtain ⟨c, _, hend⟩ := Option.map_eq_some_iff.1 hrun
  obtain ⟨hdb, hnonneg, block, _, hmeets, hdust⟩ := of_decide_eq_true hend
  exact ⟨c.world.shared.db, block, hdb, hnonneg, hmeets, hdust,
    calls_dustMatches hdb hnonneg hmeets⟩

/-- With a first plan that has dust, the batch has its payouts again, and its
dust is in the ledger twice. -/
theorem calls_dustMatches_fails : ∃ c : PoolConfig,
    (pool sampleSuite sampleData sampleConfig).Reach (fun _ _ => True) c ∧
    c.world.shared.db.Dustless ∧
    ∃ block ∈ c.world.shared.db.foundBlocks.rows,
      (∀ p ∈ ((rebuildsDust block 1000).foldl (PayoutRun.call sampleSuite)
          ⟨c.world.shared.db, []⟩).db.payoutBatches.rows,
        ((rebuildsDust block 1000).foldl (PayoutRun.call sampleSuite)
          ⟨c.world.shared.db, []⟩).db.payoutsOf p.id ≠ []) ∧
      ¬ DustMatches ((rebuildsDust block 1000).foldl
        (PayoutRun.call sampleSuite) ⟨c.world.shared.db, []⟩).db := by
  have hrun : (schedule sampleSuite sampleData sampleConfig (fun _ _ => true)
      ["genesis"] maturesFirst).any (fun c =>
        decide (c.world.shared.db.Dustless ∧
          ∃ block ∈ c.world.shared.db.foundBlocks.rows,
            (∀ p ∈ ((rebuildsDust block 1000).foldl
                (PayoutRun.call sampleSuite)
                  ⟨c.world.shared.db, []⟩).db.payoutBatches.rows,
              ((rebuildsDust block 1000).foldl (PayoutRun.call sampleSuite)
                ⟨c.world.shared.db, []⟩).db.payoutsOf p.id ≠ []) ∧
            balanceOf ((rebuildsDust block 1000).foldl
              (PayoutRun.call sampleSuite)
                ⟨c.world.shared.db, []⟩).db.dustBalances "lotus_a" ≠
              ((rebuildsDust block 1000).foldl (PayoutRun.call sampleSuite)
                ⟨c.world.shared.db, []⟩).db.carried "lotus_a")) =
      true := by
    decide +kernel
  obtain ⟨c, _, hreach, hdb, block, hblock, hpaid, hdust⟩ :=
    exists_schedule _ _ _ (fun _ _ _ => trivial) (by decide) hrun
  exact ⟨c, hreach, hdb, block, hblock, hpaid,
    fun hmatches => hdust (hmatches "lotus_a")⟩

/-! ## Dust that is paid -/

/-- What a batch does to the balances.  An address that is paid keeps its
balance, what an address does not get is added to its balance, and the others
keep theirs. -/
structure Accrued (db db' : Database) (batchId : Nat) : Prop where
  paid : ∀ p ∈ db'.payoutsOf batchId, 0 < p.amount →
    balanceOf db'.dustBalances p.payoutAddress =
      balanceOf db.dustBalances p.payoutAddress
  clipped : ∀ p ∈ db'.payoutsOf batchId,
    balanceOf db'.dustBalances p.payoutAddress =
      balanceOf db.dustBalances p.payoutAddress + max p.dustCarriedForward 0
  nonneg : db.SharesNonneg →
    ∀ p ∈ db'.payoutsOf batchId, 0 ≤ p.dustCarriedForward
  others : ∀ a, a ∉ (db'.payoutsOf batchId).map (·.payoutAddress) →
    balanceOf db'.dustBalances a = balanceOf db.dustBalances a

/-- The balances if a batch took from them what it pays: an address that is
paid would have none left. -/
structure Redeemed (db db' : Database) (batchId : Nat) : Prop where
  paid : ∀ p ∈ db'.payoutsOf batchId, 0 < p.amount →
    balanceOf db'.dustBalances p.payoutAddress = 0
  clipped : ∀ p ∈ db'.payoutsOf batchId, p.amount = 0 →
    balanceOf db'.dustBalances p.payoutAddress =
      balanceOf db.dustBalances p.payoutAddress + p.dustCarriedForward
  others : ∀ a, a ∉ (db'.payoutsOf batchId).map (·.payoutAddress) →
    balanceOf db'.dustBalances a = balanceOf db.dustBalances a

section Creates

variable (suite : Suite) (r : PayoutRun)

/-- A call that creates a batch adds to the balances and takes nothing. -/
def Accrues (c : AccountingCall) : Prop :=
  ∀ m, (r.call suite c).made = m :: r.made →
    Accrued r.db (r.call suite c).db m.batchId

/-- A call that creates a batch redeems the dust. -/
def Redeems (c : AccountingCall) : Prop :=
  ∀ m, (r.call suite c).made = m :: r.made →
    Redeemed r.db (r.call suite c).db m.batchId

end Creates

/-- Where no address comes twice, an output is the only one of its address. -/
theorem filter_payoutAddress {outputs : List PayoutOutput}
    (hnodup : (outputs.map (·.payoutAddress)).Nodup) {o : PayoutOutput}
    (ho : o ∈ outputs) :
    outputs.filter (·.payoutAddress == o.payoutAddress) = [o] := by
  induction outputs with
  | nil => cases ho
  | cons o' outputs ih =>
    rw [List.map_cons, List.nodup_cons] at hnodup
    rcases List.mem_cons.1 ho with rfl | htail
    · have hrest : outputs.filter (·.payoutAddress == o.payoutAddress) =
          [] := by
        refine List.filter_eq_nil_iff.2 fun o' ho' heq => hnodup.1 ?_
        exact List.mem_map.2 ⟨o', ho', eq_of_beq heq⟩
      rw [List.filter_cons, if_pos (beq_self_eq_true _), hrest]
    · have hne : ¬ (o'.payoutAddress == o.payoutAddress) = true :=
        fun heq => hnodup.1 (List.mem_map.2 ⟨o, htail, (eq_of_beq heq).symm⟩)
      rw [List.filter_cons, if_neg hne, ih hnodup.2 htail]

/-- What is added for the address of an output is the dust of the output. -/
theorem addedFor_of_mem {outputs : List PayoutOutput}
    (hnodup : (outputs.map (·.payoutAddress)).Nodup) {o : PayoutOutput}
    (ho : o ∈ outputs) :
    addedFor outputs o.payoutAddress = max o.dustCarriedForward 0 := by
  unfold addedFor
  rw [filter_payoutAddress hnodup ho]
  simp

theorem addedFor_of_notMem {outputs : List PayoutOutput} {a : String}
    (ha : a ∉ outputs.map (·.payoutAddress)) : addedFor outputs a = 0 := by
  have hnone : outputs.filter (·.payoutAddress == a) = [] := by
    refine List.filter_eq_nil_iff.2 fun o ho heq => ha ?_
    exact List.mem_map.2 ⟨o, ho, eq_of_beq heq⟩
  unfold addedFor
  rw [hnone]
  rfl

/-- A payout that was written for a plan is an output of the plan. -/
theorem exists_output_of_payout {payouts : List Payout}
    {outputs : List PayoutOutput}
    (h : payouts.map (·.triple) = outputs.map (·.triple)) {p : Payout}
    (hp : p ∈ payouts) : ∃ o ∈ outputs, o.payoutAddress = p.payoutAddress ∧
      o.amount = p.amount ∧ o.dustCarriedForward = p.dustCarriedForward := by
  obtain ⟨o, ho, htriple⟩ := List.mem_map.1 (h ▸ List.mem_map_of_mem hp)
  obtain ⟨haddress, hrest⟩ := Prod.mk.inj htriple
  obtain ⟨hamount, hcarried⟩ := Prod.mk.inj hrest
  exact ⟨o, ho, haddress, hamount, hcarried⟩

/-- The plan of a batch whose rows are the payouts of the batch. -/
theorem PlanWritten.accrued {batchId : Nat} {block : FoundBlock}
    {difficulty : ℚ} {reward : Int} {settings : PayoutSettings} {found : Nat}
    {db db₁ db' : Database}
    (hwritten : PlanWritten batchId
      (planFor block difficulty reward settings found db).2
      (planFor block difficulty reward settings found db).1 db₁ db')
    (hdust : db₁.dustBalances = db.dustBalances)
    (hrows : (db'.payoutsOf batchId).map (·.triple) =
      (planFor block difficulty reward settings found db).2.outputs.map
        (·.triple)) : Accrued db db' batchId := by
  have hbalance := hwritten.balance
  rw [hdust] at hbalance
  have hclipped : ∀ p ∈ db'.payoutsOf batchId,
      balanceOf db'.dustBalances p.payoutAddress =
        balanceOf db.dustBalances p.payoutAddress +
          max p.dustCarriedForward 0 := by
    intro p hp
    obtain ⟨o, ho, haddress, _, hcarried⟩ := exists_output_of_payout hrows hp
    rw [← haddress, ← hcarried, hbalance, addedFor_of_mem planFor_nodup ho]
  refine ⟨fun p hp hpaid => ?_, hclipped, fun hnonneg p hp => ?_,
    fun a ha => ?_⟩
  · obtain ⟨o, ho, _, hamount, hcarried⟩ := exists_output_of_payout hrows hp
    have hzero : o.dustCarriedForward = 0 := by
      rw [planFor_outputs] at ho
      refine (planOutputs_clip ho).resolve_left ?_
      rw [hamount]
      exact hpaid.ne'
    rw [hclipped p hp, ← hcarried, hzero, max_self, add_zero]
  · obtain ⟨o, ho, _, _, hcarried⟩ := exists_output_of_payout hrows hp
    rw [← hcarried]
    exact planFor_nonneg hnonneg ho
  · have hnone : a ∉ (planFor block difficulty reward settings found
        db).2.outputs.map (·.payoutAddress) := by
      intro hmem
      refine ha ?_
      have haddresses := congrArg (List.map (·.1)) hrows
      rw [List.map_map, List.map_map] at haddresses
      exact haddresses.symm ▸ hmem
    rw [hbalance, addedFor_of_notMem hnone, add_zero]

theorem accrues_call {suite : Suite} {r : PayoutRun}
    (hknown : PlanRowsKnown r.db) (c : AccountingCall) :
    Accrues suite r c := by
  intro m hmade
  cases c with
  | deletePayouts | rebuild =>
    exact absurd hmade.symm (List.cons_ne_self _ _)
  | create block settings =>
    rcases call_create suite r block settings with heq |
      ⟨batchId, db', hcreate, heq⟩
    · rw [heq] at hmade
      exact absurd hmade.symm (List.cons_ne_self _ _)
    · rw [heq] at hmade ⊢
      obtain ⟨rfl, _⟩ := List.cons.inj hmade
      obtain ⟨found, _, hinsert, hwritten⟩ := createPayoutSection_ok hcreate
      exact hwritten.accrued rfl
        (hwritten.payoutsOf_self (hknown.payoutsOf_new hinsert))

/-- In every sequence of calls, a batch leaves the balance of an address that
it pays, and adds to that of an address that it clips. -/
theorem calls_accrued {suite : Suite} {db : Database}
    (hdb : PlanRowsKnown db) (calls : List AccountingCall) :
    Meets (PayoutRun.call suite) (Accrues suite) ⟨db, []⟩ calls := by
  have hall : Meets (PayoutRun.call suite) (fun _ _ => True) ⟨db, []⟩ calls :=
    meets_of_forall (fun _ _ => trivial) _ _
  exact hall.imp (I := fun r => PlanRowsKnown r.db)
    (fun _ c hI _ => ⟨accrues_call hI c, hI.call c⟩) hdb

/-- Two blocks. -/
def findsTwoBlocks : List Scene :=
  findsBlock 50 ++
    submits 0 (sampleSubmit "lotus_a.rig" (sampleJob 7 1 easyTarget) "0b")

/-- The batches of two blocks.  The reward of the first is below its minimum,
and the second one has a minimum that its reward reaches. -/
def createsTwo (first second : FoundBlock) : List AccountingCall :=
  [.create first (withMinimum 1000), .create second (withMinimum 1)]

/-- The first batch clips the only miner, and the second one pays it.  Its
balance of 500 stays. -/
theorem calls_accrued_sample : ∃ (db : Database) (first second : FoundBlock),
    PlanRowsKnown db ∧
    (((createsTwo first second).foldl (PayoutRun.call sampleSuite)
      ⟨db, []⟩).db.payouts.rows.map (·.triple) =
        [("lotus_a", 0, 500), ("lotus_a", 500, 0)]) ∧
    balanceOf ((createsTwo first second).foldl (PayoutRun.call sampleSuite)
      ⟨db, []⟩).db.dustBalances "lotus_a" = 500 ∧
    Meets (PayoutRun.call sampleSuite) (Accrues sampleSuite) ⟨db, []⟩
      (createsTwo first second) := by
  have hrun : (schedule sampleSuite sampleData sampleConfig (fun _ _ => true)
      ["genesis"] findsTwoBlocks).map (fun c =>
        decide (c.world.shared.db.Unpaid ∧
          ∃ first ∈ c.world.shared.db.foundBlocks.rows,
            ∃ second ∈ c.world.shared.db.foundBlocks.rows,
              ((createsTwo first second).foldl (PayoutRun.call sampleSuite)
                ⟨c.world.shared.db, []⟩).db.payouts.rows.map (·.triple) =
                  [("lotus_a", 0, 500), ("lotus_a", 500, 0)] ∧
              balanceOf ((createsTwo first second).foldl
                (PayoutRun.call sampleSuite)
                  ⟨c.world.shared.db, []⟩).db.dustBalances "lotus_a" = 500)) =
      some true := by
    decide +kernel
  obtain ⟨c, _, hend⟩ := Option.map_eq_some_iff.1 hrun
  obtain ⟨hunpaid, first, _, second, _, hpayouts, hbalance⟩ :=
    of_decide_eq_true hend
  exact ⟨c.world.shared.db, first, second, hunpaid.planRowsKnown, hpayouts,
    hbalance, calls_accrued hunpaid.planRowsKnown _⟩

/-- So the dust is not redeemed by the batch that pays. -/
theorem calls_redeemed_fails : ∃ c : PoolConfig,
    (pool sampleSuite sampleData sampleConfig).Reach (fun _ _ => True) c ∧
    c.world.shared.db.Dustless ∧
    ∃ first ∈ c.world.shared.db.foundBlocks.rows,
      ∃ second ∈ c.world.shared.db.foundBlocks.rows,
        ¬ Meets (PayoutRun.call sampleSuite) (Redeems sampleSuite)
          ⟨c.world.shared.db, []⟩ (createsTwo first second) := by
  have hrun : (schedule sampleSuite sampleData sampleConfig (fun _ _ => true)
      ["genesis"] findsTwoBlocks).any (fun c =>
        decide (c.world.shared.db.Dustless ∧
          ∃ first ∈ c.world.shared.db.foundBlocks.rows,
            ∃ second ∈ c.world.shared.db.foundBlocks.rows,
              let r := PayoutRun.call sampleSuite ⟨c.world.shared.db, []⟩
                (.create first (withMinimum 1000))
              let r' := r.call sampleSuite (.create second (withMinimum 1))
              ∃ m ∈ r'.made, r'.made = m :: r.made ∧
                ∃ p ∈ r'.db.payoutsOf m.batchId, 0 < p.amount ∧
                  balanceOf r'.db.dustBalances p.payoutAddress ≠ 0)) =
      true := by
    decide +kernel
  obtain ⟨c, _, hreach, hdb, first, hfirst, second, hsecond, m, _, hmade, p, hp,
    hpaid, hdust⟩ :=
    exists_schedule _ _ _ (fun _ _ _ => trivial) (by decide) hrun
  refine ⟨c, hreach, hdb, first, hfirst, second, hsecond,
    fun hmeets => hdust ?_⟩
  exact (hmeets.2.1 m hmade).paid p hp hpaid

end StratumServer
