import StratumServer.Payouts.Distribution
import StratumServer.System.Programs
import StratumServer.System.Simulation

/-!
# The share snapshot of a batch

`create_payout_for_found_block` stores, with the payouts of a batch, the
shares that they come from.  The snapshot has every share of the window once,
and the payouts can be computed again from it (`snapshot_reproduces`).

There are three groups.

* The rows of one batch.  `PlanRowsKnown` says that no row belongs to a batch
  that is yet to come, so the rows of a new batch are those just written.
* The snapshot is the window: it is made by address, and the outputs have
  every address of the window.
* The result.
-/

namespace StratumServer

open Sql Tasks

/-! ## The rows of a batch -/

/-- The payouts and the snapshot rows belong to batches that were created. -/
structure PlanRowsKnown (db : Database) : Prop where
  payouts : ∀ p ∈ db.payouts.rows, p.batchId ≤ db.payoutBatches.seq
  snapshots : ∀ s ∈ db.payoutShareSnapshots.rows,
    s.batchId ≤ db.payoutBatches.seq

/-- The sections that write payouts and snapshots. -/
def DbOp.writesPlan : DbOp → Bool
  | .createPayout .. | .rebuildPayout .. => true
  | _ => false

theorem DbOp.plan_frame {d : DbOp} (db : Database)
    (hd : d.writesPlan = false) :
    (d.run db).2.payouts = db.payouts ∧
      (d.run db).2.payoutShareSnapshots = db.payoutShareSnapshots ∧
      db.payoutBatches.seq ≤ (d.run db).2.payoutBatches.seq := by
  cases d with
  | upsert a w =>
    obtain ⟨_, _, h, _⟩ := WorkerRepository.upsert_cases a w db
    simp only [DbOp.run, h]
    exact ⟨trivial, trivial, le_refl _⟩
  | insertShareAndOutcomeAtomic s o =>
    obtain ⟨_, _, _, _, _, _, h, _⟩ :=
      ShareRepository.insertShareAndOutcomeAtomic_cases s o db
    simp only [DbOp.run, h]
    exact ⟨trivial, trivial, le_refl _⟩
  | recordEvent e =>
    simp only [DbOp.run, AccountingEventRepository.recordEvent]
    split <;> exact ⟨rfl, rfl, le_refl _⟩
  | getOrCreateCurrentRound t =>
    simp only [DbOp.run, RoundRepository.getOrCreateCurrentRound]
    split
    · exact ⟨rfl, rfl, le_refl _⟩
    · split <;> exact ⟨rfl, rfl, le_refl _⟩
  | recordFoundBlock b =>
    simp only [DbOp.run, FoundBlockRepository.recordFoundBlock]
    split <;> exact ⟨rfl, rfl, le_refl _⟩
  | createPayout | rebuildPayout => cases hd
  | _ => exact ⟨rfl, rfl, le_refl _⟩

/-- New rows of a table, all of one batch. -/
theorem mem_insertMany {ρ : Type} [Record ρ] {t t' : Table ρ} {rs : List ρ}
    {f : ρ → Nat} {n : Nat} (hf : ∀ n r, f (Record.withId n r) = f r)
    (hrs : ∀ r ∈ rs, f r = n) (h : t.insertMany rs = some t') :
    ∀ r ∈ t'.rows, r ∈ t.rows ∨ f r = n := by
  obtain ⟨new, hrows, hmap⟩ := Table.insertMany_some h
  intro r hr
  rw [hrows] at hr
  rcases List.mem_append.1 hr with hold | hnew
  · exact Or.inl hold
  · have hmem : f r ∈ rs.map f := hmap f hf ▸ List.mem_map_of_mem hnew
    obtain ⟨r₀, hr₀, heq⟩ := List.mem_map.1 hmem
    exact Or.inr (heq.symm.trans (hrs r₀ hr₀))

/-- The new rows of a batch, when the table has none of it. -/
theorem filter_insertMany {ρ : Type} [Record ρ] {t t' : Table ρ} {rs : List ρ}
    {f : ρ → Nat} {n : Nat} (hf : ∀ n r, f (Record.withId n r) = f r)
    (hrs : ∀ r ∈ rs, f r = n) (hnone : ∀ r ∈ t.rows, f r ≠ n)
    (h : t.insertMany rs = some t') {β : Type} {g : ρ → β}
    (hg : ∀ n r, g (Record.withId n r) = g r) :
    (t'.rows.filter (f · == n)).map g = rs.map g := by
  obtain ⟨new, hrows, hmap⟩ := Table.insertMany_some h
  have hold : t.rows.filter (f · == n) = [] := by
    rw [List.filter_eq_nil_iff]
    intro r hr heq
    exact hnone r hr (eq_of_beq heq)
  have hnew : new.filter (f · == n) = new := by
    rw [List.filter_eq_self]
    intro r hr
    have hmem : f r ∈ rs.map f := hmap f hf ▸ List.mem_map_of_mem hr
    obtain ⟨r₀, hr₀, heq⟩ := List.mem_map.1 hmem
    rw [← heq, hrs r₀ hr₀]
    exact beq_self_eq_true n
  rw [hrows, List.filter_append, hold, hnew, List.nil_append]
  exact hmap g hg

theorem payoutRows_batchId (batchId : Nat) (plan : PayoutPlan) :
    ∀ p ∈ payoutRows batchId plan, p.batchId = batchId := by
  intro p hp
  obtain ⟨o, _, rfl⟩ := List.mem_map.1 hp
  rfl

theorem snapshotRows_batchId (batchId : Nat) (plan : PayoutPlan)
    (shares : List PplnsShareEntry) :
    ∀ s ∈ snapshotRows batchId plan shares, s.batchId = batchId := by
  intro s hs
  obtain ⟨o, _, hs⟩ := List.mem_flatMap.1 hs
  obtain ⟨e, _, rfl⟩ := List.mem_map.1 hs
  rfl

theorem PlanWritten.batchId_le {batchId n : Nat} {plan : PayoutPlan}
    {shares : List PplnsShareEntry} {db db' : Database}
    (h : PlanWritten batchId plan shares db db') (hn : batchId ≤ n)
    (hpayouts : ∀ p ∈ db.payouts.rows, p.batchId ≤ n)
    (hsnapshots : ∀ s ∈ db.payoutShareSnapshots.rows, s.batchId ≤ n) :
    (∀ p ∈ db'.payouts.rows, p.batchId ≤ n) ∧
      ∀ s ∈ db'.payoutShareSnapshots.rows, s.batchId ≤ n := by
  constructor
  · intro p hp
    rcases mem_insertMany (f := Payout.batchId) (fun _ _ => rfl)
      (payoutRows_batchId _ _) h.payouts p hp with hold | heq
    · exact hpayouts p hold
    · exact heq ▸ hn
  · intro s hs
    rcases mem_insertMany (f := PayoutShareSnapshot.batchId) (fun _ _ => rfl)
      (snapshotRows_batchId _ _ _) h.snapshots s hs with hold | heq
    · exact hsnapshots s hold
    · exact heq ▸ hn

namespace PlanRowsKnown

variable {db db' : Database}

theorem new (now : Nat) : PlanRowsKnown (initSchema now) :=
  ⟨fun _ => nofun, fun _ => nofun⟩

theorem createPayout (h : PlanRowsKnown db) {block : FoundBlock}
    {difficulty : ℚ} {reward : Int} {settings : PayoutSettings} {batchId : Nat}
    (hcreate : createPayoutSection block difficulty reward settings db =
      (.ok batchId, db')) : PlanRowsKnown db' := by
  obtain ⟨found, _, hinsert, hwritten⟩ := createPayoutSection_ok hcreate
  obtain ⟨_, hid, hseq, _⟩ := Table.insert_some hinsert
  have hle : db.payoutBatches.seq ≤ db'.payoutBatches.seq := by omega
  obtain ⟨hpayouts, hsnapshots⟩ := hwritten.batchId_le
    (n := db'.payoutBatches.seq) (by omega)
    (fun p hp => (h.payouts p hp).trans hle)
    (fun s hs => (h.snapshots s hs).trans hle)
  exact ⟨hpayouts, hsnapshots⟩

theorem rebuildPayout (h : PlanRowsKnown db) {batchId : Nat}
    (hbatch : batchId ≤ db.payoutBatches.seq) {block : FoundBlock}
    {difficulty : ℚ} {reward : Int} {settings : PayoutSettings}
    {outputs : List PayoutOutput}
    (hrebuild : rebuildPayoutSection batchId block difficulty reward settings
      db = (.ok outputs, db')) : PlanRowsKnown db' := by
  obtain ⟨found, _, _, hwritten⟩ := rebuildPayoutSection_ok hrebuild
  obtain ⟨p, s, d, hdb'⟩ := rebuildPayoutSection_frame batchId block difficulty
    reward settings db
  rw [hrebuild] at hdb'
  dsimp only at hdb'
  have hbatches : db'.payoutBatches = db.payoutBatches := by rw [hdb']
  obtain ⟨hpayouts, hsnapshots⟩ := hwritten.batchId_le hbatch
    (fun p hp => h.payouts p (List.mem_filter.1 hp).1)
    (fun s hs => h.snapshots s (List.mem_filter.1 hs).1)
  rw [← hbatches] at hpayouts hsnapshots
  exact ⟨hpayouts, hsnapshots⟩

theorem run (h : PlanRowsKnown db) {d : DbOp}
    (hbatch : ∀ batchId block difficulty reward settings,
      d = .rebuildPayout batchId block difficulty reward settings →
        batchId ≤ db.payoutBatches.seq) :
    PlanRowsKnown (d.run db).2 := by
  cases hd : d.writesPlan with
  | false =>
    obtain ⟨hpayouts, hsnapshots, hseq⟩ := DbOp.plan_frame db hd
    constructor
    · rw [hpayouts]
      exact fun p hp => (h.payouts p hp).trans hseq
    · rw [hsnapshots]
      exact fun s hs => (h.snapshots s hs).trans hseq
  | true =>
    unfold DbOp.writesPlan at hd
    split at hd
    · rename_i block difficulty reward settings
      simp only [DbOp.run]
      rcases createPayoutSection_cases block difficulty reward settings db with
        ⟨_, heq⟩ | ⟨_, _, _, _, _, _, _, _, _, _, heq⟩
      · rw [heq]
        exact h
      · rw [heq]
        exact h.createPayout heq
    · rename_i batchId block difficulty reward settings
      simp only [DbOp.run]
      cases hrun : rebuildPayoutSection batchId block difficulty reward settings
          db with
      | mk result db' =>
        cases result with
        | ok outputs => exact h.rebuildPayout (hbatch _ _ _ _ _ rfl) hrun
        | error e =>
          rw [rebuildPayoutSection_error hrun]
          exact h
    · cases hd

end PlanRowsKnown

theorem reach_planRowsKnown {suite : Suite} {data : ChainData}
    {config : ServerConfig} {ok : PoolWorld → PoolEntry → Prop}
    {c : PoolConfig} (h : (pool suite data config).Reach ok c) :
    PlanRowsKnown c.world.shared.db := by
  refine reach_database PlanRowsKnown.new ?_ ?_ (reach_grounded h)
  · exact fun _ hknown => ⟨hknown.payouts, hknown.snapshots⟩
  · intro w t d hknown ⟨_, hground⟩
    refine hknown.run ?_
    rintro batchId block difficulty reward settings rfl
    -- A batch that is rebuilt is in the table.
    obtain ⟨_, _, _, batch, ⟨p, hp, hfixed, _⟩, hid, _⟩ := hground.2.2
    have hle := w.shared.db.payoutBatches.ids_le p hp
    rw [← hid, ← PayoutBatch.id_of_fixed hfixed]
    exact hle

/-! ## The snapshot is the window -/

/-- What a snapshot row says about a share. -/
def PayoutShareSnapshot.entry (s : PayoutShareSnapshot) :
    Nat × Nat × String × ℚ × Nat :=
  (s.shareId, s.shareOutcomeId, s.payoutAddress, s.workUnits, s.shareCreatedAt)

/-- The same of a share in the window. -/
def PplnsShareEntry.entry (s : PplnsShareEntry) :
    Nat × Nat × String × ℚ × Nat :=
  (s.shareId, s.shareOutcomeId, s.payoutAddress, s.difficulty, s.createdAt)

/-- The snapshot lists the shares of the window by their address, and each
once. -/
theorem snapshotRows_perm (batchId : Nat) {plan : PayoutPlan}
    {shares : List PplnsShareEntry}
    (hnodup : (plan.outputs.map (·.payoutAddress)).Nodup)
    (hmem : ∀ s ∈ shares,
      s.payoutAddress ∈ plan.outputs.map (·.payoutAddress)) :
    ((snapshotRows batchId plan shares).map (·.entry)).Perm
      (shares.map (·.entry)) := by
  have hrows : (snapshotRows batchId plan shares).map (·.entry) =
      ((plan.outputs.map (·.payoutAddress)).flatMap fun a =>
        shares.filter (·.payoutAddress == a)).map (·.entry) := by
    unfold snapshotRows
    rw [List.map_flatMap, List.flatMap_map, List.map_flatMap]
    refine List.flatMap_congr fun o _ => ?_
    rw [List.map_map]
    rfl
  rw [hrows]
  exact (Apportion.flatMap_filter_perm hnodup hmem).map _

theorem SameWork.of_entries {shares shares' : List PplnsShareEntry}
    (h : (shares.map (·.entry)).Perm (shares'.map (·.entry))) :
    SameWork shares shares' := by
  have hwork := h.map fun x => (x.2.2.1, x.2.2.2.1)
  rwa [List.map_map, List.map_map] at hwork

/-! ## The result -/

section Result

variable {suite : Suite} {data : ChainData} {config : ServerConfig}

/-- The snapshot of a new batch has every share of the window once, and the
plan that is built from it, in any order, is the one that was stored. -/
theorem snapshot_reproduces {ok : PoolWorld → PoolEntry → Prop}
    {c : PoolConfig} (h : (pool suite data config).Reach ok c)
    {block : FoundBlock} {difficulty : ℚ} {reward : Int}
    {settings : PayoutSettings} {batchId : Nat} {db' : Database}
    (hcreate : createPayoutSection block difficulty reward settings
      c.world.shared.db = (.ok batchId, db')) :
    ∃ found, foundAt c.world.shared.db block.blockHash = some found ∧
      ((planFor block difficulty reward settings found
          c.world.shared.db).2.outputs ≠ [] →
        ((db'.payoutShareSnapshots.rows.filter
            (·.batchId == batchId)).map (·.entry)).Perm
          ((calculatePplnsWindow c.world.shared.db found settings.nMultiplier
            difficulty).map (·.entry)) ∧
        ∀ shares : List PplnsShareEntry,
          (shares.map (·.entry)).Perm ((db'.payoutShareSnapshots.rows.filter
            (·.batchId == batchId)).map (·.entry)) →
          (buildPayoutPlan block difficulty reward settings
              (dustBalances c.world.shared.db) shares).outputs.map (·.triple) =
            (db'.payouts.rows.filter (·.batchId == batchId)).map (·.triple)) := by
  have hknown := reach_planRowsKnown h
  obtain ⟨found, hfound, hinsert, hwritten⟩ := createPayoutSection_ok hcreate
  obtain ⟨_, hid, _, _⟩ := Table.insert_some hinsert
  refine ⟨found, hfound, fun houtputs => ?_⟩
  have hsnapshots := filter_insertMany (f := PayoutShareSnapshot.batchId)
    (fun _ _ => rfl) (snapshotRows_batchId _ _ _)
    (fun s hs => by have := hknown.snapshots s hs; omega) hwritten.snapshots
    (g := PayoutShareSnapshot.entry) (fun _ _ => rfl)
  have hpayouts := filter_insertMany (f := Payout.batchId)
    (fun _ _ => rfl) (payoutRows_batchId _ _)
    (fun p hp => by have := hknown.payouts p hp; omega) hwritten.payouts
    (g := Payout.triple) (fun _ _ => rfl)
  have haddresses := planFor_addresses houtputs
  have htallied := workByAddr_tallied
    (planFor block difficulty reward settings found c.world.shared.db).1
  have hwindow : ((db'.payoutShareSnapshots.rows.filter
      (·.batchId == batchId)).map (·.entry)).Perm
        ((calculatePplnsWindow c.world.shared.db found settings.nMultiplier
          difficulty).map (·.entry)) := by
    rw [hsnapshots]
    refine snapshotRows_perm batchId planFor_nodup fun s hs => ?_
    rw [haddresses.mem_iff, htallied.mem]
    exact List.mem_map_of_mem hs
  refine ⟨hwindow, fun shares hshares => ?_⟩
  have hsame := SameWork.of_entries (hshares.trans hwindow)
  have hbare := outputs_congr hsame block difficulty reward settings
    (dustBalances c.world.shared.db)
  have htriples := congrArg (List.map PayoutOutput.triple) hbare
  rw [List.map_map, List.map_map] at htriples
  rw [hpayouts]
  unfold payoutRows
  rw [List.map_map]
  exact htriples

end Result

/-- Two miners submit three shares, and all of them are blocks. -/
def minesTogether : List Scene :=
  let job := sampleJob 7 1 easyTarget
  findsBlock 50 ++ logsIn 1 "lotus_b.rig" ++
    submits 1 (sampleSubmit "lotus_b.rig" job "0b") ++
    submits 0 (sampleSubmit "lotus_a.rig" job "0c")

/-- Settings for a window that holds the three shares. -/
def threeShares : PayoutSettings := { sampleSettings with nMultiplier := 3 }

/-- A batch for the last block can be created, and its window has the three
shares and pays both miners. -/
def PaysBoth (db : Database) (block : FoundBlock) : Prop :=
  (createPayoutSection block 1 500 threeShares db).1.toOption = some 1 ∧
    ∀ found ∈ foundAt db block.blockHash,
      (planFor block 1 500 threeShares found db).2.outputs.map
          (·.payoutAddress) = ["lotus_a", "lotus_b"] ∧
        (calculatePplnsWindow db found threeShares.nMultiplier 1).length = 3

instance (db : Database) (block : FoundBlock) : Decidable (PaysBoth db block) :=
  inferInstanceAs (Decidable (_ ∧ ∀ _ ∈ _, _ ∧ _))

/-- A run in which a batch with two outputs can be created. -/
theorem snapshot_reproduces_sample : ∃ (c : PoolConfig) (block : FoundBlock)
    (db' : Database),
    (pool sampleSuite sampleData sampleConfig).Reach (fun _ _ => True) c ∧
    createPayoutSection block 1 500 threeShares c.world.shared.db =
      (.ok 1, db') ∧
    ∃ found, foundAt c.world.shared.db block.blockHash = some found ∧
      (planFor block 1 500 threeShares found c.world.shared.db).2.outputs.map
          (·.payoutAddress) = ["lotus_a", "lotus_b"] ∧
      (calculatePplnsWindow c.world.shared.db found threeShares.nMultiplier
        1).length = 3 ∧
      ((db'.payoutShareSnapshots.rows.filter
          (·.batchId == 1)).map (·.entry)).Perm
        ((calculatePplnsWindow c.world.shared.db found
          threeShares.nMultiplier 1).map (·.entry)) ∧
      ∀ shares : List PplnsShareEntry,
        (shares.map (·.entry)).Perm ((db'.payoutShareSnapshots.rows.filter
          (·.batchId == 1)).map (·.entry)) →
        (buildPayoutPlan block 1 500 threeShares
            (dustBalances c.world.shared.db) shares).outputs.map (·.triple) =
          (db'.payouts.rows.filter (·.batchId == 1)).map (·.triple) := by
  have hrun : (schedule sampleSuite sampleData sampleConfig
      (fun _ _ => true) ["genesis"] minesTogether).any (fun c =>
        decide (∃ block ∈ c.world.shared.db.foundBlocks.rows.getLast?,
          PaysBoth c.world.shared.db block)) = true := by
    decide +kernel
  have hends : ∃ c, _ ∧ (pool sampleSuite sampleData sampleConfig).Reach
      (fun _ _ => True) c ∧ _ :=
    exists_schedule _ _ _ (fun _ _ _ => trivial) (by decide) hrun
  obtain ⟨c, _, hreach, block, _, hok, hpays⟩ := hends
  match hcreate : createPayoutSection block 1 500 threeShares
      c.world.shared.db with
  | (.error e, db') =>
    rw [hcreate] at hok
    cases hok
  | (.ok batchId, db') =>
    rw [hcreate] at hok
    cases hok
    obtain ⟨found, hfound, hsnapshot⟩ := snapshot_reproduces hreach hcreate
    obtain ⟨haddresses, hlength⟩ := hpays found hfound
    have houtputs : (planFor block 1 500 threeShares found
        c.world.shared.db).2.outputs ≠ [] := by
      intro hnil
      simp [hnil] at haddresses
    exact ⟨c, block, db', hreach, hcreate, found, hfound, haddresses, hlength,
      hsnapshot houtputs⟩

end StratumServer
