import StratumServer.Lib.ForeignKey
import StratumServer.Payouts.Apportionment
import StratumServer.Payouts.Dust
import StratumServer.Payouts.Snapshots
import StratumServer.Shares.History

/-!
# References between the tables

The schema declares foreign keys, and `PRAGMA foreign_keys = ON` makes SQLite
check them: an `INSERT` whose reference is missing fails.  The statements of
the model do not make that check.  `references_hold` says what it is for: in
every run, every reference of every row is there, also that of
`share_outcomes.round_id`, which the schema does not declare.

So the joins of the queries drop no row.  In particular the query for the
window of a payout gives one row for each outcome.

There are four groups.

* No section takes a row away that another row may refer to: `DbOp.idsStay`.
* Payouts and snapshots refer to what the window was read from, under the same
  lock.
* Shares and found blocks refer to workers.
* The result.  The references of outcomes and the rounds of found blocks are
  known from `History`, `Ledger` and `RoundsExist`.
-/

namespace StratumServer

open Sql Tasks

/-! ## Ids that stay -/

/-- The ids that other tables refer to stay. -/
structure Database.IdsStay (db db' : Database) : Prop where
  workers : db.workers.IdsStay db'.workers
  shares : db.shares.IdsStay db'.shares
  shareOutcomes : db.shareOutcomes.IdsStay db'.shareOutcomes
  rounds : db.rounds.IdsStay db'.rounds
  payoutBatches : db.payoutBatches.IdsStay db'.payoutBatches

theorem DbOp.idsStay (d : DbOp) (db : Database) :
    db.IdsStay (d.run db).2 where
  workers := .of_subset fun w hw => d.workers_forward hw
  shares := .of_subset (d.sharesStay db).shares
  shareOutcomes := by
    cases d with
    | insertShareAndOutcomeAtomic share outcome =>
      obtain ⟨_, _, _, _, _, outcomes, hrun, _, houtcomes⟩ :=
        ShareRepository.insertShareAndOutcomeAtomic_cases share outcome db
      simp only [DbOp.run, hrun]
      rcases houtcomes with ⟨_, _, hrows⟩ | ⟨_, _, rfl⟩
      · refine .of_subset fun o ho => ?_
        rw [hrows]
        exact List.mem_append_left _ ho
      · exact .refl _
    | updateOutcomeNodeResult key result =>
      refine .of_map rfl fun o => ?_
      split_ifs <;> rfl
    | _ =>
      rw [(DbOp.frame _ db).shareOutcomes rfl]
      exact .refl _
  rounds := by
    rcases d.rounds_cases db with h | ⟨_, _, t, _, hins, h⟩ | ⟨_, _, _, _, _, h⟩
    · rw [h]
      exact .refl _
    · rw [h]
      exact .of_subset fun r hr => Table.mem_of_insert hins hr
    · refine .of_map h fun r => ?_
      split_ifs <;> rfl
  payoutBatches := by
    rintro n ⟨b, hb, rfl⟩
    obtain ⟨b', hb', hfix⟩ := d.batches_forward hb
    exact ⟨b', hb', PayoutBatch.id_of_fixed hfix⟩

/-! ## What a plan refers to -/

section Plan

/-- The worker of an output is one of a share of its address. -/
def OfShare (shares : List PplnsShareEntry) (address : String)
    (workerId : Nat) : Prop :=
  ∃ s ∈ shares, s.payoutAddress = address ∧ s.workerId = workerId

theorem ofShare_addWork {shares : List PplnsShareEntry} {acc : List AddressWork}
    {share : PplnsShareEntry} (hshare : share ∈ shares)
    (h : ∀ e ∈ acc, OfShare shares e.address e.workerId) :
    ∀ e ∈ addWork acc share, OfShare shares e.address e.workerId := by
  intro e he
  unfold addWork at he
  split at he
  · obtain ⟨e', he', rfl⟩ := List.mem_map.1 he
    split_ifs <;> exact h e' he'
  · rcases List.mem_append.1 he with hold | hnew
    · exact h e hold
    · rw [List.mem_singleton.1 hnew]
      exact ⟨share, hshare, rfl, rfl⟩

theorem ofShare_foldl {shares rest : List PplnsShareEntry}
    (hrest : ∀ s ∈ rest, s ∈ shares) {acc : List AddressWork}
    (h : ∀ e ∈ acc, OfShare shares e.address e.workerId) :
    ∀ e ∈ rest.foldl addWork acc, OfShare shares e.address e.workerId := by
  induction rest generalizing acc with
  | nil => exact h
  | cons s rest ih =>
    exact ih (fun s' hs' => hrest s' (List.mem_cons_of_mem _ hs'))
      (ofShare_addWork (hrest s List.mem_cons_self) h)

theorem ofShare_weights (reward : Int) (dust : List (String × Int))
    (shares : List PplnsShareEntry) :
    ∀ e ∈ weights reward dust shares, OfShare shares e.address e.workerId := by
  intro e he
  obtain ⟨e', he', rfl⟩ := List.mem_map.1 he
  have hnil : ∀ e ∈ ([] : List AddressWork),
      OfShare shares e.address e.workerId := fun _ => nofun
  have hof := ofShare_foldl (fun s hs => hs) hnil e'
    ((List.perm_insertionSort _ _).mem_iff.1 he')
  rw [addDust_eq]
  exact hof

variable {block : FoundBlock} {difficulty : ℚ} {reward : Int}
  {settings : PayoutSettings} {found : Nat} {db : Database}

/-- An output is for the worker of a share in the window. -/
theorem ofShare_planFor {o : PayoutOutput}
    (ho : o ∈ (planFor block difficulty reward settings found db).2.outputs) :
    OfShare (planFor block difficulty reward settings found db).1
      o.payoutAddress o.workerId := by
  rw [planFor_outputs] at ho
  obtain ⟨_, _, heq⟩ := planOutputs_of_ne_nil (List.ne_nil_of_mem ho)
  rw [heq] at ho
  obtain ⟨a, ha, rfl⟩ := List.mem_map.1 ho
  obtain ⟨a', ha', haddress, hworker, _⟩ :=
    part_of_giveRemainder ((List.perm_insertionSort _ _).mem_iff.1 ha)
  obtain ⟨e, he, rfl⟩ :=
    List.mem_map.1 ((List.perm_insertionSort _ _).mem_iff.1 ha')
  have hof := ofShare_weights _ _ _ e he
  have haddress' : (payoutOutput settings.minPayoutSat a).payoutAddress =
      e.address := (payoutOutput_address a).trans haddress
  have hworker' : (payoutOutput settings.minPayoutSat a).workerId =
      e.workerId := by
    rw [← show a.workerId = e.workerId from hworker]
    unfold payoutOutput
    split_ifs <;> rfl
  rw [haddress', hworker']
  exact hof

/-- A share in the window was joined with its share, its outcome and its
worker. -/
theorem joins_planFor {e : PplnsShareEntry}
    (he : e ∈ (planFor block difficulty reward settings found db).1) :
    ∃ so ∈ db.shareOutcomes.rows, Joins db so e := by
  have hall := mem_cutoff he
  rw [List.mem_insertionSort] at hall
  obtain ⟨so, hso, hentry⟩ := List.mem_filterMap.1 hall
  exact ⟨so, (List.mem_filter.1 hso).1, pplnsEntry_iff.1 hentry⟩

end Plan

/-- The references of the payouts and the snapshots. -/
structure PlanRefers (db : Database) : Prop where
  payoutBatch : Resolves (fun p : Payout => some p.batchId) db.payouts.rows
    db.payoutBatches
  payoutWorker : Resolves (fun p : Payout => some p.workerId) db.payouts.rows
    db.workers
  snapshotBatch : Resolves (fun s : PayoutShareSnapshot => some s.batchId)
    db.payoutShareSnapshots.rows db.payoutBatches
  snapshotShare : Resolves (fun s : PayoutShareSnapshot => some s.shareId)
    db.payoutShareSnapshots.rows db.shares
  snapshotOutcome : Resolves
    (fun s : PayoutShareSnapshot => some s.shareOutcomeId)
    db.payoutShareSnapshots.rows db.shareOutcomes

namespace PlanRefers

variable {db db₀ db' : Database} {block : FoundBlock} {difficulty : ℚ}
  {reward : Int} {settings : PayoutSettings} {found batchId : Nat}

theorem new (now : Nat) : PlanRefers (initSchema now) :=
  ⟨.nil, .nil, .nil, .nil, .nil⟩

/-- A section that writes no plan. -/
theorem congr (h : PlanRefers db) (hids : db.IdsStay db')
    (hpayouts : db'.payouts = db.payouts)
    (hsnapshots : db'.payoutShareSnapshots = db.payoutShareSnapshots) :
    PlanRefers db' := by
  refine ⟨?_, ?_, ?_, ?_, ?_⟩
  · exact h.payoutBatch.mono hids.payoutBatches fun _ hp => hpayouts ▸ hp
  · exact h.payoutWorker.mono hids.workers fun _ hp => hpayouts ▸ hp
  · exact h.snapshotBatch.mono hids.payoutBatches fun _ hs => hsnapshots ▸ hs
  · exact h.snapshotShare.mono hids.shares fun _ hs => hsnapshots ▸ hs
  · exact h.snapshotOutcome.mono hids.shareOutcomes fun _ hs => hsnapshots ▸ hs

/-- The rows of a plan refer to what the window has read. -/
theorem written (h : PlanRefers db) (hids : db.IdsStay db')
    (hwritten : PlanWritten batchId
      (planFor block difficulty reward settings found db).2
      (planFor block difficulty reward settings found db).1 db₀ db')
    (hpayouts : ∀ p ∈ db₀.payouts.rows, p ∈ db.payouts.rows)
    (hsnapshots : ∀ s ∈ db₀.payoutShareSnapshots.rows,
      s ∈ db.payoutShareSnapshots.rows)
    (hbatch : db'.payoutBatches.HasId batchId) : PlanRefers db' := by
  have hpayout : ∀ p ∈ db'.payouts.rows, p ∈ db.payouts.rows ∨
      p.batchId = batchId ∧ db.workers.HasId p.workerId := by
    intro p hp
    rcases Table.mem_of_insertMany hwritten.payouts hp with hold | ⟨n, r, hr, rfl⟩
    · exact Or.inl (hpayouts p hold)
    · obtain ⟨o, ho, rfl⟩ := List.mem_map.1 hr
      obtain ⟨e, he, _, hworker⟩ := ofShare_planFor ho
      obtain ⟨so, _, _, _, w, hw, _, _, _, hid, _, rfl⟩ := joins_planFor he
      exact Or.inr ⟨rfl, w, hw, hid.trans hworker⟩
  have hsnapshot : ∀ s ∈ db'.payoutShareSnapshots.rows,
      s ∈ db.payoutShareSnapshots.rows ∨ s.batchId = batchId ∧
        db.shares.HasId s.shareId ∧
        db.shareOutcomes.HasId s.shareOutcomeId := by
    intro s hs
    rcases Table.mem_of_insertMany hwritten.snapshots hs with hold | ⟨n, r, hr, rfl⟩
    · exact Or.inl (hsnapshots s hold)
    · obtain ⟨o, _, hr⟩ := List.mem_flatMap.1 hr
      obtain ⟨e, he, rfl⟩ := List.mem_map.1 hr
      obtain ⟨so, hso, share, hshare, _, _, _, _, hid, _, _, rfl⟩ :=
        joins_planFor (List.mem_filter.1 he).1
      exact Or.inr ⟨rfl, ⟨share, hshare, hid⟩, ⟨so, hso, rfl⟩⟩
  refine ⟨?_, ?_, ?_, ?_, ?_⟩
  · refine h.payoutBatch.add hids.payoutBatches fun p hp => ?_
    exact (hpayout p hp).imp_right fun ⟨hid, _⟩ =>
      ⟨batchId, congrArg some hid, hbatch⟩
  · refine h.payoutWorker.add hids.workers fun p hp => ?_
    exact (hpayout p hp).imp_right fun ⟨_, hworker⟩ =>
      ⟨p.workerId, rfl, hids.workers _ hworker⟩
  · refine h.snapshotBatch.add hids.payoutBatches fun s hs => ?_
    exact (hsnapshot s hs).imp_right fun ⟨hid, _, _⟩ =>
      ⟨batchId, congrArg some hid, hbatch⟩
  · refine h.snapshotShare.add hids.shares fun s hs => ?_
    exact (hsnapshot s hs).imp_right fun ⟨_, hshare, _⟩ =>
      ⟨s.shareId, rfl, hids.shares _ hshare⟩
  · refine h.snapshotOutcome.add hids.shareOutcomes fun s hs => ?_
    exact (hsnapshot s hs).imp_right fun ⟨_, _, houtcome⟩ =>
      ⟨s.shareOutcomeId, rfl, hids.shareOutcomes _ houtcome⟩

variable {suite : Suite} {data : ChainData} {w : PoolWorld} {t : Task}
  {d : DbOp}

/-- A plan is only ever written for a new batch or for one in the table. -/
theorem run (h : PlanRefers w.shared.db)
    (hg : Grounded suite data w t (.db d)) :
    PlanRefers (d.run w.shared.db).2 := by
  have hids := d.idsStay w.shared.db
  cases hd : d.writesPlan with
  | false =>
    obtain ⟨hpayouts, hsnapshots, _⟩ := DbOp.plan_frame w.shared.db hd
    exact h.congr hids hpayouts hsnapshots
  | true =>
    unfold DbOp.writesPlan at hd
    split at hd
    · rename_i block difficulty reward settings
      cases hrun : createPayoutSection block difficulty reward settings
          w.shared.db with
      | mk result db' =>
        simp only [DbOp.run, hrun] at hids ⊢
        cases result with
        | ok batchId =>
          obtain ⟨found, _, hinsert, hwritten⟩ := createPayoutSection_ok hrun
          exact h.written hids hwritten (fun _ hp => hp) (fun _ hs => hs)
            (.of_insert hinsert)
        | error e =>
          rcases createPayoutSection_cases block difficulty reward settings
            w.shared.db with ⟨_, heq⟩ | ⟨_, _, _, _, _, _, _, _, _, _, heq⟩
          · cases hrun.symm.trans heq
            exact h
          · cases hrun.symm.trans heq
    · rename_i batchId block difficulty reward settings
      obtain ⟨_, _, _, batch, ⟨b, hb, hfix, _⟩, hid, _⟩ := hg.2
      cases hrun : rebuildPayoutSection batchId block difficulty reward settings
          w.shared.db with
      | mk result db' =>
        simp only [DbOp.run, hrun] at hids ⊢
        cases result with
        | ok outputs =>
          obtain ⟨found, _, _, hwritten⟩ := rebuildPayoutSection_ok hrun
          refine h.written hids hwritten
            (fun _ hp => (List.mem_filter.1 hp).1)
            (fun _ hs => (List.mem_filter.1 hs).1) ?_
          refine hids.payoutBatches _ ⟨b, hb, ?_⟩
          exact (PayoutBatch.id_of_fixed hfix).trans hid
        | error e =>
          rw [rebuildPayoutSection_error hrun]
          exact h
    · cases hd

end PlanRefers

/-! ## Workers -/

/-- The references to workers of shares and of found blocks. -/
structure WorkersRefer (db : Database) : Prop where
  shares : Resolves (fun s : Share => some s.workerId) db.shares.rows db.workers
  blocks : Resolves FoundBlock.workerId db.foundBlocks.rows db.workers

namespace WorkersRefer

variable {suite : Suite} {data : ChainData} {w : PoolWorld} {t : Task}
  {d : DbOp}

theorem run (h : WorkersRefer w.shared.db)
    (hg : Grounded suite data w t (.db d)) :
    WorkersRefer (d.run w.shared.db).2 := by
  have hids := (d.idsStay w.shared.db).workers
  constructor
  · cases d with
    | insertShareAndOutcomeAtomic share outcome =>
      obtain ⟨a, worker, roundId, hworker, _, _, rfl, _⟩ := hg.2
      obtain ⟨_, _, _, _, shares, _, hrun, hshares, _⟩ :=
        ShareRepository.insertShareAndOutcomeAtomic_cases
          (a.share worker.id) outcome w.shared.db
      refine h.shares.add hids fun s hs => ?_
      simp only [DbOp.run, hrun] at hs ⊢
      rcases hshares with ⟨_, _, _, hrows⟩ | ⟨_, _, rfl⟩
      · rw [hrows] at hs
        refine (List.mem_append.1 hs).imp_right fun hnew => ?_
        rw [List.mem_singleton.1 hnew]
        exact ⟨worker.id, rfl, .of_mem hworker⟩
      · exact Or.inl hs
    | _ =>
      refine h.shares.mono hids fun s hs => ?_
      rwa [(DbOp.frame _ w.shared.db).shares rfl] at hs
  · refine h.blocks.step hids fun b' hb' => ?_
    rcases DbOp.blocks_backward hb' with ⟨b, hb, hfix⟩ | ⟨block, n, rfl, rfl⟩
    · have hworker := congrArg FoundBlock.workerId hfix
      exact Or.inl ⟨b, hb, hworker⟩
    · -- A session records its block without a worker.
      obtain ⟨job, roundId, hash, rfl⟩ := hg.2
      refine Or.inr fun id hid => ?_
      cases hid

end WorkersRefer

/-! ## All references -/

/-- Every reference is there. -/
structure References (db : Database) : Prop where
  workers : WorkersRefer db
  plan : PlanRefers db
  outcomeShare : Resolves (fun o : ShareOutcome => some o.shareId)
    db.shareOutcomes.rows db.shares
  outcomeWorker : Resolves (fun o : ShareOutcome => some o.workerId)
    db.shareOutcomes.rows db.workers
  outcomeRound : Resolves ShareOutcome.roundId db.shareOutcomes.rows db.rounds
  blockRound : Resolves (fun b : FoundBlock => some b.roundId)
    db.foundBlocks.rows db.rounds
  batchRound : Resolves (fun b : PayoutBatch => some b.roundId)
    db.payoutBatches.rows db.rounds

variable {suite : Suite} {data : ChainData} {config : ServerConfig}

theorem reach_references {ok : PoolWorld → PoolEntry → Prop} {c : PoolConfig}
    (h : (pool suite data config).Reach ok c) :
    References c.world.shared.db := by
  have hledger := reach_ledger h
  have hhistory := reach_history_of_outcomes h
  have hrounds := reach_roundsExist h
  have hsound : Sound data c.world.shared.db :=
    (grounding_valid.reach (h.mono fun _ _ _ => trivial)).1
  refine ⟨?_, ?_, ?_, ?_, ?_, ?_, ?_⟩
  · refine reach_database (I := WorkersRefer) ?_ ?_ ?_ (reach_grounded h)
    · exact fun now => ⟨.nil, .nil⟩
    · exact fun now h => ⟨h.shares, h.blocks⟩
    · exact fun h hok => h.run hok.2.2
  · refine reach_database PlanRefers.new ?_ ?_ (reach_grounded h)
    · exact fun now h => h.congr ⟨.refl _, .refl _, .refl _, .refl _, .refl _⟩
        rfl rfl
    · exact fun h hok => h.run hok.2.2
  · rintro o ho n ⟨⟩
    obtain ⟨s, hs, hid, _⟩ := hledger.link o ho
    exact ⟨s, hs, hid⟩
  · rintro o ho n ⟨⟩
    exact hhistory.worker o ho
  · intro o ho n hn
    obtain ⟨id, hid, hround⟩ := hhistory.round o ho
    rw [← Option.some.inj (hid.symm.trans hn)]
    exact hround
  · rintro b hb n ⟨⟩
    exact hrounds.blocks b hb
  · rintro p hp n ⟨⟩
    obtain ⟨b, hb, hround, _⟩ := hsound.batch p hp
    exact hround ▸ hrounds.blocks b hb

/-- The joins of the query for the window keep the outcomes whose references
are there. -/
theorem References.entries {db : Database} (h : References db)
    (hround : ∀ o ∈ db.shareOutcomes.rows, o.roundId ≠ none) :
    (db.shareOutcomes.rows.filterMap (pplnsEntry db)).map (·.shareOutcomeId) =
      db.shareOutcomes.rows.map (·.id) := by
  have hentry : ∀ o ∈ db.shareOutcomes.rows,
      (pplnsEntry db o).map (·.shareOutcomeId) = some o.id := by
    intro o ho
    obtain ⟨s, hs, hsid⟩ := h.outcomeShare o ho _ rfl
    obtain ⟨v, hv, hvid⟩ := h.outcomeWorker o ho _ rfl
    obtain ⟨id, hid⟩ := Option.ne_none_iff_exists'.1 (hround o ho)
    obtain ⟨r, hr, hrid⟩ := h.outcomeRound o ho id hid
    have hround : o.roundId = some r.id := hid.trans (congrArg some hrid.symm)
    rw [pplnsEntry_iff.2 ⟨s, hs, v, hv, r, hr, hsid, hvid, hround, rfl⟩]
    rfl
  rw [List.map_filterMap, ← List.filterMap_eq_map]
  exact List.filterMap_congr hentry

/-- In every run, every reference is there, and the query for the window of a
payout drops no outcome. -/
theorem references_hold {ok : PoolWorld → PoolEntry → Prop} {c : PoolConfig}
    (h : (pool suite data config).Reach ok c) :
    References c.world.shared.db ∧
      (c.world.shared.db.shareOutcomes.rows.filterMap
          (pplnsEntry c.world.shared.db)).map (·.shareOutcomeId) =
        c.world.shared.db.shareOutcomes.rows.map (·.id) := by
  have hrefs := reach_references h
  refine ⟨hrefs, hrefs.entries fun o ho hnone => ?_⟩
  obtain ⟨id, hid, _⟩ := (reach_history_of_outcomes h).round o ho
  cases hid.symm.trans hnone

/-- A run that has written a row into every table. -/
theorem references_hold_sample : ∃ c : PoolConfig,
    c.world.shared.db.payouts.rows ≠ [] ∧
      c.world.shared.db.payoutShareSnapshots.rows ≠ [] ∧
      References c.world.shared.db := by
  have hrun : (schedule sampleSuite sampleData sampleConfig (fun _ _ => true)
      ["genesis"] (maturesFirst ++ triggers 0 firstHash sampleSettings)).any
      (fun c => decide (c.world.shared.db.payouts.rows ≠ [] ∧
        c.world.shared.db.payoutShareSnapshots.rows ≠ [])) = true := by
    decide +kernel
  have hends : ∃ c, _ ∧ (pool sampleSuite sampleData sampleConfig).Reach
      (fun _ _ => True) c ∧ _ :=
    exists_schedule _ _ _ (fun _ _ _ => trivial) (by decide) hrun
  obtain ⟨c, _, hreach, hpayouts, hsnapshots⟩ := hends
  exact ⟨c, hpayouts, hsnapshots, (references_hold hreach).1⟩

end StratumServer
