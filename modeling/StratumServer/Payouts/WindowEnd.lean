import StratumServer.Payouts.Ties
import StratumServer.Shares.History

/-!
# Where the window ends

The window of a found block ends at a time: the `created_at` of the outcome that
found the block.  The outcomes of the same second are all candidates for it,
also those that were stored after that outcome.

`EndsAt` says what holds nevertheless: nothing of a later second is in the
window, and the outcome that found the block is, unless others of its second
already reach the threshold.  `window_ends` is the result over the runs of the
server, and `window_endsExactly_fails` is a run with two blocks in one second.
-/

namespace StratumServer

open Sql Tasks

/-! ## The windows of a block -/

/-- An outcome that the query for `found_at` may return. -/
structure FindsBlock (db : Database) (blockHash : String) (f : ShareOutcome) :
    Prop where
  mem : f ∈ db.shareOutcomes.rows
  blockHash : f.blockHash = some blockHash
  accepted : f.status = .accepted
  networkTargetOk : f.networkTargetOk = some true

/-- A window that `create_payout_for_found_block` may use, with the outcome that
gave it its time.  The query for the time has no order, and the one for the
rows leaves the order within a second open. -/
structure BlockWindow (db : Database) (blockHash : String)
    (settings : PayoutSettings) (networkDifficulty : ℚ) (f : ShareOutcome)
    (window : List PplnsShareEntry) : Prop where
  finds : FindsBlock db blockHash f
  order : ∃ l, RowOrder db f.createdAt l ∧
    window = windowOf settings networkDifficulty l

/-- The window of the section is one of them. -/
theorem blockWindow_of_foundAt {db : Database} {blockHash : String} {time : Nat}
    (h : foundAt db blockHash = some time) (settings : PayoutSettings)
    (networkDifficulty : ℚ) :
    ∃ f, BlockWindow db blockHash settings networkDifficulty f
      (calculatePplnsWindow db time settings.nMultiplier networkDifficulty) := by
  obtain ⟨f, hf, rfl⟩ := Option.map_eq_some_iff.1 h
  have hfinds := List.find?_some hf
  simp only [Bool.and_eq_true, beq_iff_eq] at hfinds
  refine ⟨f, ⟨List.mem_of_find?_eq_some hf, hfinds.1.1, hfinds.1.2, hfinds.2⟩,
    windowRows db f.createdAt, rowOrder_windowRows db f.createdAt, ?_⟩
  exact calculatePplnsWindow_eq db f.createdAt settings networkDifficulty

/-- The outcomes of a window. -/
def outcomeIds (window : List PplnsShareEntry) : List Nat :=
  window.map (·.shareOutcomeId)

/-- The window ends with the outcome `f`. -/
structure EndsExactly (db : Database) (f : ShareOutcome)
    (window : List PplnsShareEntry) : Prop where
  finder : f.id ∈ outcomeIds window
  later : ∀ o ∈ db.shareOutcomes.rows, f.id < o.id → o.id ∉ outcomeIds window

/-- The window ends with the second of the outcome `f`. -/
structure EndsAt (db : Database) (threshold : ℚ) (f : ShareOutcome)
    (window : List PplnsShareEntry) : Prop where
  finder : f.id ∈ outcomeIds window ∨
    (∀ e ∈ window, e.createdAt = f.createdAt) ∧ threshold ≤ work window
  later : ∀ o ∈ db.shareOutcomes.rows, f.id < o.id → o.id ∈ outcomeIds window →
    o.createdAt = f.createdAt

/-! ## The end of a window -/

section End

variable {db : Database} {blockHash : String} {settings : PayoutSettings}
  {networkDifficulty : ℚ} {f : ShareOutcome} {window : List PplnsShareEntry}

/-- The entry of an outcome has its id and its time. -/
theorem Joins.columns {so : ShareOutcome} {e : PplnsShareEntry}
    (h : Joins db so e) :
    e.shareOutcomeId = so.id ∧ e.createdAt = so.createdAt := by
  obtain ⟨_, _, _, _, _, _, _, _, _, rfl⟩ := h
  exact ⟨rfl, rfl⟩

/-- Every entry comes from an outcome that is not later than `f`. -/
theorem BlockWindow.outcome (h : BlockWindow db blockHash settings
    networkDifficulty f window) {e : PplnsShareEntry} (he : e ∈ window) :
    ∃ so ∈ db.shareOutcomes.rows, e.shareOutcomeId = so.id ∧
      e.createdAt = so.createdAt ∧ so.createdAt ≤ f.createdAt := by
  obtain ⟨l, horder, rfl⟩ := h.order
  obtain ⟨⟨older, hl, _⟩, _⟩ :=
    isCut_cutoff (settings.nMultiplier * networkDifficulty) l 0
  have hmem : e ∈ l := by
    rw [hl]
    exact List.mem_append_left _ he
  obtain ⟨so, hso, _, htime, hjoins⟩ :=
    mem_windowRows_iff.1 (horder.perm.mem_iff.1 hmem)
  exact ⟨so, hso, hjoins.columns.1, hjoins.columns.2, htime⟩

/-- No outcome that was stored after `f` has a later time than `f`. -/
theorem BlockWindow.later (h : BlockWindow db blockHash settings
    networkDifficulty f window) (hhistory : History db) {o : ShareOutcome}
    (ho : o ∈ db.shareOutcomes.rows) (hid : f.id < o.id)
    (hmem : o.id ∈ outcomeIds window) : o.createdAt = f.createdAt := by
  obtain ⟨e, he, hoid⟩ := List.mem_map.1 hmem
  obtain ⟨so, hso, hsoid, _, htime⟩ := h.outcome he
  have hsame : so = o :=
    db.shareOutcomes.eq_of_id hso ho (hsoid.symm.trans hoid)
  rw [hsame] at htime
  exact le_antisymm htime (hhistory.createdAt_le h.finds.mem ho hid)

/-- If `f` is not in the window, the loop has stopped within its second. -/
theorem BlockWindow.finder (h : BlockWindow db blockHash settings
    networkDifficulty f window) {entry : PplnsShareEntry}
    (hentry : Joins db f entry) : f.id ∈ outcomeIds window ∨
      (∀ e ∈ window, e.createdAt = f.createdAt) ∧
        settings.nMultiplier * networkDifficulty ≤ work window := by
  obtain ⟨l, horder, rfl⟩ := h.order
  obtain ⟨hfid, hftime⟩ := hentry.columns
  have hfl : entry ∈ l := horder.perm.mem_iff.2 (mem_windowRows_iff.2
    ⟨f, h.finds.mem, h.finds.accepted, le_rfl, hentry⟩)
  obtain ⟨⟨older, hl, hor⟩, _⟩ :=
    isCut_cutoff (settings.nMultiplier * networkDifficulty) l 0
  have hwindow : windowOf settings networkDifficulty l ++ older = l := hl.symm
  rw [← hwindow] at hfl
  rcases List.mem_append.1 hfl with hin | hout
  · left
    rw [← hfid]
    exact List.mem_map_of_mem hin
  · right
    rcases hor with rfl | ⟨_, hreached⟩
    · cases hout
    · rw [zero_add] at hreached
      refine ⟨fun e he => ?_, hreached⟩
      -- The entry of `f` comes after `e`, and no time is later than that of
      -- `f`.
      have hsorted := horder.newestFirst
      rw [← hwindow] at hsorted
      have hge := (List.pairwise_append.1 hsorted).2.2 e he entry hout
      obtain ⟨so, _, _, htime, hle⟩ := h.outcome he
      rw [hftime] at hge
      exact le_antisymm (htime ▸ hle) hge

end End

/-- In every run, whichever outcome gives the time and in whichever order the
rows of one second come, the window ends with the second of that outcome. -/
theorem window_ends {suite : Suite} {data : ChainData} {config : ServerConfig}
    {ok : PoolWorld → PoolEntry → Prop} {c : PoolConfig}
    (h : (pool suite data config).Reach ok c) {blockHash : String}
    {settings : PayoutSettings} {networkDifficulty : ℚ} {f : ShareOutcome}
    {window : List PplnsShareEntry}
    (hwindow : BlockWindow c.world.shared.db blockHash settings
      networkDifficulty f window) :
    EndsAt c.world.shared.db (settings.nMultiplier * networkDifficulty) f
      window := by
  have hhistory := reach_history_of_outcomes h
  obtain ⟨entry, hentry⟩ :=
    hhistory.exists_entry (reach_ledger h) hwindow.finds.mem
  exact ⟨hwindow.finder hentry, fun o ho hid hmem =>
    hwindow.later hhistory ho hid hmem⟩

/-- A run in which two blocks are found within a second. -/
theorem window_ends_sample : ∃ (c : PoolConfig) (blockHash : String)
    (f : ShareOutcome) (window : List PplnsShareEntry),
    (pool sampleSuite sampleData sampleConfig).Reach (fun _ _ => True) c ∧
      BlockWindow c.world.shared.db blockHash sampleSettings 1 f window ∧
      EndsAt c.world.shared.db (sampleSettings.nMultiplier * 1) f window := by
  have hrun : (schedule sampleSuite sampleData sampleConfig (fun _ _ => true)
      ["genesis"] (findsTwo 50)).any (fun c : PoolConfig => decide (
        foundAt c.world.shared.db (sampleHash "00000001" "0a") = some 0)) =
      true := by
    decide +kernel
  obtain ⟨c, _, hreach, hfound⟩ :=
    exists_schedule _ _ _ (fun _ _ _ => trivial) (by decide) hrun
  obtain ⟨f, hwindow⟩ := blockWindow_of_foundAt hfound sampleSettings 1
  exact ⟨c, _, f, _, hreach, hwindow, window_ends hreach hwindow⟩

/-- The rows of the query in that run, newest first by their ids. -/
def twoFindersRows : List PplnsShareEntry :=
  [⟨2, 2, 2, "lotus_b", 1 / 50, 0⟩, ⟨1, 1, 1, "lotus_a", 1 / 50, 0⟩]

/-- The outcome of the second block is in the window of the first one.  With a
small threshold and the later row first, the outcome that found the first block
is not. -/
theorem window_endsExactly_fails : ∃ (c : PoolConfig) (block : FoundBlock)
    (f : ShareOutcome) (window small : List PplnsShareEntry),
    (pool sampleSuite sampleData sampleConfig).Reach (fun _ _ => True) c ∧
      block ∈ c.world.shared.db.foundBlocks.rows ∧
      BlockWindow c.world.shared.db block.blockHash sampleSettings
        (AccountingService.networkDifficulty sampleSuite block) f window ∧
      f.id ∈ outcomeIds window ∧
      ¬ EndsExactly c.world.shared.db f window ∧
      BlockWindow c.world.shared.db block.blockHash
        { sampleSettings with nMultiplier := 1 / 100 }
        (AccountingService.networkDifficulty sampleSuite block) f small ∧
      f.id ∉ outcomeIds small := by
  have hrun : (schedule sampleSuite sampleData sampleConfig (fun _ _ => true)
      ["genesis"] (findsTwo 50)).any (fun c : PoolConfig => decide (
        (∃ b ∈ c.world.shared.db.foundBlocks.rows,
          b.blockHash = sampleHash "00000001" "0a" ∧
            AccountingService.networkDifficulty sampleSuite b = 1) ∧
        (∃ f ∈ c.world.shared.db.shareOutcomes.rows, f.id = 1 ∧
          f.blockHash = some (sampleHash "00000001" "0a") ∧
          f.status = .accepted ∧ f.networkTargetOk = some true ∧
          f.createdAt = 0) ∧
        (∃ o ∈ c.world.shared.db.shareOutcomes.rows, o.id = 2) ∧
        windowRows c.world.shared.db 0 = twoFindersRows.reverse)) =
      true := by
    decide +kernel
  obtain ⟨c, _, hreach, ⟨block, hblock, hhash, hdifficulty⟩,
    ⟨f, hf, hfid, hfhash, haccepted, htarget, htime⟩, ⟨o, ho, hoid⟩, hrows⟩ :=
    exists_schedule _ _ _ (fun _ _ _ => trivial) (by decide) hrun
  have hfinds : FindsBlock c.world.shared.db block.blockHash f :=
    ⟨hf, hfhash.trans (congrArg some hhash.symm), haccepted, htarget⟩
  have horder : RowOrder c.world.shared.db f.createdAt twoFindersRows := by
    rw [htime]
    refine ⟨?_, by decide⟩
    rw [hrows]
    exact (List.reverse_perm _).symm
  have hmem : o.id ∈ outcomeIds (windowOf sampleSettings 1 twoFindersRows) := by
    rw [hoid]
    decide +kernel
  refine ⟨c, block, f, windowOf sampleSettings 1 twoFindersRows,
    windowOf { sampleSettings with nMultiplier := 1 / 100 } 1 twoFindersRows,
    hreach, hblock, ⟨hfinds, _, horder, ?_⟩, ?_, ?_,
    ⟨hfinds, _, horder, ?_⟩, ?_⟩
  · rw [hdifficulty]
  · rw [hfid]
    decide +kernel
  · intro hexact
    refine hexact.later o ho ?_ hmem
    rw [hfid, hoid]
    decide
  · rw [hdifficulty]
  · rw [hfid]
    decide +kernel

end StratumServer
