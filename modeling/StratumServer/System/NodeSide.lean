import StratumServer.System.Rules
import StratumServer.System.Programs

/-!
# The node side of the server

The consumer and the startup sequence of `main` follow the chain of the
node: they orphan blocks, take them back in, and promote them.  Later
modules ask in what order they do this, and then most of the bodies do not
matter.

There are two groups.

* The footprint of a body is the set of its operations.
* The blocks that a task has read in its current work are still in the
  table, up to the columns that change: `reach_readsKept`.
-/

namespace StratumServer

open Tasks

/-! ## Footprints -/

namespace Op

/-- The operations for the blocks that are not on the chain. -/
def orphans : Op → Bool
  | .db (.getByHash _) | .db (.listBlocks _) | .db (.markOrphaned ..)
  | .db (.closeRound ..) | .db (.recordEvent _) | .getBlockHash _ => true
  | _ => false

/-- The operations for a block that is back on the chain. -/
def reconnects : Op → Bool
  | .db (.getByHash _) | .db (.getBatchesByBlockHash _) | .db (.unOrphan _)
  | .db (.markMatured _) => true
  | _ => false

/-- The operations of the maturation check. -/
def matures : Op → Bool
  | .db (.listBlocks _) | .db (.markMatured _) | .send (.blockMatured _) => true
  | _ => false

/-- The operations for the batches that were submitted. -/
def settles : Op → Bool
  | .db (.listBatches _) | .db (.updateBatchStatus ..) | .db (.getByRoundId _)
  | .db (.updateStatus ..) | .getRawTransaction _ => true
  | _ => false

/-- The operations for a new job. -/
def changesWork : Op → Bool
  | .getMiningTemplate | .jobCacheInsert _ | .sendJob _ => true
  | _ => false

end Op

namespace AccountingService

theorem checkMaturation_only (tipHeight : Int) (minConfirmations : Nat) :
    (checkMaturation tipHeight minConfirmations).run.Only
      (·.matures = true) := by
  refine Prog.Only.exceptBind (only_db rfl) fun immature => ?_
  refine Prog.only_exceptFoldlM fun matured block => ?_
  unfold matureBlock
  split
  · exact Prog.Only.exceptBind (only_db rfl) fun _ => Prog.only_pure _
  · exact Prog.only_pure _

theorem closeRound_only (id endTemplateId : Nat) (status : RoundStatus) :
    (closeRound id endTemplateId status).run.Only (·.orphans = true) :=
  Prog.Only.exceptBind (only_db rfl) fun _ =>
    only_liftM (only_dropResult (only_db rfl))

theorem orphanBlock_only (block : FoundBlock) (reason : OrphanReason) :
    (orphanBlock block reason).Only (·.orphans = true) :=
  Prog.Only.bind (only_dropResult (only_db rfl)) fun _ =>
    only_dropResult (closeRound_only _ _ _)

theorem reconcileFoundBlocks_only (tipHeight : Int) :
    (reconcileFoundBlocks tipHeight).run.Only (·.orphans = true) := by
  refine Prog.Only.exceptBind (only_db rfl) fun confirmed => ?_
  refine only_liftM (Prog.only_forM fun block => ?_)
  unfold reconcileBlock
  split
  · exact orphanBlock_only _ _
  · refine Prog.Only.bind (Prog.only_perform rfl) fun r => ?_
    match r with
    | .ok (some canonicalHash) =>
      dsimp only
      split
      · exact orphanBlock_only _ _
      · exact Prog.only_pure _
    | .ok none => exact Prog.only_pure _
    | .error e => exact Prog.only_pure _

theorem reconcileSubmittedPayouts_only :
    reconcileSubmittedPayouts.run.Only (·.settles = true) := by
  refine Prog.Only.exceptBind (only_db rfl) fun submitted => ?_
  refine only_liftM (Prog.only_forM fun batch => ?_)
  unfold reconcileBatch
  split
  · exact Prog.only_pure _
  · refine Prog.Only.bind (Prog.only_perform rfl) fun r => ?_
    match r with
    | .ok tx =>
      dsimp only
      split
      · refine Prog.Only.bind (only_db rfl) fun r => ?_
        match r with
        | .error e => exact Prog.only_pure _
        | .ok () =>
          refine Prog.Only.bind (only_db rfl) fun r => ?_
          match r with
          | .ok (some fb) => exact only_dropResult (only_db rfl)
          | .ok none => exact Prog.only_pure _
          | .error e => exact Prog.only_pure _
      · exact Prog.only_pure _
    | .error e => exact Prog.only_pure _

end AccountingService

theorem announceMatured_only (tip : Int) (minConfirmations : Nat) :
    (announceMatured tip minConfirmations).Only (·.matures = true) := by
  refine Prog.Only.bind (AccountingService.checkMaturation_only _ _) fun r => ?_
  cases r with
  | ok matured => exact Prog.only_forM fun b => Prog.only_perform rfl
  | error e => exact Prog.only_pure _

theorem handleBlockDisconnected_only (event : BlockEvent) :
    (handleBlockDisconnected event).Only (·.orphans = true) := by
  refine Prog.Only.bind (only_db rfl) fun r => ?_
  match r with
  | .ok (some found) =>
    refine Prog.Only.bind (only_db rfl) fun r => ?_
    cases r with
    | error e => exact Prog.only_pure _
    | ok u =>
      refine Prog.Only.bind (AccountingService.closeRound_only _ _ _) fun r => ?_
      cases r with
      | error e => exact Prog.only_pure _
      | ok u => exact only_dropResult (only_db rfl)
  | .ok none => exact Prog.only_pure _
  | .error e => exact Prog.only_pure _

theorem reconnectOrphaned_only (blockHash : String) :
    (reconnectOrphaned blockHash).Only (·.reconnects = true) := by
  refine Prog.Only.bind (only_db rfl) fun r => ?_
  match r with
  | .ok (some fb) =>
    dsimp only
    split
    · refine Prog.Only.bind (only_db rfl) fun r => ?_
      cases r with
      | error e => exact Prog.only_pure _
      | ok batches =>
        dsimp only
        split
        · exact Prog.only_pure _
        · refine Prog.Only.bind (only_db rfl) fun r => ?_
          cases r with
          | error e => exact Prog.only_pure _
          | ok u => exact only_runIf (only_dropResult (only_db rfl))
    · exact Prog.only_pure _
  | .ok none => exact Prog.only_pure _
  | .error e => exact Prog.only_pure _

theorem onMiningWorkChanged_only :
    onMiningWorkChanged.Only (·.changesWork = true) := by
  refine Prog.Only.bind (Prog.only_perform rfl) fun r => ?_
  cases r with
  | none => exact Prog.only_pure _
  | some job =>
    exact Prog.Only.bind (Prog.only_perform rfl) fun _ => Prog.only_perform rfl

/-! ## Blocks that were read -/

/-- The blocks in the answer to an operation, each with the hash that the
task takes for its own. -/
def blocksIn : (o : Op) × o.Res → List (String × FoundBlock)
  | ⟨.db (.getByHash hash), .ok (some b)⟩ => [(hash, b)]
  | ⟨.db (.listBlocks _), .ok blocks⟩ => blocks.map fun b => (b.blockHash, b)
  | _ => []

/-- The blocks that a task has read. -/
def blocksRead (done : Done) : List (String × FoundBlock) :=
  done.flatMap blocksIn

theorem mem_blocksRead_cons {x : (o : Op) × o.Res} {done : Done}
    {y : String × FoundBlock} :
    y ∈ blocksRead (x :: done) ↔ y ∈ blocksIn x ∨ y ∈ blocksRead done := by
  simp [blocksRead]

section Read

variable {suite : Suite} {data : ChainData} {config : ServerConfig}

/-- A block in an answer is in the table. -/
theorem mem_of_blocksIn {o : Op} {s s' : Pool} {r : o.Res}
    {y : String × FoundBlock} (hsem : (pool suite data config).sem o s r s')
    (hy : y ∈ blocksIn ⟨o, r⟩) :
    y.2 ∈ s.db.foundBlocks.rows ∧ y.2.blockHash = y.1 := by
  unfold blocksIn at hy
  split at hy
  · rename_i hash b heq
    cases heq
    rcases sem_db hsem with ⟨hr, _⟩ | ⟨⟨e, he⟩, _⟩
    · rw [List.mem_singleton.1 hy]
      exact getByHash_some hr.symm
    · cases he
  · rename_i filter blocks heq
    cases heq
    rcases sem_db hsem with ⟨hr, _⟩ | ⟨⟨e, he⟩, _⟩
    · obtain ⟨b, hb, rfl⟩ := List.mem_map.1 hy
      rw [Except.ok.inj hr] at hb
      exact ⟨List.mem_reverse.1 (List.mem_filter.1 hb).1, rfl⟩
    · cases he
  · cases hy

theorem hasBlock_sem {o : Op} {s s' : Pool} {r : o.Res} {b : FoundBlock}
    (hsem : (pool suite data config).sem o s r s') (h : s.db.HasBlock b) :
    s'.db.HasBlock b := by
  rcases sem_database hsem with heq | ⟨d, rfl, _, rfl⟩
  · rw [heq]
    exact h
  · obtain ⟨b₀, hb₀, hfix₀⟩ := h
    obtain ⟨b₁, hb₁, hfix₁⟩ := d.blocks_forward hb₀
    exact ⟨b₁, hb₁, hfix₁.trans hfix₀⟩

/-- The blocks that the tasks have read are still in the table. -/
def ReadsKept (db : Database) (log : List PoolEntry) : Prop :=
  ∀ t, ∀ y ∈ blocksRead (current t log).2,
    db.HasBlock y.2 ∧ y.2.blockHash = y.1

theorem reach_readsKept {ok : PoolWorld → PoolEntry → Prop} {c : PoolConfig}
    (h : (pool suite data config).Reach ok c) :
    ReadsKept c.world.shared.db c.world.log := by
  intro t y hy
  obtain ⟨x, hx, hyx⟩ := List.mem_flatMap.1 hy
  refine reach_answers (K := fun _ db x => ∀ y ∈ blocksIn x,
    db.HasBlock y.2 ∧ y.2.blockHash = y.1) ?_ ?_ ?_ h t x hx y hyx
  · exact fun hsem _ hK y hy => (hK y hy).imp_left (hasBlock_sem hsem)
  · exact fun _ hK => hK
  · intro w t o r s' hsem _ y hy
    obtain ⟨hmem, hhash⟩ := mem_of_blocksIn hsem hy
    exact ⟨hasBlock_sem hsem (.of_mem hmem), hhash⟩

theorem turns_readsKept {ok : PoolWorld → PoolEntry → Prop} :
    (pool suite data config).Turns ok fun w _ =>
      ReadsKept w.shared.db w.log :=
  fun _ _ _ h _ _ => reach_readsKept h

end Read

end StratumServer
