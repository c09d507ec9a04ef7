import StratumServer.Blocks.Stages
import StratumServer.System.Simulation

/-!
# Blocks that the node has acknowledged

A block is recorded by the request that found it, and only after the node
has answered `null` to `submitblock`.  `reach_acknowledged` says that no
acknowledged block is forgotten: once the request has ended, the block is in
the table and stays there, unless a statement was refused on the way.

Nothing else writes the table.  When the answer of the node is lost, the
block is never recorded, although the node may announce it later:
`noneForgotten_fails`.
-/

namespace StratumServer

open Sql Tasks

/-! ## Acknowledged blocks -/

/-- The hash of the block that the node has acknowledged, if no statement
that recording it needs was refused. -/
def Stage.acknowledged : Stage → Option String
  | accepted hash | resolved hash _ | recorded hash _ true
  | closed hash _ true => some hash
  | _ => none

/-- The hash of the block that was stored. -/
def Stage.storedHash : Stage → Option String
  | recorded hash _ true | closed hash _ true => some hash
  | _ => none

/-- The end of a request. -/
def Op.endsRequest : Op → Bool
  | .respond .. | .closeSession _ => true
  | _ => false

/-- The hashes of the blocks that the node has acknowledged to requests that
have ended since. -/
def acknowledged (suite : Suite) : List PoolEntry → List String
  | [] => []
  | .did (.session i) o _ :: log =>
    if o.endsRequest then
      (sessionStage suite i log).acknowledged.toList ++ acknowledged suite log
    else acknowledged suite log
  | _ :: log => acknowledged suite log

/-- A block with this hash is stored. -/
def Database.HasHash (db : Database) (hash : String) : Prop :=
  ∃ b ∈ db.foundBlocks.rows, b.blockHash = hash

instance (db : Database) (hash : String) : Decidable (db.HasHash hash) :=
  inferInstanceAs (Decidable (∃ _ ∈ _, _))

theorem Database.HasHash.run {db : Database} {hash : String}
    (h : db.HasHash hash) (d : DbOp) : (d.run db).2.HasHash hash := by
  obtain ⟨b, hb, hhash⟩ := h
  obtain ⟨b', hb', hfix⟩ := d.blocks_forward hb
  exact ⟨b', hb', (FoundBlock.blockHash_of_fixed hfix).trans hhash⟩

/-- A block is there after it was recorded. -/
theorem hasHash_recordFoundBlock {block row : FoundBlock} {db : Database}
    (h : ((DbOp.recordFoundBlock block).run db).1 = .ok row) :
    ((DbOp.recordFoundBlock block).run db).2.HasHash block.blockHash := by
  simp only [DbOp.run] at h ⊢
  rcases FoundBlockRepository.recordFoundBlock_cases block db with
    ⟨_, heq⟩ | ⟨t, _, hrows, heq⟩
  · rw [heq] at h
    cases h
  · rw [heq]
    refine ⟨{ FoundBlockRepository.newRow block with
      id := db.foundBlocks.seq + 1 }, ?_, rfl⟩
    change _ ∈ t.rows
    rw [hrows]
    exact List.mem_append_right _ List.mem_cons_self

/-! ## Stages and rows -/

section Rows

variable {suite : Suite} {data : ChainData} {config : ServerConfig}

/-- A hash is stored from the recording on. -/
theorem Stage.storedHash_next {s : Stage} {x : (o : Op) × o.Res}
    {hash : String} (h : (s.next suite x).storedHash = some hash) :
    s.storedHash = some hash ∨ ∃ block row roundId,
      x = ⟨.db (.recordFoundBlock block), .ok row⟩ ∧
        s = resolved hash roundId := by
  rcases next_cases suite s x with heq | ⟨_, _, heq⟩ |
    ⟨_, _, heq | ⟨_, _, heq⟩⟩ |
    ⟨hash', id, block, hs, ⟨row, hx, heq⟩ | ⟨_, _, heq⟩⟩ |
    ⟨hash', id, stored, _, _, _, _, hs, _, heq⟩ <;> rw [heq] at h
  · exact Or.inl h
  · cases h
  · cases h
  · cases h
  · cases h
    exact Or.inr ⟨block, row, id, hx, hs⟩
  · cases h
  · rw [hs]
    cases stored with
    | true => exact Or.inl h
    | false => cases h

/-- At the end of a request, an acknowledged block is stored. -/
theorem Stage.storedHash_of_settled {s : Stage} (hs : s.settled = true)
    {hash : String} (h : s.acknowledged = some hash) :
    s.storedHash = some hash := by
  cases s with
  | closed hash' roundId stored =>
    cases stored with
    | true => exact h
    | false => cases h
  | early | unresolved => cases h
  | accepted | resolved | recorded => cases hs

/-- What is stored or acknowledged is in the table. -/
structure Acknowledging (suite : Suite) (w : PoolWorld) : Prop where
  stored : ∀ i hash, (sessionStage suite i w.log).storedHash = some hash →
    w.shared.db.HasHash hash
  acknowledged : ∀ hash ∈ acknowledged suite w.log, w.shared.db.HasHash hash

namespace Acknowledging

variable {w : PoolWorld}

theorem hasHash_sem {o : Op} {s s' : Pool} {r : o.Res} {hash : String}
    (hsem : (pool suite data config).sem o s r s') (h : s.db.HasHash hash) :
    s'.db.HasHash hash := by
  rcases sem_database hsem with heq | ⟨d, rfl, _, rfl⟩
  · rw [heq]
    exact h
  · exact h.run d

theorem did {t : Task} {o : Op} {r : o.Res} {s' : Pool}
    (h : Acknowledging suite w)
    (hsem : (pool suite data config).sem o w.shared r s')
    (hstaged : StagedOp suite t (current t w.log) o) :
    Acknowledging suite (w.after s' (.did t o r)) := by
  refine ⟨?_, ?_⟩
  · intro i hash hhash
    by_cases ht : Task.session i = t
    · subst ht
      rw [World.after_log, sessionStage_did] at hhash
      rcases Stage.storedHash_next hhash with hold |
        ⟨block, row, roundId, hx, hresolved⟩
      · exact hasHash_sem hsem (h.stored i hash hold)
      · cases hx
        -- The block that is recorded is the one that the stage is about.
        have hblock : sessionStage suite i w.log =
          .resolved block.blockHash block.roundId := hstaged rfl
        have heq : hash = block.blockHash := by
          rw [hresolved] at hblock
          exact (Stage.resolved.inj hblock).1
        rw [heq, World.after_shared]
        rcases sem_db hsem with ⟨hr, rfl⟩ | ⟨⟨e, he⟩, _⟩
        · exact hasHash_recordFoundBlock hr.symm
        · cases he
    · rw [World.after_log, sessionStage_did_of_ne suite ht] at hhash
      exact hasHash_sem hsem (h.stored i hash hhash)
  · intro hash hhash
    refine hasHash_sem hsem ?_
    cases t with
    | session i =>
      rw [World.after_log, StratumServer.acknowledged] at hhash
      split_ifs at hhash with hends
      · rcases List.mem_append.1 hhash with hnew | hold
        · have hsettled : (sessionStage suite i w.log).settled = true := by
            cases o with
            | respond | closeSession => exact hstaged rfl
            | _ => cases hends
          exact h.stored i hash (Stage.storedHash_of_settled hsettled
            (Option.mem_toList.1 hnew))
        · exact h.acknowledged hash hold
      · exact h.acknowledged hash hhash
    | _ => exact h.acknowledged hash hhash

/-- A turn that leaves the database as it is and ends no request. -/
theorem congr (h : Acknowledging suite w) {w' : PoolWorld}
    (hblocks : w'.shared.db.foundBlocks = w.shared.db.foundBlocks)
    (hstage : ∀ i, sessionStage suite i w'.log = sessionStage suite i w.log ∨
      sessionStage suite i w'.log = .early)
    (hlog : StratumServer.acknowledged suite w'.log =
      StratumServer.acknowledged suite w.log) : Acknowledging suite w' := by
  refine ⟨fun i hash hhash => ?_, fun hash hhash => ?_⟩
  · rw [Database.HasHash, hblocks]
    rcases hstage i with heq | hearly
    · exact h.stored i hash (heq ▸ hhash)
    · rw [hearly] at hhash
      cases hhash
  · rw [Database.HasHash, hblocks]
    exact h.acknowledged hash (hlog ▸ hhash)

end Acknowledging

/-- Every block that the node has acknowledged is in the table once the
request that found it has ended. -/
theorem reach_acknowledged {ok : PoolWorld → PoolEntry → Prop}
    {c : PoolConfig} (h : (pool suite data config).Reach ok c) :
    ∀ hash ∈ acknowledged suite c.world.log,
      ∃ b ∈ c.world.shared.db.foundBlocks.rows, b.blockHash = hash := by
  have hinv : Acknowledging suite c.world := by
    refine Machine.Reach.invariant ?_ ?_ ?_ ?_ ?_ (turns_staged.reach h)
    · rintro s ⟨now, chain, _, rfl⟩
      exact ⟨fun _ _ => nofun, fun _ => nofun⟩
    · intro w t o r s' hw hsem hok
      exact hw.did hsem hok.2
    · intro w t k p s' hw hstart _
      refine hw.congr ?_ (fun i => ?_) rfl
      · rw [World.after_shared, start_database hstart]
      · exact (sessionStage_began suite i t k w.log).imp_right And.right
    · rintro w s' hw (⟨now, _, rfl⟩ | ⟨_, chain, _, rfl⟩) _
      · exact hw.congr rfl (fun i => Or.inl rfl) rfl
      · exact hw.congr rfl (fun i => Or.inl rfl) rfl
    · rintro w s' hw ⟨chain, _, rfl⟩ _
      exact hw.congr rfl (fun i => Or.inr rfl) rfl
  exact hinv.acknowledged

end Rows

/-- A run in which the node acknowledges a block. -/
theorem reach_acknowledged_sample : ∃ c : PoolConfig,
    (pool sampleSuite sampleData sampleConfig).Reach (fun _ _ => True) c ∧
      acknowledged sampleSuite c.world.log = [sampleHash "00000001" "0a"] ∧
      ∃ b ∈ c.world.shared.db.foundBlocks.rows,
        b.blockHash = sampleHash "00000001" "0a" := by
  have hrun : (schedule sampleSuite sampleData sampleConfig (fun _ _ => true)
      ["genesis"] (bootsWith (sampleJob 7 1 easyTarget) ++
        logsIn 0 "lotus_a.rig" ++ submits 0 (sampleSubmit "lotus_a.rig"
          (sampleJob 7 1 easyTarget) "0a"))).map
        (fun c => acknowledged sampleSuite c.world.log) =
      some [sampleHash "00000001" "0a"] := by
    decide +kernel
  obtain ⟨c, hc, hack⟩ := Option.map_eq_some_iff.1 hrun
  have hreach := reach_schedule _ _ _ (fun _ _ _ => trivial) (by decide) hc
  refine ⟨c, hreach, hack, reach_acknowledged hreach _ ?_⟩
  rw [hack]
  exact List.mem_cons_self

/-! ## Blocks that are announced -/

/-- When no request is in flight, a block that a submission has found and
that the node has announced is in the table. -/
def NoneForgotten (c : PoolConfig) : Prop :=
  (∀ t, c.task t = .ret ()) → ∀ hash ∈ c.world.shared.node.announced,
    ∀ o ∈ c.world.shared.db.shareOutcomes.rows, o.status = .accepted →
      o.networkTargetOk = some true → o.blockHash = some hash →
        c.world.shared.db.HasHash hash

/-- A miner finds a block, the node takes it but its answer is lost, and
then the node announces the block. -/
def losesAnswer : List Scene :=
  bootsWith (sampleJob 7 1 easyTarget) ++ logsIn 0 "lotus_a.rig" ++
    submits 0 (sampleSubmit "lotus_a.rig" (sampleJob 7 1 easyTarget) "0a")
      { submitBlock := .error .sqlite } ++
    connects (sampleHash "00000001" "0a") 1

/-- When the answer to `submitblock` is lost, the block is never recorded. -/
theorem noneForgotten_fails : ∃ c : PoolConfig,
    (pool sampleSuite sampleData sampleConfig).Reach (fun _ _ => True) c ∧
      ¬ NoneForgotten c := by
  have hrun : (schedule sampleSuite sampleData sampleConfig (fun _ _ => true)
      ["genesis"] losesAnswer).any (fun c : PoolConfig => decide (
        (∀ t ∈ Task.main :: losesAnswer.flatMap Scene.tasks,
          (c.task t).isRet = true) ∧
        sampleHash "00000001" "0a" ∈ c.world.shared.node.announced ∧
        (∃ o ∈ c.world.shared.db.shareOutcomes.rows, o.status = .accepted ∧
          o.networkTargetOk = some true ∧
          o.blockHash = some (sampleHash "00000001" "0a")) ∧
        ¬ c.world.shared.db.HasHash (sampleHash "00000001" "0a"))) =
      true := by
    decide +kernel
  obtain ⟨c, hc, hreach, hidle, hannounced,
    ⟨o, ho, hstatus, htarget, hhash⟩, hforgotten⟩ :=
    exists_schedule _ _ _ (fun _ _ _ => trivial) (by decide) hrun
  refine ⟨c, hreach, fun hnone => ?_⟩
  exact hforgotten (hnone (idle_schedule _ _ _ hc (by decide) hidle) _
    hannounced o ho hstatus htarget hhash)

end StratumServer
