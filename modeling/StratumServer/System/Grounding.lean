import StratumServer.Lib.Contract
import StratumServer.System.Effects

/-!
# Every operation works on rows that exist

A task reads a row in one section and uses it in a later one, and in between
the other tasks go on.  The contract `grounding` carries what it read over
that gap.  It holds in every run, without a condition.

There are four groups.

* Who does what.  `Op.by` says which tasks perform an operation.
* What a task may rely on.  `Database.Evolves` says that blocks, workers and
  settled batches stay; for the payout handler, which alone submits batches,
  pending batches stay pending too.
* The guarantee.  `Grounded` says what each operation is performed on: a
  batch is only ever created for a stored block, a plan is only ever signed
  for a batch that is still pending, and so on.
* The invariant.  `Sound` says that the hash of a stored block is the text
  of a hash, that a stored coinbase transaction is the one of its block, and
  that every batch was created for a stored block, in the round of that
  block.
-/

namespace StratumServer

open Sql Tasks

/-! ## Who does what -/

/-- A miner connection. -/
def Task.isSession : Task → Bool
  | .session _ => true
  | _ => false

/-- An HTTP request. -/
def Task.isHttp : Task → Bool
  | .http _ => true
  | _ => false

/-- The tasks that go through a section.  The queries are open to all. -/
def DbOp.by : DbOp → Task → Bool
  | .upsert .., t | .insertShareAndOutcomeAtomic .., t
  | .updateOutcomeNodeResult .., t | .getOrCreateCurrentRound .., t
  | .recordFoundBlock .., t => t.isSession
  | .closeRound _ _ .found, t => t.isSession
  | .closeRound _ end_ .orphaned, t =>
    end_ == 0 && (t == .consumer || t == .main)
  | .closeRound .., _ => false
  | .markOrphaned .., t | .markMatured .., t => t == .consumer || t == .main
  | .unOrphan .., t => t == .consumer
  | .updateStatus _ .paid, t | .updateBatchStatus _ .confirmed, t =>
    t == .handler || t == .main
  | .updateStatus .., _ | .updateBatchStatus .., _ => false
  | .updateCoinbaseTxid .., t | .markBatchSubmitted .., t
  | .rebuildPayout .., t => t == .handler
  | .createPayout .., t => t == .handler || t.isHttp
  | .recordEvent .., _ | .matchingRound .., _ | .getByHash .., _
  | .getByRoundId .., _ | .listBlocks .., _ | .getBatchById .., _
  | .listBatches .., _ | .getBatchesByBlockHash .., _
  | .getPayoutsByBatch .., _ => true

/-- The tasks that perform an operation. -/
def Op.by : Op → Task → Bool
  | .db d, t => d.by t
  | .respond i _ _, t | .closeSession i, t => t == .session i
  | .jobCacheGet .., t | .submitBlock .., t | .instantNow, t => t.isSession
  | .updateBlockConnected .., t | .chainTipGet, t => t == .consumer
  | .send .., t | .sendJob .., t | .jobCacheInsert .., t
  | .getMiningTemplate, t => t == .consumer || t == .main
  | .getBlock .., t | .signAndSubmit .., t => t == .handler
  | .getRawTransaction .., t => t == .handler || t == .main
  | .getBlockCount, t | .getBlockHash .., t | .spawnHttp, t
  | .spawnConsumer, t | .spawnHandler, t | .spawnStratum, t => t == .main

/-! ## What a task may rely on -/

namespace Database

/-- A row of the table has the fixed columns of the block `b`. -/
def HasBlock (db : Database) (b : FoundBlock) : Prop :=
  ∃ b' ∈ db.foundBlocks.rows, b'.fixed = b.fixed

/-- A row of the table has the fixed columns of the batch `b`, and a status
as `P` says. -/
def HasBatch (db : Database) (P : BatchStatus → Prop) (b : PayoutBatch) :
    Prop :=
  ∃ b' ∈ db.payoutBatches.rows, b'.fixed = b.fixed ∧ P b'.status

/-- What stays in a database while it is used. -/
structure Evolves (db db' : Database) : Prop where
  workers : ∀ w ∈ db.workers.rows, w ∈ db'.workers.rows
  blocks : ∀ b, db.HasBlock b → db'.HasBlock b
  settled : ∀ b, db.HasBatch (· ≠ .pending) b → db'.HasBatch (· ≠ .pending) b

/-- Pending batches stay pending. -/
def PendingStays (db db' : Database) : Prop :=
  ∀ b, db.HasBatch (· = .pending) b → db'.HasBatch (· = .pending) b

theorem Evolves.refl (db : Database) : db.Evolves db :=
  ⟨fun _ h => h, fun _ h => h, fun _ h => h⟩

theorem Evolves.trans {db₁ db₂ db₃ : Database} (h₁ : db₁.Evolves db₂)
    (h₂ : db₂.Evolves db₃) : db₁.Evolves db₃ :=
  ⟨fun w h => h₂.workers w (h₁.workers w h),
    fun b h => h₂.blocks b (h₁.blocks b h),
    fun b h => h₂.settled b (h₁.settled b h)⟩

theorem HasBlock.of_mem {db : Database} {b : FoundBlock}
    (h : b ∈ db.foundBlocks.rows) : db.HasBlock b :=
  ⟨b, h, rfl⟩

end Database

/-- A section keeps the workers, the blocks and the settled batches, if it
does not set a batch back to pending. -/
theorem DbOp.evolves {d : DbOp} (db : Database)
    (hd : ∀ id, d ≠ .updateBatchStatus id .pending) :
    db.Evolves (d.run db).2 := by
  refine ⟨fun w hw => d.workers_forward hw, ?_, ?_⟩
  · rintro b ⟨b', hb', hfix⟩
    obtain ⟨b'', hb'', hfix'⟩ := d.blocks_forward hb'
    exact ⟨b'', hb'', hfix'.trans hfix⟩
  · rintro b ⟨b', hb', hfix, hstatus⟩
    cases d with
    | updateBatchStatus id status =>
      refine ⟨_, List.mem_map.2 ⟨b', hb', rfl⟩, ?_⟩
      split_ifs
      · refine ⟨hfix, ?_⟩
        rintro rfl
        exact hd id rfl
      · exact ⟨hfix, hstatus⟩
    | markBatchSubmitted id txid =>
      refine ⟨_, List.mem_map.2 ⟨b', hb', rfl⟩, ?_⟩
      split_ifs
      · exact ⟨hfix, BatchStatus.noConfusion⟩
      · exact ⟨hfix, hstatus⟩
    | createPayout _ _ _ _ => exact ⟨b', mem_createPayout hb', hfix, hstatus⟩
    | _ =>
      rw [Database.HasBatch, (DbOp.frame _ db).payoutBatches rfl]
      exact ⟨b', hb', hfix, hstatus⟩

/-- Only `mark_batch_submitted` and the change of a pending batch's status
end a pending batch. -/
theorem DbOp.pendingStays {d : DbOp} {db : Database}
    (hmark : ∀ id txid, d ≠ .markBatchSubmitted id txid)
    (hupdate : ∀ id status, d = .updateBatchStatus id status →
      ∃ b ∈ db.payoutBatches.rows, b.id = id ∧ b.status ≠ .pending) :
    db.PendingStays (d.run db).2 := by
  rintro b ⟨b', hb', hfix, hpending⟩
  cases d with
  | updateBatchStatus id status =>
    obtain ⟨b₁, hb₁, hid, hsettled⟩ := hupdate id status rfl
    have hne : b'.id ≠ id := by
      intro h
      have heq := db.payoutBatches.eq_of_id hb' hb₁ (h.trans hid.symm)
      exact hsettled (heq ▸ hpending)
    refine ⟨b', List.mem_map.2 ⟨b', hb', ?_⟩, hfix, hpending⟩
    rw [if_neg]
    simpa using hne
  | markBatchSubmitted id txid => exact absurd rfl (hmark id txid)
  | createPayout _ _ _ _ => exact ⟨b', mem_createPayout hb', hfix, hpending⟩
  | _ =>
    rw [Database.HasBatch, (DbOp.frame _ db).payoutBatches rfl]
    exact ⟨b', hb', hfix, hpending⟩

/-! ## The guarantee -/

/-- The batch that task `t` is confirming: the one whose status it has set
last in its current work. -/
def confirming (t : Task) (log : List PoolEntry) : Option Nat :=
  (current t log).2.findSome? fun done =>
    match done.1 with
    | .db (.updateBatchStatus id _) => some id
    | _ => none

section Grounding

variable (suite : Suite) (data : ChainData)

/-- What an operation is performed on. -/
def OnRows (w : PoolWorld) (t : Task) : Op → Prop
  | .db (.insertShareAndOutcomeAtomic share outcome) =>
    ∃ (a : ShareRecord) (worker : Worker) (roundId : Nat),
      worker ∈ w.shared.db.workers.rows ∧
      worker.payoutAddress = a.payoutAddress ∧
      worker.workerSuffix = a.workerSuffix.filter (· ≠ "") ∧
      share = a.share worker.id ∧ outcome = a.outcome worker.id roundId ∧
      (a.status = .accepted → a.jobId = jobIdOf a.templateId a.templateEpoch ∧
        validateShareFormat a.extranonce2 a.ntimeHex a.nonceHex = true)
  | .db (.recordFoundBlock block) =>
    ∃ (job : MiningJob) (roundId : Nat) (hash : Bytes32),
      block = acceptedBlock job roundId hash.toHexBe
  | .db (.createPayout block difficulty reward _) =>
    w.shared.db.HasBlock block ∧
      difficulty = AccountingService.networkDifficulty suite block ∧
      reward = rewardFromCoinbase block.coinbaseValue
  | .db (.rebuildPayout batchId block difficulty reward _) =>
    w.shared.db.HasBlock block ∧
      difficulty = AccountingService.networkDifficulty suite block ∧
      reward = rewardFromCoinbase block.coinbaseValue ∧
      ∃ batch, w.shared.db.HasBatch (· = .pending) batch ∧
        batch.id = batchId ∧ batch.roundId = block.roundId
  | .db (.updateCoinbaseTxid id txid) =>
    ∃ block, w.shared.db.HasBlock block ∧ block.id = id ∧
      txid = data.coinbaseTxid block.blockHash
  | .db (.updateBatchStatus id _) =>
    ∃ batch, w.shared.db.HasBatch (· ≠ .pending) batch ∧ batch.id = id
  | .db (.markBatchSubmitted id _) =>
    ∃ batch, w.shared.db.HasBatch (· = .pending) batch ∧ batch.id = id
  | .db (.updateStatus id _) =>
    ∃ batch block, w.shared.db.HasBatch (· ≠ .pending) batch ∧
      w.shared.db.HasBlock block ∧ confirming t w.log = some batch.id ∧
      block.id = id ∧ block.roundId = batch.roundId
  | .signAndSubmit signed =>
    ∃ batch block outputs, w.shared.db.HasBatch (· = .pending) batch ∧
      w.shared.db.HasBlock block ∧ block.roundId = batch.roundId ∧
      signed.plan = AccountingService.batchPlan batch block outputs ∧
      signed.coinbaseTxid = data.coinbaseTxid block.blockHash
  | _ => True

/-- An operation is performed by a task that may, on rows that exist. -/
def Grounded (w : PoolWorld) (t : Task) (o : Op) : Prop :=
  o.by t = true ∧ OnRows suite data w t o

/-! ## The invariant -/

/-- What is stored about blocks and batches. -/
structure Sound (db : Database) : Prop where
  hash : ∀ b ∈ db.foundBlocks.rows, ∃ h : Bytes32, b.blockHash = h.toHexBe
  coinbase : ∀ b ∈ db.foundBlocks.rows, ∀ txid, b.coinbaseTxid = some txid →
    txid = data.coinbaseTxid b.blockHash
  batch : ∀ p ∈ db.payoutBatches.rows, ∃ b ∈ db.foundBlocks.rows,
    p.roundId = b.roundId ∧
      ∃ n : Nat, p.retryKey = some s!"{b.blockHash}:{n}"

variable {suite data}

theorem Sound.new (now : Nat) : Sound data (initSchema now) :=
  ⟨fun _ => nofun, fun _ => nofun, fun _ => nofun⟩

/-- A new time is not a new row. -/
theorem Sound.now {db : Database} (h : Sound data db) (now : Nat) :
    Sound data { db with now } :=
  ⟨h.hash, h.coinbase, h.batch⟩

theorem Sound.hash_run {w : PoolWorld} {t : Task} {d : DbOp}
    (h : Sound data w.shared.db) (hg : Grounded suite data w t (.db d)) :
    ∀ b ∈ (d.run w.shared.db).2.foundBlocks.rows,
      ∃ hash : Bytes32, b.blockHash = hash.toHexBe := by
  intro b' hb'
  rcases DbOp.blocks_backward hb' with ⟨b, hb, hfix⟩ | ⟨block, n, rfl, rfl⟩
  · obtain ⟨hash, hhash⟩ := h.hash b hb
    exact ⟨hash, (FoundBlock.blockHash_of_fixed hfix).symm.trans hhash⟩
  · obtain ⟨job, roundId, hash, rfl⟩ := hg.2
    exact ⟨hash, rfl⟩

theorem Sound.coinbase_run {w : PoolWorld} {t : Task} {d : DbOp}
    (h : Sound data w.shared.db) (hg : Grounded suite data w t (.db d)) :
    ∀ b ∈ (d.run w.shared.db).2.foundBlocks.rows, ∀ txid,
      b.coinbaseTxid = some txid → txid = data.coinbaseTxid b.blockHash := by
  cases d with
  | recordFoundBlock block =>
    intro b hb txid htxid
    rcases FoundBlockRepository.recordFoundBlock_cases block w.shared.db with
      ⟨_, heq⟩ | ⟨_, _, hrows, heq⟩
    · simp only [DbOp.run, heq] at hb
      exact h.coinbase b hb txid htxid
    · simp only [DbOp.run, heq, hrows] at hb
      rcases List.mem_append.1 hb with hold | hnew
      · exact h.coinbase b hold txid htxid
      · rw [List.mem_singleton.1 hnew] at htxid
        cases htxid
  | updateCoinbaseTxid id txid' =>
    intro b' hb' txid htxid
    obtain ⟨b, hb, rfl⟩ := List.mem_map.1 hb'
    obtain ⟨block, ⟨b₁, hb₁, hfix⟩, hid, htxid'⟩ := hg.2
    by_cases hmatch : (b.id == id) = true
    · rw [if_pos hmatch] at htxid ⊢
      have heq : b = b₁ := by
        refine w.shared.db.foundBlocks.eq_of_id hb hb₁ ?_
        have hb₁id := FoundBlock.id_of_fixed hfix
        have hbid : b.id = id := by simpa using hmatch
        exact hbid.trans (hid.symm.trans hb₁id.symm)
      cases htxid
      rw [htxid', heq, FoundBlock.blockHash_of_fixed hfix]
    · rw [if_neg hmatch] at htxid ⊢
      exact h.coinbase b hb txid htxid
  | markOrphaned _ _ | unOrphan _ | updateStatus _ _ | markMatured _ =>
    intro b' hb' txid htxid
    obtain ⟨b, hb, rfl⟩ := List.mem_map.1 hb'
    split_ifs at htxid ⊢ <;> exact h.coinbase b hb txid htxid
  | _ =>
    rw [(DbOp.frame _ w.shared.db).foundBlocks rfl]
    exact h.coinbase

theorem Sound.batch_run {w : PoolWorld} {t : Task} {d : DbOp}
    (h : Sound data w.shared.db) (hg : Grounded suite data w t (.db d)) :
    ∀ p ∈ (d.run w.shared.db).2.payoutBatches.rows,
      ∃ b ∈ (d.run w.shared.db).2.foundBlocks.rows, p.roundId = b.roundId ∧
        ∃ n : Nat, p.retryKey = some s!"{b.blockHash}:{n}" := by
  intro p' hp'
  rcases DbOp.batches_backward hp' with ⟨p, hp, hfix⟩ |
    ⟨block, difficulty, reward, settings, found, n, rfl, _, rfl⟩
  · obtain ⟨b, hb, hround, m, hkey⟩ := h.batch p hp
    obtain ⟨b', hb', hfix'⟩ := d.blocks_forward hb
    refine ⟨b', hb', ?_, m, ?_⟩
    · rw [← PayoutBatch.roundId_of_fixed hfix, hround,
        FoundBlock.roundId_of_fixed hfix']
    · rw [← PayoutBatch.retryKey_of_fixed hfix, hkey,
        FoundBlock.blockHash_of_fixed hfix']
  · obtain ⟨⟨b, hb, hfix⟩, _⟩ := hg.2
    obtain ⟨m, hm⟩ := planFor_retryKey block difficulty reward settings found
      w.shared.db
    refine ⟨b, ?_, (FoundBlock.roundId_of_fixed hfix).symm, m, ?_⟩
    · rw [(DbOp.frame _ w.shared.db).foundBlocks rfl]
      exact hb
    · rw [FoundBlock.blockHash_of_fixed hfix]
      exact congrArg some hm

/-- A grounded section keeps the invariant. -/
theorem Sound.run {w : PoolWorld} {t : Task} {d : DbOp}
    (h : Sound data w.shared.db) (hg : Grounded suite data w t (.db d)) :
    Sound data (d.run w.shared.db).2 :=
  ⟨h.hash_run hg, h.coinbase_run hg, h.batch_run hg⟩

/-! ## The contract -/

/-- What task `t` may rely on from `w` to `w'`. -/
structure Rely (t : Task) (w w' : PoolWorld) : Prop where
  evolves : w.shared.db.Evolves w'.shared.db
  pending : t = .handler → w.shared.db.PendingStays w'.shared.db
  current : current t w'.log = current t w.log

theorem Rely.refl (t : Task) (w : PoolWorld) : Rely t w w :=
  ⟨.refl _, fun _ _ h => h, rfl⟩

theorem Rely.trans {t : Task} {w₁ w₂ w₃ : PoolWorld} (h₁ : Rely t w₁ w₂)
    (h₂ : Rely t w₂ w₃) : Rely t w₁ w₃ :=
  ⟨h₁.evolves.trans h₂.evolves,
    fun ht b hb => h₂.pending ht b (h₁.pending ht b hb),
    h₂.current.trans h₁.current⟩

/-- A turn that leaves the database as it is. -/
theorem Rely.of_database {t : Task} {w w' : PoolWorld}
    (hdb : w'.shared.db = w.shared.db)
    (hcurrent : Tasks.current t w'.log = Tasks.current t w.log) :
    Rely t w w' := by
  refine ⟨?_, fun _ => ?_, hcurrent⟩
  · rw [hdb]
    exact .refl _
  · rw [hdb]
    exact fun _ h => h

theorem Grounded.evolves {w : PoolWorld} {t : Task} {d : DbOp}
    (hg : Grounded suite data w t (.db d)) :
    w.shared.db.Evolves (d.run w.shared.db).2 := by
  refine d.evolves _ ?_
  rintro id rfl
  exact Bool.false_ne_true hg.1

theorem Grounded.pendingStays {w : PoolWorld} {t : Task} {d : DbOp}
    (hg : Grounded suite data w t (.db d))
    (hmark : ∀ id txid, d ≠ .markBatchSubmitted id txid) :
    w.shared.db.PendingStays (d.run w.shared.db).2 := by
  refine DbOp.pendingStays hmark ?_
  rintro id status rfl
  obtain ⟨batch, ⟨b, hb, hfix, hstatus⟩, hid⟩ := hg.2
  exact ⟨b, hb, (PayoutBatch.id_of_fixed hfix).trans hid, hstatus⟩

/-- The contract that every run of the server meets. -/
def grounding (suite : Suite) (data : ChainData) (config : ServerConfig) :
    Contract (pool suite data config) where
  ok _ _ := True
  inv w := Sound data w.shared.db
  rely := Rely
  guar w t o _ := Grounded suite data w t o
  post _ _ := True

variable {config : ServerConfig}

theorem grounding_keeps {w : PoolWorld} {t : Task} {o : Op} {r : o.Res}
    {s' : Pool} (hinv : Sound data w.shared.db)
    (hsem : (pool suite data config).sem o w.shared r s')
    (hg : Grounded suite data w t o) : Sound data s'.db := by
  rcases sem_database hsem with heq | ⟨d, rfl, _, rfl⟩
  · rw [heq]
    exact hinv
  · exact hinv.run hg

theorem grounding_others {w : PoolWorld} {t u : Task} {o : Op} {r : o.Res}
    {s' : Pool} (hsem : (pool suite data config).sem o w.shared r s')
    (hg : Grounded suite data w t o) (hu : u ≠ t) :
    Rely u w (w.after s' (.did t o r)) := by
  have hcurrent : current u (.did t o r :: w.log) = current u w.log :=
    current_did_of_ne hu o r
  rcases sem_database hsem with heq | ⟨d, rfl, _, rfl⟩
  · exact .of_database heq hcurrent
  · refine ⟨hg.evolves, fun hhandler => hg.pendingStays ?_, hcurrent⟩
    rintro id txid rfl
    -- Only the handler submits batches, and it is not `u` that moves.
    have ht : t = .handler := by simpa [Op.by, DbOp.by] using hg.1
    exact hu (hhandler.trans ht.symm)

end Grounding

end StratumServer
