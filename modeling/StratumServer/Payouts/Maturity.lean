import StratumServer.Payouts.Batches

/-!
# Which blocks payouts are signed for

`process_pending_payouts` signs every pending batch and does not look at the
status of the block.  So a payout is only ever signed for a matured block if
a batch is created for matured blocks only and a block keeps its status as
long as its batch is pending.  No part of the server sees to either:
`trigger_payout` takes an immature block, `BlockMatured` may arrive after
the block was orphaned, and a block with a pending batch can be orphaned.

`signs_matured` is the result for the runs without these steps, and
`signsMatured_fails` is a run with one of them.
-/

namespace StratumServer

open Sql Tasks

/-! ## The steps -/

/-- A pending batch for the block with this hash. -/
def pendingFor (db : Database) (blockHash : String) : Bool :=
  db.payoutBatches.rows.any fun p =>
    p.status == .pending && batchOfBlock blockHash p

/-- The block that an entry of the log creates a batch for. -/
def batchCreatedFor : PoolEntry → Option FoundBlock
  | .did _ (.db (.createPayout block _ _ _)) _ => some block
  | _ => none

/-- The hash of the block that an entry of the log orphans. -/
def orphanedHash : PoolEntry → Option String
  | .did _ (.db (.markOrphaned blockHash _)) _ => some blockHash
  | _ => none

/-- The id of the block that an entry of the log sets to another status. -/
def settledId : PoolEntry → Option Nat
  | .did _ (.db (.updateStatus id _)) _ => some id
  | _ => none

/-- What is signed in an entry of the log. -/
def signing : PoolEntry → Option SignedBatchData
  | .did _ (.signAndSubmit signed) _ => some signed
  | _ => none

/-- A batch is created for a matured block, and a block with a pending batch
is neither orphaned nor paid. -/
def KeepsMatured (w : PoolWorld) (e : PoolEntry) : Prop :=
  (∀ block ∈ batchCreatedFor e, batchExists w.shared.db block.blockHash = false →
      ∀ b ∈ w.shared.db.foundBlocks.rows, b.blockHash = block.blockHash →
        b.status = .matured) ∧
    (∀ blockHash ∈ orphanedHash e,
      pendingFor w.shared.db blockHash = false) ∧
    ∀ id ∈ settledId e, ∀ b ∈ w.shared.db.foundBlocks.rows, b.id = id →
      pendingFor w.shared.db b.blockHash = false

instance (w : PoolWorld) (e : PoolEntry) : Decidable (KeepsMatured w e) :=
  inferInstanceAs (Decidable ((∀ _ ∈ _, _ → ∀ _ ∈ _, _) ∧ (∀ _ ∈ _, _) ∧
    ∀ _ ∈ _, ∀ _ ∈ _, _))

/-- The block that a signed batch was created for is matured. -/
def SignsMatured (w : PoolWorld) (e : PoolEntry) : Prop :=
  ∀ signed ∈ signing e,
    (∃ b ∈ w.shared.db.foundBlocks.rows,
      signed.plan.retryKey.startsWith b.blockHash = true) ∧
    ∀ b ∈ w.shared.db.foundBlocks.rows,
      signed.plan.retryKey.startsWith b.blockHash = true →
        b.status = .matured

instance (w : PoolWorld) (e : PoolEntry) : Decidable (SignsMatured w e) :=
  inferInstanceAs (Decidable (∀ _ ∈ _, (∃ _ ∈ _, _) ∧ ∀ _ ∈ _, _ → _))

/-! ## The invariant -/

/-- The block of a pending batch is matured. -/
def PendingMatured (db : Database) : Prop :=
  ∀ p ∈ db.payoutBatches.rows, p.status = .pending →
    ∀ b ∈ db.foundBlocks.rows, batchOfBlock b.blockHash p = true →
      b.status = .matured

theorem pendingFor_false {db : Database} {blockHash : String}
    (h : pendingFor db blockHash = false) {p : PayoutBatch}
    (hp : p ∈ db.payoutBatches.rows) (hpending : p.status = .pending) :
    batchOfBlock blockHash p = false := by
  have hnot := List.any_eq_false.1 h p hp
  simpa [hpending] using hnot

section Invariant

variable {suite : Suite} {data : ChainData} {config : ServerConfig}
  {w : PoolWorld} {t : Task} {d : DbOp}

/-- A section that changes the blocks only, in the rows that `change` picks,
and leaves the blocks of pending batches matured. -/
theorem PendingMatured.of_modify {db db' : Database} (h : PendingMatured db)
    {change : FoundBlock → Bool} {f : FoundBlock → FoundBlock}
    (hbatches : db'.payoutBatches = db.payoutBatches)
    (hblocks : db'.foundBlocks.rows =
      db.foundBlocks.rows.map fun b => if change b then f b else b)
    (hhash : ∀ b, (f b).blockHash = b.blockHash)
    (hkeep : ∀ p ∈ db.payoutBatches.rows, p.status = .pending →
      ∀ b ∈ db.foundBlocks.rows, batchOfBlock b.blockHash p = true →
        b.status = .matured → change b = true → (f b).status = .matured) :
    PendingMatured db' := by
  intro p hp hpending b' hb' hkey
  rw [hbatches] at hp
  rw [hblocks] at hb'
  obtain ⟨b, hb, rfl⟩ := List.mem_map.1 hb'
  by_cases hchange : change b = true
  · rw [if_pos hchange] at hkey ⊢
    rw [hhash] at hkey
    exact hkeep p hp hpending b hb hkey (h p hp hpending b hb hkey) hchange
  · rw [if_neg hchange] at hkey ⊢
    exact h p hp hpending b hb hkey

/-- A section that changes the batches only, and makes none pending. -/
theorem PendingMatured.of_batches {db db' : Database} (h : PendingMatured db)
    (hblocks : db'.foundBlocks = db.foundBlocks)
    (hbatches : ∀ p' ∈ db'.payoutBatches.rows, p'.status = .pending →
      p' ∈ db.payoutBatches.rows) : PendingMatured db' := by
  intro p' hp' hpending b hb hkey
  rw [hblocks] at hb
  exact h p' (hbatches p' hp' hpending) hpending b hb hkey

/-- A new block has no batch yet. -/
theorem PendingMatured.recordFoundBlock {block : FoundBlock}
    (h : PendingMatured w.shared.db) (hsound : Sound data w.shared.db)
    (hg : Grounded suite data w t (.db (.recordFoundBlock block))) :
    PendingMatured ((DbOp.recordFoundBlock block).run w.shared.db).2 := by
  rcases FoundBlockRepository.recordFoundBlock_cases block w.shared.db with
    ⟨_, heq⟩ | ⟨table, hins, hrows, heq⟩
  · simp only [DbOp.run, heq]
    exact h
  · simp only [DbOp.run, heq]
    intro p hp hpending b hb hkey
    rw [hrows] at hb
    rcases List.mem_append.1 hb with hold | hnew
    · exact h p hp hpending b hold hkey
    · obtain ⟨job, roundId, hash, rfl⟩ := hg.2
      obtain ⟨b₀, hb₀, hcreated, _⟩ := hsound.batch_block hp
      obtain ⟨hash₀, hhash₀⟩ := hsound.hash b₀ hb₀
      rw [hhash₀] at hcreated
      rw [List.mem_singleton.1 hnew] at hkey
      have hsame : hash.toHexBe = hash₀.toHexBe :=
        hcreated.batchOfBlock_iff.1 hkey
      -- The table would have refused a second block with this hash.
      obtain ⟨hfree, _⟩ := Table.insert_some hins
      refine absurd ⟨hash.toHexBe, ?_, rfl⟩ (hfree b₀ hb₀)
      exact congrArg some (hhash₀.trans hsame.symm)

theorem PendingMatured.createPayout {block : FoundBlock} {difficulty : ℚ}
    {reward : Int} {settings : PayoutSettings}
    (h : PendingMatured w.shared.db) (hsound : Sound data w.shared.db)
    (hg : Grounded suite data w t
      (.db (.createPayout block difficulty reward settings)))
    (hmatured : batchExists w.shared.db block.blockHash = false →
      ∀ b ∈ w.shared.db.foundBlocks.rows, b.blockHash = block.blockHash →
        b.status = .matured) :
    PendingMatured ((DbOp.createPayout block difficulty reward settings).run
      w.shared.db).2 := by
  intro p hp hpending b hb hkey
  rw [(DbOp.frame _ w.shared.db).foundBlocks rfl] at hb
  rcases createPayoutSection_cases block difficulty reward settings
      w.shared.db with ⟨e, heq⟩ | ⟨found, n, table, _, _, _, _, _, hguard, hins,
        heq⟩
  · simp only [DbOp.run, heq] at hp
    exact h p hp hpending b hb hkey
  · simp only [DbOp.run, heq] at hp
    obtain ⟨_, _, _, hrows⟩ := Table.insert_some hins
    rw [hrows] at hp
    rcases List.mem_append.1 hp with hold | hnew
    · exact h p hold hpending b hb hkey
    · refine hmatured hguard b hb ?_
      obtain ⟨hash, hhash⟩ := hsound.hash_of_hasBlock hg.2.1
      obtain ⟨hash', hhash'⟩ := hsound.hash b hb
      obtain ⟨m, hm⟩ := planFor_retryKey block difficulty reward settings found
        w.shared.db
      have hcreated : CreatedFor p hash.toHexBe := by
        rw [List.mem_singleton.1 hnew, ← hhash]
        exact ⟨m, congrArg some hm⟩
      rw [hhash'] at hkey
      rw [hhash, hhash', hcreated.batchOfBlock_iff.1 hkey]

theorem PendingMatured.run (h : PendingMatured w.shared.db)
    (hsound : Sound data w.shared.db) (hg : Grounded suite data w t (.db d))
    {r : Except Error d.Res} (hok : KeepsMatured w (.did t (.db d) r)) :
    PendingMatured (d.run w.shared.db).2 := by
  obtain ⟨hcreate, horphan, hsettle⟩ := hok
  cases d with
  | recordFoundBlock block => exact h.recordFoundBlock hsound hg
  | createPayout block _ _ _ => exact h.createPayout hsound hg (hcreate _ rfl)
  | markOrphaned blockHash reason =>
    refine h.of_modify rfl rfl (fun _ => rfl) ?_
    intro p hp hpending b hb hkey _ hchange
    have hhash : b.blockHash = blockHash := by simpa using hchange
    have hnot := pendingFor_false (horphan _ rfl) hp hpending
    rw [← hhash, hkey] at hnot
    cases hnot
  | unOrphan blockHash =>
    refine h.of_modify rfl rfl (fun _ => rfl) ?_
    intro p hp hpending b hb hkey hstatus hchange
    simp [hstatus] at hchange
  | updateStatus id status =>
    refine h.of_modify rfl rfl (fun _ => rfl) ?_
    intro p hp hpending b hb hkey _ hchange
    have hid : b.id = id := by simpa using hchange
    have hnot := pendingFor_false (hsettle _ rfl b hb hid) hp hpending
    rw [hkey] at hnot
    cases hnot
  | updateCoinbaseTxid id txid =>
    exact h.of_modify rfl rfl (fun _ => rfl) fun _ _ _ _ _ _ hstatus _ => hstatus
  | markMatured id =>
    exact h.of_modify rfl rfl (fun _ => rfl) fun _ _ _ _ _ _ _ _ => rfl
  | updateBatchStatus id status =>
    refine h.of_batches rfl ?_
    intro p' hp' hpending
    obtain ⟨p, hp, rfl⟩ := List.mem_map.1 hp'
    split_ifs at hpending ⊢
    · cases hpending
      exact absurd hg.1 Bool.false_ne_true
    · exact hp
  | markBatchSubmitted id txid =>
    refine h.of_batches rfl ?_
    intro p' hp' hpending
    obtain ⟨p, hp, rfl⟩ := List.mem_map.1 hp'
    split_ifs at hpending ⊢
    exact hp
  | _ =>
    refine h.of_batches ((DbOp.frame _ w.shared.db).foundBlocks rfl) ?_
    rw [(DbOp.frame _ w.shared.db).payoutBatches rfl]
    exact fun p hp _ => hp

/-! ## Runs -/

theorem signing_some {e : PoolEntry} {signed : SignedBatchData}
    (h : signing e = some signed) :
    ∃ t r, e = .did t (.signAndSubmit signed) r := by
  cases e with
  | did t o r =>
    cases o with
    | signAndSubmit signed' =>
      cases h
      exact ⟨t, r, rfl⟩
    | _ => cases h
  | _ => cases h

/-- In every run without the three steps, a payout is only signed for a
matured block. -/
theorem signs_matured :
    (pool suite data config).Turns KeepsMatured SignsMatured := by
  intro c c' e h hok hstep signed hsigned
  obtain ⟨t, r, rfl⟩ := signing_some hsigned
  obtain ⟨hsound, _, hrows⟩ := turns_grounded h hok hstep
  have hmatured : PendingMatured c.world.shared.db := by
    refine reach_database (fun _ _ => nofun) (fun now h => h) ?_
      (reach_grounded h)
    exact fun h hok => h.run hok.2.1 hok.2.2 hok.1
  obtain ⟨p, hp, _, hpending, hkey, _⟩ := OnRows.signed hsound hrows
  simp only [startsWith_signed hkey]
  obtain ⟨b, hb, _, _, hunique⟩ := hsound.batch_block hp
  exact ⟨⟨b, hb, (hunique b hb).2 rfl⟩,
    fun b' hb' => hmatured p hp hpending b' hb'⟩

end Invariant

/-- The node connects the block of a sample run and another one after it,
and the payout handler takes three events. -/
def maturesAndPays (hash : String) : List Scene :=
  let replies : Replies := { rawTx := .ok sampleTx, signed := .ok "txid" }
  connects hash 1 ++ connects "next" 2 ++
    handles (.blockConnected []) replies ++
    handles (.blockMatured hash) replies ++ handles (.blockConnected []) replies

/-- A run in which a payout is signed. -/
theorem signs_matured_sample : ∃ c : PoolConfig,
    schedule sampleSuite sampleData sampleConfig
        (fun w e => decide (KeepsMatured w e) && decide (SignsMatured w e))
        ["genesis"]
        (bootsWith (sampleJob 7 1 easyTarget) ++ logsIn 0 "lotus_a.rig" ++
          submits 0 (sampleSubmit "lotus_a.rig" (sampleJob 7 1 easyTarget)
            "0a") ++
          maturesAndPays (sampleHash "00000001" "0a")) = some c ∧
      (c.world.log.filterMap signing).length = 1 := by
  have hrun : (schedule sampleSuite sampleData sampleConfig
      (fun w e => decide (KeepsMatured w e)) ["genesis"]
      (bootsWith (sampleJob 7 1 easyTarget) ++ logsIn 0 "lotus_a.rig" ++
        submits 0 (sampleSubmit "lotus_a.rig" (sampleJob 7 1 easyTarget)
          "0a") ++
        maturesAndPays (sampleHash "00000001" "0a"))).map
        (fun c => (c.world.log.filterMap signing).length) = some 1 := by
    decide +kernel
  obtain ⟨c, hc, hlength⟩ := Option.map_eq_some_iff.1 hrun
  exact ⟨c, turns_schedule _ _ _ signs_matured
    (fun _ _ h => of_decide_eq_true h) (by decide) hc, hlength⟩

/-- An operator triggers a payout for an immature block, and the next event
has it signed. -/
theorem signsMatured_fails :
    ¬ (pool sampleSuite sampleData sampleConfig).Turns (fun _ _ => True)
      SignsMatured :=
  not_turns _ _ _ ["genesis"] (by decide)
    (bootsWith (sampleJob 7 1 easyTarget) ++ logsIn 0 "lotus_a.rig" ++
      submits 0 (sampleSubmit "lotus_a.rig" (sampleJob 7 1 easyTarget) "0a") ++
      triggers 0 (sampleHash "00000001" "0a") sampleSettings ++
      connects (sampleHash "00000001" "0a") 1 ++
      handles (.blockConnected [])
        { rawTx := .ok sampleTx, signed := .ok "txid" })
    (by decide +kernel) (by decide +kernel)

end StratumServer
