import StratumServer.System.Programs
import StratumServer.System.Simulation

/-!
# One batch for each block

The retry key of a batch is the hash of its block, a colon and a number.
Both duplicate guards go by the start of the key: the handler compares it
with `starts_with`, and the section that creates a batch with `LIKE`.  The
hashes are hexadecimal texts of one length, so the start of a key names one
block.

There are two groups.

* Keys.  `Sound.batch_block` gives the one block that a stored batch was
  created for, and says that both guards find it.
* Runs.  `reach_oneBatch` says that no block ever has two batches, and that
  a block without a batch gets one from any call, whatever its settings.
-/

namespace StratumServer

open Sql Tasks

/-! ## Keys -/

/-- The batch was created for the block with this hash. -/
def CreatedFor (p : PayoutBatch) (blockHash : String) : Prop :=
  ∃ n : Nat, p.retryKey = some s!"{blockHash}:{n}"

theorem Bytes32.length_toHexBe (h : Bytes32) :
    h.toHexBe.toList.length = 64 := by
  unfold Bytes32.toHexBe
  rw [Text.length_hexEncode, List.length_reverse, h.2]

theorem Bytes32.isHexDigit_of_mem {h : Bytes32} {c : Char}
    (hc : c ∈ h.toHexBe.toList) : Text.IsHexDigit c :=
  Text.isHexDigit_of_mem_hexEncode hc

/-- The start of a retry key names the block. -/
theorem Bytes32.startsWith_key {h h' : Bytes32} {rest : String} :
    (h.toHexBe ++ rest).startsWith h'.toHexBe = true ↔
      h'.toHexBe = h.toHexBe := by
  rw [String.startsWith_string_iff, String.toList_append]
  constructor
  · intro hbegins
    have hlength : h'.toHexBe.toList.length = h.toHexBe.toList.length := by
      rw [h.length_toHexBe, h'.length_toHexBe]
    have htake := List.prefix_iff_eq_take.1 hbegins
    rw [hlength, List.take_left'] at htake
    · exact String.toList_inj.1 htake
    · rfl
  · intro heq
    rw [heq]
    exact List.prefix_append _ _

section Keys

variable {p : PayoutBatch} {h h' : Bytes32}

/-- The guard of the handler finds the batch of a block, and no other. -/
theorem CreatedFor.batchOfBlock_iff (hp : CreatedFor p h.toHexBe) :
    batchOfBlock h'.toHexBe p = true ↔ h'.toHexBe = h.toHexBe := by
  obtain ⟨n, hkey⟩ := hp
  unfold batchOfBlock
  rw [hkey, Option.any_some]
  have hsplit : s!"{h.toHexBe}:{n}" = h.toHexBe ++ (":" ++ n.repr) :=
    String.append_assoc
  rw [hsplit, Bytes32.startsWith_key]

/-- So does the guard of the section that creates a batch. -/
theorem CreatedFor.like_iff (hp : CreatedFor p h.toHexBe) :
    (p.retryKey.any fun k =>
        Text.like (h'.toHexBe.toList ++ ['%']) k.toList) = true ↔
      h'.toHexBe = h.toHexBe := by
  obtain ⟨n, hkey⟩ := hp
  rw [hkey, Option.any_some]
  have hsplit : (s!"{h.toHexBe}:{n}").toList =
      h.toHexBe.toList ++ (":" ++ n.repr).toList := by
    rw [← String.toList_append]
    exact congrArg String.toList String.append_assoc
  have hlength : h'.toHexBe.toList.length = h.toHexBe.toList.length := by
    rw [h.length_toHexBe, h'.length_toHexBe]
  rw [hsplit, Text.like_hex_append _ (fun _ => Bytes32.isHexDigit_of_mem)
    (fun _ => Bytes32.isHexDigit_of_mem) hlength, String.toList_inj]

theorem CreatedFor.unique (hp : CreatedFor p h.toHexBe)
    (hp' : CreatedFor p h'.toHexBe) : h'.toHexBe = h.toHexBe :=
  hp.batchOfBlock_iff.1 (hp'.batchOfBlock_iff.2 rfl)

end Keys

section Sound

variable {data : ChainData} {db : Database}

/-- A stored batch was created for one stored block, and its key starts with
the hash of this block only. -/
theorem Sound.batch_block (hsound : Sound data db) {p : PayoutBatch}
    (hp : p ∈ db.payoutBatches.rows) :
    ∃ b ∈ db.foundBlocks.rows, CreatedFor p b.blockHash ∧
      p.roundId = b.roundId ∧ ∀ b' ∈ db.foundBlocks.rows,
        (batchOfBlock b'.blockHash p = true ↔ b' = b) := by
  obtain ⟨b, hb, hround, hkey⟩ := hsound.batch p hp
  refine ⟨b, hb, hkey, hround, fun b' hb' => ?_⟩
  obtain ⟨hash, hhash⟩ := hsound.hash b hb
  obtain ⟨hash', hhash'⟩ := hsound.hash b' hb'
  have hcreated : CreatedFor p hash.toHexBe := hhash ▸ hkey
  rw [hhash', hcreated.batchOfBlock_iff, ← hhash, ← hhash']
  constructor
  · intro heq
    exact db.foundBlocks.eq_of_key hb' hb (k := b.blockHash)
      (congrArg some heq) rfl
  · intro heq
    rw [heq]

/-- The guard of the section is true exactly when there is a batch. -/
theorem Sound.batchExists_iff (hsound : Sound data db) (hash : Bytes32) :
    batchExists db hash.toHexBe = true ↔
      ∃ p ∈ db.payoutBatches.rows, CreatedFor p hash.toHexBe := by
  unfold batchExists
  rw [List.any_eq_true]
  constructor
  · rintro ⟨p, hp, hlike⟩
    obtain ⟨b, hb, hcreated, _⟩ := hsound.batch_block hp
    obtain ⟨hash', hhash'⟩ := hsound.hash b hb
    rw [hhash'] at hcreated
    have heq := hcreated.like_iff.1 hlike
    exact ⟨p, hp, heq ▸ hcreated⟩
  · rintro ⟨p, hp, hcreated⟩
    exact ⟨p, hp, hcreated.like_iff.2 rfl⟩

/-- A call for a block without a batch makes one, whatever the settings. -/
theorem Sound.createPayout_ok (hsound : Sound data db) {block : FoundBlock}
    {hash : Bytes32} (hhash : block.blockHash = hash.toHexBe)
    (hnone : ∀ p ∈ db.payoutBatches.rows, ¬ CreatedFor p block.blockHash)
    {found : Nat} (hfound : foundAt db block.blockHash = some found)
    (difficulty : ℚ) (reward : Int) (settings : PayoutSettings) :
    ∃ id, (createPayoutSection block difficulty reward settings db).1 =
      .ok id := by
  have hguard : batchExists db block.blockHash = false := by
    rw [hhash, ← Bool.not_eq_true, hsound.batchExists_iff]
    rintro ⟨p, hp, hcreated⟩
    exact hnone p hp (hhash ▸ hcreated)
  -- A conflict would be with a batch whose key is that of the new one.
  have hfree : ∀ p ∈ db.payoutBatches.rows, ¬ Conflict p (batchRow block
      (planFor block difficulty reward settings found db).2) := by
    rintro p hp ⟨k, hkp, hk⟩
    obtain ⟨n, hn⟩ := planFor_retryKey block difficulty reward settings found db
    refine hnone p hp ⟨n, ?_⟩
    have hkeys : p.retryKey = some
        (planFor block difficulty reward settings found db).2.retryKey :=
      hkp.trans hk.symm
    rw [hkeys, hn]
  obtain ⟨⟨id, db'⟩, hcreate⟩ := createBatch_isSome
    (planFor block difficulty reward settings found db).1 hfree
  refine ⟨id, ?_⟩
  unfold createPayoutSection
  simp only [hfound, hguard, hcreate, Bool.false_eq_true, if_false]

/-- The batch behind a signed plan, and the block that was looked up for
it. -/
theorem OnRows.signed {suite : Suite} {w : PoolWorld} {t : Task}
    {signed : SignedBatchData} (hsound : Sound data w.shared.db)
    (h : OnRows suite data w t (.signAndSubmit signed)) :
    ∃ p ∈ w.shared.db.payoutBatches.rows, ∃ block,
      p.status = .pending ∧ p.retryKey = some signed.plan.retryKey ∧
      w.shared.db.HasBlock block ∧ block.roundId = p.roundId ∧
      signed.plan.blockHash = block.blockHash ∧
      signed.coinbaseTxid = data.coinbaseTxid block.blockHash := by
  obtain ⟨batch, block, outputs, ⟨p, hp, hfix, hpending⟩, hblock, hround,
    hplan, htxid⟩ := h
  obtain ⟨b, _, ⟨n, hkey⟩, _⟩ := hsound.batch_block hp
  have hbatch : batch.retryKey = some s!"{b.blockHash}:{n}" := by
    rw [← PayoutBatch.retryKey_of_fixed hfix, hkey]
  refine ⟨p, hp, block, hpending, ?_, hblock, ?_, ?_, htxid⟩
  · rw [hplan, hkey]
    simp only [AccountingService.batchPlan, hbatch, Option.getD_some]
  · rw [hround, PayoutBatch.roundId_of_fixed hfix]
  · rw [hplan]
    rfl

/-- The start of the key of a signed plan is that of its batch. -/
theorem startsWith_signed {p : PayoutBatch} {key : String}
    (hkey : p.retryKey = some key) (blockHash : String) :
    key.startsWith blockHash = batchOfBlock blockHash p := by
  unfold batchOfBlock
  rw [hkey, Option.any_some]

end Sound

/-! ## Runs -/

/-- No block has two batches. -/
def OneBatch (db : Database) : Prop :=
  ∀ p ∈ db.payoutBatches.rows, ∀ q ∈ db.payoutBatches.rows,
    ∀ hash : Bytes32, CreatedFor p hash.toHexBe → CreatedFor q hash.toHexBe →
      p = q

section Runs

variable {suite : Suite} {data : ChainData} {config : ServerConfig}

/-- The hash of a block that a section is called with. -/
theorem Sound.hash_of_hasBlock {db : Database} (hsound : Sound data db)
    {block : FoundBlock} (h : db.HasBlock block) :
    ∃ hash : Bytes32, block.blockHash = hash.toHexBe := by
  obtain ⟨b, hb, hfix⟩ := h
  obtain ⟨hash, hhash⟩ := hsound.hash b hb
  exact ⟨hash, (FoundBlock.blockHash_of_fixed hfix).symm.trans hhash⟩

theorem OneBatch.run {w : PoolWorld} {t : Task} {d : DbOp}
    (h : OneBatch w.shared.db) (hsound : Sound data w.shared.db)
    (hg : Grounded suite data w t (.db d)) :
    OneBatch (d.run w.shared.db).2 := by
  intro p' hp' q' hq' hash hcp hcq
  rcases d.batches_cases w.shared.db with
    heq | ⟨block, difficulty, reward, settings, found, n, table, rfl, _, hguard,
      hins, heq⟩ | ⟨change, f, heq, hfix⟩
  · rw [heq] at hp' hq'
    exact h p' hp' q' hq' hash hcp hcq
  · obtain ⟨hash₀, hhash₀⟩ := hsound.hash_of_hasBlock hg.2.1
    obtain ⟨_, _, _, hrows⟩ := Table.insert_some hins
    rw [heq, hrows] at hp' hq'
    -- The guard has seen that no earlier batch is for this block.
    have hnone : ∀ p ∈ w.shared.db.payoutBatches.rows,
        ¬ CreatedFor p hash₀.toHexBe := by
      intro p hp hcreated
      have hexists := (hsound.batchExists_iff hash₀).2 ⟨p, hp, hcreated⟩
      rw [← hhash₀, hguard] at hexists
      cases hexists
    have hnew : CreatedFor { batchRow block (planFor block difficulty reward
        settings found w.shared.db).2 with id := n } hash₀.toHexBe := by
      obtain ⟨m, hm⟩ := planFor_retryKey block difficulty reward settings found
        w.shared.db
      rw [← hhash₀]
      exact ⟨m, congrArg some hm⟩
    rcases List.mem_append.1 hp' with hpold | hpnew <;>
      rcases List.mem_append.1 hq' with hqold | hqnew
    · exact h p' hpold q' hqold hash hcp hcq
    · rw [List.mem_singleton.1 hqnew] at hcq
      have hsame : hash.toHexBe = hash₀.toHexBe := CreatedFor.unique hnew hcq
      exact absurd (hsame ▸ hcp) (hnone p' hpold)
    · rw [List.mem_singleton.1 hpnew] at hcp
      have hsame : hash.toHexBe = hash₀.toHexBe := CreatedFor.unique hnew hcp
      exact absurd (hsame ▸ hcq) (hnone q' hqold)
    · rw [List.mem_singleton.1 hpnew, List.mem_singleton.1 hqnew]
  · rw [heq] at hp' hq'
    obtain ⟨p, hp, rfl⟩ := List.mem_map.1 hp'
    obtain ⟨q, hq, rfl⟩ := List.mem_map.1 hq'
    have hkey : ∀ b, (if change b then f b else b).retryKey = b.retryKey := by
      intro b
      split_ifs
      · exact PayoutBatch.retryKey_of_fixed (hfix b)
      · rfl
    have heqpq : p = q := by
      refine h p hp q hq hash ?_ ?_
      · simpa only [CreatedFor, hkey] using hcp
      · simpa only [CreatedFor, hkey] using hcq
    rw [heqpq]

/-- In every run, no block has two batches.  For a stored block that has none
neither guard refuses, and a call makes one with any settings once the share
of the block is stored. -/
theorem reach_oneBatch {c : PoolConfig}
    (h : (pool suite data config).Reach (fun _ _ => True) c) :
    OneBatch c.world.shared.db ∧
      ∀ block, c.world.shared.db.HasBlock block →
        (∀ p ∈ c.world.shared.db.payoutBatches.rows,
          ¬ CreatedFor p block.blockHash) →
        batchExists c.world.shared.db block.blockHash = false ∧
          c.world.shared.db.payoutBatches.rows.any
            (batchOfBlock block.blockHash) = false ∧
          ∀ difficulty reward settings,
            (foundAt c.world.shared.db block.blockHash).isSome →
              ∃ id, ((DbOp.createPayout block difficulty reward settings).run
                c.world.shared.db).1 = .ok id := by
  have hsound : Sound data c.world.shared.db :=
    (grounding_valid.reach (h.mono fun _ _ _ => trivial)).1
  refine ⟨?_, fun block hblock hnone => ?_⟩
  · refine reach_database (fun _ _ => nofun) (fun now h => h) ?_
      (reach_grounded h)
    exact fun h hok => h.run hok.2.1 hok.2.2
  · obtain ⟨hash, hhash⟩ := hsound.hash_of_hasBlock hblock
    refine ⟨?_, ?_, fun difficulty reward settings hsome => ?_⟩
    · rw [hhash, ← Bool.not_eq_true, hsound.batchExists_iff]
      rintro ⟨p, hp, hcreated⟩
      exact hnone p hp (hhash ▸ hcreated)
    · rw [hhash, List.any_eq_false]
      intro p hp hkey
      obtain ⟨b, hb, hcreated, _⟩ := hsound.batch_block hp
      obtain ⟨hash', hhash'⟩ := hsound.hash b hb
      rw [hhash'] at hcreated
      refine hnone p hp ?_
      rw [hhash, hcreated.batchOfBlock_iff.1 hkey]
      exact hcreated
    · obtain ⟨found, hfound⟩ := Option.isSome_iff_exists.1 hsome
      exact hsound.createPayout_ok hhash hnone hfound difficulty reward settings

/-- A run in which two calls with different settings race for one block, and
the server crashes in between. -/
theorem reach_oneBatch_sample : ∃ c : PoolConfig,
    c.world.shared.db.payoutBatches.rows.length = 1 ∧
      OneBatch c.world.shared.db := by
  let job := sampleJob 7 10 easyTarget
  let hash := sampleHash "00000001" "0a"
  have hrun : (schedule sampleSuite sampleData sampleConfig (fun _ _ => true)
      ["genesis"] (bootsWith job ++ logsIn 0 "lotus_a.rig" ++
        submits 0 (sampleSubmit "lotus_a.rig" job "0a") ++
        [.begin (.http 0) (.triggerPayout hash sampleSettings),
          .run (.http 0) 1 {}] ++
        triggers 1 hash { sampleSettings with feeBps := 100 } ++
        [.run (.http 0) 20 {}, .crash ["genesis"]] ++ bootsWith job ++
        triggers 2 hash sampleSettings)).map
          (fun c => c.world.shared.db.payoutBatches.rows.length) = some 1 := by
    decide +kernel
  obtain ⟨c, hc, hlength⟩ := Option.map_eq_some_iff.1 hrun
  exact ⟨c, hlength, (reach_oneBatch (reach_schedule _ _ _
    (fun _ _ _ => trivial) (by decide) hc)).1⟩

end Runs

end StratumServer
