import StratumServer.Blocks.Rounds
import StratumServer.Payouts.Maturity

/-!
# Which block a batch spends and settles

Signing, rebuilding and confirming go from a batch to its block through the
round: they take the newest block of the round of the batch.  This is the
block that the batch was created for as long as no round has two blocks.

`settles_own` is the result for the runs in which every block is recorded in
a round of its own.  `spendsOwn_fails` is a run in which two sessions record
their blocks in one round, and a batch then spends the coinbase of the other
block.
-/

namespace StratumServer

open Sql Tasks

/-! ## The steps -/

/-- The batch and the block that an entry of the log rebuilds a plan for. -/
def rebuilding : PoolEntry → Option (Nat × FoundBlock)
  | .did _ (.db (.rebuildPayout batchId block _ _ _)) _ => some (batchId, block)
  | _ => none

/-- The batch that an entry of the log confirms, and the block that it sets
to another status. -/
def settling (w : PoolWorld) : PoolEntry → Option (Nat × Nat)
  | .did t (.db (.updateStatus id _)) _ =>
    (confirming t w.log).map fun batchId => (batchId, id)
  | _ => none

/-- What is signed for a batch spends the coinbase of the block that it was
created for. -/
def SpendsOwn (data : ChainData) (w : PoolWorld) (e : PoolEntry) : Prop :=
  ∀ signed ∈ signing e, ∀ b ∈ w.shared.db.foundBlocks.rows,
    signed.plan.retryKey.startsWith b.blockHash = true →
      signed.coinbaseTxid = data.coinbaseTxid b.blockHash ∧
        signed.plan.blockHash = b.blockHash

instance (data : ChainData) (w : PoolWorld) (e : PoolEntry) :
    Decidable (SpendsOwn data w e) :=
  inferInstanceAs (Decidable (∀ _ ∈ _, ∀ _ ∈ _, _ → _ ∧ _))

/-- What is signed, rebuilt and settled for a batch concerns the block that
it was created for, and so does every lookup of the block of its round. -/
structure SettlesOwn (data : ChainData) (w : PoolWorld) (e : PoolEntry) :
    Prop where
  lookup : ∀ p ∈ w.shared.db.payoutBatches.rows,
    ∀ b ∈ w.shared.db.foundBlocks.rows, batchOfBlock b.blockHash p = true →
      ((DbOp.getByRoundId p.roundId).run w.shared.db).1 = .ok (some b)
  signs : SpendsOwn data w e
  rebuilds : ∀ x ∈ rebuilding e, ∀ p ∈ w.shared.db.payoutBatches.rows,
    p.id = x.1 → ∀ b ∈ w.shared.db.foundBlocks.rows,
      batchOfBlock b.blockHash p = true → x.2.fixed = b.fixed
  settles : ∀ x ∈ settling w e, ∀ p ∈ w.shared.db.payoutBatches.rows,
    p.id = x.1 → ∀ b ∈ w.shared.db.foundBlocks.rows,
      batchOfBlock b.blockHash p = true → b.id = x.2

instance (data : ChainData) (w : PoolWorld) (e : PoolEntry) :
    Decidable (SettlesOwn data w e) :=
  decidable_of_iff
    ((∀ p ∈ w.shared.db.payoutBatches.rows,
        ∀ b ∈ w.shared.db.foundBlocks.rows, batchOfBlock b.blockHash p = true →
          ((DbOp.getByRoundId p.roundId).run w.shared.db).1 = .ok (some b)) ∧
      SpendsOwn data w e ∧
      (∀ x ∈ rebuilding e, ∀ p ∈ w.shared.db.payoutBatches.rows,
        p.id = x.1 → ∀ b ∈ w.shared.db.foundBlocks.rows,
          batchOfBlock b.blockHash p = true → x.2.fixed = b.fixed) ∧
      ∀ x ∈ settling w e, ∀ p ∈ w.shared.db.payoutBatches.rows,
        p.id = x.1 → ∀ b ∈ w.shared.db.foundBlocks.rows,
          batchOfBlock b.blockHash p = true → b.id = x.2)
    ⟨fun ⟨h₁, h₂, h₃, h₄⟩ => ⟨h₁, h₂, h₃, h₄⟩,
      fun h => ⟨h.lookup, h.signs, h.rebuilds, h.settles⟩⟩

/-! ## One block for each round -/

section OneBlock

variable {suite : Suite} {data : ChainData} {config : ServerConfig}

variable {db : Database}

/-- A block of the round of a batch is the block of the batch. -/
theorem OneBlock.fixed_eq (hone : OneBlock db) (hsound : Sound data db)
    {p : PayoutBatch} (hp : p ∈ db.payoutBatches.rows) {block : FoundBlock}
    (hblock : db.HasBlock block) (hround : block.roundId = p.roundId)
    {b : FoundBlock} (hb : b ∈ db.foundBlocks.rows)
    (hkey : batchOfBlock b.blockHash p = true) : block.fixed = b.fixed := by
  obtain ⟨b₀, hb₀, _, hround₀, hunique⟩ := hsound.batch_block hp
  obtain ⟨a, ha, hfix⟩ := hblock
  have hb₀' : b = b₀ := (hunique b hb).1 hkey
  have hrounds : a.roundId = b.roundId := by
    rw [hb₀', ← hround₀, ← hround, FoundBlock.roundId_of_fixed hfix]
  rw [← hfix, hone a ha b hb hrounds]

/-- The lookup through the round finds the block of a batch. -/
theorem OneBlock.lookup (hone : OneBlock db) (hsound : Sound data db)
    {p : PayoutBatch} (hp : p ∈ db.payoutBatches.rows) {b : FoundBlock}
    (hb : b ∈ db.foundBlocks.rows) (hkey : batchOfBlock b.blockHash p = true) :
    ((DbOp.getByRoundId p.roundId).run db).1 = .ok (some b) := by
  obtain ⟨b₀, hb₀, _, hround, hunique⟩ := hsound.batch_block hp
  have hb₀' : b = b₀ := (hunique b hb).1 hkey
  have hround' : b.roundId = p.roundId := by rw [hb₀', hround]
  have hsome : (db.foundBlocks.rows.reverse.find?
      (·.roundId == p.roundId)).isSome := by
    rw [List.find?_isSome]
    exact ⟨b, List.mem_reverse.2 hb, by simpa using hround'⟩
  obtain ⟨a, ha⟩ := Option.isSome_iff_exists.1 hsome
  have hlookup : ((DbOp.getByRoundId p.roundId).run db).1 = .ok (some a) :=
    congrArg Except.ok ha
  obtain ⟨hmem, haround⟩ := getByRoundId_some hlookup
  rw [hlookup, hone a hmem b hb (haround.trans hround'.symm)]

/-! ## Runs -/

theorem rebuilding_some {e : PoolEntry} {x : Nat × FoundBlock}
    (h : rebuilding e = some x) : ∃ t difficulty reward settings r,
      e = .did t (.db (.rebuildPayout x.1 x.2 difficulty reward settings))
        r := by
  cases e with
  | did t o r =>
    cases o with
    | db d =>
      cases d with
      | rebuildPayout batchId block difficulty reward settings =>
        cases h
        exact ⟨t, difficulty, reward, settings, r, rfl⟩
      | _ => cases h
    | _ => cases h
  | _ => cases h

theorem settling_some {w : PoolWorld} {e : PoolEntry} {x : Nat × Nat}
    (h : settling w e = some x) : ∃ t status r,
      e = .did t (.db (.updateStatus x.2 status)) r ∧
        confirming t w.log = some x.1 := by
  cases e with
  | did t o r =>
    cases o with
    | db d =>
      cases d with
      | updateStatus id status =>
        obtain ⟨batchId, hbatch, rfl⟩ := Option.map_eq_some_iff.1 h
        exact ⟨t, status, r, rfl, hbatch⟩
      | _ => cases h
    | _ => cases h
  | _ => cases h

/-- In every run in which each block gets a round of its own, a batch spends
and settles the block that it was created for. -/
theorem settles_own :
    (pool suite data config).Turns OwnRound (SettlesOwn data) := by
  intro c c' e h hok hstep
  have hone := reach_oneBlock h
  obtain ⟨hsound, hground⟩ := turns_grounded h hok hstep
  refine ⟨fun p hp b hb hkey => hone.lookup hsound hp hb hkey, ?_, ?_, ?_⟩
  · intro signed hsigned b hb hstart
    obtain ⟨t, r, rfl⟩ := signing_some hsigned
    obtain ⟨p, hp, block, _, hkey, hblock, hround, hhash, htxid⟩ :=
      OnRows.signed hsound hground.2
    rw [startsWith_signed hkey] at hstart
    have hfix := hone.fixed_eq hsound hp hblock hround hb hstart
    rw [htxid, hhash, FoundBlock.blockHash_of_fixed hfix]
    exact ⟨rfl, rfl⟩
  · intro x hx p hp hid b hb hkey
    obtain ⟨t, difficulty, reward, settings, r, rfl⟩ := rebuilding_some hx
    obtain ⟨hblock, _, _, batch, ⟨p', hp', hfix, _⟩, hid', hround⟩ := hground.2
    have hpp : p = p' := by
      refine c.world.shared.db.payoutBatches.eq_of_id hp hp' ?_
      exact hid.trans (hid'.symm.trans (PayoutBatch.id_of_fixed hfix).symm)
    refine hone.fixed_eq hsound hp hblock ?_ hb hkey
    rw [hpp, PayoutBatch.roundId_of_fixed hfix, hround]
  · intro x hx p hp hid b hb hkey
    obtain ⟨t, status, r, rfl, hconfirming⟩ := settling_some hx
    obtain ⟨batch, block, ⟨p', hp', hfix, _⟩, hblock, hconfirming', hid', hround⟩ :=
      hground.2
    have hbatch : x.1 = batch.id :=
      Option.some.inj (hconfirming.symm.trans hconfirming')
    have hpp : p = p' := by
      refine c.world.shared.db.payoutBatches.eq_of_id hp hp' ?_
      exact hid.trans (hbatch.trans (PayoutBatch.id_of_fixed hfix).symm)
    have hblockfix := hone.fixed_eq hsound hp hblock (by
      rw [hpp, PayoutBatch.roundId_of_fixed hfix, hround]) hb hkey
    rw [← hid', FoundBlock.id_of_fixed hblockfix]

end OneBlock

/-- Both blocks are paid out, and the first payout is confirmed. -/
def paysTwo : List Scene :=
  let replies : Replies := { rawTx := .ok sampleTx, signed := .ok "txid" }
  triggers 0 (sampleHash "00000001" "0a") sampleSettings ++
    triggers 1 (sampleHash "00000002" "0b") sampleSettings ++
    connects (sampleHash "00000001" "0a") 1 ++
    handles (.blockConnected []) replies ++
    connects (sampleHash "00000002" "0b") 2 ["txid"] ++
    handles (.blockMatured (sampleHash "00000001" "0a")) replies ++
    handles (.blockConnected ["txid"]) replies

/-- A run in which two payouts are signed and settled. -/
theorem settles_own_sample : ∃ c : PoolConfig,
    schedule sampleSuite sampleData sampleConfig
        (fun w e => decide (OwnRound w e) &&
          decide (SettlesOwn sampleData w e)) ["genesis"]
        (findsTwo 50 ++ paysTwo) = some c ∧
      (c.world.log.filterMap signing).length = 2 ∧
      c.world.shared.db.foundBlocks.rows.map (·.status) = [.paid, .paid] := by
  have hrun : (schedule sampleSuite sampleData sampleConfig
      (fun w e => decide (OwnRound w e)) ["genesis"]
      (findsTwo 50 ++ paysTwo)).map
        (fun c => ((c.world.log.filterMap signing).length,
          c.world.shared.db.foundBlocks.rows.map (·.status))) =
      some (2, [.paid, .paid]) := by
    decide +kernel
  obtain ⟨c, hc, hend⟩ := Option.map_eq_some_iff.1 hrun
  obtain ⟨hlength, hstatus⟩ := Prod.mk.inj hend
  exact ⟨c, turns_schedule _ _ _ settles_own
    (fun _ _ h => of_decide_eq_true h) (by decide) hc, hlength, hstatus⟩

/-- The first session records its block after the second one has closed the
round, and gets the same round.  A batch then spends the coinbase of the
other block. -/
theorem spendsOwn_fails :
    ¬ (pool sampleSuite sampleData sampleConfig).Turns (fun _ _ => True)
      (SpendsOwn sampleData) :=
  not_turns _ _ _ ["genesis"] (by decide) (findsTwo 8 ++ paysTwo)
    (by decide +kernel) (by decide +kernel)

end StratumServer
