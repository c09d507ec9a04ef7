import StratumServer.Accounting.Schema

/-!
# Found blocks

The methods of `FoundBlockRepository`, each one section under the lock.
`recordFoundBlock_cases` says when a block is recorded: the hash is
`UNIQUE`, and nothing else stands in the way.
-/

namespace StratumServer

open Sql

namespace FoundBlockRepository

/-- The row that `record_found_block` inserts: the columns that its `INSERT`
names, and `'immature'`.  The other columns get their defaults. -/
def newRow (block : FoundBlock) : FoundBlock where
  roundId := block.roundId
  blockHash := block.blockHash
  height := block.height
  status := .immature
  workerId := block.workerId
  templateId := block.templateId
  persistSource := block.persistSource
  coinbaseValue := block.coinbaseValue
  networkTargetHex := block.networkTargetHex

/-- `FoundBlockRepository::record_found_block`. -/
def recordFoundBlock (block : FoundBlock) (db : Database) :
    DbResult FoundBlock :=
  match db.foundBlocks.insert (newRow block) with
  | some (id, foundBlocks) =>
    (.ok { newRow block with id }, { db with foundBlocks })
  | none => (.error .sqlite, db)

/-- `FoundBlockRepository::mark_orphaned`. -/
def markOrphaned (blockHash : String) (reason : OrphanReason)
    (db : Database) : DbResult Unit :=
  (.ok (), { db with
    foundBlocks := db.foundBlocks.modify (·.blockHash == blockHash)
      (fun b => { b with status := .orphaned, orphanReason := some reason })
      fun _ => ⟨rfl, rfl⟩ })

/-- `FoundBlockRepository::un_orphan`. -/
def unOrphan (blockHash : String) (db : Database) : DbResult Unit :=
  (.ok (), { db with
    foundBlocks := db.foundBlocks.modify
      (fun b => b.blockHash == blockHash && b.status == .orphaned)
      (fun b => { b with status := .immature, orphanReason := none })
      fun _ => ⟨rfl, rfl⟩ })

/-- `FoundBlockRepository::get_by_hash`. -/
def getByHash (blockHash : String) (db : Database) :
    DbResult (Option FoundBlock) :=
  (.ok (db.foundBlocks.rows.find? (·.blockHash == blockHash)), db)

/-- `FoundBlockRepository::get_by_round_id`: the newest block of the round. -/
def getByRoundId (roundId : Nat) (db : Database) :
    DbResult (Option FoundBlock) :=
  (.ok (db.foundBlocks.rows.reverse.find? (·.roundId == roundId)), db)

/-- `FoundBlockRepository::update_status`. -/
def updateStatus (id : Nat) (status : BlockStatus) (db : Database) :
    DbResult Unit :=
  (.ok (), { db with
    foundBlocks := db.foundBlocks.modify (·.id == id)
      (fun b => { b with status }) fun _ => ⟨rfl, rfl⟩ })

/-- `FoundBlockRepository::update_coinbase_txid`. -/
def updateCoinbaseTxid (id : Nat) (coinbaseTxid : String) (db : Database) :
    DbResult Unit :=
  (.ok (), { db with
    foundBlocks := db.foundBlocks.modify (·.id == id)
      (fun b => { b with coinbaseTxid := some coinbaseTxid })
      fun _ => ⟨rfl, rfl⟩ })

/-- `FoundBlockRepository::mark_matured`. -/
def markMatured (id : Nat) (db : Database) : DbResult Unit :=
  (.ok (), { db with
    foundBlocks := db.foundBlocks.modify (·.id == id)
      (fun b => { b with status := .matured, maturedAt := some db.now })
      fun _ => ⟨rfl, rfl⟩ })

/-- `FoundBlockRepository::list`, newest first. -/
def list (statusFilter : Option BlockStatus) (db : Database) :
    DbResult (List FoundBlock) :=
  (.ok (db.foundBlocks.rows.reverse.filter fun b =>
    statusFilter.all (b.status == ·)), db)

/-- A block is recorded unless its hash is there already. -/
theorem recordFoundBlock_cases (block : FoundBlock) (db : Database) :
    ((∃ b ∈ db.foundBlocks.rows, b.blockHash = block.blockHash) ∧
        recordFoundBlock block db = (.error .sqlite, db)) ∨
      ∃ foundBlocks, db.foundBlocks.insert (newRow block) =
          some (db.foundBlocks.seq + 1, foundBlocks) ∧
        foundBlocks.rows = db.foundBlocks.rows ++
          [{ newRow block with id := db.foundBlocks.seq + 1 }] ∧
        recordFoundBlock block db =
          (.ok { newRow block with id := db.foundBlocks.seq + 1 },
            { db with foundBlocks }) := by
  unfold recordFoundBlock
  cases h : db.foundBlocks.insert (newRow block) with
  | none =>
    obtain ⟨b, hb, k, hkb, hk⟩ := Table.insert_none h
    refine Or.inl ⟨⟨b, hb, ?_⟩, rfl⟩
    exact Option.some.inj (hkb.trans hk.symm)
  | some r =>
    obtain ⟨n, foundBlocks⟩ := r
    obtain ⟨_, rfl, _, hrows⟩ := Table.insert_some h
    exact Or.inr ⟨foundBlocks, rfl, hrows, rfl⟩

end FoundBlockRepository

end StratumServer
