import StratumServer.System.Pool

/-!
# What an operation leaves

Only a section under the connection lock changes the database, and each
section changes few tables.  The results here say once what a section can
do, so that no later proof has to look into it.

There are three groups.

* `DbOp.writes` names the tables that a section changes, and the lemmas
  after it say that the other tables stay.
* Found blocks and payout batches are never deleted, and most of their
  columns never change.  `fixed` cuts a row down to those columns.
  `DbOp.blocks_cases` and `DbOp.batches_cases` say what a section can do to
  them; the lemmas after these two follow a row through a section.
* The rules for runs.  `sem_database` is the inversion of an operation, and
  `reach_database` the induction over the runs of the server for
  properties of the database.
-/

namespace StratumServer

open Sql Tasks

/-! ## Tables that a section changes -/

/-- The tables that the results speak about. -/
inductive TableName
  | workers | shares | shareOutcomes | rounds | foundBlocks | payoutBatches
  deriving DecidableEq

/-- The tables that a section changes. -/
def DbOp.writes : DbOp → TableName → Bool
  | .upsert .., .workers => true
  | .insertShareAndOutcomeAtomic .., .shares => true
  | .insertShareAndOutcomeAtomic .., .shareOutcomes => true
  | .updateOutcomeNodeResult .., .shareOutcomes => true
  | .getOrCreateCurrentRound .., .rounds => true
  | .closeRound .., .rounds => true
  | .recordFoundBlock .., .foundBlocks => true
  | .markOrphaned .., .foundBlocks => true
  | .unOrphan .., .foundBlocks => true
  | .updateStatus .., .foundBlocks => true
  | .updateCoinbaseTxid .., .foundBlocks => true
  | .markMatured .., .foundBlocks => true
  | .updateBatchStatus .., .payoutBatches => true
  | .markBatchSubmitted .., .payoutBatches => true
  | .createPayout .., .payoutBatches => true
  | _, _ => false

/-- The part of the database that the results speak about is the same in
`db` and `db'`, apart from the tables that `d` changes. -/
structure DbOp.Frame (d : DbOp) (db db' : Database) : Prop where
  now : db'.now = db.now
  workers : d.writes .workers = false → db'.workers = db.workers
  shares : d.writes .shares = false → db'.shares = db.shares
  shareOutcomes : d.writes .shareOutcomes = false →
    db'.shareOutcomes = db.shareOutcomes
  rounds : d.writes .rounds = false → db'.rounds = db.rounds
  foundBlocks : d.writes .foundBlocks = false →
    db'.foundBlocks = db.foundBlocks
  payoutBatches : d.writes .payoutBatches = false →
    db'.payoutBatches = db.payoutBatches

theorem DbOp.frame (d : DbOp) (db : Database) : d.Frame db (d.run db).2 := by
  cases d with
  | upsert a w =>
    obtain ⟨_, _, h, _⟩ := WorkerRepository.upsert_cases a w db
    simp only [DbOp.run, h]
    constructor <;> simp [DbOp.writes]
  | insertShareAndOutcomeAtomic s o =>
    obtain ⟨_, _, _, _, _, _, h, _⟩ :=
      ShareRepository.insertShareAndOutcomeAtomic_cases s o db
    simp only [DbOp.run, h]
    constructor <;> simp [DbOp.writes]
  | recordEvent e =>
    simp only [DbOp.run, AccountingEventRepository.recordEvent]
    split <;> constructor <;> simp
  | getOrCreateCurrentRound t =>
    simp only [DbOp.run, RoundRepository.getOrCreateCurrentRound]
    split
    · constructor <;> simp
    · split <;> constructor <;> simp [DbOp.writes]
  | recordFoundBlock b =>
    simp only [DbOp.run, FoundBlockRepository.recordFoundBlock]
    split <;> constructor <;> simp [DbOp.writes]
  | createPayout b d g s =>
    simp only [DbOp.run]
    rcases createPayoutSection_cases b d g s db with
      ⟨e, h⟩ | ⟨_, _, _, _, _, _, _, _, _, _, h⟩ <;> rw [h] <;>
      constructor <;> simp [DbOp.writes]
  | rebuildPayout i b d g s =>
    obtain ⟨_, _, _, h⟩ := rebuildPayoutSection_frame i b d g s db
    simp only [DbOp.run, h]
    constructor <;> simp
  | _ => constructor <;> first | exact fun _ => rfl | rfl | (intro h; cases h)

/-! ## Rows that change in few columns -/

/-- The columns of a found block that no statement changes. -/
def FoundBlock.fixed (b : FoundBlock) : FoundBlock :=
  { b with status := .immature, orphanReason := none, maturedAt := none,
           coinbaseTxid := none }

/-- The columns of a payout batch that no statement changes. -/
def PayoutBatch.fixed (b : PayoutBatch) : PayoutBatch :=
  { b with status := .pending, submittedTxid := none }

namespace FoundBlock

variable {b b' : FoundBlock}

theorem id_of_fixed (h : b.fixed = b'.fixed) : b.id = b'.id := by
  have hid := congrArg FoundBlock.id h
  exact hid

theorem roundId_of_fixed (h : b.fixed = b'.fixed) :
    b.roundId = b'.roundId := by
  have hround := congrArg FoundBlock.roundId h
  exact hround

theorem blockHash_of_fixed (h : b.fixed = b'.fixed) :
    b.blockHash = b'.blockHash := by
  have hhash := congrArg FoundBlock.blockHash h
  exact hhash

theorem height_of_fixed (h : b.fixed = b'.fixed) : b.height = b'.height := by
  have hheight := congrArg FoundBlock.height h
  exact hheight

end FoundBlock

namespace PayoutBatch

variable {b b' : PayoutBatch}

theorem id_of_fixed (h : b.fixed = b'.fixed) : b.id = b'.id := by
  have hid := congrArg PayoutBatch.id h
  exact hid

theorem roundId_of_fixed (h : b.fixed = b'.fixed) :
    b.roundId = b'.roundId := by
  have hround := congrArg PayoutBatch.roundId h
  exact hround

theorem retryKey_of_fixed (h : b.fixed = b'.fixed) :
    b.retryKey = b'.retryKey := by
  have hkey := congrArg PayoutBatch.retryKey h
  exact hkey

end PayoutBatch

namespace DbOp

/-- Workers stay. -/
theorem workers_forward (d : DbOp) {db : Database} {w : Worker}
    (hw : w ∈ db.workers.rows) : w ∈ (d.run db).2.workers.rows := by
  cases d with
  | upsert a s =>
    obtain ⟨_, _, hrun, _, _, _, hkeep⟩ :=
      WorkerRepository.upsert_cases a s db
    simp only [DbOp.run, hrun]
    exact hkeep w hw
  | _ =>
    rw [(frame _ db).workers rfl]
    exact hw

/-- What a section can do to the found blocks. -/
theorem blocks_cases (d : DbOp) (db : Database) :
    (d.run db).2.foundBlocks = db.foundBlocks ∨
      (∃ block n t, d = .recordFoundBlock block ∧
        db.foundBlocks.insert (FoundBlockRepository.newRow block) =
          some (n, t) ∧ (d.run db).2.foundBlocks = t) ∨
      ∃ (p : FoundBlock → Bool) (f : FoundBlock → FoundBlock),
        (d.run db).2.foundBlocks.rows =
          (db.foundBlocks.rows.map fun b => if p b then f b else b) ∧
        ∀ b, (f b).fixed = b.fixed := by
  cases d with
  | recordFoundBlock block =>
    rcases FoundBlockRepository.recordFoundBlock_cases block db with
      ⟨_, h⟩ | ⟨t, hins, _, h⟩
    · refine Or.inl ?_
      simp only [DbOp.run, h]
    · refine Or.inr (Or.inl ⟨block, _, t, rfl, hins, ?_⟩)
      simp only [DbOp.run, h]
  | markOrphaned h r =>
    exact Or.inr (Or.inr ⟨_, _, rfl, fun _ => rfl⟩)
  | unOrphan h =>
    exact Or.inr (Or.inr ⟨_, _, rfl, fun _ => rfl⟩)
  | updateStatus i s =>
    exact Or.inr (Or.inr ⟨_, _, rfl, fun _ => rfl⟩)
  | updateCoinbaseTxid i t =>
    exact Or.inr (Or.inr ⟨_, _, rfl, fun _ => rfl⟩)
  | markMatured i =>
    exact Or.inr (Or.inr ⟨_, _, rfl, fun _ => rfl⟩)
  | _ => exact Or.inl ((frame _ db).foundBlocks rfl)

/-- A found block stays. -/
theorem blocks_forward (d : DbOp) {db : Database} {b : FoundBlock}
    (hb : b ∈ db.foundBlocks.rows) :
    ∃ b' ∈ (d.run db).2.foundBlocks.rows, b'.fixed = b.fixed := by
  rcases d.blocks_cases db with h | ⟨_, _, t, _, hins, h⟩ | ⟨p, f, h, hfix⟩
  · exact ⟨b, h ▸ hb, rfl⟩
  · exact ⟨b, h ▸ Table.mem_of_insert hins hb, rfl⟩
  · refine ⟨if p b then f b else b, ?_, ?_⟩
    · rw [h]
      exact List.mem_map.2 ⟨b, hb, rfl⟩
    · split_ifs
      · exact hfix b
      · rfl

/-- A found block was there before, or it has just been recorded. -/
theorem blocks_backward {d : DbOp} {db : Database} {b' : FoundBlock}
    (hb' : b' ∈ (d.run db).2.foundBlocks.rows) :
    (∃ b ∈ db.foundBlocks.rows, b.fixed = b'.fixed) ∨
      ∃ block n, d = .recordFoundBlock block ∧
        b' = { FoundBlockRepository.newRow block with id := n } := by
  rcases d.blocks_cases db with
    h | ⟨block, n, t, hd, hins, h⟩ | ⟨p, f, h, hfix⟩
  · exact Or.inl ⟨b', h ▸ hb', rfl⟩
  · obtain ⟨_, _, _, hrows⟩ := Table.insert_some hins
    rw [h, hrows] at hb'
    rcases List.mem_append.1 hb' with hold | hnew
    · exact Or.inl ⟨b', hold, rfl⟩
    · exact Or.inr ⟨block, n, hd, List.mem_singleton.1 hnew⟩
  · rw [h] at hb'
    obtain ⟨b, hb, rfl⟩ := List.mem_map.1 hb'
    refine Or.inl ⟨b, hb, ?_⟩
    split_ifs
    · exact (hfix b).symm
    · rfl

/-- What a section can do to the rounds. -/
theorem rounds_cases (d : DbOp) (db : Database) :
    (d.run db).2.rounds = db.rounds ∨
      (∃ templateId n t, d = .getOrCreateCurrentRound templateId ∧
        db.rounds.insert { startTemplateId := templateId } = some (n, t) ∧
        (d.run db).2.rounds = t) ∨
      ∃ id endTemplateId status, d = .closeRound id endTemplateId status ∧
        (d.run db).2.rounds.seq = db.rounds.seq ∧
        (d.run db).2.rounds.rows = (db.rounds.rows.map fun r =>
          if r.id == id then { r with endTemplateId := some endTemplateId, status }
          else r) := by
  cases d with
  | getOrCreateCurrentRound templateId =>
    simp only [DbOp.run, RoundRepository.getOrCreateCurrentRound]
    split
    · exact Or.inl rfl
    · cases h : db.rounds.insert { startTemplateId := templateId } with
      | none => exact Or.inl rfl
      | some x => exact Or.inr (Or.inl ⟨templateId, x.1, x.2, rfl, h, rfl⟩)
  | closeRound id endTemplateId status =>
    exact Or.inr (Or.inr ⟨id, endTemplateId, status, rfl, rfl, rfl⟩)
  | _ => exact Or.inl ((frame _ db).rounds rfl)

/-- What a section can do to the payout batches. -/
theorem batches_cases (d : DbOp) (db : Database) :
    (d.run db).2.payoutBatches = db.payoutBatches ∨
      (∃ block difficulty reward settings found n t,
        d = .createPayout block difficulty reward settings ∧
        foundAt db block.blockHash = some found ∧
        batchExists db block.blockHash = false ∧
        db.payoutBatches.insert (batchRow block
            (planFor block difficulty reward settings found db).2) =
          some (n, t) ∧
        (d.run db).2.payoutBatches = t) ∨
      ∃ (p : PayoutBatch → Bool) (f : PayoutBatch → PayoutBatch),
        (d.run db).2.payoutBatches.rows =
          (db.payoutBatches.rows.map fun b => if p b then f b else b) ∧
        ∀ b, (f b).fixed = b.fixed := by
  cases d with
  | createPayout block difficulty reward settings =>
    rcases createPayoutSection_cases block difficulty reward settings db with
      ⟨e, h⟩ | ⟨found, n, t, _, _, _, _, hfound, hnone, hins, h⟩
    · refine Or.inl ?_
      simp only [DbOp.run, h]
    · refine Or.inr (Or.inl ⟨block, difficulty, reward, settings, found, n, t,
        rfl, hfound, hnone, hins, ?_⟩)
      simp only [DbOp.run, h]
  | updateBatchStatus i s =>
    exact Or.inr (Or.inr ⟨_, _, rfl, fun _ => rfl⟩)
  | markBatchSubmitted i t =>
    exact Or.inr (Or.inr ⟨_, _, rfl, fun _ => rfl⟩)
  | _ => exact Or.inl ((frame _ db).payoutBatches rfl)

/-- Creating a batch leaves the others as they are. -/
theorem mem_createPayout {block : FoundBlock} {difficulty : ℚ} {reward : Int}
    {settings : PayoutSettings} {db : Database} {b : PayoutBatch}
    (hb : b ∈ db.payoutBatches.rows) : b ∈ ((DbOp.createPayout block difficulty
      reward settings).run db).2.payoutBatches.rows := by
  rcases createPayoutSection_cases block difficulty reward settings db with
    ⟨e, h⟩ | ⟨_, _, _, _, _, _, _, _, _, hins, h⟩
  · simpa only [DbOp.run, h] using hb
  · simpa only [DbOp.run, h] using Table.mem_of_insert hins hb

/-- A payout batch stays. -/
theorem batches_forward (d : DbOp) {db : Database} {b : PayoutBatch}
    (hb : b ∈ db.payoutBatches.rows) :
    ∃ b' ∈ (d.run db).2.payoutBatches.rows, b'.fixed = b.fixed := by
  rcases d.batches_cases db with
    h | ⟨_, _, _, _, _, _, t, _, _, _, hins, h⟩ | ⟨p, f, h, hfix⟩
  · exact ⟨b, h ▸ hb, rfl⟩
  · exact ⟨b, h ▸ Table.mem_of_insert hins hb, rfl⟩
  · refine ⟨if p b then f b else b, ?_, ?_⟩
    · rw [h]
      exact List.mem_map.2 ⟨b, hb, rfl⟩
    · split_ifs
      · exact hfix b
      · rfl

/-- A payout batch was there before, or it has just been created. -/
theorem batches_backward {d : DbOp} {db : Database} {b' : PayoutBatch}
    (hb' : b' ∈ (d.run db).2.payoutBatches.rows) :
    (∃ b ∈ db.payoutBatches.rows, b.fixed = b'.fixed) ∨
      ∃ block difficulty reward settings found n,
        d = .createPayout block difficulty reward settings ∧
        batchExists db block.blockHash = false ∧
        b' = { batchRow block
          (planFor block difficulty reward settings found db).2 with id := n }
      := by
  rcases d.batches_cases db with
    h | ⟨block, difficulty, reward, settings, found, n, t, hd, _, hnone, hins,
      h⟩ | ⟨p, f, h, hfix⟩
  · exact Or.inl ⟨b', h ▸ hb', rfl⟩
  · obtain ⟨_, _, _, hrows⟩ := Table.insert_some hins
    rw [h, hrows] at hb'
    rcases List.mem_append.1 hb' with hold | hnew
    · exact Or.inl ⟨b', hold, rfl⟩
    · exact Or.inr ⟨block, difficulty, reward, settings, found, n, hd, hnone,
        List.mem_singleton.1 hnew⟩
  · rw [h] at hb'
    obtain ⟨b, hb, rfl⟩ := List.mem_map.1 hb'
    refine Or.inl ⟨b, hb, ?_⟩
    split_ifs
    · exact (hfix b).symm
    · rfl

end DbOp

/-! ## Runs -/

variable {suite : Suite} {data : ChainData} {config : ServerConfig}

/-- A section succeeds with what it computes, or it fails and changes
nothing. -/
theorem sem_db {d : DbOp} {s s' : Pool} {r : Except Error d.Res}
    (h : (pool suite data config).sem (.db d) s r s') :
    (r = (d.run s.db).1 ∧ s' = { s with db := (d.run s.db).2 }) ∨
      (∃ e, r = .error e) ∧ s' = s := by
  rcases h with h | h
  · exact Or.inl (Prod.mk.inj h)
  · exact Or.inr h

/-- What an operation can do to what the tasks share. -/
inductive PoolChange (s : Pool) : (o : Op) → o.Res → Pool → Prop
  | nothing {o : Op} {r : o.Res} : PoolChange s o r s
  | database (d : DbOp) :
      PoolChange s (.db d) (d.run s.db).1 { s with db := (d.run s.db).2 }
  | jobCache (job : MiningJob) : PoolChange s (.jobCacheInsert job) ()
      { s with jobCache := s.jobCache.insert job }
  | broadcast (job : MiningJob) : PoolChange s (.sendJob job) ()
      { s with broadcast := job :: s.broadcast }
  | chainTip (height : Int) : PoolChange s (.updateBlockConnected height) ()
      { s with chainTip := ChainTip.updateBlockConnected s.chainTip height }
  | channel (event : PayoutEvent) : PoolChange s (.send event) ()
      { s with channel := s.channel ++ [event] }
  | received (blockHex hash : String) (r : Except Error (Option String)) :
      PoolChange s (.submitBlock blockHex) r
        { s with node.received := hash :: s.node.received }
  | respond (i : Nat) (state : SessionState) (response : StratumResponse) :
      PoolChange s (.respond i state response) () (s.setSession i (some state))
  | closeSession (i : Nat) :
      PoolChange s (.closeSession i) () (s.setSession i none)
  | httpUp : PoolChange s .spawnHttp () { s with httpUp := true }
  | consumerUp : PoolChange s .spawnConsumer () { s with consumerUp := true }
  | handlerUp : PoolChange s .spawnHandler () { s with handlerUp := true }
  | stratumUp : PoolChange s .spawnStratum () { s with stratumUp := true }

theorem sem_change {o : Op} {s s' : Pool} {r : o.Res}
    (h : (pool suite data config).sem o s r s') : PoolChange s o r s' := by
  cases o with
  | db d =>
    rcases sem_db h with ⟨rfl, rfl⟩ | ⟨_, rfl⟩
    · exact .database d
    · exact .nothing
  | submitBlock hex =>
    rcases h with rfl | ⟨rfl, _⟩
    · exact .received hex _ r
    · exact .nothing
  | spawnConsumer =>
    rcases h with rfl | rfl
    · exact .consumerUp
    · exact .nothing
  | jobCacheGet _ | chainTipGet =>
    obtain ⟨_, rfl⟩ := h
    exact .nothing
  | getBlock _ =>
    obtain ⟨rfl, _⟩ := h
    exact .nothing
  | _ =>
    cases h
    constructor

/-- Only sections change the database. -/
theorem sem_database {o : Op} {s s' : Pool} {r : o.Res}
    (h : (pool suite data config).sem o s r s') :
    s'.db = s.db ∨ ∃ d, o = .db d ∧ HEq r (d.run s.db).1 ∧
      s' = { s with db := (d.run s.db).2 } := by
  cases sem_change h with
  | database d => exact Or.inr ⟨d, rfl, HEq.rfl, rfl⟩
  | _ => exact Or.inl rfl

/-- Only the end of a request changes a session. -/
theorem sem_sessions {o : Op} {s s' : Pool} {r : o.Res}
    (h : (pool suite data config).sem o s r s') :
    s'.sessions = s.sessions ∨
      (∃ i st resp, o = .respond i st resp ∧
        s' = s.setSession i (some st)) ∨
      ∃ i, o = .closeSession i ∧ s' = s.setSession i none := by
  cases sem_change h with
  | respond i st resp => exact Or.inr (Or.inl ⟨i, st, resp, rfl, rfl⟩)
  | closeSession i => exact Or.inr (Or.inr ⟨i, rfl, rfl⟩)
  | _ => exact Or.inl rfl

/-- Only a new job changes the job cache. -/
theorem sem_jobCache {o : Op} {s s' : Pool} {r : o.Res}
    (h : (pool suite data config).sem o s r s') :
    s'.jobCache = s.jobCache ∨ ∃ job, o = .jobCacheInsert job ∧
      s'.jobCache = s.jobCache.insert job := by
  cases sem_change h with
  | jobCache job => exact Or.inr ⟨job, rfl, rfl⟩
  | _ => exact Or.inl rfl

/-- Only `send` touches the channel. -/
theorem sem_channel {o : Op} {s s' : Pool} {r : o.Res}
    (h : (pool suite data config).sem o s r s') :
    s'.channel = s.channel ∨
      ∃ event, o = .send event ∧ s'.channel = s.channel ++ [event] := by
  cases sem_change h with
  | channel event => exact Or.inr ⟨event, rfl, rfl⟩
  | _ => exact Or.inl rfl

/-- No operation moves the chain of the node. -/
theorem sem_chain {o : Op} {s s' : Pool} {r : o.Res}
    (h : (pool suite data config).sem o s r s') :
    s'.node.chain = s.node.chain := by
  cases sem_change h <;> rfl

/-- A consumer that has been started stays. -/
theorem sem_consumerUp {o : Op} {s s' : Pool} {r : o.Res}
    (h : (pool suite data config).sem o s r s') (hup : s.consumerUp = true) :
    s'.consumerUp = true := by
  cases sem_change h with
  | consumerUp => rfl
  | _ => exact hup

/-- Only `update_block_connected` changes the tip. -/
theorem sem_chainTip {o : Op} {s s' : Pool} {r : o.Res}
    (h : (pool suite data config).sem o s r s') :
    s'.chainTip = s.chainTip ∨ ∃ height, o = .updateBlockConnected height ∧
      s'.chainTip = ChainTip.updateBlockConnected s.chainTip height := by
  cases sem_change h with
  | chainTip height => exact Or.inr ⟨height, rfl, rfl⟩
  | _ => exact Or.inl rfl

/-- Beginning work does not touch the database. -/
theorem start_database {t : Task} {k : Work} {s s' : Pool} {p : Body Unit}
    (h : Start suite config t k s p s') : s'.db = s.db := by
  cases h <;> rfl

/-- Beginning work does not touch the channel, unless the handler takes an
event from it. -/
theorem start_channel {t : Task} {k : Work} {s s' : Pool} {p : Body Unit}
    (h : Start suite config t k s p s') :
    (s'.channel = s.channel ∧ ∀ event settings, k ≠ .payoutEvent event settings) ∨
      ∃ event settings, t = .handler ∧ k = .payoutEvent event settings ∧
        s.channel = event :: s'.channel := by
  cases h with
  | payoutEvent hup hchannel =>
    exact Or.inr ⟨_, _, rfl, rfl, hchannel⟩
  | _ => exact Or.inl ⟨rfl, fun _ _ => nofun⟩

/-- Beginning work does not touch the job cache. -/
theorem start_jobCache {t : Task} {k : Work} {s s' : Pool} {p : Body Unit}
    (h : Start suite config t k s p s') : s'.jobCache = s.jobCache := by
  cases h <;> rfl

/-- A session is only changed by its own task. -/
theorem start_sessions_of_ne {t : Task} {k : Work} {s s' : Pool}
    {p : Body Unit} (h : Start suite config t k s p s') {i : Nat}
    (hi : Task.session i ≠ t) : s'.sessions i = s.sessions i := by
  cases h with
  | connect | subscribe | authorize | newJob | disconnect =>
    refine if_neg ?_
    rintro rfl
    exact hi rfl
  | _ => rfl

/-- What an operation can do to the status of a block. -/
inductive BlockChange (x : (o : Op) × o.Res) (b b' : FoundBlock) : Prop
  | same (h : b'.status = b.status)
  | orphaned (reason : OrphanReason)
      (hx : x = ⟨.db (.markOrphaned b'.blockHash reason), .ok ()⟩)
      (h : b'.status = .orphaned)
  | unOrphaned (hx : x = ⟨.db (.unOrphan b'.blockHash), .ok ()⟩)
      (hold : b.status = .orphaned) (h : b'.status = .immature)
  | matured (hx : x = ⟨.db (.markMatured b'.id), .ok ()⟩)
      (h : b'.status = .matured)
  | updated (status : BlockStatus)
      (hx : x = ⟨.db (.updateStatus b'.id status), .ok ()⟩)
      (h : b'.status = status)

/-- A block was there before, perhaps with another status, or it has just
been recorded, and then its hash is new. -/
def BlockStep (x : (o : Op) × o.Res) (db : Database) (b' : FoundBlock) : Prop :=
  (∃ b ∈ db.foundBlocks.rows, b.fixed = b'.fixed ∧ BlockChange x b b') ∨
    b'.status = .immature ∧
      (∀ b ∈ db.foundBlocks.rows, b.blockHash ≠ b'.blockHash) ∧
      ∃ block row, x = ⟨.db (.recordFoundBlock block), .ok row⟩ ∧
        b'.blockHash = block.blockHash ∧ b'.roundId = block.roundId

theorem DbOp.blockStep (d : DbOp) (db : Database) :
    ∀ b' ∈ (d.run db).2.foundBlocks.rows,
      BlockStep ⟨.db d, (d.run db).1⟩ db b' := by
  intro b' hb'
  cases d with
  | recordFoundBlock block =>
    rcases FoundBlockRepository.recordFoundBlock_cases block db with
      ⟨_, heq⟩ | ⟨table, hins, hrows, heq⟩
    · simp only [DbOp.run, heq] at hb'
      exact Or.inl ⟨b', hb', rfl, .same rfl⟩
    · obtain ⟨hfree, _⟩ := Table.insert_some hins
      have hb := hb'
      simp only [DbOp.run, heq, hrows] at hb
      rcases List.mem_append.1 hb with hold | hnew
      · exact Or.inl ⟨b', hold, rfl, .same rfl⟩
      · rw [List.mem_singleton.1 hnew]
        refine Or.inr ⟨rfl, fun b hb hhash => ?_, block,
          { FoundBlockRepository.newRow block with
            id := db.foundBlocks.seq + 1 }, ?_, rfl, rfl⟩
        · exact hfree b hb ⟨block.blockHash, congrArg some hhash, rfl⟩
        · simp only [DbOp.run, heq]
  | markOrphaned hash reason =>
    obtain ⟨b, hb, rfl⟩ := List.mem_map.1 hb'
    by_cases hmatch : (b.blockHash == hash) = true
    · rw [if_pos hmatch]
      refine Or.inl ⟨b, hb, rfl, .orphaned reason ?_ rfl⟩
      rw [← eq_of_beq hmatch]
      rfl
    · rw [if_neg hmatch]
      exact Or.inl ⟨b, hb, rfl, .same rfl⟩
  | unOrphan hash =>
    obtain ⟨b, hb, rfl⟩ := List.mem_map.1 hb'
    by_cases hmatch : (b.blockHash == hash && b.status == .orphaned) = true
    · rw [if_pos hmatch]
      obtain ⟨hhash, hstatus⟩ := Bool.and_eq_true_iff.1 hmatch
      refine Or.inl ⟨b, hb, rfl, .unOrphaned ?_ (eq_of_beq hstatus) rfl⟩
      rw [← eq_of_beq hhash]
      rfl
    · rw [if_neg hmatch]
      exact Or.inl ⟨b, hb, rfl, .same rfl⟩
  | markMatured id =>
    obtain ⟨b, hb, rfl⟩ := List.mem_map.1 hb'
    by_cases hmatch : (b.id == id) = true
    · rw [if_pos hmatch]
      refine Or.inl ⟨b, hb, rfl, .matured ?_ rfl⟩
      rw [← eq_of_beq hmatch]
      rfl
    · rw [if_neg hmatch]
      exact Or.inl ⟨b, hb, rfl, .same rfl⟩
  | updateStatus id status =>
    obtain ⟨b, hb, rfl⟩ := List.mem_map.1 hb'
    by_cases hmatch : (b.id == id) = true
    · rw [if_pos hmatch]
      refine Or.inl ⟨b, hb, rfl, .updated status ?_ rfl⟩
      rw [← eq_of_beq hmatch]
      rfl
    · rw [if_neg hmatch]
      exact Or.inl ⟨b, hb, rfl, .same rfl⟩
  | updateCoinbaseTxid id txid =>
    obtain ⟨b, hb, rfl⟩ := List.mem_map.1 hb'
    refine Or.inl ⟨b, hb, ?_, .same ?_⟩
    · split_ifs <;> rfl
    · split_ifs <;> rfl
  | _ =>
    rw [(DbOp.frame _ db).foundBlocks rfl] at hb'
    exact Or.inl ⟨b', hb', rfl, .same rfl⟩

theorem sem_blockStep {o : Op} {s s' : Pool} {r : o.Res}
    (h : (pool suite data config).sem o s r s') :
    ∀ b' ∈ s'.db.foundBlocks.rows, BlockStep ⟨o, r⟩ s.db b' := by
  rcases sem_database h with heq | ⟨d, rfl, hr, rfl⟩
  · rw [heq]
    exact fun b hb => Or.inl ⟨b, hb, rfl, .same rfl⟩
  · cases hr
    exact d.blockStep s.db

/-- A property of the database that holds of a new one, that the passing of
time keeps and that every section keeps holds in every run. -/
theorem reach_database {ok : PoolWorld → PoolEntry → Prop}
    {I : Database → Prop} (hinit : ∀ now, I (initSchema now))
    (hnow : ∀ {db : Database} (now : Nat), I db → I { db with now })
    (hrun : ∀ {w : PoolWorld} {t : Task} {d : DbOp}, I w.shared.db →
      ok w (.did t (.db d) (d.run w.shared.db).1) →
        I (d.run w.shared.db).2)
    {c : PoolConfig} (h : (pool suite data config).Reach ok c) :
    I c.world.shared.db := by
  refine Machine.Reach.invariant (I := fun w => I w.shared.db)
    ?_ ?_ ?_ ?_ ?_ h
  · rintro s ⟨now, chain, _, rfl⟩
    exact hinit now
  · intro w t o r s' hI hsem hok
    rcases sem_database hsem with heq | ⟨d, rfl, hr, rfl⟩
    · simpa [heq] using hI
    · cases hr
      exact hrun hI hok
  · intro w t k p s' hI hstart _
    simpa [start_database hstart] using hI
  · rintro w s' hI (⟨now, _, rfl⟩ | ⟨_, chain, _, rfl⟩) _
    · exact hnow now hI
    · exact hI
  · rintro w s' hI ⟨chain, _, rfl⟩ _
    exact hI

/-- The rule for a property of the database and of the history. -/
theorem reach_history {ok : PoolWorld → PoolEntry → Prop}
    {I : Database → List PoolEntry → Prop}
    (hinit : ∀ now, I (initSchema now) [])
    (hdid : ∀ {w : PoolWorld} {t o r s'}, I w.shared.db w.log →
      (pool suite data config).sem o w.shared r s' → ok w (.did t o r) →
      I s'.db (.did t o r :: w.log))
    (hbegan : ∀ {w : PoolWorld} {t k p s'}, I w.shared.db w.log →
      Start suite config t k w.shared p s' → ok w (.began t k) →
      I w.shared.db (.began t k :: w.log))
    (henv : ∀ {db : Database} {log : List PoolEntry} (now : Nat), I db log →
      I { db with now } (.env :: log))
    (hcrash : ∀ {w : PoolWorld}, I w.shared.db w.log → ok w .crashed →
      I w.shared.db (.crashed :: w.log))
    {c : PoolConfig} (h : (pool suite data config).Reach ok c) :
    I c.world.shared.db c.world.log := by
  refine Machine.Reach.invariant (I := fun w => I w.shared.db w.log)
    ?_ ?_ ?_ ?_ ?_ h
  · rintro s ⟨now, chain, _, rfl⟩
    exact hinit now
  · exact fun hw hsem hok => hdid hw hsem hok
  · intro w t k p s' hw hstart hok
    rw [World.after_shared, start_database hstart]
    exact hbegan hw hstart hok
  · rintro w s' hw (⟨now, _, rfl⟩ | ⟨_, chain, _, rfl⟩) _
    · exact henv now hw
    · exact henv w.shared.db.now hw
  · rintro w s' hw ⟨chain, _, rfl⟩ hok
    exact hcrash hw hok

/-- The rule for what stays true of an answer as long as the task that got it
goes on with its work. -/
theorem reach_answers {ok : PoolWorld → PoolEntry → Prop}
    {K : Task → Database → (o : Op) × o.Res → Prop}
    (hkeep : ∀ {w : PoolWorld} {t u : Task} {o : Op} {r : o.Res} {s' : Pool}
      {x : (o : Op) × o.Res}, (pool suite data config).sem o w.shared r s' →
      ok w (.did u o r) → K t w.shared.db x → K t s'.db x)
    (hnow : ∀ {t : Task} {db : Database} {x : (o : Op) × o.Res} (now : Nat),
      K t db x → K t { db with now } x)
    (hnew : ∀ {w : PoolWorld} {t o r s'},
      (pool suite data config).sem o w.shared r s' → ok w (.did t o r) →
      K t s'.db ⟨o, r⟩)
    {c : PoolConfig} (h : (pool suite data config).Reach ok c) :
    ∀ t, ∀ x ∈ (current t c.world.log).2, K t c.world.shared.db x := by
  refine reach_history (I := fun db log =>
    ∀ t, ∀ x ∈ (current t log).2, K t db x) ?_ ?_ ?_ ?_ ?_ h
  · exact fun _ _ _ => nofun
  · intro w u o r s' hw hsem hok t x hx
    by_cases ht : t = u
    · subst ht
      rw [current_did] at hx
      rcases List.mem_cons.1 hx with rfl | hold
      · exact hnew hsem hok
      · exact hkeep hsem hok (hw t x hold)
    · rw [current_did_of_ne ht] at hx
      exact hkeep hsem hok (hw t x hx)
  · intro w u k p s' hw _ _ t x hx
    by_cases ht : t = u
    · subst ht
      rw [current_began] at hx
      cases hx
    · rw [current_began_of_ne ht] at hx
      exact hw t x hx
  · exact fun now hw t x hx => hnow now (hw t x hx)
  · exact fun _ _ _ _ => nofun

end StratumServer
