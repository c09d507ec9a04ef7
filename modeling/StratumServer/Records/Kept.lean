import StratumServer.Blocks.Rounds
import StratumServer.Payouts.Snapshots
import StratumServer.Shares.Ledger
import StratumServer.System.Simulation

/-!
# What is recorded stays

The database is the book of the pool, so a later state has to agree with every
earlier one.  `Database.Later db db'` says in which sense it does.

* Workers, shares and audit events are only ever added.
* Outcomes, rounds, found blocks and batches are only ever added too, and all
  but a few columns of them stay: the answer of the node, how a round ended,
  the status of a block and the status of a batch.
* A round that was closed is never open again.
* A batch that was submitted does not become pending again, a confirmed one
  stays confirmed, and its transaction, its payouts and its snapshot stay.

A plan is written for a new batch or for a pending one, so the last point
needs to know on which batches the sections work: `Grounded`.

`records_kept` is the result for any two states of one run, with any
interleaving of the tasks, with failed statements and with crashes.
-/

namespace StratumServer

open Sql Tasks

/-! ## The columns that stay -/

/-- All but the answer of the node. -/
def ShareOutcome.fixed (o : ShareOutcome) : ShareOutcome :=
  { o with nodeResult := none }

/-- The id of a round and the template that it began with. -/
def Round.fixed (r : Round) : Nat × Nat := (r.id, r.startTemplateId)

/-- The payouts and the snapshot of a batch. -/
def Database.planOf (db : Database) (batchId : Nat) :
    List Payout × List PayoutShareSnapshot :=
  (db.payouts.rows.filter (·.batchId == batchId),
    db.payoutShareSnapshots.rows.filter (·.batchId == batchId))

/-- `b'` is what became of the submitted batch `b`. -/
structure PayoutBatch.Settled (b b' : PayoutBatch) : Prop where
  fixed : b'.fixed = b.fixed
  submittedTxid : b'.submittedTxid = b.submittedTxid
  notPending : b'.status ≠ .pending
  confirmed : b.status = .confirmed → b'.status = .confirmed

/-- `db'` agrees with what `db` has recorded. -/
structure Database.Later (db db' : Database) : Prop where
  workers : db.workers.rows <+: db'.workers.rows
  shares : db.shares.rows <+: db'.shares.rows
  shareOutcomes : db.shareOutcomes.rows.map (·.fixed) <+:
    db'.shareOutcomes.rows.map (·.fixed)
  accountingEvents : db.accountingEvents.rows <+: db'.accountingEvents.rows
  rounds : db.rounds.rows.map (·.fixed) <+: db'.rounds.rows.map (·.fixed)
  closed : ∀ r ∈ db.rounds.rows, r.status ≠ .opened →
    ∃ r' ∈ db'.rounds.rows, r'.id = r.id ∧ r'.status ≠ .opened
  foundBlocks : db.foundBlocks.rows.map (·.fixed) <+:
    db'.foundBlocks.rows.map (·.fixed)
  payoutBatches : db.payoutBatches.rows.map (·.fixed) <+:
    db'.payoutBatches.rows.map (·.fixed)
  settled : ∀ b ∈ db.payoutBatches.rows, b.status ≠ .pending →
    (∃ b' ∈ db'.payoutBatches.rows, b.Settled b') ∧
      db'.planOf b.id = db.planOf b.id

theorem PayoutBatch.Settled.refl {b : PayoutBatch} (h : b.status ≠ .pending) :
    b.Settled b :=
  ⟨rfl, rfl, h, fun hc => hc⟩

theorem PayoutBatch.Settled.trans {b₁ b₂ b₃ : PayoutBatch}
    (h₁ : b₁.Settled b₂) (h₂ : b₂.Settled b₃) : b₁.Settled b₃ where
  fixed := h₂.fixed.trans h₁.fixed
  submittedTxid := h₂.submittedTxid.trans h₁.submittedTxid
  notPending := h₂.notPending
  confirmed hc := h₂.confirmed (h₁.confirmed hc)

namespace Database.Later

variable {db db₁ db₂ db₃ : Database}

theorem refl (db : Database) : db.Later db where
  workers := List.prefix_refl _
  shares := List.prefix_refl _
  shareOutcomes := List.prefix_refl _
  accountingEvents := List.prefix_refl _
  rounds := List.prefix_refl _
  closed r hr hs := ⟨r, hr, rfl, hs⟩
  foundBlocks := List.prefix_refl _
  payoutBatches := List.prefix_refl _
  settled b hb hs := ⟨⟨b, hb, .refl hs⟩, rfl⟩

theorem trans (h₁ : db₁.Later db₂) (h₂ : db₂.Later db₃) : db₁.Later db₃ where
  workers := h₁.workers.trans h₂.workers
  shares := h₁.shares.trans h₂.shares
  shareOutcomes := h₁.shareOutcomes.trans h₂.shareOutcomes
  accountingEvents := h₁.accountingEvents.trans h₂.accountingEvents
  rounds := h₁.rounds.trans h₂.rounds
  closed r hr hs := by
    obtain ⟨r', hr', hid, hs'⟩ := h₁.closed r hr hs
    obtain ⟨r'', hr'', hid', hs''⟩ := h₂.closed r' hr' hs'
    exact ⟨r'', hr'', hid'.trans hid, hs''⟩
  foundBlocks := h₁.foundBlocks.trans h₂.foundBlocks
  payoutBatches := h₁.payoutBatches.trans h₂.payoutBatches
  settled b hb hs := by
    obtain ⟨⟨b', hb', hsettled⟩, hplan⟩ := h₁.settled b hb hs
    obtain ⟨⟨b'', hb'', hsettled'⟩, hplan'⟩ :=
      h₂.settled b' hb' hsettled.notPending
    have hid : b'.id = b.id := PayoutBatch.id_of_fixed hsettled.fixed
    rw [hid] at hplan'
    exact ⟨⟨b'', hb'', hsettled.trans hsettled'⟩, hplan'.trans hplan⟩

/-- Time passes. -/
theorem of_now (now : Nat) : db.Later { db with now } :=
  { refl db with }

end Database.Later

/-! ## Rows that are added -/

section Rows

variable {α β : Type}

theorem prefix_of_eq {l l' : List α} (h : l' = l) : l <+: l' := by
  rw [h]

/-- Rows that change in other columns. -/
theorem prefix_of_map {l l' : List α} {f : α → α} {g : α → β}
    (h : l' = l.map f) (hf : ∀ a, g (f a) = g a) : l.map g <+: l'.map g := by
  rw [h, List.map_map]
  exact prefix_of_eq (List.map_congr_left fun a _ => hf a)

/-- A row in an earlier table is in a later one, up to other columns. -/
theorem exists_of_grow {l l' : List α} {g : α → β} (h : l.map g <+: l'.map g)
    {a : α} (ha : a ∈ l) : ∃ a' ∈ l', g a' = g a :=
  List.mem_map.1 (h.subset (List.mem_map_of_mem ha))

theorem prefix_of_append {l l' new : List α} (g : α → β) (h : l' = l ++ new) :
    l.map g <+: l'.map g := by
  rw [h, List.map_append]
  exact List.prefix_append _ _

variable {ρ : Type} [Record ρ] {t t' : Table ρ} {f : ρ → Nat} {n m : Nat}

/-- New rows of one batch are not among those of another. -/
theorem filter_insertMany_of_ne {rs : List ρ}
    (hf : ∀ n r, f (Record.withId n r) = f r) (hrs : ∀ r ∈ rs, f r = n)
    (hne : m ≠ n) (h : t.insertMany rs = some t') :
    t'.rows.filter (f · == m) = t.rows.filter (f · == m) := by
  obtain ⟨new, hrows, hmap⟩ := Table.insertMany_some h
  have hnew : new.filter (f · == m) = [] := by
    rw [List.filter_eq_nil_iff]
    intro r hr heq
    have hmem : f r ∈ rs.map f := hmap f hf ▸ List.mem_map_of_mem hr
    obtain ⟨r₀, hr₀, hid⟩ := List.mem_map.1 hmem
    rw [hrs r₀ hr₀] at hid
    exact hne ((eq_of_beq heq).symm.trans hid.symm)
  rw [hrows, List.filter_append, hnew, List.append_nil]

theorem filter_delete_of_ne (hne : m ≠ n) :
    (t.delete (f · == n)).rows.filter (f · == m) =
      t.rows.filter (f · == m) := by
  simp only [Table.delete, List.filter_filter]
  refine List.filter_congr fun r _ => ?_
  by_cases heq : f r = m
  · simp [heq, hne]
  · simp [heq]

end Rows

/-- A found block is still there, with all that no statement changes. -/
theorem Database.Later.foundBlock {db db' : Database} {β : Type}
    {f : FoundBlock → β} (hf : ∀ b, f b.fixed = f b) (h : db.Later db')
    {b : FoundBlock} (hb : b ∈ db.foundBlocks.rows) :
    ∃ b' ∈ db'.foundBlocks.rows, f b' = f b := by
  obtain ⟨b', hb', hfix⟩ := exists_of_grow h.foundBlocks hb
  exact ⟨b', hb', by rw [← hf b', hfix, hf b]⟩

/-! ## One section -/

/-- The entry for a batch that was created. -/
def createdEvent (block : FoundBlock) : AccountingEvent :=
  { eventType := .payoutBatchCreated, status := .pending,
    roundId := some block.roundId, blockHash := some block.blockHash,
    height := some block.height }

namespace DbOp

theorem workers_grow (d : DbOp) (db : Database) :
    db.workers.rows <+: (d.run db).2.workers.rows := by
  cases d with
  | upsert a s =>
    simp only [DbOp.run, WorkerRepository.upsert]
    split
    · rename_i id workers hinsert
      obtain ⟨_, _, _, hrows⟩ := Table.insert_some hinsert
      rw [hrows]
      exact List.prefix_append _ _
    · split <;> exact List.prefix_refl _
  | _ => exact prefix_of_eq (by rw [(frame _ db).workers rfl])

/-- A submission adds at most one share and one outcome. -/
theorem shares_grow (d : DbOp) (db : Database) :
    db.shares.rows <+: (d.run db).2.shares.rows ∧
      db.shareOutcomes.rows.map (·.fixed) <+:
        (d.run db).2.shareOutcomes.rows.map (·.fixed) := by
  cases d with
  | insertShareAndOutcomeAtomic share outcome =>
    obtain ⟨_, _, _, _, shares, outcomes, hrun, hshares, houtcomes⟩ :=
      ShareRepository.insertShareAndOutcomeAtomic_cases share outcome db
    simp only [DbOp.run, hrun]
    constructor
    · rcases hshares with ⟨_, _, _, hrows⟩ | ⟨_, _, rfl⟩
      · rw [hrows]
        exact List.prefix_append _ _
      · exact List.prefix_refl _
    · rcases houtcomes with ⟨_, _, hrows⟩ | ⟨_, _, rfl⟩
      · exact prefix_of_append _ hrows
      · exact List.prefix_refl _
  | updateOutcomeNodeResult key result =>
    refine ⟨List.prefix_refl _, prefix_of_map rfl fun o => ?_⟩
    split_ifs <;> rfl
  | _ =>
    rw [(frame _ db).shares rfl, (frame _ db).shareOutcomes rfl]
    exact ⟨List.prefix_refl _, List.prefix_refl _⟩

/-- The transaction of a new batch ends with its event. -/
theorem createPayout_event {block : FoundBlock} {difficulty : ℚ} {reward : Int}
    {settings : PayoutSettings} {db db' : Database} {batchId : Nat}
    (h : createPayoutSection block difficulty reward settings db =
      (.ok batchId, db')) :
    ∃ n, db.accountingEvents.insert (createdEvent block) =
      some (n, db'.accountingEvents) := by
  unfold createPayoutSection at h
  split at h
  · cases h
  · dsimp only at h
    split at h
    · cases h
    · split at h
      · rename_i hcreate
        cases h
        obtain ⟨⟨id, batches⟩, _, hwrite⟩ := Option.bind_eq_some_iff.1 hcreate
        obtain ⟨db₁, hdb₁, hevent⟩ := Option.bind_eq_some_iff.1 hwrite
        obtain ⟨⟨n, events⟩, hinsert, hend⟩ := Option.bind_eq_some_iff.1 hevent
        obtain ⟨_, p, s, d, rfl⟩ := writePlan_some hdb₁
        cases hend
        exact ⟨n, hinsert⟩
      · cases h

/-- What a section can do to the audit log: an entry comes alone, or together
with a new batch. -/
theorem events_cases (d : DbOp) (db : Database) :
    (d.run db).2.accountingEvents = db.accountingEvents ∨
      (∃ e n, d = .recordEvent e ∧ db.accountingEvents.insert e =
        some (n, (d.run db).2.accountingEvents)) ∨
      ∃ block difficulty reward settings n,
        d = .createPayout block difficulty reward settings ∧
        db.accountingEvents.insert (createdEvent block) =
          some (n, (d.run db).2.accountingEvents) := by
  cases d with
  | upsert a w =>
    obtain ⟨_, _, h, _⟩ := WorkerRepository.upsert_cases a w db
    exact Or.inl (by simp only [DbOp.run, h])
  | insertShareAndOutcomeAtomic s o =>
    obtain ⟨_, _, _, _, _, _, h, _⟩ :=
      ShareRepository.insertShareAndOutcomeAtomic_cases s o db
    exact Or.inl (by simp only [DbOp.run, h])
  | recordEvent e =>
    simp only [DbOp.run, AccountingEventRepository.recordEvent]
    cases hinsert : db.accountingEvents.insert e with
    | some x => exact Or.inr (Or.inl ⟨e, x.1, rfl, hinsert⟩)
    | none => exact Or.inl rfl
  | getOrCreateCurrentRound t =>
    simp only [DbOp.run, RoundRepository.getOrCreateCurrentRound]
    split
    · exact Or.inl rfl
    · split <;> exact Or.inl rfl
  | recordFoundBlock b =>
    simp only [DbOp.run, FoundBlockRepository.recordFoundBlock]
    split <;> exact Or.inl rfl
  | createPayout block difficulty reward settings =>
    simp only [DbOp.run]
    rcases createPayoutSection_cases block difficulty reward settings db with
      ⟨_, heq⟩ | ⟨_, _, _, _, _, _, _, _, _, _, heq⟩
    · exact Or.inl (by rw [heq])
    · obtain ⟨n, hinsert⟩ := createPayout_event heq
      rw [heq]
      exact Or.inr (Or.inr ⟨block, difficulty, reward, settings, n, rfl, hinsert⟩)
  | rebuildPayout i b d g s =>
    obtain ⟨_, _, _, h⟩ := rebuildPayoutSection_frame i b d g s db
    exact Or.inl (by simp only [DbOp.run, h])
  | _ => exact Or.inl rfl

theorem events_grow (d : DbOp) (db : Database) :
    db.accountingEvents.rows <+: (d.run db).2.accountingEvents.rows := by
  have hadded : ∀ {e n}, db.accountingEvents.insert e =
      some (n, (d.run db).2.accountingEvents) →
      db.accountingEvents.rows <+: (d.run db).2.accountingEvents.rows := by
    intro e n hinsert
    obtain ⟨_, _, _, hrows⟩ := Table.insert_some hinsert
    rw [hrows]
    exact List.prefix_append _ _
  rcases d.events_cases db with h | ⟨_, _, _, hinsert⟩ | ⟨_, _, _, _, _, _, hinsert⟩
  · rw [h]
  · exact hadded hinsert
  · exact hadded hinsert

theorem rounds_grow (d : DbOp) (db : Database) :
    db.rounds.rows.map (·.fixed) <+: (d.run db).2.rounds.rows.map (·.fixed) := by
  rcases d.rounds_cases db with h | ⟨_, _, t, _, hinsert, h⟩ | ⟨_, _, _, _, _, h⟩
  · exact prefix_of_eq (by rw [h])
  · obtain ⟨_, _, _, hrows⟩ := Table.insert_some hinsert
    rw [h]
    exact prefix_of_append _ hrows
  · refine prefix_of_map h fun r => ?_
    split_ifs <;> rfl

theorem blocks_grow (d : DbOp) (db : Database) :
    db.foundBlocks.rows.map (·.fixed) <+:
      (d.run db).2.foundBlocks.rows.map (·.fixed) := by
  rcases d.blocks_cases db with h | ⟨_, _, t, _, hinsert, h⟩ | ⟨p, f, h, hfix⟩
  · exact prefix_of_eq (by rw [h])
  · obtain ⟨_, _, _, hrows⟩ := Table.insert_some hinsert
    rw [h]
    exact prefix_of_append _ hrows
  · refine prefix_of_map h fun b => ?_
    split_ifs
    · exact hfix b
    · rfl

theorem batches_grow (d : DbOp) (db : Database) :
    db.payoutBatches.rows.map (·.fixed) <+:
      (d.run db).2.payoutBatches.rows.map (·.fixed) := by
  rcases d.batches_cases db with
    h | ⟨_, _, _, _, _, _, t, _, _, _, hinsert, h⟩ | ⟨p, f, h, hfix⟩
  · exact prefix_of_eq (by rw [h])
  · obtain ⟨_, _, _, hrows⟩ := Table.insert_some hinsert
    rw [h]
    exact prefix_of_append _ hrows
  · refine prefix_of_map h fun b => ?_
    split_ifs
    · exact hfix b
    · rfl

end DbOp

/-- No section opens a round again. -/
theorem RoundStep.closed {db db' : Database} {x : (o : Op) × o.Res}
    (h : RoundStep db db' x) {r : Round} (hr : r ∈ db.rounds.rows)
    (hclosed : r.status ≠ .opened) :
    ∃ r' ∈ db'.rounds.rows, r'.id = r.id ∧ r'.status ≠ .opened := by
  obtain ⟨r', hr', hid⟩ := h.forward r hr
  refine ⟨r', hr', hid, fun hopen => ?_⟩
  rcases h.rounds r' hr' hopen with ⟨r₀, hr₀, hid₀, hopen₀⟩ | ⟨_, hnew⟩
  · have hsame : r₀ = r := db.rounds.eq_of_id hr₀ hr (hid₀.trans hid)
    exact hclosed (hsame ▸ hopen₀)
  · have hle : r.id ≤ db.rounds.seq := db.rounds.ids_le r hr
    omega

/-! ## Settled batches -/

section Settled

variable {suite : Suite} {data : ChainData} {w : PoolWorld} {t : Task}
  {d : DbOp} {b : PayoutBatch}

/-- What becomes of a settled batch in a section. -/
theorem settled_run (hg : Grounded suite data w t (.db d))
    (hb : b ∈ w.shared.db.payoutBatches.rows) (hsettled : b.status ≠ .pending) :
    ∃ b' ∈ (d.run w.shared.db).2.payoutBatches.rows, b.Settled b' := by
  cases d with
  | updateBatchStatus id status =>
    refine ⟨_, List.mem_map.2 ⟨b, hb, rfl⟩, ?_⟩
    cases status with
    | confirmed =>
      split_ifs
      · exact ⟨rfl, rfl, BatchStatus.noConfusion, fun _ => rfl⟩
      · exact .refl hsettled
    | _ => cases hg.1
  | markBatchSubmitted id txid =>
    -- The batch that is marked is pending, so it is another one.
    obtain ⟨batch, ⟨b₁, hb₁, hfix, hpending⟩, hid⟩ := hg.2
    have hne : b.id ≠ id := by
      intro heq
      have hsame : b = b₁ := by
        refine w.shared.db.payoutBatches.eq_of_id hb hb₁ ?_
        exact heq.trans (hid.symm.trans (PayoutBatch.id_of_fixed hfix).symm)
      exact hsettled (hsame ▸ hpending)
    refine ⟨b, List.mem_map.2 ⟨b, hb, ?_⟩, .refl hsettled⟩
    rw [if_neg]
    simpa using hne
  | createPayout _ _ _ _ => exact ⟨b, DbOp.mem_createPayout hb, .refl hsettled⟩
  | _ =>
    rw [(DbOp.frame _ w.shared.db).payoutBatches rfl]
    exact ⟨b, hb, .refl hsettled⟩

/-- A plan that is written leaves those of other batches. -/
theorem PlanWritten.planOf_of_ne {batchId other : Nat} {plan : PayoutPlan}
    {shares : List PplnsShareEntry} {db db' : Database}
    (h : PlanWritten batchId plan shares db db') (hne : other ≠ batchId) :
    db'.planOf other = db.planOf other := by
  unfold Database.planOf
  rw [filter_insertMany_of_ne (f := Payout.batchId) (fun _ _ => rfl)
      (payoutRows_batchId _ _) hne h.payouts,
    filter_insertMany_of_ne (f := PayoutShareSnapshot.batchId) (fun _ _ => rfl)
      (snapshotRows_batchId _ _ _) hne h.snapshots]

theorem planOf_run (hg : Grounded suite data w t (.db d))
    (hb : b ∈ w.shared.db.payoutBatches.rows) (hsettled : b.status ≠ .pending) :
    (d.run w.shared.db).2.planOf b.id = w.shared.db.planOf b.id := by
  cases hd : d.writesPlan with
  | false =>
    obtain ⟨hpayouts, hsnapshots, _⟩ := DbOp.plan_frame w.shared.db hd
    unfold Database.planOf
    rw [hpayouts, hsnapshots]
  | true =>
    unfold DbOp.writesPlan at hd
    split at hd
    · rename_i block difficulty reward settings
      rcases createPayoutSection_cases block difficulty reward settings
        w.shared.db with ⟨_, heq⟩ | ⟨_, batchId, _, _, _, _, _, _, _, _, heq⟩
      · simp only [DbOp.run, heq]
      · obtain ⟨_, _, hinsert, hwritten⟩ := createPayoutSection_ok heq
        obtain ⟨_, hid, _, _⟩ := Table.insert_some hinsert
        have hle : b.id ≤ w.shared.db.payoutBatches.seq :=
          w.shared.db.payoutBatches.ids_le b hb
        simp only [DbOp.run, heq]
        exact hwritten.planOf_of_ne (by omega)
    · rename_i batchId block difficulty reward settings
      obtain ⟨_, _, _, batch, ⟨b₁, hb₁, hfix, hpending⟩, hid, _⟩ := hg.2
      -- The batch that is rebuilt is pending.
      have hne : b.id ≠ batchId := by
        intro heq
        have hsame : b = b₁ := by
          refine w.shared.db.payoutBatches.eq_of_id hb hb₁ ?_
          exact heq.trans (hid.symm.trans (PayoutBatch.id_of_fixed hfix).symm)
        exact hsettled (hsame ▸ hpending)
      simp only [DbOp.run]
      cases hrun : rebuildPayoutSection batchId block difficulty reward settings
          w.shared.db with
      | mk result db' =>
        cases result with
        | error e => rw [rebuildPayoutSection_error hrun]
        | ok outputs =>
          obtain ⟨_, _, _, hwritten⟩ := rebuildPayoutSection_ok hrun
          refine (hwritten.planOf_of_ne hne).trans ?_
          unfold Database.planOf
          dsimp only
          rw [filter_delete_of_ne hne, filter_delete_of_ne hne]
    · cases hd

end Settled

/-! ## Runs -/

section Runs

variable {suite : Suite} {data : ChainData} {config : ServerConfig}

theorem Grounded.later {w : PoolWorld} {t : Task} {d : DbOp}
    (hg : Grounded suite data w t (.db d)) :
    w.shared.db.Later (d.run w.shared.db).2 where
  workers := d.workers_grow _
  shares := (d.shares_grow _).1
  shareOutcomes := (d.shares_grow _).2
  accountingEvents := d.events_grow _
  rounds := d.rounds_grow _
  closed _ hr hs := (DbOp.roundStep hg.1 w.shared.db).closed hr hs
  foundBlocks := d.blocks_grow _
  payoutBatches := d.batches_grow _
  settled _ hb hs := ⟨settled_run hg hb hs, planOf_run hg hb hs⟩

theorem sem_later {w : PoolWorld} {t : Task} {o : Op} {r : o.Res} {s' : Pool}
    (hsem : (pool suite data config).sem o w.shared r s')
    (hg : Grounded suite data w t o) : w.shared.db.Later s'.db := by
  rcases sem_database hsem with heq | ⟨d, rfl, _, rfl⟩
  · rw [heq]
    exact .refl _
  · exact hg.later

/-- One turn of a run. -/
theorem step_later {ok : PoolWorld → PoolEntry → Prop} {c c' : PoolConfig}
    {e : PoolEntry} (h : (pool suite data config).Reach ok c)
    (hok : ok c.world e) (hstep : (pool suite data config).Step c e c') :
    c.world.shared.db.Later c'.world.shared.db := by
  have hknown := turns_grounded h hok hstep
  cases hstep with
  | exec _ hsem => exact sem_later hsem hknown.2
  | begin _ hstart =>
    rw [World.after_shared, start_database hstart]
    exact .refl _
  | env henv =>
    rcases henv with ⟨now, _, rfl⟩ | ⟨_, chain, _, rfl⟩
    · exact .of_now now
    · exact .refl _
  | crash hcrash =>
    obtain ⟨chain, _, rfl⟩ := hcrash
    exact .refl _

/-- Along every run, what is recorded stays. -/
theorem records_kept {ok : PoolWorld → PoolEntry → Prop} {c c' : PoolConfig}
    (h : (pool suite data config).Reach ok c)
    (hleads : (pool suite data config).Leads ok c c') :
    c.world.shared.db.Later c'.world.shared.db := by
  induction hleads with
  | refl => exact .refl _
  | tail hlead hturn ih =>
    obtain ⟨e, hok, hstep⟩ := hturn
    exact ih.trans (step_later (h.leads hlead) hok hstep)

end Runs

/-- The first block is found and promoted, and its payout is submitted. -/
def submitsPayout : List Scene :=
  let replies : Replies := { rawTx := .ok sampleTx, signed := .ok "txid" }
  maturesFirst ++ handles (.blockConnected []) replies ++
    handles (.blockMatured firstHash) replies ++
    handles (.blockConnected []) replies

/-- The transaction is in the next block, and then the server restarts. -/
def confirmsPayout : List Scene :=
  connects "b3" 3 ["txid"] ++ handles (.blockConnected ["txid"]) {} ++
    [.crash ["b3", "b2", firstHash, "genesis"]] ++
    bootsWith (sampleJob 8 4 easyTarget)

/-- A run with a payout before and after it is confirmed. -/
theorem records_kept_sample : ∃ c c' : PoolConfig,
    c.world.shared.db.payoutBatches.rows.map (·.status) = [.submitted] ∧
      c'.world.shared.db.payoutBatches.rows.map (·.status) = [.confirmed] ∧
      c.world.shared.db.Later c'.world.shared.db := by
  have hrun : ((schedule sampleSuite sampleData sampleConfig (fun _ _ => true)
      ["genesis"] submitsPayout).bind fun c =>
        (Machine.play (pool sampleSuite sampleData sampleConfig)
          (fun _ _ => true) (confirmsPayout.map fun x =>
            x.move sampleSuite sampleData sampleConfig) c).map fun c' =>
          (c.world.shared.db.payoutBatches.rows.map (·.status),
            c'.world.shared.db.payoutBatches.rows.map (·.status))) =
      some ([.submitted], [.confirmed]) := by
    decide +kernel
  obtain ⟨c, hc, hrest⟩ := Option.bind_eq_some_iff.1 hrun
  obtain ⟨c', hc', hstatus⟩ := Option.map_eq_some_iff.1 hrest
  obtain ⟨hsubmitted, hconfirmed⟩ := Prod.mk.inj hstatus
  have hreach : (pool sampleSuite sampleData sampleConfig).Reach
      (fun _ _ => True) c :=
    reach_schedule _ _ _ (fun _ _ _ => trivial) (by decide) hc
  have hleads : (pool sampleSuite sampleData sampleConfig).Leads
      (fun _ _ => True) c c' :=
    Machine.Leads.play (scenes_sound _ _ _ confirmsPayout)
      (fun _ _ _ => trivial) hc'
  exact ⟨c, c', hsubmitted, hconfirmed, records_kept hreach hleads⟩

end StratumServer
