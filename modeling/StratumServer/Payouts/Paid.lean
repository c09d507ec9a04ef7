import StratumServer.Payouts.OwnBlock
import StratumServer.System.NodeSide

/-!
# Paid blocks and confirmed batches

A payout is confirmed in three sections: the batch becomes confirmed, the
block is looked up through the round, and the block becomes paid.  The block
status is also written by the consumer, when the block leaves the chain or
comes back, and by the maturation check.

There are three groups.

* What `main` and the payout handler do between the first and the last of
  these sections: `turns_settles`.
* The batches: a confirmed batch stays confirmed.
* The condition `PaidKept` on the runs, the invariant `PaidConfirmed` and
  the result, `reach_paid_iff`.  In the run of `paid_iff_fails` a paid block
  leaves the chain and comes back, and it is not paid any more.
-/

namespace StratumServer

open Sql Tasks

/-! ## Confirmations -/

/-- The batch that a task has set to confirmed, while the block is still to
follow. -/
def settlingBatch : Done → Option Nat
  | ⟨.db (.updateBatchStatus id _), .ok _⟩ :: _ => some id
  | ⟨.db (.getByRoundId _), .ok (some _)⟩ ::
      ⟨.db (.updateBatchStatus id _), .ok _⟩ :: _ => some id
  | _ => none

/-- The sections that write the status of a batch or of its block. -/
def Op.confirmsBatch : Op → Bool
  | .db (.updateBatchStatus ..) | .db (.updateStatus ..) => true
  | _ => false

/-- The tasks that confirm batches. -/
def Task.confirmsBatches (t : Task) : Bool :=
  t == .main || t == .handler

/-- The batch was read in the current work. -/
def Listed (batch : PayoutBatch) (done : Done) : Prop :=
  ∃ filter batches, ⟨.db (.listBatches filter), .ok batches⟩ ∈ done ∧
    batch ∈ batches

theorem Listed.cons {batch : PayoutBatch} {done : Done}
    (h : Listed batch done) (x : (o : Op) × o.Res) :
    Listed batch (x :: done) := by
  obtain ⟨filter, batches, hmem, hb⟩ := h
  exact ⟨filter, batches, List.mem_cons_of_mem _ hmem, hb⟩

/-- After the batch, task `t` looks up the block, and then it sets the block
to paid.  Only `main` stops when the batch cannot be written. -/
structure SettleStep (t : Task) (done : Done) (o : Op) : Prop where
  looks : ∀ id status rest,
    done = ⟨.db (.updateBatchStatus id status), .ok ()⟩ :: rest →
      ∃ batch, Listed batch done ∧ batch.id = id ∧
        o = .db (.getByRoundId batch.roundId)
  pays : ∀ roundId fb id status rest,
    done = ⟨.db (.getByRoundId roundId), .ok (some fb)⟩ ::
      ⟨.db (.updateBatchStatus id status), .ok ()⟩ :: rest →
      o = .db (.updateStatus fb.id .paid)
  paid : ∀ id status, o = .db (.updateStatus id status) →
    ∃ roundId fb id' status' r rest,
      done = ⟨.db (.getByRoundId roundId), .ok (some fb)⟩ ::
        ⟨.db (.updateBatchStatus id' status'), r⟩ :: rest ∧
      fb.id = id ∧ (t = .main → r = .ok ())

section Paths

variable {t : Task} {done : Done} {o : Op}

theorem settlingBatch_cons (ho : o.confirmsBatch = false)
    (h : settlingBatch done = none) (r : o.Res) :
    settlingBatch (⟨o, r⟩ :: done) = none := by
  unfold settlingBatch
  split
  · rename_i heq
    cases heq
    cases ho
  · rename_i heq
    cases heq
    cases h
  · rfl

theorem settleStep_of_other (ho : o.confirmsBatch = false)
    (h : settlingBatch done = none) : SettleStep t done o := by
  refine ⟨?_, ?_, ?_⟩
  · rintro id status rest rfl
    cases h
  · rintro roundId fb id status rest rfl
    cases h
  · rintro id status rfl
    cases ho

/-- No batch is being confirmed, and what `J` says. -/
def Unsettling (J : Done → Prop) (done : Done) : Prop :=
  settlingBatch done = none ∧ J done

variable {J : Done → Prop}

/-- A body that writes no status. -/
theorem keeps_unsettling {α : Type} {P : Op → Prop} {p : Body α}
    (hp : p.Only P) (hP : ∀ o, P o → o.confirmsBatch = false)
    (hJ : ∀ x done, J done → J (x :: done)) :
    Prog.Keeps (SettleStep t) (Unsettling J) p := by
  refine hp.keeps fun o done ho h => ⟨settleStep_of_other (hP o ho) h.1, ?_⟩
  exact fun r => ⟨settlingBatch_cons (hP o ho) h.1 r, hJ _ _ h.2⟩

/-- An operation that writes no status. -/
theorem keeps_unsettlingOp (ho : o.confirmsBatch = false)
    (hJ : ∀ x done, J done → J (x :: done)) :
    Prog.Keeps (SettleStep t) (Unsettling J) (Prog.perform o) :=
  keeps_unsettling (P := (· = o)) (Prog.only_perform rfl)
    (fun _ h => h ▸ ho) hJ

/-- The end of a confirmation: the newest block of the round becomes paid. -/
theorem markPaid_settles {batch : PayoutBatch} {r : Except Error Unit}
    (hJ : ∀ x done, J done → J (x :: done)) (hr : t = .main → r = .ok ())
    (hlisted : Listed batch done) (h : J done) :
    ((db (.getByRoundId batch.roundId)).run >>= fun r =>
      match r with
      | .ok (some fb) => dropResult (db (.updateStatus fb.id .paid))
      | _ => pure ()).Paths (SettleStep t) (fun _ => Unsettling J)
        (⟨.db (.updateBatchStatus batch.id .confirmed), r⟩ :: done) := by
  refine Prog.paths_bind (paths_db ⟨?_, fun _ _ _ _ _ => nofun,
    fun _ _ => nofun⟩ fun r' => ?_)
  · intro id status rest heq
    cases heq
    exact ⟨batch, hlisted.cons _, rfl, rfl⟩
  · have hdone := hJ ⟨.db (.getByRoundId batch.roundId), r'⟩ _
      (hJ ⟨.db (.updateBatchStatus batch.id .confirmed), r⟩ _ h)
    match r' with
    | .error e | .ok none => exact ⟨rfl, hdone⟩
    | .ok (some fb) =>
      refine Prog.paths_bind (paths_db ⟨fun _ _ _ => nofun, ?_, ?_⟩
        fun r'' => ⟨rfl, hJ _ _ hdone⟩)
      · intro roundId fb' id status rest heq
        cases heq
        rfl
      · intro id status heq
        cases heq
        exact ⟨batch.roundId, fb, batch.id, .confirmed, r, done, rfl, rfl, hr⟩

/-- The submitted batches were read. -/
def ListRead (submitted : List PayoutBatch) (done : Done) : Prop :=
  ⟨.db (.listBatches (some .submitted)), .ok submitted⟩ ∈ done

theorem ListRead.cons {submitted : List PayoutBatch} (x : (o : Op) × o.Res)
    (done : Done) (h : ListRead submitted done) :
    ListRead submitted (x :: done) :=
  List.mem_cons_of_mem x h

theorem ListRead.listed {submitted : List PayoutBatch}
    (h : ListRead submitted done) {batch : PayoutBatch}
    (hb : batch ∈ submitted) : Listed batch done :=
  ⟨_, submitted, h, hb⟩

/-- Writing the status of a batch is no end of a confirmation. -/
theorem settleStep_updateBatchStatus {id : Nat} {status : BatchStatus}
    (h : settlingBatch done = none) :
    SettleStep t done (.db (.updateBatchStatus id status)) := by
  refine ⟨?_, ?_, fun _ _ => nofun⟩
  · rintro id status rest rfl
    cases h
  · rintro roundId fb id status rest rfl
    cases h

theorem confirmSubmitted_settles (txids : List String) :
    Prog.Keeps (SettleStep .handler) (Unsettling fun _ => True)
      (confirmSubmitted txids) := by
  intro done h
  refine Prog.paths_bind (paths_db (settleStep_of_other rfl h.1) fun r => ?_)
  cases r with
  | error e => exact ⟨settlingBatch_cons rfl h.1 _, trivial⟩
  | ok submitted =>
    refine Prog.paths_mono (fun _ _ h => ⟨h.1, trivial⟩)
      (Prog.keeps_forM (J := Unsettling (ListRead submitted))
        (fun batch hb => ?_) _
        ⟨settlingBatch_cons rfl h.1 _, List.mem_cons_self⟩)
    unfold confirmIfMined
    split
    · refine keeps_runIf fun done h => ?_
      refine Prog.paths_bind (Prog.paths_bind (paths_db
        (settleStep_updateBatchStatus h.1) fun r => ?_))
      exact markPaid_settles ListRead.cons nofun (h.2.listed hb) h.2
    · exact Prog.keeps_pure _

theorem reconcileSubmittedPayouts_settles :
    Prog.Keeps (SettleStep .main) (Unsettling fun _ => True)
      AccountingService.reconcileSubmittedPayouts.run := by
  intro done h
  refine Prog.paths_exceptBind (paths_db (settleStep_of_other rfl h.1)
    fun r => ?_)
  cases r with
  | error e => exact ⟨settlingBatch_cons rfl h.1 _, trivial⟩
  | ok submitted =>
    refine Prog.paths_mono (fun _ _ h => ⟨h.1, trivial⟩)
      (keeps_liftM (Prog.keeps_forM (J := Unsettling (ListRead submitted))
        fun batch hb => ?_) _
        ⟨settlingBatch_cons rfl h.1 _, List.mem_cons_self⟩)
    unfold AccountingService.reconcileBatch
    split
    · exact Prog.keeps_pure _
    · refine Prog.Keeps.bind (keeps_unsettlingOp rfl ListRead.cons)
        fun r => ?_
      cases r with
      | error e => exact Prog.keeps_pure _
      | ok tx =>
        dsimp only
        split
        · intro done h
          refine Prog.paths_bind (paths_db (settleStep_updateBatchStatus h.1)
            fun r => ?_)
          cases r with
          | error e => exact ⟨rfl, ListRead.cons _ _ h.2⟩
          | ok u =>
            exact markPaid_settles ListRead.cons (fun _ => rfl)
              (h.2.listed hb) h.2
        · exact Prog.keeps_pure _

/-! ### The other bodies of the two tasks -/

section Bodies

variable (suite : Suite)

theorem Op.confirmsBatch_of_prepares {o : Op} (ho : o.prepares = true) :
    o.confirmsBatch = false := by
  cases o with
  | db d =>
    cases d with
    | updateBatchStatus id status | updateStatus id status => cases ho
    | _ => rfl
  | _ => rfl

theorem processPendingPayoutsLocked_settles (settings : PayoutSettings) :
    Prog.Keeps (SettleStep t) (Unsettling fun _ => True)
      (processPendingPayoutsLocked suite settings) := by
  have hop : ∀ {o : Op}, o.confirmsBatch = false →
      Prog.Keeps (SettleStep t) (Unsettling fun _ => True) (Prog.perform o) :=
    fun ho => keeps_unsettlingOp ho fun _ _ _ => trivial
  refine keeps_dropResult (Prog.Keeps.exceptBind (hop rfl) fun pending =>
    Prog.keeps_exceptForM fun batch _ =>
      AccountingService.keeps_processBatch (fun o done ho h => ?_) ?_)
  · exact hop (Op.confirmsBatch_of_prepares ho) done h
  · intro signed _ _ _
    refine Prog.Keeps.bind (hop rfl) fun r => ?_
    cases r with
    | error e => exact Prog.keeps_pure _
    | ok txid => exact keeps_dropResult (hop rfl)

theorem handlePayoutEvent_settles (settings : PayoutSettings)
    (event : PayoutEvent) :
    Prog.Keeps (SettleStep .handler) (Unsettling fun _ => True)
      (handlePayoutEvent suite settings event) := by
  cases event with
  | blockConnected txids =>
    exact Prog.Keeps.bind (confirmSubmitted_settles txids) fun _ =>
      processPendingPayoutsLocked_settles suite settings
  | blockMatured hash =>
    refine Prog.Keeps.bind (keeps_unsettlingOp rfl fun _ _ _ => trivial)
      fun r => ?_
    match r with
    | .error e | .ok none => exact Prog.keeps_pure _
    | .ok (some fb) =>
      refine Prog.Keeps.bind (keeps_unsettlingOp rfl fun _ _ _ => trivial)
        fun existing => ?_
      refine Prog.Keeps.bind (keeps_runIf (keeps_dropResult ?_)) fun _ =>
        processPendingPayoutsLocked_settles suite settings
      exact keeps_unsettlingOp rfl fun _ _ _ => trivial

theorem mainBoot_settles (config : ServerConfig) :
    Prog.Keeps (SettleStep .main) (Unsettling fun _ => True)
      (mainBoot config) := by
  have hop : ∀ {o : Op}, o.confirmsBatch = false →
      Prog.Keeps (SettleStep .main) (Unsettling fun _ => True)
        (Prog.perform o) :=
    fun ho => keeps_unsettlingOp ho fun _ _ _ => trivial
  refine Prog.Keeps.bind (hop rfl) fun r => ?_
  cases r with
  | none => exact Prog.keeps_pure _
  | some job =>
    refine Prog.Keeps.bind (hop rfl) fun _ => ?_
    refine Prog.Keeps.bind (hop rfl) fun _ => ?_
    refine Prog.Keeps.bind ?_ fun _ => ?_
    · refine Prog.Keeps.bind (hop rfl) fun r => ?_
      cases r with
      | error e => exact Prog.keeps_pure _
      | ok tip =>
        refine keeps_dropResult (keeps_unsettling
          (AccountingService.reconcileFoundBlocks_only tip) (fun o ho => ?_)
          fun _ _ _ => trivial)
        unfold Op.orphans at ho
        split at ho
        all_goals first | rfl | cases ho
    refine Prog.Keeps.bind
      (keeps_dropResult reconcileSubmittedPayouts_settles) fun _ => ?_
    refine Prog.Keeps.bind (hop rfl) fun _ => ?_
    refine Prog.Keeps.bind (hop rfl) fun _ => ?_
    refine Prog.Keeps.bind ?_ fun _ => ?_
    · refine Prog.Keeps.bind (hop rfl) fun r => ?_
      cases r with
      | error e => exact Prog.keeps_pure _
      | ok tip =>
        refine keeps_unsettling (announceMatured_only tip _) (fun o ho => ?_)
          fun _ _ _ => trivial
        unfold Op.matures at ho
        split at ho
        all_goals first | rfl | cases ho
    exact Prog.Keeps.bind (keeps_runIf (hop rfl)) fun _ => hop rfl

end Bodies

end Paths

/-! ### All runs -/

/-- What the tasks that confirm batches do. -/
def SettleOp (t : Task) (now : Option Work × Done) (o : Op) : Prop :=
  t.confirmsBatches = true → SettleStep t now.2 o

/-- No confirmation is left half done. -/
def SettleEnd (t : Task) (now : Option Work × Done) : Prop :=
  t.confirmsBatches = true → settlingBatch now.2 = none

section Runs

variable {suite : Suite} {data : ChainData} {config : ServerConfig}

/-- A body that keeps the order. -/
theorem follows_settles {t : Task} {k : Option Work} {p : Body Unit}
    (hp : t.confirmsBatches = true →
      Prog.Keeps (SettleStep t) (Unsettling fun _ => True) p) :
    Follows SettleOp SettleEnd t (k, []) p := by
  refine follows_guard (G := fun t now => SettleStep t now.2)
    (E := fun _ now => settlingBatch now.2 = none) fun ht => ?_
  exact Prog.paths_mono (fun _ _ h => h.1) (hp ht [] ⟨rfl, trivial⟩)

theorem boot_settles (t : Task) :
    Follows SettleOp SettleEnd t (none, []) (boot config t) := by
  refine follows_settles fun ht => ?_
  cases t with
  | main => exact mainBoot_settles config
  | handler => exact Prog.keeps_pure _
  | _ => cases ht

theorem start_settles {t : Task} {k : Work} {s s' : Pool} {p : Body Unit}
    (hstart : Start suite config t k s p s') :
    Follows SettleOp SettleEnd t (some k, []) p := by
  refine follows_settles fun ht => ?_
  cases hstart with
  | payoutEvent => exact handlePayoutEvent_settles suite _ _
  | _ => cases ht

/-- In every run, a confirmation goes from the batch to its block. -/
theorem turns_settles {ok : PoolWorld → PoolEntry → Prop} :
    (pool suite data config).Turns ok (Follow SettleOp SettleEnd) :=
  Machine.turns_follow boot_settles fun hstart => start_settles hstart

end Runs

/-! ## Confirmed batches -/

section Confirmed

variable {suite : Suite} {data : ChainData} {config : ServerConfig}
  {w : PoolWorld} {t : Task}

/-- A confirmed batch stays confirmed. -/
theorem Grounded.confirmed_run {d : DbOp}
    (hg : Grounded suite data w t (.db d)) {q : PayoutBatch}
    (h : w.shared.db.HasBatch (· = .confirmed) q) :
    (d.run w.shared.db).2.HasBatch (· = .confirmed) q := by
  obtain ⟨p, hp, hfix, hstatus⟩ := h
  cases d with
  | updateBatchStatus id status =>
    refine ⟨_, List.mem_map.2 ⟨p, hp, rfl⟩, ?_⟩
    split_ifs
    · refine ⟨hfix, ?_⟩
      cases status with
      | confirmed => rfl
      | _ => cases hg.1
    · exact ⟨hfix, hstatus⟩
  | markBatchSubmitted id txid =>
    obtain ⟨batch, ⟨p', hp', hfix', hpending⟩, hid⟩ := hg.2
    have hne : p.id ≠ id := by
      intro heq
      have hids := heq.trans (hid.symm.trans (PayoutBatch.id_of_fixed hfix').symm)
      rw [w.shared.db.payoutBatches.eq_of_id hp hp' hids, hpending] at hstatus
      cases hstatus
    refine ⟨p, List.mem_map.2 ⟨p, hp, if_neg ?_⟩, hfix, hstatus⟩
    simpa using hne
  | createPayout _ _ _ _ =>
    exact ⟨p, DbOp.mem_createPayout hp, hfix, hstatus⟩
  | _ =>
    rw [Database.HasBatch, (DbOp.frame _ w.shared.db).payoutBatches rfl]
    exact ⟨p, hp, hfix, hstatus⟩

theorem Grounded.confirmed_sem {o : Op} {r : o.Res} {s' : Pool}
    (hg : Grounded suite data w t o)
    (hsem : (pool suite data config).sem o w.shared r s') {q : PayoutBatch}
    (h : w.shared.db.HasBatch (· = .confirmed) q) :
    s'.db.HasBatch (· = .confirmed) q := by
  rcases sem_database hsem with heq | ⟨d, rfl, _, rfl⟩
  · rw [heq]
    exact h
  · exact hg.confirmed_run h

/-- A confirmed batch was confirmed before, or it has just become so. -/
theorem DbOp.confirmed_backward {d : DbOp} {db : Database} {p' : PayoutBatch}
    (hp' : p' ∈ (d.run db).2.payoutBatches.rows)
    (hstatus : p'.status = .confirmed) :
    (∃ p ∈ db.payoutBatches.rows, p.fixed = p'.fixed ∧ p.status = .confirmed) ∨
      d = .updateBatchStatus p'.id .confirmed := by
  cases d with
  | updateBatchStatus id status =>
    obtain ⟨p, hp, rfl⟩ := List.mem_map.1 hp'
    by_cases hid : (p.id == id) = true
    · rw [if_pos hid] at hstatus ⊢
      cases hstatus
      rw [← eq_of_beq hid]
      exact Or.inr rfl
    · rw [if_neg hid] at hstatus ⊢
      exact Or.inl ⟨p, hp, rfl, hstatus⟩
  | markBatchSubmitted id txid =>
    obtain ⟨p, hp, rfl⟩ := List.mem_map.1 hp'
    by_cases hid : (p.id == id) = true
    · rw [if_pos hid] at hstatus
      cases hstatus
    · rw [if_neg hid] at hstatus ⊢
      exact Or.inl ⟨p, hp, rfl, hstatus⟩
  | createPayout block difficulty reward settings =>
    rcases createPayoutSection_cases block difficulty reward settings db with
      ⟨e, h⟩ | ⟨_, _, _, _, _, _, _, _, _, hins, h⟩
    · simp only [DbOp.run, h] at hp'
      exact Or.inl ⟨p', hp', rfl, hstatus⟩
    · obtain ⟨_, _, _, hrows⟩ := Table.insert_some hins
      simp only [DbOp.run, h, hrows] at hp'
      rcases List.mem_append.1 hp' with hold | hnew
      · exact Or.inl ⟨p', hold, rfl, hstatus⟩
      · rw [List.mem_singleton.1 hnew] at hstatus
        cases hstatus
  | _ =>
    rw [(DbOp.frame _ db).payoutBatches rfl] at hp'
    exact Or.inl ⟨p', hp', rfl, hstatus⟩

theorem confirmed_sem {o : Op} {s s' : Pool} {r : o.Res}
    (hsem : (pool suite data config).sem o s r s') {p' : PayoutBatch}
    (hp' : p' ∈ s'.db.payoutBatches.rows) (hstatus : p'.status = .confirmed) :
    (∃ p ∈ s.db.payoutBatches.rows,
        p.fixed = p'.fixed ∧ p.status = .confirmed) ∨
      (⟨o, r⟩ : (o : Op) × o.Res) =
        ⟨.db (.updateBatchStatus p'.id .confirmed), .ok ()⟩ := by
  rcases sem_database hsem with heq | ⟨d, rfl, hr, rfl⟩
  · rw [heq] at hp'
    exact Or.inl ⟨p', hp', rfl, hstatus⟩
  · cases hr
    rcases DbOp.confirmed_backward hp' hstatus with hold | rfl
    · exact Or.inl hold
    · exact Or.inr rfl

/-! ### Answers -/

/-- What stays true of an answer in a confirmation. -/
def SettleKnown (t : Task) (db : Database) : (o : Op) × o.Res → Prop
  | ⟨.db (.updateBatchStatus id _), .ok _⟩ =>
    ∃ q : PayoutBatch, q.id = id ∧ db.HasBatch (· = .confirmed) q
  | ⟨.db (.updateBatchStatus _ _), .error _⟩ => t ≠ .handler
  | ⟨.db (.listBatches _), .ok batches⟩ =>
    ∀ q ∈ batches, db.HasBatch (fun _ => True) q
  | _ => True

theorem SettleKnown.mono {db db' : Database} {x : (o : Op) × o.Res}
    (hconfirmed : ∀ q, db.HasBatch (· = .confirmed) q →
      db'.HasBatch (· = .confirmed) q)
    (hbatch : ∀ q, db.HasBatch (fun _ => True) q →
      db'.HasBatch (fun _ => True) q)
    (h : SettleKnown t db x) : SettleKnown t db' x := by
  unfold SettleKnown at h ⊢
  split
  · obtain ⟨q, hid, hq⟩ := h
    exact ⟨q, hid, hconfirmed q hq⟩
  · exact h
  · exact fun q hq => hbatch q (h q hq)
  · trivial

theorem hasBatch_sem {o : Op} {s s' : Pool} {r : o.Res} {q : PayoutBatch}
    (hsem : (pool suite data config).sem o s r s')
    (h : s.db.HasBatch (fun _ => True) q) :
    s'.db.HasBatch (fun _ => True) q := by
  rcases sem_database hsem with heq | ⟨d, rfl, _, rfl⟩
  · rw [heq]
    exact h
  · obtain ⟨p, hp, hfix, _⟩ := h
    obtain ⟨p', hp', hfix'⟩ := d.batches_forward hp
    exact ⟨p', hp', hfix'.trans hfix, trivial⟩

/-- The batches that a query returns are in the table. -/
theorem hasBatch_listed {filter : Option BatchStatus}
    {batches : List PayoutBatch} {s s' : Pool}
    (hsem : (pool suite data config).sem (.db (.listBatches filter)) s
      (.ok batches) s') :
    ∀ q ∈ batches, s'.db.HasBatch (fun _ => True) q := by
  rcases sem_db hsem with ⟨hr, rfl⟩ | ⟨⟨e, he⟩, _⟩
  · cases hr
    intro q hq
    exact ⟨q, List.mem_reverse.1 (List.mem_filter.1 hq).1, rfl, trivial⟩
  · cases he

end Confirmed

/-! ## Runs in which payments are left alone -/

/-- The hash of a block that the consumer takes back in. -/
def unOrphaning : PoolEntry → Option String
  | .did _ (.db (.unOrphan hash)) _ => some hash
  | _ => none

/-- The id of a block that is promoted. -/
def maturing : PoolEntry → Option Nat
  | .did _ (.db (.markMatured id)) _ => some id
  | _ => none

/-- The database refuses a section of a confirmation that the task does not
stop at. -/
def refusedSettling (w : PoolWorld) : PoolEntry → Bool
  | .did .handler (.db (.updateBatchStatus ..)) (.error _) => true
  | .did t (.db (.getByRoundId _)) (.error _) =>
    (settlingBatch (current t w.log).2).isSome
  | .did _ (.db (.updateStatus ..)) (.error _) => true
  | _ => false

/-- Each block gets a round of its own; a block with a confirmed batch is
neither taken back in nor promoted; and a confirmation is not cut short by
the database or by a crash. -/
structure PaidKept (w : PoolWorld) (e : PoolEntry) : Prop where
  ownRound : OwnRound w e
  reconnects : ∀ hash ∈ unOrphaning e, ∀ p ∈ w.shared.db.payoutBatches.rows,
    p.status = .confirmed → batchOfBlock hash p = false
  matures : ∀ id ∈ maturing e, ∀ b ∈ w.shared.db.foundBlocks.rows, b.id = id →
    ∀ p ∈ w.shared.db.payoutBatches.rows, p.status = .confirmed →
      batchOfBlock b.blockHash p = false
  served : refusedSettling w e = false
  survives : isCrash e = true → ∀ t ∈ [Task.main, .handler],
    settlingBatch (current t w.log).2 = none

instance (w : PoolWorld) (e : PoolEntry) : Decidable (PaidKept w e) :=
  decidable_of_iff
    (OwnRound w e ∧
      (∀ hash ∈ unOrphaning e, ∀ p ∈ w.shared.db.payoutBatches.rows,
        p.status = .confirmed → batchOfBlock hash p = false) ∧
      (∀ id ∈ maturing e, ∀ b ∈ w.shared.db.foundBlocks.rows, b.id = id →
        ∀ p ∈ w.shared.db.payoutBatches.rows, p.status = .confirmed →
          batchOfBlock b.blockHash p = false) ∧
      refusedSettling w e = false ∧
      (isCrash e = true → ∀ t ∈ [Task.main, .handler],
        settlingBatch (current t w.log).2 = none))
    ⟨fun ⟨h₁, h₂, h₃, h₄, h₅⟩ => ⟨h₁, h₂, h₃, h₄, h₅⟩,
      fun h => ⟨h.ownRound, h.reconnects, h.matures, h.served, h.survives⟩⟩

/-! ## The invariant -/

/-- A paid block has a confirmed batch, and the block of a confirmed batch is
paid, or it is orphaned, or it is about to become paid. -/
structure PaidConfirmed (db : Database) (log : List PoolEntry) : Prop where
  paid : ∀ b ∈ db.foundBlocks.rows, b.status = .paid →
    ∃ p ∈ db.payoutBatches.rows, batchOfBlock b.blockHash p = true ∧
      p.status = .confirmed
  confirmed : ∀ p ∈ db.payoutBatches.rows, p.status = .confirmed →
    ∀ b ∈ db.foundBlocks.rows, batchOfBlock b.blockHash p = true →
      b.status = .paid ∨ b.status = .orphaned ∨
        ∃ t ∈ [Task.main, .handler],
          settlingBatch (current t log).2 = some p.id

section Invariant

variable {suite : Suite} {data : ChainData} {config : ServerConfig}
  {w : PoolWorld} {t : Task} {o : Op} {r : o.Res} {s' : Pool}

theorem settleKnown_new (hg : Grounded suite data w t o)
    (hok : PaidKept w (.did t o r))
    (hsem : (pool suite data config).sem o w.shared r s') :
    SettleKnown t s'.db ⟨o, r⟩ := by
  unfold SettleKnown
  split
  · rename_i id status u heq
    cases heq
    obtain ⟨batch, ⟨p, hp, hfix, _⟩, hid⟩ := hg.2
    refine ⟨p, (PayoutBatch.id_of_fixed hfix).trans hid, ?_⟩
    rcases sem_db hsem with ⟨_, rfl⟩ | ⟨⟨e, he⟩, _⟩
    · have hmatch : (p.id == id) = true := by
        simpa using (PayoutBatch.id_of_fixed hfix).trans hid
      refine ⟨_, List.mem_map.2 ⟨p, hp, if_pos hmatch⟩, rfl, ?_⟩
      cases status with
      | confirmed => rfl
      | _ => cases hg.1
    · cases he
  · rename_i id status e heq
    cases heq
    rintro rfl
    cases hok.served
  · rename_i filter batches heq
    cases heq
    exact hasBatch_listed hsem
  · trivial

theorem reach_settleKnown {c : PoolConfig}
    (h : (pool suite data config).Reach PaidKept c) :
    ∀ t, ∀ x ∈ (current t c.world.log).2,
      SettleKnown t c.world.shared.db x := by
  refine reach_answers ?_ ?_ ?_ (reach_grounded h)
  · exact fun hsem hok => SettleKnown.mono
      (fun q => hok.2.2.confirmed_sem hsem) fun q => hasBatch_sem hsem
  · exact fun now => SettleKnown.mono (fun _ h => h) fun _ h => h
  · exact fun hsem hok => settleKnown_new hok.2.2 hok.1 hsem

/-- The batch and the block that a confirmation ends with. -/
theorem updateStatus_rows (hsound : Sound data w.shared.db)
    (hone : OneBlock w.shared.db) {id : Nat} {status : BlockStatus}
    (hg : Grounded suite data w t (.db (.updateStatus id status))) :
    ∃ p ∈ w.shared.db.payoutBatches.rows,
      confirming t w.log = some p.id ∧
      ∃ b ∈ w.shared.db.foundBlocks.rows, b.id = id ∧
        batchOfBlock b.blockHash p = true ∧
        ∀ b' ∈ w.shared.db.foundBlocks.rows,
          batchOfBlock b'.blockHash p = true → b' = b := by
  obtain ⟨batch, block, ⟨p, hp, hfix, _⟩, hblock, hconfirming, hid, hround⟩ :=
    hg.2
  obtain ⟨b, hb, _, _, hunique⟩ := hsound.batch_block hp
  have hkey : batchOfBlock b.blockHash p = true := (hunique b hb).2 rfl
  have hblockfix := hone.fixed_eq hsound hp hblock (by
    rw [hround, PayoutBatch.roundId_of_fixed hfix]) hb hkey
  refine ⟨p, hp, ?_, b, hb, ?_, hkey, fun b' hb' => (hunique b' hb').1⟩
  · rw [hconfirming, PayoutBatch.id_of_fixed hfix]
  · rw [← hid, FoundBlock.id_of_fixed hblockfix]

/-- A block that has just been set to paid. -/
theorem paid_of_updateStatus {id : Nat} {s : Pool}
    (hsem : (pool suite data config).sem (.db (.updateStatus id .paid)) s
      (.ok ()) s') {b : FoundBlock} (hb : b ∈ s'.db.foundBlocks.rows)
    (hid : b.id = id) : b.status = .paid := by
  rcases sem_db hsem with ⟨_, rfl⟩ | ⟨⟨e, he⟩, _⟩
  · obtain ⟨a, _, rfl⟩ := List.mem_map.1 hb
    by_cases hmatch : (a.id == id) = true
    · rw [if_pos hmatch]
    · rw [if_neg hmatch] at hid
      exact absurd (by simpa using hid) hmatch
  · cases he

/-- A task in the middle of a confirmation goes on with it, or it sets the
block of the batch to paid. -/
theorem settling_next (hsound : Sound data w.shared.db)
    (hone : OneBlock w.shared.db) (hg : Grounded suite data w t o)
    (hok : PaidKept w (.did t o r))
    (hstep : SettleStep t (current t w.log).2 o)
    (hknown : ∀ x ∈ (current t w.log).2, SettleKnown t w.shared.db x)
    (hsem : (pool suite data config).sem o w.shared r s') {p : PayoutBatch}
    (hp : p ∈ w.shared.db.payoutBatches.rows)
    (hsettling : settlingBatch (current t w.log).2 = some p.id)
    {b : FoundBlock} (hb : b ∈ w.shared.db.foundBlocks.rows)
    (hkey : batchOfBlock b.blockHash p = true) :
    settlingBatch (⟨o, r⟩ :: (current t w.log).2) = some p.id ∨
      (⟨o, r⟩ : (o : Op) × o.Res) =
        ⟨.db (.updateStatus b.id .paid), .ok ()⟩ := by
  have hserved := hok.served
  unfold settlingBatch at hsettling
  split at hsettling
  · -- The batch has just been set to confirmed; the lookup finds `b`.
    rename_i id status u rest hdone
    cases hsettling
    obtain ⟨batch, ⟨filter, batches, hmem, hbatch⟩, hid, rfl⟩ :=
      hstep.looks p.id status rest hdone
    obtain ⟨q, hq, hfix, _⟩ := hknown _ hmem batch hbatch
    have hqp : q = p := by
      refine w.shared.db.payoutBatches.eq_of_id hq hp ?_
      exact (PayoutBatch.id_of_fixed hfix).trans hid
    have hlookup := hone.lookup hsound hp hb hkey
    rw [← hqp, PayoutBatch.roundId_of_fixed hfix] at hlookup
    rcases sem_db hsem with ⟨hr, _⟩ | ⟨⟨e, rfl⟩, _⟩
    · rw [hlookup] at hr
      rw [hr, hdone]
      exact Or.inl rfl
    · simp only [refusedSettling, hdone, settlingBatch] at hserved
      cases hserved
  · rename_i roundId fb id status u rest hdone
    cases hsettling
    obtain rfl := hstep.pays roundId fb p.id status rest hdone
    refine Or.inr ?_
    obtain ⟨q, hq, hconfirming, b₀, _, hid₀, _, hunique⟩ :=
      updateStatus_rows hsound hone hg
    have hqp : q = p := by
      refine w.shared.db.payoutBatches.eq_of_id hq hp ?_
      unfold confirming at hconfirming
      rw [hdone] at hconfirming
      exact (Option.some.inj hconfirming).symm
    have hb₀ : b = b₀ := hunique b hb (hqp ▸ hkey)
    rw [hb₀, hid₀]
    cases r with
    | error e =>
      simp only [refusedSettling] at hserved
      cases hserved
    | ok u => rfl
  · cases hsettling

/-- The tasks that set a block to another status. -/
theorem updateStatus_by {id : Nat} {status : BlockStatus}
    (hby : (Op.db (.updateStatus id status)).by t = true) :
    status = .paid ∧ (t = .main ∨ t = .handler) := by
  cases status with
  | paid =>
    refine ⟨rfl, ?_⟩
    simpa [Op.by, DbOp.by, or_comm] using hby
  | _ => cases hby

/-- The batch of a block that is being set to paid is confirmed. -/
theorem confirmed_of_updateStatus (hsound : Sound data w.shared.db)
    (hone : OneBlock w.shared.db) {id : Nat} {status : BlockStatus}
    (hg : Grounded suite data w t (.db (.updateStatus id status)))
    (hstep : SettleOp t (current t w.log) (.db (.updateStatus id status)))
    (hknown : ∀ x ∈ (current t w.log).2, SettleKnown t w.shared.db x)
    {b : FoundBlock} (hb : b ∈ w.shared.db.foundBlocks.rows)
    (hid : b.id = id) : ∃ p ∈ w.shared.db.payoutBatches.rows,
      batchOfBlock b.blockHash p = true ∧ p.status = .confirmed := by
  obtain ⟨p, hp, hconfirming, b₀, hb₀, hid₀, hkey, _⟩ :=
    updateStatus_rows hsound hone hg
  have hb₀' : b = b₀ :=
    w.shared.db.foundBlocks.eq_of_id hb hb₀ (hid.trans hid₀.symm)
  refine ⟨p, hp, hb₀' ▸ hkey, ?_⟩
  obtain ⟨_, ht⟩ := updateStatus_by hg.1
  have hconfirms : t.confirmsBatches = true := by
    rcases ht with rfl | rfl <;> rfl
  obtain ⟨roundId, fb, id', status', r', rest, hdone, _, hmain⟩ :=
    (hstep hconfirms).paid id status rfl
  have hid' : id' = p.id := by
    unfold confirming at hconfirming
    rw [hdone] at hconfirming
    exact Option.some.inj hconfirming
  have hupdate := hknown ⟨.db (.updateBatchStatus id' status'), r'⟩ (by
    rw [hdone]
    simp)
  cases r' with
  | error e =>
    -- `main` stops after this answer, and the handler does not get it.
    rcases ht with rfl | rfl
    · cases hmain rfl
    · exact absurd rfl hupdate
  | ok u =>
    obtain ⟨q, hq, p', hp', hfix, hstatus⟩ := hupdate
    have hpp : p' = p := by
      refine w.shared.db.payoutBatches.eq_of_id hp' hp ?_
      exact (PayoutBatch.id_of_fixed hfix).trans (hq.trans hid')
    rw [← hpp, hstatus]

namespace PaidConfirmed

section Did

variable (h : PaidConfirmed w.shared.db w.log)
  (hsound : Sound data w.shared.db) (hone : OneBlock w.shared.db)
  (hg : Grounded suite data w t o) (hok : PaidKept w (.did t o r))
  (hstep : SettleOp t (current t w.log) o)
  (hknown : ∀ x ∈ (current t w.log).2, SettleKnown t w.shared.db x)
  (hsem : (pool suite data config).sem o w.shared r s')

include h hsound hone hg hstep hknown hsem

theorem paid_did {b' : FoundBlock} (hb' : b' ∈ s'.db.foundBlocks.rows)
    (hpaid : b'.status = .paid) : ∃ p ∈ s'.db.payoutBatches.rows,
      batchOfBlock b'.blockHash p = true ∧ p.status = .confirmed := by
  -- The batch was confirmed before, and it stays so.
  suffices hold : ∃ p ∈ w.shared.db.payoutBatches.rows,
      batchOfBlock b'.blockHash p = true ∧ p.status = .confirmed by
    obtain ⟨p, hp, hkey, hstatus⟩ := hold
    obtain ⟨p', hp', hfix, hstatus'⟩ :=
      hg.confirmed_sem hsem ⟨p, hp, rfl, hstatus⟩
    refine ⟨p', hp', ?_, hstatus'⟩
    unfold batchOfBlock at hkey ⊢
    rw [PayoutBatch.retryKey_of_fixed hfix, hkey]
  rcases sem_blockStep hsem b' hb' with ⟨b, hb, hfix, hchange⟩ | ⟨hnew, _⟩
  · rw [← FoundBlock.blockHash_of_fixed hfix]
    cases hchange with
    | same hsame => exact h.paid b hb (hsame.symm.trans hpaid)
    | orphaned _ _ hstatus | unOrphaned _ _ hstatus | matured _ hstatus =>
      rw [hstatus] at hpaid
      cases hpaid
    | updated status hx hstatus =>
      cases hx
      exact confirmed_of_updateStatus hsound hone hg hstep hknown hb
        (FoundBlock.id_of_fixed hfix)
  · rw [hnew] at hpaid
    cases hpaid

include hok

theorem confirmed_did {p' : PayoutBatch}
    (hp' : p' ∈ s'.db.payoutBatches.rows) (hconfirmed : p'.status = .confirmed)
    {b' : FoundBlock} (hb' : b' ∈ s'.db.foundBlocks.rows)
    (hkey : batchOfBlock b'.blockHash p' = true) :
    b'.status = .paid ∨ b'.status = .orphaned ∨
      ∃ u ∈ [Task.main, .handler],
        settlingBatch (current u (.did t o r :: w.log)).2 = some p'.id := by
  rcases confirmed_sem hsem hp' hconfirmed with ⟨p, hp, hfixp, hstatus⟩ | hx
  · have hid := PayoutBatch.id_of_fixed hfixp
    have hretry := PayoutBatch.retryKey_of_fixed hfixp
    have hkeyp : batchOfBlock b'.blockHash p = true := by
      unfold batchOfBlock at hkey ⊢
      rw [hretry, hkey]
    rcases sem_blockStep hsem b' hb' with
      ⟨b, hb, hfix, hchange⟩ | ⟨_, hfresh, block, row, hx, hhash, _⟩
    · have hhash := FoundBlock.blockHash_of_fixed hfix
      have hkeyb : batchOfBlock b.blockHash p = true := hhash ▸ hkeyp
      cases hchange with
      | same hsame =>
        rcases h.confirmed p hp hstatus b hb hkeyb with
          hpaid | horphaned | ⟨u, hu, hsettling⟩
        · exact Or.inl (hsame.trans hpaid)
        · exact Or.inr (Or.inl (hsame.trans horphaned))
        · by_cases hut : u = t
          · subst hut
            have hconfirms : u.confirmsBatches = true := by
              simpa [Task.confirmsBatches] using hu
            rcases settling_next hsound hone hg hok (hstep hconfirms) hknown
              hsem hp hsettling hb hkeyb with hgoes | hx
            · refine Or.inr (Or.inr ⟨u, hu, ?_⟩)
              rw [current_did, hgoes, hid]
            · cases hx
              exact Or.inl (paid_of_updateStatus hsem hb'
                (FoundBlock.id_of_fixed hfix).symm)
          · refine Or.inr (Or.inr ⟨u, hu, ?_⟩)
            rw [current_did_of_ne hut, hsettling, hid]
      | orphaned reason hx hstatus' => exact Or.inr (Or.inl hstatus')
      | unOrphaned hx _ _ =>
        cases hx
        rw [hok.reconnects _ rfl p hp hstatus] at hkeyp
        cases hkeyp
      | matured hx _ =>
        cases hx
        have hfree := hok.matures _ rfl b hb (FoundBlock.id_of_fixed hfix) p hp
          hstatus
        rw [hfree] at hkeyb
        cases hkeyb
      | updated status hx hstatus' =>
        cases hx
        obtain ⟨rfl, _⟩ := updateStatus_by hg.1
        exact Or.inl hstatus'
    · -- A block that has just been recorded has no batch yet.
      cases hx
      obtain ⟨job, roundId, hash', rfl⟩ := hg.2
      obtain ⟨b₀, hb₀, hcreated, _⟩ := hsound.batch_block hp
      obtain ⟨hash₀, hhash₀⟩ := hsound.hash b₀ hb₀
      rw [hhash₀] at hcreated
      have hhash' : b'.blockHash = hash'.toHexBe := hhash
      rw [hhash', hcreated.batchOfBlock_iff, ← hhash', ← hhash₀] at hkeyp
      exact absurd hkeyp.symm (hfresh b₀ hb₀)
  · cases hx
    have ht : t = .handler ∨ t = .main := by
      simpa [Op.by, DbOp.by] using hg.1
    refine Or.inr (Or.inr ⟨t, ?_, ?_⟩)
    · rcases ht with rfl | rfl <;> decide
    · rw [current_did]
      rfl

end Did

/-- A block that was paid stays so, or it is orphaned. -/
theorem stays_did (h : PaidConfirmed w.shared.db w.log)
    (hg : Grounded suite data w t o) (hok : PaidKept w (.did t o r))
    (hsem : (pool suite data config).sem o w.shared r s') {b : FoundBlock}
    (hb : b ∈ w.shared.db.foundBlocks.rows) (hpaid : b.status = .paid)
    {b' : FoundBlock} (hb' : b' ∈ s'.db.foundBlocks.rows)
    (hhash : b'.blockHash = b.blockHash) :
    b'.status = .paid ∨ b'.status = .orphaned := by
  rcases sem_blockStep hsem b' hb' with ⟨a, ha, hfix, hchange⟩ | ⟨_, hfresh, _⟩
  · obtain rfl : a = b := by
      refine w.shared.db.foundBlocks.eq_of_key ha hb (k := b.blockHash) ?_ rfl
      exact congrArg some ((FoundBlock.blockHash_of_fixed hfix).trans hhash)
    cases hchange with
    | same hsame => exact Or.inl (hsame.trans hpaid)
    | orphaned _ _ hstatus => exact Or.inr hstatus
    | unOrphaned _ hold _ =>
      rw [hold] at hpaid
      cases hpaid
    | matured hx _ =>
      cases hx
      obtain ⟨p, hp, hkey, hconfirmed⟩ := h.paid a ha hpaid
      have hfree := hok.matures _ rfl a ha (FoundBlock.id_of_fixed hfix) p hp
        hconfirmed
      rw [hfree] at hkey
      cases hkey
    | updated status hx hstatus =>
      cases hx
      obtain ⟨rfl, _⟩ := updateStatus_by hg.1
      exact Or.inl hstatus
  · exact absurd hhash.symm (hfresh b hb)

end PaidConfirmed

/-- What is known at each turn of a run that meets the condition. -/
theorem turns_paidKept : (pool suite data config).Turns PaidKept fun w e =>
    OneBlock w.shared.db ∧
      (∀ t, ∀ x ∈ (current t w.log).2, SettleKnown t w.shared.db x) ∧
      Follow SettleOp SettleEnd w e := by
  intro c c' e h hok hstep
  refine ⟨?_, reach_settleKnown h, turns_settles h hok hstep⟩
  exact reach_oneBlock (h.mono fun _ _ hok => hok.ownRound)

/-- In every run that meets the condition, paid blocks and confirmed batches
belong together. -/
theorem reach_paidConfirmed {c : PoolConfig}
    (h : (pool suite data config).Reach PaidKept c) :
    PaidConfirmed c.world.shared.db c.world.log := by
  refine reach_history ?_ ?_ ?_ ?_ ?_
    (reach_grounded (turns_paidKept.reach h))
  · exact fun now => ⟨fun _ => nofun, fun _ => nofun⟩
  · intro w t o r s' h hsem ⟨⟨hok, hone, hknown, hstep⟩, hsound, hg⟩
    refine ⟨fun b hb hpaid => ?_, fun p hp hconfirmed b hb hkey => ?_⟩
    · exact h.paid_did hsound hone hg hstep (hknown t) hsem hb hpaid
    · exact h.confirmed_did hsound hone hg hok hstep (hknown t) hsem hp
        hconfirmed hb hkey
  · intro w t k p s' h _ ⟨⟨_, _, _, hend⟩, _⟩
    refine ⟨h.paid, fun p hp hconfirmed b hb hkey => ?_⟩
    rcases h.confirmed p hp hconfirmed b hb hkey with
      hpaid | horphaned | ⟨u, hu, hsettling⟩
    · exact Or.inl hpaid
    · exact Or.inr (Or.inl horphaned)
    · -- A task that begins new work has left no confirmation half done.
      refine Or.inr (Or.inr ⟨u, hu, ?_⟩)
      by_cases hut : u = t
      · subst hut
        rw [hend (by simpa [Task.confirmsBatches] using hu)] at hsettling
        cases hsettling
      · rw [current_began_of_ne hut, hsettling]
  · exact fun now h => ⟨h.paid, h.confirmed⟩
  · intro w h ⟨⟨hok, _⟩, _⟩
    refine ⟨h.paid, fun p hp hconfirmed b hb hkey => ?_⟩
    rcases h.confirmed p hp hconfirmed b hb hkey with
      hpaid | horphaned | ⟨u, hu, hsettling⟩
    · exact Or.inl hpaid
    · exact Or.inr (Or.inl horphaned)
    · rw [hok.survives rfl u hu] at hsettling
      cases hsettling

/-- In every run that meets the condition, a block that is not orphaned is
paid exactly when a batch of it is confirmed, but for the time between the
two sections of its confirmation; and a paid block stays paid as long as it
is not orphaned. -/
theorem reach_paid_iff {c : PoolConfig}
    (h : (pool suite data config).Reach PaidKept c) :
    (∀ b ∈ c.world.shared.db.foundBlocks.rows, b.status ≠ .orphaned →
      (∀ p ∈ c.world.shared.db.payoutBatches.rows,
        batchOfBlock b.blockHash p = true → ∀ t ∈ [Task.main, .handler],
          settlingBatch (current t c.world.log).2 ≠ some p.id) →
      (b.status = .paid ↔ ∃ p ∈ c.world.shared.db.payoutBatches.rows,
        batchOfBlock b.blockHash p = true ∧ p.status = .confirmed)) ∧
    ∀ c' e, PaidKept c.world e → (pool suite data config).Step c e c' →
      ∀ b ∈ c.world.shared.db.foundBlocks.rows, b.status = .paid →
        ∀ b' ∈ c'.world.shared.db.foundBlocks.rows,
          b'.blockHash = b.blockHash →
            b'.status = .paid ∨ b'.status = .orphaned := by
  have hinv := reach_paidConfirmed h
  refine ⟨fun b hb hstatus hdone => ⟨hinv.paid b hb, ?_⟩, ?_⟩
  · rintro ⟨p, hp, hkey, hconfirmed⟩
    rcases hinv.confirmed p hp hconfirmed b hb hkey with
      hpaid | horphaned | ⟨t, ht, hsettling⟩
    · exact hpaid
    · exact absurd horphaned hstatus
    · exact absurd hsettling (hdone p hp hkey t ht)
  · intro c' e hok hstep b hb hpaid b' hb' hhash
    -- Only an operation writes to the table.
    have hsame : b' ∈ c.world.shared.db.foundBlocks.rows →
        b'.status = .paid ∨ b'.status = .orphaned := by
      intro hold
      rw [c.world.shared.db.foundBlocks.eq_of_key hold hb (k := b.blockHash)
        (congrArg some hhash) rfl]
      exact Or.inl hpaid
    obtain ⟨_, hground⟩ := turns_grounded h hok hstep
    cases hstep with
    | exec _ hsem => exact hinv.stays_did hground hok hsem hb hpaid hb' hhash
    | begin _ hstart =>
      rw [World.after_shared, start_database hstart] at hb'
      exact hsame hb'
    | env henv =>
      rcases henv with ⟨now, _, rfl⟩ | ⟨_, chain, _, rfl⟩ <;> exact hsame hb'
    | crash hcrash =>
      obtain ⟨chain, _, rfl⟩ := hcrash
      exact hsame hb'

end Invariant

/-- The first block is found and promoted, its payout is signed, and the
transaction is in the third block of the chain. -/
def paysFirst : List Scene :=
  let replies : Replies := { rawTx := .ok sampleTx, signed := .ok "txid" }
  maturesFirst ++ handles (.blockConnected []) replies ++
    handles (.blockMatured firstHash) replies ++
    handles (.blockConnected []) replies ++ connects "b3" 3 ["txid"] ++
    handles (.blockConnected ["txid"]) replies

/-- The node takes back its three blocks. -/
def takesBack : List Scene :=
  disconnects "b3" 3 ++ disconnects "b2" 2 ++ disconnects firstHash 1

/-- A run in which a payout is confirmed. -/
theorem reach_paid_iff_sample : ∃ c : PoolConfig,
    (pool sampleSuite sampleData sampleConfig).Reach PaidKept c ∧
      ∃ b ∈ c.world.shared.db.foundBlocks.rows, b.status = .paid ∧
        ∃ p ∈ c.world.shared.db.payoutBatches.rows,
          batchOfBlock b.blockHash p = true ∧ p.status = .confirmed := by
  have hrun : (schedule sampleSuite sampleData sampleConfig
      (fun w e => decide (PaidKept w e)) ["genesis"] paysFirst).any (fun c =>
        decide (∃ b ∈ c.world.shared.db.foundBlocks.rows, b.status = .paid ∧
          ∀ p ∈ c.world.shared.db.payoutBatches.rows,
            batchOfBlock b.blockHash p = true → ∀ t ∈ [Task.main, .handler],
              settlingBatch (current t c.world.log).2 ≠ some p.id)) =
      true := by
    decide +kernel
  obtain ⟨c, _, hreach, b, hb, hpaid, hdone⟩ := exists_schedule _ _ _
    (fun _ _ h => of_decide_eq_true h) (by decide) hrun
  have hstatus : b.status ≠ .orphaned := by
    rw [hpaid]
    decide
  exact ⟨c, hreach, b, hb, hpaid,
    ((reach_paid_iff hreach).1 b hb hstatus hdone).1 hpaid⟩

/-- The paid block leaves the chain and comes back.  Its batch is still
confirmed, and the block is matured. -/
theorem paid_iff_fails : ∃ c c' : PoolConfig,
    schedule sampleSuite sampleData sampleConfig (fun _ _ => true) ["genesis"]
        paysFirst = some c ∧
      c.world.shared.db.foundBlocks.rows.map (·.status) = [.paid] ∧
      schedule sampleSuite sampleData sampleConfig (fun _ _ => true)
        ["genesis"] (paysFirst ++ takesBack ++ connects firstHash 1) =
          some c' ∧
      (pool sampleSuite sampleData sampleConfig).Reach (fun _ _ => True) c' ∧
      (∀ t, c'.task t = .ret ()) ∧
      ∃ b ∈ c'.world.shared.db.foundBlocks.rows, b.status = .matured ∧
        ∃ p ∈ c'.world.shared.db.payoutBatches.rows,
          batchOfBlock b.blockHash p = true ∧ p.status = .confirmed := by
  have hpaid : (schedule sampleSuite sampleData sampleConfig
      (fun _ _ => true) ["genesis"] paysFirst).map
        (fun c => c.world.shared.db.foundBlocks.rows.map (·.status)) =
      some [.paid] := by
    decide +kernel
  have hback : (schedule sampleSuite sampleData sampleConfig
      (fun _ _ => true) ["genesis"]
      (paysFirst ++ takesBack ++ connects firstHash 1)).any (fun c =>
        decide ((∀ t ∈ Task.main :: (paysFirst ++ takesBack ++
            connects firstHash 1).flatMap Scene.tasks,
          (c.task t).isRet = true) ∧
        ∃ b ∈ c.world.shared.db.foundBlocks.rows, b.status = .matured ∧
          ∃ p ∈ c.world.shared.db.payoutBatches.rows,
            batchOfBlock b.blockHash p = true ∧ p.status = .confirmed)) =
      true := by
    decide +kernel
  obtain ⟨c, hc, hstatus⟩ := Option.map_eq_some_iff.1 hpaid
  obtain ⟨c', hc', hreach, hidle, hfails⟩ :=
    exists_schedule _ _ _ (fun _ _ _ => trivial) (by decide) hback
  exact ⟨c, c', hc, hstatus, hc', hreach,
    idle_schedule _ _ _ hc' (by decide) hidle, hfails⟩

end StratumServer
