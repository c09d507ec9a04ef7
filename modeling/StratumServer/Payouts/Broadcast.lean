import StratumServer.Payouts.Paid

/-!
# Accepted transactions and their batches

`process_pending_payouts` hands a transaction to the node and then marks its
batch as submitted, in two steps.  Only submitted batches are compared with the
transactions of the chain, by the payout handler and at startup.

There are four groups.

* What the node has accepted: `acceptedTxs`.  The node may have accepted a
  transaction although its reply was lost, so this is not a matter of the
  answers alone.
* The payout handler marks the batch of the plan that it has signed, with the id
  that the node has named, right after the signing: `turns_marks`.
* The condition `Booking` on the runs: no reply to an accepted transaction is
  lost, no marking is refused, and the process does not stop between the two
  steps.
* The invariant and the result, `reach_booked`.  `booked_fails` is a run for each
  of the three ways in which an accepted transaction is forgotten.
-/

namespace StratumServer

open Sql Tasks

/-! ## What the node has accepted -/

/-- The transaction that the node accepted after a history, although it answered
with an error. -/
abbrev LostReplies := List PoolEntry → Option String

/-- The plan and the id of the transaction that the node accepts in an entry of
the log. -/
def acceptedAt (lost : LostReplies) (log : List PoolEntry) :
    PoolEntry → Option (SignedBatchData × String)
  | .did _ (.signAndSubmit signed) (.ok txid) => some (signed, txid)
  | .did _ (.signAndSubmit signed) (.error _) => (lost log).map (signed, ·)
  | _ => none

/-- The transactions that the node has accepted. -/
def acceptedTxs (lost : LostReplies) :
    List PoolEntry → List (SignedBatchData × String)
  | [] => []
  | e :: log => (acceptedAt lost log e).toList ++ acceptedTxs lost log

/-- The batch of the transaction is submitted or confirmed, with the id of the
transaction.  Retry keys are unique, so there is no other batch of it. -/
def BookedTx (db : Database) (x : SignedBatchData × String) : Prop :=
  ∃ b ∈ db.payoutBatches.rows, b.retryKey = some x.1.plan.retryKey ∧
    (b.status = .submitted ∨ b.status = .confirmed) ∧
    b.submittedTxid = some x.2

instance (db : Database) (x : SignedBatchData × String) :
    Decidable (BookedTx db x) :=
  inferInstanceAs (Decidable (∃ _ ∈ _, _))

/-! ## Signing and marking -/

/-- The transaction that was accepted in the last step, so that its batch is
still to be marked. -/
def unmarked : Done → Option (SignedBatchData × String)
  | ⟨.signAndSubmit signed, .ok txid⟩ :: _ => some (signed, txid)
  | _ => none

/-- The operation hands a transaction to the node. -/
def Op.signs : Op → Bool
  | .signAndSubmit _ => true
  | _ => false

/-- After an accepted transaction, the batch of its plan is marked with its
id. -/
def MarkStep (done : Done) (o : Op) : Prop :=
  ∀ x, unmarked done = some x → ∃ batch, Listed batch done ∧
    x.1.plan.retryKey = batch.retryKey.getD "" ∧
    o = .db (.markBatchSubmitted batch.id x.2)

section Paths

variable {done : Done} {o : Op} {J : Done → Prop}

theorem unmarked_cons (ho : o.signs = false) (r : o.Res) (done : Done) :
    unmarked (⟨o, r⟩ :: done) = none := by
  cases o with
  | signAndSubmit signed => cases ho
  | _ => rfl

theorem markStep_of_none (h : unmarked done = none) (o : Op) :
    MarkStep done o := by
  intro x hx
  rw [h] at hx
  cases hx

/-- No batch is to be marked, and what `J` says. -/
def Marked (J : Done → Prop) (done : Done) : Prop :=
  unmarked done = none ∧ J done

/-- A body that signs nothing. -/
theorem keeps_marked {α : Type} {p : Body α} (hp : p.Only (·.signs = false))
    (hJ : ∀ x done, J done → J (x :: done)) :
    Prog.Keeps MarkStep (Marked J) p := by
  refine hp.keeps fun o done ho h => ⟨markStep_of_none h.1 o, fun r => ?_⟩
  exact ⟨unmarked_cons ho r done, hJ _ _ h.2⟩

/-- The signing of a plan for a batch that was read. -/
theorem signBatch_marks {batch : PayoutBatch} {signed : SignedBatchData}
    (hJ : ∀ x done, J done → J (x :: done))
    (hlisted : ∀ done, J done → Listed batch done)
    (hkey : signed.plan.retryKey = batch.retryKey.getD "") :
    Prog.Keeps MarkStep (Marked J)
      (AccountingService.signBatch batch signed) := by
  intro done h
  refine Prog.paths_bind (Prog.paths_perform (markStep_of_none h.1 _)
    fun r => ?_)
  have hdone := hJ ⟨.signAndSubmit signed, r⟩ done h.2
  cases r with
  | error e => exact ⟨rfl, hdone⟩
  | ok txid =>
    refine Prog.paths_bind (paths_db ?_ fun r => ⟨rfl, hJ _ _ hdone⟩)
    rintro x ⟨⟩
    exact ⟨batch, hlisted _ hdone, hkey, rfl⟩

theorem Op.signs_of_prepares (ho : o.prepares = true) : o.signs = false := by
  cases o with
  | signAndSubmit signed => cases ho
  | _ => rfl

variable (suite : Suite)

theorem processPendingPayoutsLocked_marks (settings : PayoutSettings) :
    Prog.Keeps MarkStep (Marked fun _ => True)
      (processPendingPayoutsLocked suite settings) := by
  refine keeps_dropResult fun done h => ?_
  refine Prog.paths_exceptBind (paths_db (markStep_of_none h.1 _) fun r => ?_)
  cases r with
  | error e => exact ⟨rfl, trivial⟩
  | ok pending =>
    -- Every batch of the loop stays in the answer that it was read from.
    have hcons : ∀ x done, (∀ batch ∈ pending, Listed batch done) →
        ∀ batch ∈ pending, Listed batch (x :: done) :=
      fun x done h batch hb => (h batch hb).cons x
    refine Prog.paths_mono (fun _ _ h => ⟨h.1, trivial⟩)
      (Prog.keeps_exceptForM (J := Marked fun done =>
        ∀ batch ∈ pending, Listed batch done) (fun batch hb => ?_) _
        ⟨rfl, fun batch hb => ⟨_, pending, List.mem_cons_self, hb⟩⟩)
    refine AccountingService.keeps_processBatch (fun o done ho h => ?_) ?_
    · exact keeps_marked (Prog.only_perform (Op.signs_of_prepares ho)) hcons
        done h
    · intro signed block outputs hplan
      refine signBatch_marks hcons (fun done h => h batch hb) ?_
      rw [hplan]
      rfl

theorem confirmSubmitted_only (txids : List String) :
    (confirmSubmitted txids).Only (·.signs = false) := by
  refine Prog.Only.bind (only_db rfl) fun r => ?_
  cases r with
  | error e => exact Prog.only_pure _
  | ok submitted =>
    refine Prog.only_forM fun batch => ?_
    unfold confirmIfMined
    split
    · refine only_runIf (Prog.Only.bind (only_dropResult (only_db rfl))
        fun _ => Prog.Only.bind (only_db rfl) fun r => ?_)
      split
      · exact only_dropResult (only_db rfl)
      · exact Prog.only_pure _
    · exact Prog.only_pure _

theorem handlePayoutEvent_marks (settings : PayoutSettings)
    (event : PayoutEvent) :
    Prog.Keeps MarkStep (Marked fun _ => True)
      (handlePayoutEvent suite settings event) := by
  have honly : ∀ {α : Type} {p : Body α}, p.Only (·.signs = false) →
      Prog.Keeps MarkStep (Marked fun _ => True) p :=
    fun hp => keeps_marked hp fun _ _ _ => trivial
  cases event with
  | blockConnected txids =>
    exact Prog.Keeps.bind (honly (confirmSubmitted_only txids)) fun _ =>
      processPendingPayoutsLocked_marks suite settings
  | blockMatured hash =>
    refine Prog.Keeps.bind (honly (only_db rfl)) fun r => ?_
    match r with
    | .error e | .ok none => exact Prog.keeps_pure _
    | .ok (some fb) =>
      refine Prog.Keeps.bind (honly (only_db rfl)) fun existing => ?_
      exact Prog.Keeps.bind (honly (only_runIf (only_dropResult
        (only_db rfl)))) fun _ =>
          processPendingPayoutsLocked_marks suite settings

end Paths

/-! ### All runs -/

/-- The payout handler marks what it has signed. -/
def MarkOp (t : Task) (now : Option Work × Done) (o : Op) : Prop :=
  (t == .handler) = true → MarkStep now.2 o

/-- The payout handler leaves no batch unmarked. -/
def MarkEnd (t : Task) (now : Option Work × Done) : Prop :=
  (t == .handler) = true → unmarked now.2 = none

section Runs

variable {suite : Suite} {data : ChainData} {config : ServerConfig}
  {ok : PoolWorld → PoolEntry → Prop}

theorem follows_marks {t : Task} {k : Option Work} {p : Body Unit}
    (hp : (t == .handler) = true →
      Prog.Keeps MarkStep (Marked fun _ => True) p) :
    Follows MarkOp MarkEnd t (k, []) p := by
  refine follows_guard (G := fun _ now => MarkStep now.2)
    (E := fun _ now => unmarked now.2 = none) fun ht => ?_
  exact Prog.paths_mono (fun _ _ h => h.1) (hp ht [] ⟨rfl, trivial⟩)

theorem boot_marks (t : Task) :
    Follows MarkOp MarkEnd t (none, []) (boot config t) := by
  refine follows_marks fun ht => ?_
  cases t with
  | handler => exact Prog.keeps_pure _
  | _ => cases ht

theorem start_marks {t : Task} {k : Work} {s s' : Pool} {p : Body Unit}
    (hstart : Start suite config t k s p s') :
    Follows MarkOp MarkEnd t (some k, []) p := by
  refine follows_marks fun ht => ?_
  cases hstart with
  | payoutEvent => exact handlePayoutEvent_marks suite _ _
  | _ => cases ht

/-- In every run, an accepted transaction is followed by the marking of its
batch. -/
theorem turns_marks :
    (pool suite data config).Turns ok (Follow MarkOp MarkEnd) :=
  Machine.turns_follow boot_marks fun hstart => start_marks hstart

/-- In every run, the batches that a task has read are in the table. -/
theorem turns_listed : (pool suite data config).Turns ok fun w _ =>
    ∀ t batch, Listed batch (current t w.log).2 →
      w.shared.db.HasBatch (fun _ => True) batch := by
  rintro c c' e h _ _ t batch ⟨filter, batches, hmem, hb⟩
  refine reach_answers (K := fun _ db x => ∀ filter batches,
    x = ⟨.db (.listBatches filter), .ok batches⟩ → ∀ q ∈ batches,
      db.HasBatch (fun _ => True) q) ?_ ?_ ?_ h t _ hmem filter batches rfl
    batch hb
  · intro w t u o r s' x hsem _ hx filter batches heq q hq
    exact hasBatch_sem hsem (hx filter batches heq q hq)
  · exact fun _ hx filter batches heq q hq => hx filter batches heq q hq
  · rintro w t o r s' hsem _ filter batches ⟨⟩ q hq
    exact hasBatch_listed hsem q hq

end Runs

/-! ## Runs in which every acceptance is recorded -/

/-- The transaction that the node accepts in an entry whose reply is an error. -/
def unanswered (lost : LostReplies) (log : List PoolEntry) :
    PoolEntry → Option String
  | .did _ (.signAndSubmit _) (.error _) => lost log
  | _ => none

/-- The database refuses to mark a batch. -/
def refusedMark : PoolEntry → Bool
  | .did _ (.db (.markBatchSubmitted ..)) (.error _) => true
  | _ => false

/-- The reply to an accepted transaction is not lost, the database does not
refuse to mark a batch, and the process does not stop before the batch of an
accepted transaction is marked. -/
structure Booking (lost : LostReplies) (w : PoolWorld) (e : PoolEntry) :
    Prop where
  answered : unanswered lost w.log e = none
  marked : refusedMark e = false
  survives : isCrash e = true → unmarked (current .handler w.log).2 = none

instance (lost : LostReplies) (w : PoolWorld) (e : PoolEntry) :
    Decidable (Booking lost w e) :=
  decidable_of_iff
    (unanswered lost w.log e = none ∧ refusedMark e = false ∧
      (isCrash e = true → unmarked (current .handler w.log).2 = none))
    ⟨fun ⟨h₁, h₂, h₃⟩ => ⟨h₁, h₂, h₃⟩,
      fun h => ⟨h.answered, h.marked, h.survives⟩⟩

/-! ## The invariant -/

/-- An accepted transaction is booked, or the payout handler is about to do
it. -/
def Bookkept (lost : LostReplies) (w : PoolWorld) : Prop :=
  ∀ x ∈ acceptedTxs lost w.log, BookedTx w.shared.db x ∨
    unmarked (current .handler w.log).2 = some x

section Invariant

variable {suite : Suite} {data : ChainData} {config : ServerConfig}
  {lost : LostReplies} {w : PoolWorld} {t : Task} {o : Op} {r : o.Res}
  {s' : Pool}

/-- What is booked stays booked. -/
theorem BookedTx.run {d : DbOp} (hg : Grounded suite data w t (.db d))
    {x : SignedBatchData × String} (h : BookedTx w.shared.db x) :
    BookedTx (d.run w.shared.db).2 x := by
  obtain ⟨b, hb, hkey, hstatus, htxid⟩ := h
  cases d with
  | updateBatchStatus id status =>
    refine ⟨_, List.mem_map.2 ⟨b, hb, rfl⟩, ?_⟩
    split_ifs
    · refine ⟨hkey, Or.inr ?_, htxid⟩
      cases status with
      | confirmed => rfl
      | _ => cases hg.1
    · exact ⟨hkey, hstatus, htxid⟩
  | markBatchSubmitted id txid =>
    -- Only pending batches are marked.
    obtain ⟨batch, ⟨b', hb', hfix, hpending⟩, hid⟩ := hg.2
    have hne : b.id ≠ id := by
      intro heq
      have hids := heq.trans
        (hid.symm.trans (PayoutBatch.id_of_fixed hfix).symm)
      rw [w.shared.db.payoutBatches.eq_of_id hb hb' hids, hpending] at hstatus
      rcases hstatus with hstatus | hstatus <;> cases hstatus
    refine ⟨b, List.mem_map.2 ⟨b, hb, if_neg ?_⟩, hkey, hstatus, htxid⟩
    simpa using hne
  | createPayout _ _ _ _ =>
    exact ⟨b, DbOp.mem_createPayout hb, hkey, hstatus, htxid⟩
  | _ =>
    rw [BookedTx, (DbOp.frame _ w.shared.db).payoutBatches rfl]
    exact ⟨b, hb, hkey, hstatus, htxid⟩

theorem BookedTx.sem (hg : Grounded suite data w t o)
    (hsem : (pool suite data config).sem o w.shared r s')
    {x : SignedBatchData × String} (h : BookedTx w.shared.db x) :
    BookedTx s'.db x := by
  rcases sem_database hsem with heq | ⟨d, rfl, _, rfl⟩
  · rw [heq]
    exact h
  · exact h.run hg

/-- Marking the batch of a plan books its transaction. -/
theorem booked_of_mark (hsound : Sound data w.shared.db)
    {batch : PayoutBatch} {x : SignedBatchData × String}
    (hbatch : w.shared.db.HasBatch (fun _ => True) batch)
    (hkey : x.1.plan.retryKey = batch.retryKey.getD "") :
    BookedTx ((DbOp.markBatchSubmitted batch.id x.2).run w.shared.db).2 x := by
  obtain ⟨b, hb, hfix, _⟩ := hbatch
  obtain ⟨_, _, _, n, hretry⟩ := hsound.batch b hb
  have hmatch : (b.id == batch.id) = true := by
    simpa using PayoutBatch.id_of_fixed hfix
  refine ⟨_, List.mem_map.2 ⟨b, hb, if_pos hmatch⟩, ?_, Or.inl rfl, rfl⟩
  change b.retryKey = _
  rw [hkey, ← PayoutBatch.retryKey_of_fixed hfix, hretry]
  rfl

/-- An operation of the payout handler. -/
theorem Bookkept.handler (h : Bookkept lost w)
    (hsound : Sound data w.shared.db)
    (hg : Grounded suite data w .handler o)
    (hok : Booking lost w (.did .handler o r))
    (hstep : MarkStep (current .handler w.log).2 o)
    (hlisted : ∀ batch, Listed batch (current .handler w.log).2 →
      w.shared.db.HasBatch (fun _ => True) batch)
    (hsem : (pool suite data config).sem o w.shared r s') :
    Bookkept lost (w.after s' (.did .handler o r)) := by
  intro x hx
  rw [World.after_log, current_did]
  rw [World.after_log, acceptedTxs] at hx
  rcases List.mem_append.1 hx with hnew | hold
  · -- The transaction has just been accepted, and the reply has arrived.
    right
    cases o with
    | signAndSubmit signed =>
      cases r with
      | ok txid =>
        rw [List.mem_singleton.1 hnew]
        rfl
      | error e =>
        have hnone : lost w.log = none := hok.answered
        simp [acceptedAt, hnone] at hnew
    | _ => cases hnew
  · left
    rcases h x hold with hbooked | hunmarked
    · exact hbooked.sem hg hsem
    · obtain ⟨batch, hread, hkey, rfl⟩ := hstep x hunmarked
      rcases sem_db hsem with ⟨_, rfl⟩ | ⟨⟨e, rfl⟩, _⟩
      · exact booked_of_mark hsound (hlisted batch hread) hkey
      · cases hok.marked

/-- An operation of another task: it hands nothing to the node. -/
theorem Bookkept.other (h : Bookkept lost w)
    (hg : Grounded suite data w t o) (ht : .handler ≠ t)
    (hsem : (pool suite data config).sem o w.shared r s') :
    Bookkept lost (w.after s' (.did t o r)) := by
  intro x hx
  rw [World.after_log, current_did_of_ne ht]
  rw [World.after_log, acceptedTxs] at hx
  rcases List.mem_append.1 hx with hnew | hold
  · cases o with
    | signAndSubmit signed =>
      have heq : t = .handler := by simpa [Op.by] using hg.1
      exact absurd heq.symm ht
    | _ => cases hnew
  · exact (h x hold).imp_left fun hbooked => hbooked.sem hg hsem

/-- A turn that leaves the batches as they are and after which the payout
handler has nothing to mark that it had not before. -/
theorem Bookkept.congr (h : Bookkept lost w) {w' : PoolWorld}
    (hbatches : w'.shared.db.payoutBatches = w.shared.db.payoutBatches)
    (hlog : acceptedTxs lost w'.log = acceptedTxs lost w.log)
    (hcurrent : unmarked (current .handler w'.log).2 =
        unmarked (current .handler w.log).2 ∨
      unmarked (current .handler w.log).2 = none) : Bookkept lost w' := by
  intro x hx
  rw [hlog] at hx
  rcases h x hx with ⟨b, hb, hbooked⟩ | hunmarked
  · refine Or.inl ⟨b, ?_, hbooked⟩
    rw [hbatches]
    exact hb
  · rcases hcurrent with heq | hnone
    · exact Or.inr (heq.trans hunmarked)
    · rw [hnone] at hunmarked
      cases hunmarked

theorem reach_bookkept {c : PoolConfig}
    (h : (pool suite data config).Reach (Booking lost) c) :
    Bookkept lost c.world := by
  refine Machine.Reach.invariant ?_ ?_ ?_ ?_ ?_
    (turns_listed.reach (turns_marks.reach (reach_grounded h)))
  · exact fun s _ x hx => (List.not_mem_nil hx).elim
  · rintro w t o r s' hw hsem ⟨⟨⟨hok, hsound, hg⟩, hmarks⟩, hlisted⟩
    by_cases ht : .handler = t
    · subst ht
      exact hw.handler hsound hg hok (hmarks rfl) (hlisted .handler) hsem
    · exact hw.other hg ht hsem
  · rintro w t k p s' hw hstart ⟨⟨_, hends⟩, _⟩
    refine hw.congr ?_ rfl ?_
    · rw [World.after_shared, start_database hstart]
    · by_cases ht : .handler = t
      · subst ht
        exact Or.inr (hends rfl)
      · rw [World.after_log, current_began_of_ne ht]
        exact Or.inl rfl
  · rintro w s' hw (⟨now, _, rfl⟩ | ⟨_, chain, _, rfl⟩) _
    · exact hw.congr rfl rfl (Or.inl rfl)
    · exact hw.congr rfl rfl (Or.inl rfl)
  · rintro w s' hw ⟨chain, _, rfl⟩ hok
    exact hw.congr rfl rfl (Or.inr (hok.1.1.1.survives rfl))

/-- In every run that meets the condition, the batch of an accepted transaction
is submitted or confirmed with its id, but for the time between the acceptance
and the marking; and when the payout handler is idle, that time is over. -/
theorem reach_booked {c : PoolConfig}
    (h : (pool suite data config).Reach (Booking lost) c) :
    (∀ x ∈ acceptedTxs lost c.world.log, BookedTx c.world.shared.db x ∨
      unmarked (current .handler c.world.log).2 = some x) ∧
    (c.task .handler = .ret () →
      unmarked (current .handler c.world.log).2 = none) :=
  ⟨reach_bookkept h, fun hidle =>
    h.follows_idle boot_marks (fun hstart => start_marks hstart) hidle rfl⟩

end Invariant

/-- A run in which a payout is accepted, marked and confirmed. -/
theorem reach_booked_sample : ∃ c : PoolConfig,
    (pool sampleSuite sampleData sampleConfig).Reach
      (Booking fun _ => none) c ∧
      c.task .handler = .ret () ∧
      ∃ x ∈ acceptedTxs (fun _ => none) c.world.log,
        BookedTx c.world.shared.db x := by
  have hrun : (schedule sampleSuite sampleData sampleConfig
      (fun w e => decide (Booking (fun _ => none) w e)) ["genesis"]
      paysFirst).any (fun c : PoolConfig => decide (
        (c.task .handler).isRet = true ∧
          acceptedTxs (fun _ => none) c.world.log ≠ [])) = true := by
    decide +kernel
  obtain ⟨c, _, hreach, hret, hsome⟩ := exists_schedule _ _ _
    (fun _ _ h => of_decide_eq_true h) (by decide) hrun
  have hidle := Prog.eq_ret_of_isRet hret
  obtain ⟨x, hx⟩ := List.exists_mem_of_ne_nil _ hsome
  refine ⟨c, hreach, hidle, x, hx, ?_⟩
  rcases (reach_booked hreach).1 x hx with hbooked | hunmarked
  · exact hbooked
  · rw [(reach_booked hreach).2 hidle] at hunmarked
    cases hunmarked

/-- An idle payout handler has left the batch of an accepted transaction
unmarked. -/
def Forgotten (lost : LostReplies) (c : PoolConfig) : Prop :=
  c.task .handler = .ret () ∧
    ∃ x ∈ acceptedTxs lost c.world.log, ¬ BookedTx c.world.shared.db x

/-- The first block is promoted, and the payout handler has performed `n`
operations for it: the tenth one is the signing, the eleventh the marking. -/
def signsFirst (n : Nat) : List Scene :=
  let replies : Replies := { rawTx := .ok sampleTx, signed := .ok "txid" }
  maturesFirst ++ handles (.blockConnected []) replies ++
    [.begin .handler (.payoutEvent (.blockMatured firstHash) sampleSettings),
      .run .handler n replies]

theorem forgotten_schedule {lost : LostReplies} {scenes : List Scene}
    (h : (schedule sampleSuite sampleData sampleConfig (fun _ _ => true)
      ["genesis"] scenes).any (fun c : PoolConfig => decide (
        (c.task .handler).isRet = true ∧
          ∃ x ∈ acceptedTxs lost c.world.log,
            ¬ BookedTx c.world.shared.db x)) = true) :
    ∃ c : PoolConfig, schedule sampleSuite sampleData sampleConfig
        (fun _ _ => true) ["genesis"] scenes = some c ∧
      (pool sampleSuite sampleData sampleConfig).Reach (fun _ _ => True) c ∧
      Forgotten lost c := by
  obtain ⟨c, hc, hreach, hret, hforgotten⟩ :=
    exists_schedule _ _ _ (fun _ _ _ => trivial) (by decide) h
  exact ⟨c, hc, hreach, Prog.eq_ret_of_isRet hret, hforgotten⟩

/-- The database refuses the marking, or the process stops before it, or the
reply to the accepted transaction is lost: in each case the batch is not
submitted, and nothing is going on. -/
theorem booked_fails :
    (∃ c : PoolConfig, schedule sampleSuite sampleData sampleConfig
        (fun _ _ => true) ["genesis"] (signsFirst 10 ++
          [.run .handler 1 { dbFails := true }, .run .handler 50 {}]) = some c ∧
      (pool sampleSuite sampleData sampleConfig).Reach (fun _ _ => True) c ∧
      Forgotten (fun _ => none) c) ∧
    (∃ c : PoolConfig, schedule sampleSuite sampleData sampleConfig
        (fun _ _ => true) ["genesis"] (signsFirst 10 ++
          [.crash ["genesis"]]) = some c ∧
      (pool sampleSuite sampleData sampleConfig).Reach (fun _ _ => True) c ∧
      Forgotten (fun _ => none) c) ∧
    ∃ c : PoolConfig, schedule sampleSuite sampleData sampleConfig
        (fun _ _ => true) ["genesis"] (signsFirst 9 ++
          [.run .handler 50 { signed := .error .sqlite }]) = some c ∧
      (pool sampleSuite sampleData sampleConfig).Reach (fun _ _ => True) c ∧
      Forgotten (fun _ => some "txid") c := by
  refine ⟨forgotten_schedule ?_, forgotten_schedule ?_, forgotten_schedule ?_⟩
  · decide +kernel
  · decide +kernel
  · decide +kernel

end StratumServer
