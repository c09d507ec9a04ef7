import StratumServer.Blocks.Orphans
import StratumServer.Payouts.Batches
import StratumServer.Records.Kept
import StratumServer.Shares.History

/-!
# The audit log

`accounting_events` is to tell an auditor what happened.  Most entries are
written in a section of their own, after the section that they report, and
other tasks go on in between.  A crash, or a statement that fails, can lose
such an entry.  `audit_truthful` says that an entry that is there is true:
the rows that it is about are in their tables, and its columns can be worked
out from them.  What `close_round` and `mark_orphaned` write may be written
over later, so an entry for these is tied to the call that has written it.
The entry of a batch is written in the transaction of the batch, so the
entries and the batches correspond one to one.

There are four groups.

* What a task has been answered before it writes an entry: `Reported`, and
  `turns_audit` for every path of every task.
* What such an answer says about the database, also after the other tasks
  have gone on: `Evidence`.
* What an entry says about the database and about what was done:
  `BorneOut`.
* The invariant and the result.
-/

namespace StratumServer

open Sql Tasks

/-! ## What is reported -/

/-- The entry for a round that was opened. -/
def openedEvent (roundId templateId : Nat) : AccountingEvent :=
  { eventType := .roundOpened, status := .round .opened,
    roundId := some roundId, templateId := some templateId }

/-- The entry for a round that was closed. -/
def closedEvent (id endTemplateId : Nat) (status : RoundStatus) :
    AccountingEvent :=
  { eventType := .roundClosed, status := .round status, roundId := some id,
    templateId := some endTemplateId }

/-- The entry for a block that was recorded. -/
def observedEvent (block : FoundBlock) : AccountingEvent :=
  { eventType := .foundBlockObserved, status := .confirmed,
    workerId := block.workerId, roundId := some block.roundId,
    templateId := block.templateId, blockHash := some block.blockHash,
    height := some block.height }

/-- The answers that a task has got before it writes an entry. -/
inductive Reported (done : Done) : AccountingEvent → Prop
  | outcome {a : ShareRecord} {worker : Worker} {roundId shareId id : Nat}
      {payoutAddress : String} {workerSuffix : Option String}
      (hworker : ⟨.db (.upsert payoutAddress workerSuffix), .ok worker⟩ ∈ done)
      (hstored : ⟨.db (.insertShareAndOutcomeAtomic (a.share worker.id)
        (a.outcome worker.id roundId)), .ok (some shareId, some id, true)⟩ ∈
          done) :
      Reported done (a.event worker roundId)
  | opened {templateId : Nat} {round : Round}
      (hopened : ⟨.db (.getOrCreateCurrentRound templateId),
        .ok (round, true)⟩ ∈ done) :
      Reported done (openedEvent round.id templateId)
  | closed {id endTemplateId : Nat} {status : RoundStatus}
      (hclosed : ⟨.db (.closeRound id endTemplateId status), .ok ()⟩ ∈ done) :
      Reported done (closedEvent id endTemplateId status)
  | observed {block row : FoundBlock}
      (hrecorded : ⟨.db (.recordFoundBlock block), .ok row⟩ ∈ done) :
      Reported done (observedEvent block)
  | orphaned {hash : String} {found : FoundBlock} {reason : OrphanReason}
      (hread : ⟨.db (.getByHash hash), .ok (some found)⟩ ∈ done)
      (hmarked : ⟨.db (.markOrphaned hash reason), .ok ()⟩ ∈ done)
      (hclosed : ⟨.db (.closeRound found.roundId 0 .orphaned), .ok ()⟩ ∈ done) :
      Reported done (orphanedEvent found)

/-- A task writes an entry for what it has done. -/
def AuditStep (done : Done) : Op → Prop
  | .db (.recordEvent e) => Reported done e
  | _ => True

/-- The operation writes an entry. -/
def Op.reports : Op → Bool
  | .db (.recordEvent _) => true
  | _ => false

/-- The bodies in which every entry reports something. -/
abbrev Audits {α : Type} (p : Body α) : Prop :=
  Prog.Keeps AuditStep (fun _ => True) p

section Bodies

variable {suite : Suite} {α : Type}

theorem auditStep_of_quiet {o : Op} (ho : o.reports = false) (done : Done) :
    AuditStep done o := by
  cases o with
  | db d =>
    cases d with
    | recordEvent e => cases ho
    | _ => trivial
  | _ => trivial

/-- A body that writes no entry. -/
theorem audits_of_only {p : Body α} {P : Op → Prop} (hp : p.Only P)
    (hP : ∀ o, P o → o.reports = false) : Audits p :=
  hp.keeps fun o done ho _ => ⟨auditStep_of_quiet (hP o ho) done, fun _ => trivial⟩

theorem audits_op {o : Op} (ho : o.reports = false) : Audits (Prog.perform o) :=
  audits_of_only (P := (·.reports = false)) (Prog.only_perform ho) fun _ h => h

theorem audits_db {d : DbOp} (hd : (Op.db d).reports = false) :
    Audits (db d).run :=
  audits_op hd

/-- An entry for what was done. -/
theorem paths_recordEvent {e : AccountingEvent} {done : Done}
    (h : Reported done e) : (db (.recordEvent e)).run.Paths AuditStep
      (fun _ _ => True) done :=
  ⟨h, fun _ => trivial⟩

namespace AccountingService

/-- The entry for a round comes after the round has been closed. -/
theorem paths_closeRound (id endTemplateId : Nat) (status : RoundStatus)
    (done : Done) : (closeRound id endTemplateId status).run.Paths AuditStep
      (fun r later => r = .ok () →
        ⟨.db (.closeRound id endTemplateId status), .ok ()⟩ ∈ later) done := by
  refine Prog.paths_exceptBind (paths_db trivial fun r => ?_)
  cases r with
  | error e => simp
  | ok u =>
    refine Prog.paths_bind (Prog.paths_bind (Prog.paths_mono ?_
      (Prog.paths_earlier (paths_recordEvent (.closed List.mem_cons_self)))))
    exact fun _ _ hlater _ => hlater.2 _ List.mem_cons_self

theorem closeRound_audits (id endTemplateId : Nat) (status : RoundStatus) :
    Audits (closeRound id endTemplateId status).run :=
  fun done _ => Prog.paths_mono (fun _ _ _ => trivial)
    (paths_closeRound id endTemplateId status done)

theorem recordFoundBlock_audits (block : FoundBlock) :
    Audits (recordFoundBlock block).run := by
  intro done _
  refine Prog.paths_exceptBind (paths_db trivial fun r => ?_)
  cases r with
  | error e => trivial
  | ok row =>
    refine Prog.paths_exceptBind (Prog.paths_bind (Prog.paths_bind
      (Prog.paths_mono ?_ (paths_recordEvent (.observed List.mem_cons_self)))))
    exact fun _ _ _ => trivial

theorem resolveRoundForTemplate_audits (templateId : Nat) :
    Audits (resolveRoundForTemplate templateId).run := by
  intro done _
  refine Prog.paths_exceptBind (Prog.paths_exceptBind
    (paths_db trivial fun r => ?_))
  match r with
  | .error e | .ok (some round) => trivial
  | .ok none =>
    refine paths_db trivial fun r => ?_
    match r with
    | .error e | .ok (round, false) => trivial
    | .ok (round, true) =>
      refine Prog.paths_exceptBind (Prog.paths_bind (Prog.paths_bind
        (Prog.paths_mono ?_ (paths_recordEvent (.opened List.mem_cons_self)))))
      exact fun _ _ _ => trivial

theorem recordShare_audits (a : ShareRecord) : Audits (recordShare a).run := by
  intro done _
  refine Prog.paths_exceptBind (paths_db trivial fun r => ?_)
  cases r with
  | error e => trivial
  | ok worker =>
    -- The worker is still known after the round has been found.
    refine Prog.paths_exceptBind (Prog.paths_mono ?_ (Prog.paths_earlier
      (resolveRoundForTemplate_audits a.templateId _ trivial)))
    rintro r done ⟨_, hdone⟩
    cases r with
    | error e => trivial
    | ok round =>
      refine Prog.paths_exceptBind (paths_db trivial fun r => ?_)
      match r with
      | .error e => trivial
      | .ok (none, _, _) | .ok (some _, none, _) | .ok (some _, some _, false) =>
        refine audits_of_only (P := (·.reports = false)) ?_ (fun _ h => h) _
          trivial
        refine Prog.Only.exceptBind ?_ fun _ => Prog.only_pure _
        simp only [Option.isSome_none, Option.isSome_some, Bool.and_false,
          Bool.false_and]
        exact Prog.only_pure _
      | .ok (some shareId, some id, true) =>
        refine Prog.paths_exceptBind ?_
        rw [Option.isSome_some, Option.isSome_some, Bool.and_self, Bool.and_self,
          run_runIf, if_pos rfl, run_discard]
        refine Prog.paths_bind (Prog.paths_mono ?_ (paths_recordEvent
          (.outcome (List.mem_cons_of_mem _ (hdone _ List.mem_cons_self))
            List.mem_cons_self)))
        intro r done _
        cases r <;> trivial

theorem orphanBlock_audits (block : FoundBlock) (reason : OrphanReason) :
    Audits (orphanBlock block reason) :=
  Prog.Keeps.bind (keeps_dropResult (audits_db rfl)) fun _ =>
    keeps_dropResult (closeRound_audits _ _ _)

theorem reconcileFoundBlocks_audits (tipHeight : Int) :
    Audits (reconcileFoundBlocks tipHeight).run := by
  refine Prog.Keeps.exceptBind (audits_db rfl) fun confirmed => ?_
  refine keeps_liftM (Prog.keeps_forM fun block _ => ?_)
  unfold reconcileBlock
  split
  · exact orphanBlock_audits _ _
  · refine Prog.Keeps.bind (audits_op rfl) fun r => ?_
    match r with
    | .ok (some canonicalHash) =>
      dsimp only
      split
      · exact orphanBlock_audits _ _
      · exact Prog.keeps_pure _
    | .ok none | .error e => exact Prog.keeps_pure _

end AccountingService

theorem answerSubmit_audits (i : Nat) (session : SessionState)
    (j : Judgement) : Audits (answerSubmit i session j) := by
  unfold answerSubmit
  split
  · refine Prog.Keeps.bind (audits_op rfl) fun now => ?_
    split <;> exact audits_op rfl
  · exact audits_op rfl

theorem submitCandidate_audits (job : MiningJob) (templateId : Nat)
    (blockHex builtHash dedupeKey : String) :
    Audits (submitCandidate job templateId blockHex builtHash dedupeKey) := by
  refine Prog.Keeps.bind (audits_op rfl) fun r => ?_
  match r with
  | .error e => exact Prog.keeps_pure _
  | .ok (some reason) => exact keeps_dropResult (audits_db rfl)
  | .ok none =>
    refine Prog.Keeps.bind ?_ fun _ => keeps_dropResult (audits_db rfl)
    refine Prog.Keeps.bind
      (AccountingService.resolveRoundForTemplate_audits templateId) fun r => ?_
    cases r with
    | error e => exact Prog.keeps_pure _
    | ok round =>
      exact Prog.Keeps.bind
        (keeps_dropResult (AccountingService.recordFoundBlock_audits _))
        fun _ => keeps_dropResult (AccountingService.closeRound_audits _ _ _)

theorem handleSubmit_audits (i : Nat) (session : SessionState)
    (p : SubmitParams) : Audits (handleSubmit suite i session p) := by
  unfold handleSubmit
  split
  · exact audits_op rfl
  · refine Prog.Keeps.bind (audits_op rfl) fun cachedJob => ?_
    refine Prog.Keeps.bind ?_ fun dedupeKey => ?_
    · unfold persistShare
      split
      · exact Prog.keeps_pure _
      · refine Prog.Keeps.bind (AccountingService.recordShare_audits _)
          fun r => ?_
        cases r <;> exact Prog.keeps_pure _
    · unfold finishSubmit
      split
      · split
        · exact answerSubmit_audits i session _
        · split
          · exact Prog.Keeps.bind (submitCandidate_audits _ _ _ _ _) fun _ =>
              answerSubmit_audits i session _
          · exact answerSubmit_audits i session _
          · exact audits_op rfl
      · exact answerSubmit_audits i session _

theorem handleBlockDisconnected_audits (event : BlockEvent) :
    Audits (handleBlockDisconnected event) := by
  intro done _
  refine Prog.paths_bind (paths_db trivial fun r => ?_)
  match r with
  | .error e | .ok none => trivial
  | .ok (some found) =>
    refine Prog.paths_bind (paths_db trivial fun r => ?_)
    cases r with
    | error e => trivial
    | ok u =>
      -- The block is still known after its round has been closed.
      refine Prog.paths_bind (Prog.paths_mono ?_ (Prog.paths_earlier
        (AccountingService.paths_closeRound found.roundId 0 .orphaned _)))
      rintro r done ⟨hclosed, hdone⟩
      cases r with
      | error e => trivial
      | ok u =>
        have hmarked := hdone _ List.mem_cons_self
        have hread := hdone _ (List.mem_cons_of_mem _ List.mem_cons_self)
        refine Prog.paths_bind (Prog.paths_mono ?_
          (paths_recordEvent (.orphaned hread hmarked (hclosed rfl))))
        exact fun _ _ _ => trivial

theorem Op.quiet_of_matures {o : Op} (ho : o.matures = true) :
    o.reports = false := by
  unfold Op.matures at ho
  split at ho
  all_goals first | rfl | cases ho

theorem handleBlockConnected_audits (minConfirmations : Nat)
    (event : BlockEvent) :
    Audits (handleBlockConnected minConfirmations event) := by
  unfold handleBlockConnected
  split
  · exact Prog.keeps_pure _
  · refine Prog.Keeps.bind (audits_op rfl) fun _ => ?_
    refine Prog.Keeps.bind (audits_op rfl) fun tip => ?_
    refine Prog.Keeps.bind (audits_of_only (reconnectOrphaned_only _)
      fun o ho => ?_) fun _ => ?_
    · unfold Op.reconnects at ho
      split at ho
      all_goals first | rfl | cases ho
    · exact Prog.Keeps.bind (audits_of_only (announceMatured_only _ _)
        fun _ => Op.quiet_of_matures) fun _ => audits_op rfl

theorem mainBoot_audits (config : ServerConfig) : Audits (mainBoot config) := by
  refine Prog.Keeps.bind (audits_op rfl) fun r => ?_
  cases r with
  | none => exact Prog.keeps_pure _
  | some job =>
    refine Prog.Keeps.bind (audits_op rfl) fun _ => ?_
    refine Prog.Keeps.bind (audits_op rfl) fun _ => ?_
    refine Prog.Keeps.bind ?reconcile fun _ => ?_
    case reconcile =>
      refine Prog.Keeps.bind (audits_op rfl) fun r => ?_
      cases r with
      | ok tip =>
        exact keeps_dropResult
          (AccountingService.reconcileFoundBlocks_audits tip)
      | error e => exact Prog.keeps_pure _
    refine Prog.Keeps.bind (keeps_dropResult (audits_of_only
      AccountingService.reconcileSubmittedPayouts_only fun o ho => ?settles))
      fun _ => ?_
    case settles =>
      unfold Op.settles at ho
      split at ho
      all_goals first | rfl | cases ho
    refine Prog.Keeps.bind (audits_op rfl) fun _ => ?_
    refine Prog.Keeps.bind (audits_op rfl) fun _ => ?_
    refine Prog.Keeps.bind ?matures fun _ => ?_
    case matures =>
      refine Prog.Keeps.bind (audits_op rfl) fun r => ?_
      cases r with
      | ok tip =>
        exact audits_of_only (announceMatured_only _ _)
          fun _ => Op.quiet_of_matures
      | error e => exact Prog.keeps_pure _
    exact Prog.Keeps.bind (keeps_runIf (audits_op rfl)) fun _ => audits_op rfl

theorem processPendingPayoutsLocked_audits (settings : PayoutSettings) :
    Audits (processPendingPayoutsLocked suite settings) := by
  refine keeps_dropResult (Prog.Keeps.exceptBind (audits_db rfl)
    fun pending => ?_)
  refine Prog.keeps_exceptForM fun batch _ => ?_
  refine AccountingService.keeps_processBatch (fun o done ho _ => ?_) ?_
  · have hquiet : o.reports = false := by
      unfold Op.prepares at ho
      split at ho
      all_goals first | rfl | cases ho
    exact ⟨auditStep_of_quiet hquiet done, fun _ => trivial⟩
  · intro signed block outputs _
    refine Prog.Keeps.bind (audits_op rfl) fun r => ?_
    cases r with
    | ok txid => exact keeps_dropResult (audits_db rfl)
    | error e => exact Prog.keeps_pure _

theorem confirmSubmitted_audits (txids : List String) :
    Audits (confirmSubmitted txids) := by
  refine Prog.Keeps.bind (audits_db rfl) fun r => ?_
  cases r with
  | error e => exact Prog.keeps_pure _
  | ok submitted =>
    refine Prog.keeps_forM fun batch _ => ?_
    unfold confirmIfMined
    split
    · refine keeps_runIf (Prog.Keeps.bind (keeps_dropResult (audits_db rfl))
        fun _ => Prog.Keeps.bind (audits_db rfl) fun r => ?_)
      split
      · exact keeps_dropResult (audits_db rfl)
      · exact Prog.keeps_pure _
    · exact Prog.keeps_pure _

theorem handlePayoutEvent_audits (settings : PayoutSettings)
    (event : PayoutEvent) :
    Audits (handlePayoutEvent suite settings event) := by
  cases event with
  | blockConnected txids =>
    exact Prog.Keeps.bind (confirmSubmitted_audits txids) fun _ =>
      processPendingPayoutsLocked_audits settings
  | blockMatured hash =>
    refine Prog.Keeps.bind (audits_db rfl) fun r => ?_
    match r with
    | .error e | .ok none => exact Prog.keeps_pure _
    | .ok (some fb) =>
      refine Prog.Keeps.bind (audits_db rfl) fun existing => ?_
      exact Prog.Keeps.bind (keeps_runIf (keeps_dropResult (audits_db rfl)))
        fun _ => processPendingPayoutsLocked_audits settings

theorem triggerPayout_audits (blockHash : String) (settings : PayoutSettings) :
    Audits (triggerPayout suite blockHash settings) := by
  refine Prog.Keeps.bind (audits_db rfl) fun r => ?_
  match r with
  | .error e | .ok none => exact Prog.keeps_pure _
  | .ok (some fb) =>
    dsimp only
    split
    · exact Prog.keeps_pure _
    · split
      · exact Prog.keeps_pure _
      · exact keeps_dropResult (audits_db rfl)

end Bodies

/-- In every run, a task writes an entry for what it has done. -/
theorem turns_audit {suite : Suite} {data : ChainData} {config : ServerConfig}
    {ok : PoolWorld → PoolEntry → Prop} : (pool suite data config).Turns ok
      (Follow (fun _ now o => AuditStep now.2 o) (fun _ _ => True)) := by
  have hnil : ∀ {p : Body Unit}, Audits p →
      p.Paths AuditStep (fun _ _ => True) [] := fun hp => hp [] trivial
  refine Machine.turns_follow (fun t => ?_) ?_
  · cases t with
    | main => exact hnil (mainBoot_audits config)
    | _ => exact hnil (Prog.keeps_pure _)
  · intro t k s p s' hstart
    cases hstart with
    | submit => exact hnil (handleSubmit_audits _ _ _)
    | blockConnected => exact hnil (handleBlockConnected_audits _ _)
    | blockDisconnected => exact hnil (handleBlockDisconnected_audits _)
    | miningWorkChanged =>
      refine hnil (audits_of_only onMiningWorkChanged_only fun o ho => ?_)
      unfold Op.changesWork at ho
      split at ho
      all_goals first | rfl | cases ho
    | payoutEvent => exact hnil (handlePayoutEvent_audits _ _)
    | triggerPayout => exact hnil (triggerPayout_audits _ _)
    | _ => exact hnil (Prog.keeps_pure _)

/-! ## Evidence -/

/-- What an answer still says about the database. -/
structure Evidence (db : Database) (x : (o : Op) × o.Res) : Prop where
  worker : ∀ address suffix worker,
    x = ⟨.db (.upsert address suffix), .ok worker⟩ → worker ∈ db.workers.rows
  stored : ∀ share outcome shareId id,
    x = ⟨.db (.insertShareAndOutcomeAtomic share outcome),
      .ok (some shareId, some id, true)⟩ →
    ∃ n m k, { share with id := n } ∈ db.shares.rows ∧
      ∃ o ∈ db.shareOutcomes.rows, o.fixed =
        { outcome with id := m, shareId := n, createdAt := k }.fixed
  opened : ∀ templateId round,
    x = ⟨.db (.getOrCreateCurrentRound templateId), .ok (round, true)⟩ →
    ∃ r ∈ db.rounds.rows, r.fixed = (round.id, templateId)
  closed : ∀ id endTemplateId status,
    x = ⟨.db (.closeRound id endTemplateId status), .ok ()⟩ →
    status ≠ .opened ∧ ∃ r ∈ db.rounds.rows, r.id = id ∧ r.status ≠ .opened
  recorded : ∀ block row, x = ⟨.db (.recordFoundBlock block), .ok row⟩ →
    ∃ b ∈ db.foundBlocks.rows, observedEvent b = observedEvent block
  read : ∀ hash found, x = ⟨.db (.getByHash hash), .ok (some found)⟩ →
    found.blockHash = hash ∧
      ∃ b ∈ db.foundBlocks.rows, orphanedEvent b = orphanedEvent found

/-- It goes on saying so. -/
theorem Evidence.later {db db' : Database} {x : (o : Op) × o.Res}
    (h : Evidence db x) (hlater : db.Later db') : Evidence db' x := by
  refine ⟨?_, ?_, ?_, ?_, ?_, ?_⟩
  · intro address suffix worker hx
    exact hlater.workers.subset (h.worker address suffix worker hx)
  · intro share outcome shareId id hx
    obtain ⟨n, m, k, hs, o, ho, hfix⟩ := h.stored share outcome shareId id hx
    obtain ⟨o', ho', hfix'⟩ := exists_of_grow hlater.shareOutcomes ho
    exact ⟨n, m, k, hlater.shares.subset hs, o', ho', hfix'.trans hfix⟩
  · intro templateId round hx
    obtain ⟨r, hr, hfix⟩ := h.opened templateId round hx
    obtain ⟨r', hr', hfix'⟩ := exists_of_grow hlater.rounds hr
    exact ⟨r', hr', hfix'.trans hfix⟩
  · intro id endTemplateId status hx
    obtain ⟨hstatus, r, hr, hid, hclosed⟩ := h.closed id endTemplateId status hx
    obtain ⟨r', hr', hid', hclosed'⟩ := hlater.closed r hr hclosed
    exact ⟨hstatus, r', hr', hid'.trans hid, hclosed'⟩
  · intro block row hx
    obtain ⟨b, hb, hevent⟩ := h.recorded block row hx
    obtain ⟨b', hb', hsame⟩ :=
      hlater.foundBlock (f := observedEvent) (fun _ => rfl) hb
    exact ⟨b', hb', hsame.trans hevent⟩
  · intro hash found hx
    obtain ⟨hhash, b, hb, hevent⟩ := h.read hash found hx
    obtain ⟨b', hb', hsame⟩ :=
      hlater.foundBlock (f := orphanedEvent) (fun _ => rfl) hb
    exact ⟨hhash, b', hb', hsame.trans hevent⟩

section New

variable {suite : Suite} {data : ChainData} {config : ServerConfig}

/-- The answer of a new round is its row. -/
theorem getOrCreateCurrentRound_new {templateId : Nat} {db : Database}
    {round : Round} (h : ((DbOp.getOrCreateCurrentRound templateId).run db).1 =
      .ok (round, true)) :
    round.startTemplateId = templateId ∧ round ∈
      ((DbOp.getOrCreateCurrentRound templateId).run db).2.rounds.rows := by
  simp only [DbOp.run, RoundRepository.getOrCreateCurrentRound] at h ⊢
  split at h
  · cases h
  · cases hinsert : db.rounds.insert { startTemplateId := templateId } with
    | none =>
      rw [hinsert] at h
      cases h
    | some x =>
      rw [hinsert] at h
      cases h
      obtain ⟨_, _, _, hrows⟩ := Table.insert_some hinsert
      refine ⟨rfl, ?_⟩
      change _ ∈ x.2.rows
      rw [hrows]
      exact List.mem_append_right _ List.mem_cons_self

/-- The round that a task closes is in the table: a session has found it, and
the node side has read its block. -/
theorem hasRound_of_close {w : PoolWorld} {t : Task} {id endTemplateId : Nat}
    {status : RoundStatus}
    (hby : (Op.db (.closeRound id endTemplateId status)).by t = true)
    (hstaged : StagedOp suite t (current t w.log)
      (.db (.closeRound id endTemplateId status)))
    (horphan : OrphanOp t (current t w.log)
      (.db (.closeRound id endTemplateId status)))
    (hreads : ReadsKept w.shared.db w.log) (hrounds : RoundsExist suite w) :
    w.shared.db.HasRound id := by
  have hnode : t.isNodeSide = true → w.shared.db.HasRound id := by
    intro ht
    obtain ⟨y, hy, rfl, _⟩ := (horphan ht).closes _ _ _ rfl
    obtain ⟨⟨b, hb, hfix⟩, _⟩ := hreads t y hy
    rw [← FoundBlock.roundId_of_fixed hfix]
    exact hrounds.blocks b hb
  cases t with
  | session i =>
    obtain ⟨_, hash, stored, hstage⟩ := hstaged rfl
    refine hrounds.held i id ?_
    unfold sessionStage
    rw [hstage]
    rfl
  | consumer => exact hnode rfl
  | main => exact hnode rfl
  | _ =>
    -- No other task closes a round.
    cases status <;> simp [Op.by, DbOp.by, Task.isSession] at hby

/-- What a task gets to know when it is answered. -/
theorem Evidence.new {w : PoolWorld} {t : Task} {o : Op} {r : o.Res} {s' : Pool}
    (hsem : (pool suite data config).sem o w.shared r s')
    (hg : Grounded suite data w t o) (hledger : Ledger w.shared.db)
    (hround : ∀ id endTemplateId status,
      o = .db (.closeRound id endTemplateId status) →
        w.shared.db.HasRound id) : Evidence s'.db ⟨o, r⟩ := by
  refine ⟨?_, ?_, ?_, ?_, ?_, ?_⟩
  · intro address suffix worker hx
    cases hx
    rcases sem_db hsem with ⟨hr, rfl⟩ | ⟨⟨_, he⟩, _⟩
    · obtain ⟨_, _, hrun, _, _, hmem, _⟩ :=
        WorkerRepository.upsert_cases address suffix w.shared.db
      simp only [DbOp.run, hrun] at hr ⊢
      cases hr
      exact hmem
    · cases he
  · intro share outcome shareId id hx
    cases hx
    rcases sem_db hsem with ⟨hr, rfl⟩ | ⟨⟨_, he⟩, _⟩
    · obtain ⟨a, worker, roundId, _, _, _, rfl, rfl, _⟩ := hg.2
      have hkey : (a.share worker.id).dedupeKey =
        (a.outcome worker.id roundId).dedupeKey := rfl
      obtain ⟨_, _, _, hrun, hrows⟩ := hledger.insert_cases hkey rfl
      rw [hrun] at hr
      cases hr
      rcases hrows with ⟨hnew, _⟩ | ⟨_, _, hshares, houtcomes⟩
      · cases hnew
      · refine ⟨w.shared.db.shares.seq + 1, id, w.shared.db.now, ?_, _, ?_, rfl⟩
        · rw [hshares]
          exact List.mem_append_right _ List.mem_cons_self
        · rw [houtcomes]
          exact List.mem_append_right _ List.mem_cons_self
    · cases he
  · intro templateId round hx
    cases hx
    rcases sem_db hsem with ⟨hr, rfl⟩ | ⟨⟨_, he⟩, _⟩
    · obtain ⟨hstart, hmem⟩ := getOrCreateCurrentRound_new hr.symm
      exact ⟨round, hmem, Prod.ext rfl hstart⟩
    · cases he
  · intro id endTemplateId status hx
    cases hx
    obtain ⟨row, hrow, rfl⟩ := hround id endTemplateId status rfl
    have hstatus : status ≠ .opened := by
      rintro rfl
      cases hg.1
    rcases sem_db hsem with ⟨hr, rfl⟩ | ⟨⟨_, he⟩, _⟩
    · refine ⟨hstatus, _, List.mem_map.2 ⟨row, hrow, rfl⟩, ?_⟩
      rw [if_pos (beq_self_eq_true _)]
      exact ⟨rfl, hstatus⟩
    · cases he
  · intro block row hx
    cases hx
    rcases sem_db hsem with ⟨hr, rfl⟩ | ⟨⟨_, he⟩, _⟩
    · rcases FoundBlockRepository.recordFoundBlock_cases block w.shared.db with
        ⟨_, heq⟩ | ⟨_, _, hrows, heq⟩
      · simp only [DbOp.run, heq] at hr
        cases hr
      · refine ⟨{ FoundBlockRepository.newRow block with
          id := w.shared.db.foundBlocks.seq + 1 }, ?_, rfl⟩
        simp only [DbOp.run, heq, hrows]
        exact List.mem_append_right _ List.mem_cons_self
    · cases he
  · intro hash found hx
    cases hx
    rcases sem_db hsem with ⟨hr, rfl⟩ | ⟨⟨_, he⟩, _⟩
    · obtain ⟨hmem, hhash⟩ := getByHash_some hr.symm
      exact ⟨hhash, found, hmem, rfl⟩
    · cases he

/-- What a task was answered, it may rely on to the end of its work. -/
theorem reach_evidence {ok : PoolWorld → PoolEntry → Prop} {c : PoolConfig}
    (h : (pool suite data config).Reach ok c) :
    ∀ t, ∀ x ∈ (current t c.world.log).2, Evidence c.world.shared.db x := by
  have hledger : (pool suite data config).Turns ok fun w _ =>
      Ledger w.shared.db := fun _ _ _ h _ _ => reach_ledger h
  refine reach_answers (K := fun _ => Evidence) ?_ ?_ ?_
    (turns_roundsExist.reach (turns_readsKept.reach (turns_orphanStep.reach
      (turns_staged.reach (reach_grounded (hledger.reach h))))))
  · rintro w t u o r s' x hsem ⟨⟨⟨⟨⟨_, hknown⟩, _⟩, _⟩, _⟩, _⟩ hx
    exact hx.later (sem_later hsem hknown.2)
  · exact fun now hx => hx.later (.of_now now)
  · rintro w t o r s' hsem
      ⟨⟨⟨⟨⟨⟨_, hledger⟩, hknown⟩, hstaged⟩, horphan⟩, hreads⟩, hrounds⟩
    refine .new hsem hknown.2 hledger ?_
    rintro id endTemplateId status rfl
    exact hasRound_of_close hknown.2.1 hstaged horphan hreads hrounds

end New

/-! ## What an entry says -/

/-- The entry for an outcome, from the rows that it is about. -/
def outcomeEvent (o : ShareOutcome) (s : Share) (w : Worker) :
    AccountingEvent where
  eventType := .shareOutcome
  status := .outcome o.status
  sessionId := some o.sessionId
  workerId := some w.id
  workerName := some (match w.workerSuffix with
    | some suffix => w.payoutAddress ++ "." ++ suffix
    | none => w.payoutAddress)
  payoutAddress := some w.payoutAddress
  roundId := o.roundId
  templateId := some s.templateId
  templateEpoch := some s.templateEpoch
  jobId := some o.jobId
  blockHash := o.blockHash

/-- The entry does not tell the answer of the node. -/
theorem outcomeEvent_of_fixed {o o' : ShareOutcome} (h : o'.fixed = o.fixed)
    (s : Share) (w : Worker) : o'.shareId = o.shareId ∧
      o'.workerId = o.workerId ∧ outcomeEvent o' s w = outcomeEvent o s w := by
  have hshare := congrArg ShareOutcome.shareId h
  have hworker := congrArg ShareOutcome.workerId h
  have hevent := congrArg (outcomeEvent · s w) h
  exact ⟨hshare, hworker, hevent⟩

/-- `close_round` has written these values. -/
def WasClosed (log : List PoolEntry) (id endTemplateId : Nat)
    (status : RoundStatus) : Prop :=
  ∃ t, .did t (.db (.closeRound id endTemplateId status)) (.ok ()) ∈ log

/-- The entries that the rows of the database bear out, together with what has
been done. -/
inductive BorneOut (db : Database) (log : List PoolEntry) :
    AccountingEvent → Prop
  | outcome {o : ShareOutcome} {s : Share} {w : Worker}
      (houtcome : o ∈ db.shareOutcomes.rows) (hshare : s ∈ db.shares.rows)
      (hworker : w ∈ db.workers.rows) (hof : o.shareId = s.id)
      (hby : o.workerId = w.id) (hfrom : s.workerId = w.id) :
      BorneOut db log (outcomeEvent o s w)
  | opened {r : Round} (hround : r ∈ db.rounds.rows) :
      BorneOut db log (openedEvent r.id r.startTemplateId)
  | closed {r : Round} {endTemplateId : Nat} {status : RoundStatus}
      (hround : r ∈ db.rounds.rows) (hclosed : r.status ≠ .opened)
      (hstatus : status ≠ .opened)
      (hwritten : WasClosed log r.id endTemplateId status) :
      BorneOut db log (closedEvent r.id endTemplateId status)
  | observed {b : FoundBlock} (hblock : b ∈ db.foundBlocks.rows) :
      BorneOut db log (observedEvent b)
  | orphaned {b : FoundBlock} (hblock : b ∈ db.foundBlocks.rows)
      (hmarked : wasOrphaned log b.blockHash = true)
      (hclosed : WasClosed log b.roundId 0 .orphaned) :
      BorneOut db log (orphanedEvent b)
  | created {b : FoundBlock} (hblock : b ∈ db.foundBlocks.rows) :
      BorneOut db log (createdEvent b)

/-- An entry without its own id. -/
def AccountingEvent.body (e : AccountingEvent) : AccountingEvent :=
  { e with id := 0 }

theorem WasClosed.cons {log : List PoolEntry} {id endTemplateId : Nat}
    {status : RoundStatus} (h : WasClosed log id endTemplateId status)
    (x : PoolEntry) : WasClosed (x :: log) id endTemplateId status := by
  obtain ⟨t, hmem⟩ := h
  exact ⟨t, List.mem_cons_of_mem x hmem⟩

theorem BorneOut.later {db db' : Database} {log : List PoolEntry}
    {e : AccountingEvent} (h : BorneOut db log e) (hlater : db.Later db')
    (x : PoolEntry) : BorneOut db' (x :: log) e := by
  cases h with
  | @outcome o s w houtcome hshare hworker hof hby hfrom =>
    obtain ⟨o', ho', hfix⟩ := exists_of_grow hlater.shareOutcomes houtcome
    obtain ⟨hof', hby', hsame⟩ := outcomeEvent_of_fixed hfix s w
    exact hsame ▸ .outcome ho' (hlater.shares.subset hshare)
      (hlater.workers.subset hworker) (hof'.trans hof) (hby'.trans hby) hfrom
  | opened hround =>
    obtain ⟨r', hr', hfix⟩ := exists_of_grow hlater.rounds hround
    obtain ⟨hid, hstart⟩ := Prod.mk.inj hfix
    rw [← hid, ← hstart]
    exact .opened hr'
  | closed hround hclosed hstatus hwritten =>
    obtain ⟨r', hr', hid, hclosed'⟩ := hlater.closed _ hround hclosed
    rw [← hid] at hwritten ⊢
    exact .closed hr' hclosed' hstatus (hwritten.cons x)
  | observed hblock =>
    obtain ⟨b', hb', hsame⟩ :=
      hlater.foundBlock (f := observedEvent) (fun _ => rfl) hblock
    exact hsame ▸ .observed hb'
  | orphaned hblock hmarked hclosed =>
    obtain ⟨b', hb', hfix⟩ := hlater.foundBlock
      (f := fun b => (orphanedEvent b, b.blockHash, b.roundId))
      (fun _ => rfl) hblock
    obtain ⟨hsame, hrest⟩ := Prod.mk.inj hfix
    obtain ⟨hhash, hround⟩ := Prod.mk.inj hrest
    rw [← hhash] at hmarked
    rw [← hround] at hclosed
    exact hsame ▸ .orphaned hb' (wasOrphaned_cons hmarked) (hclosed.cons x)
  | created hblock =>
    obtain ⟨b', hb', hsame⟩ :=
      hlater.foundBlock (f := createdEvent) (fun _ => rfl) hblock
    exact hsame ▸ .created hb'

/-- What is reported is so. -/
theorem Reported.borneOut {db : Database} {log : List PoolEntry} {t : Task}
    {e : AccountingEvent} (h : Reported (current t log).2 e)
    (hdone : ∀ x ∈ (current t log).2, Evidence db x) :
    BorneOut db log e.body ∧ e.eventType ≠ .payoutBatchCreated := by
  cases h with
  | @outcome a worker _ _ _ _ _ hworker hstored =>
    have hw := (hdone _ hworker).worker _ _ _ rfl
    obtain ⟨n, m, k, hs, o, ho, hfix⟩ := (hdone _ hstored).stored _ _ _ _ rfl
    obtain ⟨hof, hby, hsame⟩ :=
      outcomeEvent_of_fixed hfix { a.share worker.id with id := n } worker
    have hborne : BorneOut db log _ := .outcome ho hs hw hof hby rfl
    rw [hsame] at hborne
    exact ⟨hborne, EventType.noConfusion⟩
  | opened hopened =>
    obtain ⟨r, hr, hfix⟩ := (hdone _ hopened).opened _ _ rfl
    obtain ⟨hid, hstart⟩ := Prod.mk.inj hfix
    rw [← hid, ← hstart]
    exact ⟨.opened hr, EventType.noConfusion⟩
  | closed hclosed =>
    obtain ⟨hstatus, r, hr, rfl, hrow⟩ := (hdone _ hclosed).closed _ _ _ rfl
    exact ⟨.closed hr hrow hstatus ⟨t, mem_of_current hclosed⟩,
      EventType.noConfusion⟩
  | observed hrecorded =>
    obtain ⟨b, hb, hevent⟩ := (hdone _ hrecorded).recorded _ _ rfl
    rw [← hevent]
    exact ⟨.observed hb, EventType.noConfusion⟩
  | @orphaned hash found reason hread hmarked hclosed =>
    obtain ⟨hhash, b, hb, hevent⟩ := (hdone _ hread).read _ _ rfl
    have hsame : b.blockHash = hash := by
      have hblock := congrArg AccountingEvent.blockHash hevent
      exact (Option.some.inj hblock).trans hhash
    have hround : b.roundId = found.roundId := by
      have hid := congrArg AccountingEvent.roundId hevent
      exact Option.some.inj hid
    have hwas : wasOrphaned log hash = true :=
      List.any_eq_true.2 ⟨_, mem_of_current hmarked, beq_self_eq_true hash⟩
    rw [← hsame] at hwas
    rw [← hround] at hclosed
    rw [← hevent]
    exact ⟨.orphaned hb hwas ⟨t, mem_of_current hclosed⟩,
      EventType.noConfusion⟩

/-- The entry is the one of the batch. -/
def Reports (e : AccountingEvent) (p : PayoutBatch) : Prop :=
  e.roundId = some p.roundId ∧ ∃ hash, e.blockHash = some hash ∧
    CreatedFor p hash

/-- The entries of batches, the oldest first. -/
def Database.createdEntries (db : Database) : List AccountingEvent :=
  db.accountingEvents.rows.filter (·.eventType == .payoutBatchCreated)

/-! ## The invariant -/

/-- The audit log tells what is so, and it tells every batch. -/
structure Audited (db : Database) (log : List PoolEntry) : Prop where
  entries : ∀ e ∈ db.accountingEvents.rows, BorneOut db log e.body
  batches : List.Forall₂ Reports db.createdEntries db.payoutBatches.rows

namespace Audited

variable {suite : Suite} {data : ChainData} {w : PoolWorld} {t : Task}
  {d : DbOp}

/-- The tables stay as they are, and the time goes on. -/
theorem cons {db : Database} {log : List PoolEntry} (h : Audited db log)
    (now : Nat) (x : PoolEntry) : Audited { db with now } (x :: log) :=
  ⟨fun e he => (h.entries e he).later (.of_now now) x, h.batches⟩

theorem entries_run (h : Audited w.shared.db w.log)
    (hg : Grounded suite data w t (.db d))
    (haudit : AuditStep (current t w.log).2 (.db d))
    (hdone : ∀ x ∈ (current t w.log).2, Evidence w.shared.db x) (x : PoolEntry) :
    ∀ e ∈ (d.run w.shared.db).2.accountingEvents.rows,
      BorneOut (d.run w.shared.db).2 (x :: w.log) e.body := by
  have hlater := hg.later
  -- It is enough to look at the entry that the section adds.
  have hadd : ∀ {e₀ n}, w.shared.db.accountingEvents.insert e₀ =
      some (n, (d.run w.shared.db).2.accountingEvents) →
      BorneOut w.shared.db w.log e₀.body →
      ∀ e ∈ (d.run w.shared.db).2.accountingEvents.rows,
        BorneOut (d.run w.shared.db).2 (x :: w.log) e.body := by
    intro e₀ n hinsert hnew e he
    obtain ⟨_, _, _, hrows⟩ := Table.insert_some hinsert
    rw [hrows] at he
    rcases List.mem_append.1 he with hold | hlast
    · exact (h.entries e hold).later hlater x
    · rw [List.mem_singleton.1 hlast]
      exact hnew.later hlater x
  rcases d.events_cases w.shared.db with heq | ⟨e₀, n, rfl, hinsert⟩ |
    ⟨block, _, _, _, n, rfl, hinsert⟩
  · intro e he
    rw [heq] at he
    exact (h.entries e he).later hlater x
  · exact hadd hinsert (Reported.borneOut haudit hdone).1
  · obtain ⟨⟨b, hb, hfix⟩, _⟩ := hg.2
    have hsame : createdEvent b = createdEvent block := by
      have hevent := congrArg createdEvent hfix
      exact hevent
    exact hadd hinsert (hsame ▸ .created hb)

/-- A new batch and its entry come together. -/
theorem batches_create {db : Database} {block : FoundBlock} {difficulty : ℚ}
    {reward : Int} {settings : PayoutSettings}
    (h : List.Forall₂ Reports db.createdEntries db.payoutBatches.rows) :
    List.Forall₂ Reports
      ((DbOp.createPayout block difficulty reward settings).run
        db).2.createdEntries
      ((DbOp.createPayout block difficulty reward settings).run
        db).2.payoutBatches.rows := by
  rcases createPayoutSection_cases block difficulty reward settings db with
    ⟨_, heq⟩ | ⟨found, _, _, _, _, _, _, _, _, hbatch, heq⟩
  · simp only [DbOp.run, heq]
    exact h
  · obtain ⟨_, hevent⟩ := DbOp.createPayout_event heq
    obtain ⟨_, _, _, hbatches⟩ := Table.insert_some hbatch
    obtain ⟨_, _, _, hevents⟩ := Table.insert_some hevent
    obtain ⟨n, hkey⟩ := planFor_retryKey block difficulty reward settings found db
    simp only [DbOp.run, heq, Database.createdEntries] at hevents ⊢
    rw [hevents, hbatches, List.filter_append]
    refine List.rel_append h (.cons ⟨rfl, _, rfl, n, ?_⟩ .nil)
    exact congrArg some hkey

theorem batches_run (h : Audited w.shared.db w.log)
    (haudit : AuditStep (current t w.log).2 (.db d))
    (hdone : ∀ x ∈ (current t w.log).2, Evidence w.shared.db x) :
    List.Forall₂ Reports (d.run w.shared.db).2.createdEntries
      (d.run w.shared.db).2.payoutBatches.rows := by
  by_cases hd : ∃ block difficulty reward settings,
    d = .createPayout block difficulty reward settings
  · obtain ⟨_, _, _, _, rfl⟩ := hd
    exact batches_create h.batches
  · have hentries : (d.run w.shared.db).2.createdEntries =
        w.shared.db.createdEntries := by
      rcases d.events_cases w.shared.db with heq | ⟨e, n, rfl, hinsert⟩ |
        ⟨_, _, _, _, _, rfl, _⟩
      · rw [Database.createdEntries, heq]
        rfl
      · -- No task writes the entry of a batch by itself.
        obtain ⟨_, hother⟩ := Reported.borneOut haudit hdone
        obtain ⟨_, _, _, hrows⟩ := Table.insert_some hinsert
        rw [Database.createdEntries, hrows, List.filter_append]
        simp [Record.withId, hother, Database.createdEntries]
      · exact absurd ⟨_, _, _, _, rfl⟩ hd
    rw [hentries]
    rcases d.batches_cases w.shared.db with heq |
      ⟨_, _, _, _, _, _, _, rfl, _⟩ | ⟨p, f, hrows, hfix⟩
    · rw [heq]
      exact h.batches
    · exact absurd ⟨_, _, _, _, rfl⟩ hd
    · rw [hrows, List.forall₂_map_right_iff]
      refine h.batches.imp fun e b hreports => ?_
      have hsame : (if p b then f b else b).fixed = b.fixed := by
        split_ifs
        · exact hfix b
        · rfl
      unfold Reports CreatedFor
      rw [PayoutBatch.retryKey_of_fixed hsame, PayoutBatch.roundId_of_fixed hsame]
      exact hreports

end Audited

/-! ## The result -/

section Runs

variable {suite : Suite} {data : ChainData} {config : ServerConfig}

/-- In every run, the audit log tells only what is so, and it has one entry
for every batch, in the order of the batches. -/
theorem audit_truthful {ok : PoolWorld → PoolEntry → Prop} {c : PoolConfig}
    (h : (pool suite data config).Reach ok c) :
    Audited c.world.shared.db c.world.log := by
  have hevidence : (pool suite data config).Turns ok fun w _ =>
      ∀ t, ∀ x ∈ (current t w.log).2, Evidence w.shared.db x :=
    fun _ _ _ h _ _ => reach_evidence h
  refine reach_history (I := Audited) ?_ ?_ ?_ ?_ ?_
    (turns_audit.reach (reach_grounded (hevidence.reach h)))
  · exact fun now => ⟨fun _ => nofun, .nil⟩
  · rintro w t o r s' h hsem ⟨⟨⟨_, hdone⟩, hknown⟩, haudit⟩
    rcases sem_database hsem with heq | ⟨d, rfl, _, rfl⟩
    · rw [heq]
      exact h.cons w.shared.db.now _
    · exact ⟨h.entries_run hknown.2 haudit (hdone t) _,
        h.batches_run haudit (hdone t)⟩
  · exact fun {w} _ _ _ _ h _ _ => h.cons w.shared.db.now _
  · exact fun now h => h.cons now _
  · exact fun {w} h _ => h.cons w.shared.db.now _

end Runs

/-- A run in which a block is disconnected after its payout was created. -/
def disconnectsPaid : List Scene :=
  maturesFirst ++ triggers 0 firstHash sampleSettings ++ disconnects "b2" 2 ++
    disconnects firstHash 1

/-- The first entry for the closing of the round keeps what was written then,
although the row of the round has other values now. -/
theorem audit_truthful_sample : ∃ c : PoolConfig,
    (c.world.shared.db.accountingEvents.rows.map (·.eventType) =
      [.roundOpened, .shareOutcome, .foundBlockObserved, .roundClosed,
        .payoutBatchCreated, .roundClosed, .foundBlockOrphaned]) ∧
    (∃ e ∈ c.world.shared.db.accountingEvents.rows,
      e.body = closedEvent 1 7 .found) ∧
    (∃ r ∈ c.world.shared.db.rounds.rows, r.id = 1 ∧
      r.endTemplateId = some 0 ∧ r.status = .orphaned) ∧
    Audited c.world.shared.db c.world.log := by
  have hrun : (schedule sampleSuite sampleData sampleConfig (fun _ _ => true)
      ["genesis"] disconnectsPaid).any (fun c =>
        decide (c.world.shared.db.accountingEvents.rows.map (·.eventType) =
            [.roundOpened, .shareOutcome, .foundBlockObserved, .roundClosed,
              .payoutBatchCreated, .roundClosed, .foundBlockOrphaned] ∧
          (∃ e ∈ c.world.shared.db.accountingEvents.rows,
            e.body = closedEvent 1 7 .found) ∧
          ∃ r ∈ c.world.shared.db.rounds.rows, r.id = 1 ∧
            r.endTemplateId = some 0 ∧ r.status = .orphaned)) = true := by
    decide +kernel
  have hends : ∃ c, _ ∧ (pool sampleSuite sampleData sampleConfig).Reach
      (fun _ _ => True) c ∧ _ :=
    exists_schedule _ _ _ (fun _ _ _ => trivial) (by decide) hrun
  obtain ⟨c, _, hreach, htypes, hentry, hround⟩ := hends
  exact ⟨c, htypes, hentry, hround, audit_truthful hreach⟩

end StratumServer
