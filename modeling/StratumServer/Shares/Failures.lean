import StratumServer.Accounting.Statements
import StratumServer.Shares.Calls
import StratumServer.System.Simulation

/-!
# Failed calls

`record_share`, `create_payout_for_found_block` and
`rebuild_payout_plan_for_batch`, with statements that may fail.  A call has a
fate for each of its commands, and its report says what it has returned and
left.

A call is clean when it leaves no transaction open, and when its error leaves
the tables of shares and payouts as they were.  Two failures are not clean.
A `COMMIT` that fails and leaves the transaction open is not followed by a
`ROLLBACK`.  And `record_share` writes its event after the `COMMIT`, and
returns the error of that statement, although the share is stored by then.
`reports_clean_iff` says that there are no others.
-/

namespace StratumServer

open Sql Tasks

/-! ## The calls -/

/-- A call with transactions. -/
inductive Operation
  | recordShare (a : ShareRecord)
  | createPayoutForFoundBlock (block : FoundBlock) (settings : PayoutSettings)
  | rebuildPayoutPlanForBatch (batchId : Nat) (settings : PayoutSettings)

/-- What the call does. -/
def Operation.body (suite : Suite) : Operation → Fallible Unit
  | .recordShare a => discard (AccountingService.recordShare a)
  | .createPayoutForFoundBlock block settings =>
    discard (AccountingService.createPayoutForFoundBlock suite block settings)
  | .rebuildPayoutPlanForBatch batchId settings =>
    discard (AccountingService.rebuildPayoutPlanForBatch suite batchId settings)

/-- A connection to the database of the pool, with the commands that fail. -/
abbrev Attempt := Trial Database Stmt

/-- An operation on the connection: a section sends its statements.  The
calls perform no others, and `answers` stands for what these would return. -/
def Op.onConn (answers : (o : Op) → o.Res) :
    (o : Op) → Attempt → o.Res × Attempt
  | .db d, t => d.script.run.exec sqlite.step t
  | o, t => (answers o, t)

/-- A call: what it found, what it returned, what it left, and its
commands. -/
structure Report where
  before : Conn Database
  result : Except Error Unit
  after : Conn Database
  log : List (Command Stmt × Fate)

section Calls

variable (suite : Suite) (answers : (o : Op) → o.Res)

/-- The report of one call. -/
def Operation.call (op : Operation) (fates : Nat → Fate)
    (conn : Conn Database) : Report :=
  let (result, t) :=
    (op.body suite).run.exec (Op.onConn answers) ⟨conn, fates, []⟩
  { before := conn, result, after := t.conn, log := t.log }

/-- The reports of calls on one connection, one after the other. -/
def reports : Conn Database → List (Operation × (Nat → Fate)) → List Report
  | _, [] => []
  | conn, (op, fates) :: calls =>
    let report := op.call suite answers fates conn
    report :: reports report.after calls

end Calls

/-! ## What a call should leave -/

/-- The tables of shares and payouts are the same. -/
structure Untouched (db db' : Database) : Prop where
  shares : db'.shares = db.shares
  shareOutcomes : db'.shareOutcomes = db.shareOutcomes
  payoutBatches : db'.payoutBatches = db.payoutBatches
  payouts : db'.payouts = db.payouts
  payoutShareSnapshots : db'.payoutShareSnapshots = db.payoutShareSnapshots
  dustBalances : db'.dustBalances = db.dustBalances

theorem Untouched.refl (db : Database) : Untouched db db :=
  ⟨rfl, rfl, rfl, rfl, rfl, rfl⟩

theorem Untouched.trans {db db' db'' : Database} (h : Untouched db db')
    (h' : Untouched db' db'') : Untouched db db'' where
  shares := h'.shares.trans h.shares
  shareOutcomes := h'.shareOutcomes.trans h.shareOutcomes
  payoutBatches := h'.payoutBatches.trans h.payoutBatches
  payouts := h'.payouts.trans h.payouts
  payoutShareSnapshots :=
    h'.payoutShareSnapshots.trans h.payoutShareSnapshots
  dustBalances := h'.dustBalances.trans h.dustBalances

theorem Untouched.symm {db db' : Database} (h : Untouched db db') :
    Untouched db' db :=
  ⟨h.shares.symm, h.shareOutcomes.symm, h.payoutBatches.symm, h.payouts.symm,
    h.payoutShareSnapshots.symm, h.dustBalances.symm⟩

/-- A call that has failed has left no trace, and a call has left no
transaction open, so that the next one can begin. -/
structure Report.Clean (r : Report) : Prop where
  untouched : ∀ e, r.result = .error e → Untouched r.before.data r.after.data
  closed : r.after.saved = none
  next : (sqlite.answer .begin .succeeds r.after).1 = .ok ()

/-- No `COMMIT` has failed and left its transaction open, and no statement
that logs a share has failed. -/
def Spared (log : List (Command Stmt × Fate)) : Prop :=
  (.commit, .fails) ∉ log ∧ ∀ s fate e, (.run s, fate) ∈ log →
    s.event = some e → e.eventType = .shareOutcome → fate = .succeeds

/-! ## The parts of a call that write elsewhere -/

/-- A section that has nothing to do with shares and payouts, or only reads
them. -/
def DbOp.aside : DbOp → Bool
  | .upsert .. | .matchingRound .. | .getOrCreateCurrentRound ..
  | .getBatchById .. | .getByRoundId .. => true
  | .recordEvent e => e.eventType != .shareOutcome
  | _ => false

/-- The sections of `o` are such. -/
def Op.aside : Op → Bool
  | .db d => d.aside
  | _ => false

theorem DbOp.untouched_of_aside {d : DbOp} (hd : d.aside = true)
    (db : Database) : Untouched db (d.run db).2 := by
  cases d with
  | upsert a w =>
    obtain ⟨w, workers, hrun, _⟩ := WorkerRepository.upsert_cases a w db
    change Untouched db (WorkerRepository.upsert a _ db).2
    rw [hrun]
    exact ⟨rfl, rfl, rfl, rfl, rfl, rfl⟩
  | recordEvent e =>
    change Untouched db (AccountingEventRepository.recordEvent e db).2
    unfold AccountingEventRepository.recordEvent
    cases db.accountingEvents.insert e with
    | some x => exact ⟨rfl, rfl, rfl, rfl, rfl, rfl⟩
    | none => exact Untouched.refl db
  | getOrCreateCurrentRound t =>
    change Untouched db (RoundRepository.getOrCreateCurrentRound t db).2
    unfold RoundRepository.getOrCreateCurrentRound
    split
    · exact Untouched.refl db
    · split
      · exact ⟨rfl, rfl, rfl, rfl, rfl, rfl⟩
      · exact Untouched.refl db
  | matchingRound t => exact Untouched.refl db
  | getBatchById i => exact Untouched.refl db
  | getByRoundId i => exact Untouched.refl db
  | _ => cases hd

/-! ## One section -/

/-- So far the call has touched nothing, has left no transaction open and has
been spared. -/
structure Still (db : Database) (t : Attempt) : Prop where
  closed : t.conn.saved = none
  untouched : Untouched db t.conn.data
  spared : Spared t.log

section Sections

variable {db : Database} {t : Attempt}

/-- What becomes of a section, unless it is the one that logs a share. -/
theorem section_cases (d : DbOp)
    (hevent : ∀ e, d.event = some e → e.eventType ≠ .shareOutcome)
    (h : Still db t) :
    ∃ r t', d.script.run.exec sqlite.step t = (r, t') ∧
      ((∃ a, r = .ok a ∧ d.run t.conn.data = (.ok a, t'.conn.data) ∧
          t'.conn.saved = none ∧ Spared t'.log) ∨
        (∃ e, r = .error e ∧ Still db t') ∨
        ∃ e, r = .error e ∧ d.transacts = true ∧ t'.conn.saved ≠ none ∧
          ¬ Spared t'.log) := by
  obtain ⟨new, r, t', hrun, hlog, hsends, hout⟩ :=
    d.atomic t _ (Conn.eq_of_closed h.closed)
  rw [d.eval_script] at hout
  have hspared : (.commit, .fails) ∉ new → Spared t'.log := by
    intro hnew
    rw [hlog]
    refine ⟨fun hmem => (List.mem_append.1 hmem).elim hnew h.spared.1, ?_⟩
    intro s fate e hmem hs he
    rcases List.mem_append.1 hmem with hmem | hmem
    · rcases hsends _ hmem e hs with hd | hbatch
      · exact absurd he (hevent e hd)
      · rw [he] at hbatch
        cases hbatch
    · exact h.spared.2 s fate e hmem hs he
  refine ⟨r, t', hrun, ?_⟩
  generalize hc : t'.conn = c at hout
  cases hout with
  | @done a db' hmeaning hnew =>
    exact Or.inl ⟨a, rfl, d.run_of_meaning hmeaning, rfl, hspared hnew⟩
  | @failed e _ hnew =>
    refine Or.inr (Or.inl ⟨e, rfl, ?_, ?_, hspared hnew⟩)
    · rw [hc]
    · rw [hc]
      exact h.untouched
  | @stuck e db' hnew =>
    refine Or.inr (Or.inr ⟨e, rfl, hsends _ hnew, nofun, fun hs => ?_⟩)
    rw [hlog] at hs
    exact hs.1 (List.mem_append_left _ hnew)

theorem still_aside {d : DbOp} (hd : d.aside = true) (h : Still db t) :
    Still db (d.script.run.exec sqlite.step t).2 := by
  have hevent : ∀ e, d.event = some e → e.eventType ≠ .shareOutcome := by
    intro e he
    cases d with
    | recordEvent e' =>
      cases he
      exact bne_iff_ne.1 hd
    | _ => cases he
  have htransacts : d.transacts = false := by
    cases d with
    | insertShareAndOutcomeAtomic s o => cases hd
    | createPayout b n g s => cases hd
    | rebuildPayout i b n g s => cases hd
    | _ => rfl
  obtain ⟨r, t', hrun, ⟨a, _, hdone, hclosed, hspared⟩ | ⟨_, _, hstill⟩ |
    ⟨_, _, htrans, _⟩⟩ := section_cases d hevent h
  · rw [hrun]
    refine ⟨hclosed, h.untouched.trans ?_, hspared⟩
    have huntouched := DbOp.untouched_of_aside hd t.conn.data
    rw [hdone] at huntouched
    exact huntouched
  · rw [hrun]
    exact hstill
  · rw [htransacts] at htrans
    cases htrans

/-- The parts of a call in front of its transaction. -/
theorem exec_still {α : Type} (answers : (o : Op) → o.Res) {p : Body α}
    (hp : p.Only (·.aside = true)) (h : Still db t) :
    Still db (p.exec (Op.onConn answers) t).2 := by
  refine hp.exec (fun o t ho ht => ?_) h
  cases o with
  | db d => exact still_aside ho ht
  | _ => cases ho

/-- The section that logs a share fails only when its statement is made to
fail. -/
theorem logShare_cases {e : AccountingEvent}
    (he : e.eventType = .shareOutcome) (hclosed : t.conn.saved = none)
    (hspared : Spared t.log) :
    ∃ r t', (DbOp.recordEvent e).script.run.exec sqlite.step t = (r, t') ∧
      t'.conn.saved = none ∧ Untouched t.conn.data t'.conn.data ∧
      ((∃ a, r = .ok a) ∧ Spared t'.log ∨
        (∃ err, r = .error err) ∧ ¬ Spared t'.log) := by
  have hlost : t.fates 0 ≠ .succeeds → ¬ Spared
      ((Command.run (.single (.recordEvent e)), t.fates 0) :: t.log) :=
    fun hfate h => hfate (h.2 _ _ e List.mem_cons_self rfl he)
  have hback : t.conn.back = t.conn := by
    unfold Conn.back
    rw [hclosed]
  change ∃ r t', sqlite.step (.run (.single (.recordEvent e))) t = (r, t') ∧ _
  refine ⟨_, _, rfl, ?_⟩
  dsimp only [Engine.step, Trial.after]
  cases hfate : t.fates 0 with
  | succeeds =>
    obtain ⟨id, events, hinsert⟩ := Table.insert_isSome
      (t := t.conn.data.accountingEvents) (r := e) (by rintro a _ ⟨k, _⟩; cases k)
    have hexec : (Stmt.single (.recordEvent e)).exec t.conn.data =
        .ok (id, { t.conn.data with accountingEvents := events }) := by
      dsimp only [Stmt.exec, DbOp.meaning, DbOp.run,
        AccountingEventRepository.recordEvent]
      rw [hinsert]
    dsimp only [Engine.answer, sqlite]
    rw [hexec]
    refine ⟨hclosed, ⟨rfl, rfl, rfl, rfl, rfl, rfl⟩, Or.inl ⟨⟨id, rfl⟩, ?_⟩⟩
    refine ⟨fun hmem => ?_, fun s fate e' hmem hs he' => ?_⟩
    · rcases List.mem_cons.1 hmem with hmem | hmem
      · cases hmem
      · exact hspared.1 hmem
    · rcases List.mem_cons.1 hmem with hmem | hmem
      · cases hmem
        rfl
      · exact hspared.2 s fate e' hmem hs he'
  | fails =>
    rw [hfate] at hlost
    exact ⟨hclosed, Untouched.refl _, Or.inr ⟨⟨_, rfl⟩, hlost nofun⟩⟩
  | undone =>
    rw [hfate] at hlost
    dsimp only [Engine.answer]
    rw [hback]
    exact ⟨hclosed, Untouched.refl _, Or.inr ⟨⟨_, rfl⟩, hlost nofun⟩⟩

end Sections

/-! ## The calls -/

section Verdicts

variable {suite : Suite} {answers : (o : Op) → o.Res} {db : Database}
  {t : Attempt}

/-- What a call has left is clean just when it has been spared. -/
def Verdict {α : Type} (db : Database) (x : Except Error α × Attempt) : Prop :=
  ((∀ e, x.1 = .error e → Untouched db x.2.conn.data) ∧
    x.2.conn.saved = none) ↔ Spared x.2.log

theorem Still.verdict {α : Type} {r : Except Error α} (h : Still db t) :
    Verdict db (r, t) :=
  ⟨fun _ => h.spared, fun _ => ⟨fun _ _ => h.untouched, h.closed⟩⟩

variable (answers) in
theorem exec_db (d : DbOp) :
    (StratumServer.db d).run.exec (Op.onConn answers) t =
      d.script.run.exec sqlite.step t := rfl

/-- A call that ends with a transaction. -/
theorem verdict_section {d : DbOp} (hd : d.event = none) (h : Still db t) :
    Verdict db ((StratumServer.db d).run.exec (Op.onConn answers) t) := by
  rw [exec_db]
  obtain ⟨r, t', hrun, ⟨a, rfl, _, hclosed, hspared⟩ | ⟨e, rfl, hstill⟩ |
    ⟨e, rfl, _, hopen, hnot⟩⟩ := section_cases d (by simp [hd]) h
  · rw [hrun]
    exact ⟨fun _ => hspared, fun _ => ⟨nofun, hclosed⟩⟩
  · rw [hrun]
    exact hstill.verdict
  · rw [hrun]
    exact ⟨fun hclean => (hopen hclean.2).elim, fun hs => (hnot hs).elim⟩

/-- A part of a call that writes elsewhere, in front of the rest. -/
theorem verdict_bind {α β : Type} {p : Fallible α} {q : α → Fallible β}
    (hp : p.run.Only (·.aside = true)) (h : Still db t)
    (hq : ∀ {a t'}, Still db t' →
      Verdict db ((q a).run.exec (Op.onConn answers) t')) :
    Verdict db ((p >>= q).run.exec (Op.onConn answers) t) := by
  have hstill := exec_still answers hp h
  cases hrun : p.run.exec (Op.onConn answers) t with
  | mk r t' =>
    rw [hrun] at hstill
    cases r with
    | ok a =>
      rw [Prog.exec_exceptBind_ok hrun]
      exact hq hstill
    | error e =>
      rw [Prog.exec_exceptBind_error hrun]
      exact hstill.verdict

theorem verdict_rebuildPayoutPlanForBatch (batchId : Nat)
    (settings : PayoutSettings) (h : Still db t) :
    Verdict db ((AccountingService.rebuildPayoutPlanForBatch suite batchId
      settings).run.exec (Op.onConn answers) t) := by
  refine verdict_bind (only_db rfl) h fun {batch t₁} h₁ => ?_
  cases batch with
  | none => exact h₁.verdict
  | some batch =>
    dsimp only
    split
    · exact h₁.verdict
    · refine verdict_bind (only_db rfl) h₁ fun {block t₂} h₂ => ?_
      cases block with
      | none => exact h₂.verdict
      | some block => exact verdict_section rfl h₂

variable (answers t) in
theorem exec_discard {α : Type} (p : Fallible α) :
    (discard p).run.exec (Op.onConn answers) t =
      ((p.run.exec (Op.onConn answers) t).1.map fun _ => (),
        (p.run.exec (Op.onConn answers) t).2) := by
  rw [run_discard, Prog.exec_bind]
  rfl

/-- A new share or a new outcome shows in the tables. -/
theorem not_untouched_of_isNew {share : Share} {outcome : ShareOutcome}
    {db db' : Database} {shareId outcomeId : Option Nat}
    (h : ShareRepository.insertShareAndOutcomeAtomic share outcome db =
      (.ok (shareId, outcomeId, true), db')) : ¬ Untouched db db' := by
  obtain ⟨_, _, shareIsNew, outcomeIsNew, shares, outcomes, heq, hshares,
    houtcomes⟩ := ShareRepository.insertShareAndOutcomeAtomic_cases share
      outcome db
  rw [heq] at h
  obtain ⟨hresult, rfl⟩ := Prod.mk.inj h
  have hnew : (shareIsNew || outcomeIsNew) = true :=
    congrArg (fun x => x.2.2) (Except.ok.inj hresult)
  intro hsame
  rcases Bool.or_eq_true_iff.1 hnew with hnew | hnew
  · rcases hshares with ⟨_, _, _, hrows⟩ | ⟨hold, _⟩
    · rw [show shares = db.shares from hsame.shares] at hrows
      exact absurd hrows (by simp)
    · exact absurd (hnew.symm.trans hold) (by decide)
  · rcases houtcomes with ⟨_, _, hrows⟩ | ⟨hold, _⟩
    · rw [show outcomes = db.shareOutcomes from hsame.shareOutcomes] at hrows
      exact absurd hrows (by simp)
    · exact absurd (hnew.symm.trans hold) (by decide)

/-- The end of `record_share`, once the rows of a new share are there. -/
theorem verdict_logShare {α : Type} {e : AccountingEvent} {a : α}
    (he : e.eventType = .shareOutcome) (hclosed : t.conn.saved = none)
    (hspared : Spared t.log) (htouched : ¬ Untouched db t.conn.data) :
    Verdict db ((discard (StratumServer.db (.recordEvent e)) >>= fun _ =>
      (pure a : Fallible α)).run.exec (Op.onConn answers) t) := by
  obtain ⟨r, t', hrun, hclosed', hsame, ⟨⟨n, rfl⟩, hspared'⟩ |
    ⟨⟨err, rfl⟩, hlost⟩⟩ := logShare_cases he hclosed hspared
  · have hexec := exec_discard answers t
      (StratumServer.db (.recordEvent e))
    rw [exec_db, hrun] at hexec
    rw [Prog.exec_exceptBind_ok hexec]
    exact ⟨fun _ => hspared', fun _ => ⟨nofun, hclosed'⟩⟩
  · have hexec := exec_discard answers t
      (StratumServer.db (.recordEvent e))
    rw [exec_db, hrun] at hexec
    rw [Prog.exec_exceptBind_error hexec]
    refine ⟨fun hclean => ?_, fun h => (hlost h).elim⟩
    exact (htouched ((hclean.1 err rfl).trans hsame.symm)).elim

theorem verdict_recordShare (a : ShareRecord) (h : Still db t) :
    Verdict db ((AccountingService.recordShare a).run.exec
      (Op.onConn answers) t) := by
  refine verdict_bind (only_db rfl) h fun {worker t₁} h₁ => ?_
  refine verdict_bind (only_resolveRoundForTemplate rfl rfl ?_) h₁
    fun {round t₂} h₂ => ?_
  · intro e he
    change (e.eventType != .shareOutcome) = true
    rw [he]
    rfl
  obtain ⟨r, t₃, hrun, hcases⟩ := section_cases
    (.insertShareAndOutcomeAtomic (a.share worker.id)
      (a.outcome worker.id round.id)) (fun e he => by cases he) h₂
  rw [← exec_db answers] at hrun
  rcases hcases with ⟨⟨shareId, outcomeId, isNew⟩, rfl, hdone, hclosed,
    hspared⟩ | ⟨e, rfl, hstill⟩ | ⟨e, rfl, _, hopen, hnot⟩
  · rw [Prog.exec_exceptBind_ok hrun]
    have htouched : isNew = true → ¬ Untouched db t₃.conn.data := by
      rintro rfl hsame
      exact not_untouched_of_isNew hdone (h₂.untouched.symm.trans hsame)
    dsimp only
    cases hlog : isNew && shareId.isSome && outcomeId.isSome with
    | true =>
      exact verdict_logShare rfl hclosed hspared
        (htouched (by simp only [Bool.and_eq_true] at hlog; exact hlog.1.1))
    | false => exact ⟨fun _ => hspared, fun _ => ⟨nofun, hclosed⟩⟩
  · rw [Prog.exec_exceptBind_error hrun]
    exact hstill.verdict
  · rw [Prog.exec_exceptBind_error hrun]
    exact ⟨fun hclean => (hopen hclean.2).elim, fun hs => (hnot hs).elim⟩

theorem Verdict.discard {α : Type} {p : Fallible α}
    (h : Verdict db (p.run.exec (Op.onConn answers) t)) :
    Verdict db ((discard p).run.exec (Op.onConn answers) t) := by
  rw [exec_discard]
  cases hrun : p.run.exec (Op.onConn answers) t with
  | mk r t' =>
    rw [hrun] at h
    cases r with
    | ok a => exact ⟨fun hc => h.1 ⟨nofun, hc.2⟩, fun hs => ⟨nofun, (h.2 hs).2⟩⟩
    | error e =>
      refine ⟨fun hc => h.1 ⟨fun _ _ => hc.1 e rfl, hc.2⟩, fun hs => ?_⟩
      exact ⟨fun _ _ => (h.2 hs).1 e rfl, (h.2 hs).2⟩

/-- A call on a connection without a transaction. -/
theorem call_clean_iff (suite : Suite) (answers : (o : Op) → o.Res)
    (op : Operation) (fates : Nat → Fate) (db : Database) :
    (op.call suite answers fates ⟨db, none⟩).Clean ↔
      Spared (op.call suite answers fates ⟨db, none⟩).log := by
  have hstill : Still db ⟨⟨db, none⟩, fates, []⟩ :=
    ⟨rfl, Untouched.refl db, List.not_mem_nil, fun _ _ _ h => by cases h⟩
  have hverdict : Verdict db ((op.body suite).run.exec (Op.onConn answers)
      ⟨⟨db, none⟩, fates, []⟩) := by
    cases op with
    | recordShare a => exact (verdict_recordShare a hstill).discard
    | createPayoutForFoundBlock block settings =>
      exact (verdict_section rfl hstill).discard
    | rebuildPayoutPlanForBatch batchId settings =>
      exact (verdict_rebuildPayoutPlanForBatch batchId settings hstill).discard
  refine ⟨fun h => hverdict.1 ⟨h.untouched, h.closed⟩, fun h => ?_⟩
  have hclosed := (hverdict.2 h).2
  exact ⟨(hverdict.2 h).1, hclosed, (sqlite.begin_ok_iff _).2 hclosed⟩

end Verdicts

/-- In every sequence of calls on a new connection, whatever fails in them:
the calls are all clean just when no `COMMIT` has failed and left its
transaction open, and no statement that logs a share has failed. -/
theorem reports_clean_iff (suite : Suite) (answers : (o : Op) → o.Res)
    (calls : List (Operation × (Nat → Fate))) (db : Database) :
    (∀ r ∈ reports suite answers ⟨db, none⟩ calls, r.Clean) ↔
      ∀ r ∈ reports suite answers ⟨db, none⟩ calls, Spared r.log := by
  induction calls generalizing db with
  | nil => exact iff_of_true (List.forall_mem_nil _) (List.forall_mem_nil _)
  | cons call calls ih =>
    obtain ⟨op, fates⟩ := call
    have hcall := call_clean_iff suite answers op fates db
    have hrest : (op.call suite answers fates ⟨db, none⟩).Clean →
        ((∀ r ∈ reports suite answers
            (op.call suite answers fates ⟨db, none⟩).after calls, r.Clean) ↔
          ∀ r ∈ reports suite answers
            (op.call suite answers fates ⟨db, none⟩).after calls,
            Spared r.log) := by
      intro hclean
      rw [Conn.eq_of_closed hclean.closed]
      exact ih _
    unfold reports
    rw [List.forall_mem_cons, List.forall_mem_cons]
    refine ⟨fun h => ⟨hcall.1 h.1, (hrest h.1).1 h.2⟩, fun h => ?_⟩
    exact ⟨hcall.2 h.1, (hrest (hcall.2 h.1)).2 h.2⟩

/-- Answers for the operations that a call does not perform. -/
def noAnswers : (o : Op) → o.Res
  | .db _ | .submitBlock _ | .getBlockCount | .getBlockHash _ | .getBlock _
  | .getRawTransaction _ | .signAndSubmit _ => .error .sqlite
  | .jobCacheGet _ | .getMiningTemplate => none
  | .chainTipGet => 0
  | .instantNow => 0
  | .jobCacheInsert _ | .sendJob _ | .updateBlockConnected _ | .send _
  | .respond .. | .closeSession _ | .spawnHttp | .spawnConsumer
  | .spawnHandler | .spawnStratum => ()

/-- Only the command number `k` of a call fails. -/
def failing (k : Nat) : Nat → Fate :=
  fun n => if n = k then .fails else .succeeds

/-- The first share on a new database: its `COMMIT` is the command number 8,
and its event is number 9. -/
def failedCall (k : Nat) : Operation × (Nat → Fate) :=
  (.recordShare (sampleRecord "lotus_a" (some "rig") "01"), failing k)

/-- A failed `COMMIT` leaves the transaction open, and then the next call
fails as well.  A failed event leaves a share that was reported as an
error. -/
theorem reports_clean_fails :
    (reports sampleSuite noAnswers ⟨initSchema 0, none⟩
        [failedCall 8, (.recordShare (sampleRecord "lotus_a" none "02"),
          fun _ => .succeeds)]).map
        (fun r => (r.result.toBool, r.after.saved.isSome)) =
      [(false, true), (false, true)] ∧
    (reports sampleSuite noAnswers ⟨initSchema 0, none⟩ [failedCall 9]).map
        (fun r => (r.result.toBool, r.before.data.shares.rows.length,
          r.after.data.shares.rows.length)) = [(false, 0, 1)] ∧
    ¬ ∀ r ∈ reports sampleSuite noAnswers ⟨initSchema 0, none⟩ [failedCall 8],
      r.Clean := by
  refine ⟨by decide +kernel, by decide +kernel, fun h => ?_⟩
  have hopen : (reports sampleSuite noAnswers ⟨initSchema 0, none⟩
      [failedCall 8]).map (·.after.saved.isSome) = [true] := by
    decide +kernel
  have hclosed : ∀ b ∈ (reports sampleSuite noAnswers ⟨initSchema 0, none⟩
      [failedCall 8]).map (·.after.saved.isSome), b = false := by
    intro b hb
    obtain ⟨r, hr, rfl⟩ := List.mem_map.1 hb
    rw [(h r hr).closed]
    rfl
  rw [hopen] at hclosed
  exact Bool.noConfusion (hclosed true (List.mem_singleton.2 rfl))

end StratumServer
