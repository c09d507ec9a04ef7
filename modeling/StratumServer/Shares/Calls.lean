import StratumServer.Lib.Schedule
import StratumServer.System.Rules

/-!
# Calls of the accounting service

Any number of tasks call the accounting service.  Between two sections of a
call, sections of other calls may come in.  `accounting allowed` is the
machine of these calls, where `allowed` says which calls there are.

The database is all that the calls share, and `step_database` says what a
turn leaves of it.
The last part is for schedules of calls that can be computed, and has a share
to record.
-/

namespace StratumServer

open Sql Tasks

/-! ## The calls -/

/-- A call of the accounting service. -/
inductive AccountingRequest
  | recordShare (a : ShareRecord)
  | resolveRoundForTemplate (templateId : Nat)
  | getOrCreateCurrentRound (startTemplateId : Nat)
  | closeRound (id endTemplateId : Nat) (status : RoundStatus)
  deriving DecidableEq

/-- What a call does. -/
def AccountingRequest.body : AccountingRequest → Body Unit
  | .recordShare a => dropResult (AccountingService.recordShare a)
  | .resolveRoundForTemplate templateId =>
    dropResult (AccountingService.resolveRoundForTemplate templateId)
  | .getOrCreateCurrentRound startTemplateId =>
    dropResult (AccountingService.getOrCreateCurrentRound startTemplateId)
  | .closeRound id endTemplateId status =>
    dropResult (AccountingService.closeRound id endTemplateId status)

/-- What an operation of a call may answer and leave: a section under the
lock does what it computes, or it fails and changes nothing. -/
def AccountingRequest.sem : (o : Op) → Database → o.Res → Database → Prop
  | .db d, db, r, db' =>
    (r, db') = d.run db ∨ (∃ e, r = .error e) ∧ db' = db
  | _, _, _, _ => False

/-- The tasks that call the accounting service on a new database.  The clock
goes on as it likes. -/
def accounting (allowed : AccountingRequest → Prop) :
    Machine Nat AccountingRequest Database Op Op.Res where
  init db := ∃ now, db = initSchema now
  sem := AccountingRequest.sem
  start _ request db p db' := allowed request ∧ p = request.body ∧ db' = db
  env db db' := ∃ now, db' = { db with now }
  crash _ _ := False
  boot _ := .ret ()

/-- An entry of the log of a run of calls. -/
abbrev CallEntry := Entry Nat AccountingRequest Op Op.Res

/-- The database and the log of a run of calls. -/
abbrev CallWorld := World Nat AccountingRequest Database Op Op.Res

/-- A configuration of a run of calls. -/
abbrev CallConfig := Config Nat AccountingRequest Database Op Op.Res

variable {allowed : AccountingRequest → Prop}
  {ok : CallWorld → CallEntry → Prop} {c : CallConfig}

/-- What a turn leaves of the database: a section has done what it computes,
or the clock has gone on, or nothing has changed. -/
theorem step_database {c' : CallConfig} {e : CallEntry}
    (h : (accounting allowed).Step c e c') :
    (∃ t d, e = .did t (.db d) (d.run c.world.shared).1 ∧
        c'.world.shared = (d.run c.world.shared).2) ∨
      (∃ now, c'.world.shared = { c.world.shared with now }) ∨
      c'.world.shared = c.world.shared := by
  cases h with
  | @exec t o k r s' _ hsem =>
    cases o with
    | db d =>
      rcases hsem with hrun | ⟨_, rfl⟩
      · obtain ⟨rfl, rfl⟩ := Prod.mk.inj hrun
        exact Or.inl ⟨t, d, rfl, rfl⟩
      · exact Or.inr (Or.inr rfl)
    | _ => exact hsem.elim
  | begin _ hstart => exact Or.inr (Or.inr hstart.2.2)
  | env henv => exact Or.inr (Or.inl henv)
  | crash hcrash => exact hcrash.elim

/-! ## Schedules -/

/-- The operations of a call all succeed. -/
def succeeds : (o : Op) → Database → Option (o.Res × Database)
  | .db d, db => some (d.run db)
  | _, _ => none

/-- One stretch of a schedule of calls. -/
abbrev CallMove := Move Nat AccountingRequest Database Op Op.Res

/-- Task `t` performs up to `n` operations of its call. -/
def resume (t n : Nat) : List CallMove := [.run t n succeeds]

/-- Task `t` makes a call and performs up to `n` operations of it. -/
def call (t : Nat) (request : AccountingRequest) (n : Nat) : List CallMove :=
  .begin t request (fun db => some (request.body, db)) :: resume t n

theorem resume_sound {t n : Nat} :
    ∀ m ∈ resume t n, m.Sound (accounting allowed) := by
  intro m hm
  rw [List.mem_singleton.1 hm]
  intro o db r db' hanswer
  cases o with
  | db d => exact Or.inl (Option.some.inj hanswer).symm
  | _ => cases hanswer

theorem call_sound {t : Nat} {request : AccountingRequest}
    (h : allowed request) {n : Nat} :
    ∀ m ∈ call t request n, m.Sound (accounting allowed) := by
  intro m hm
  rcases List.mem_cons.1 hm with rfl | hm
  · intro db p db' hgo
    obtain ⟨rfl, rfl⟩ := Prod.mk.inj (Option.some.inj hgo)
    exact ⟨h, rfl, rfl⟩
  · exact resume_sound m hm

theorem sound_append {ms ms' : List CallMove}
    (h : ∀ m ∈ ms, m.Sound (accounting allowed))
    (h' : ∀ m ∈ ms', m.Sound (accounting allowed)) :
    ∀ m ∈ ms ++ ms', m.Sound (accounting allowed) := by
  intro m hm
  rcases List.mem_append.1 hm with hm | hm
  · exact h m hm
  · exact h' m hm

variable (allowed) in
/-- The run of a schedule on a new database. -/
def playCalls (check : CallWorld → CallEntry → Bool) (ms : List CallMove) :
    Option CallConfig :=
  Machine.play (accounting allowed) check ms
    ⟨⟨initSchema 0, []⟩, (accounting allowed).boot⟩

theorem reach_playCalls {check : CallWorld → CallEntry → Bool}
    {ms : List CallMove} (hms : ∀ m ∈ ms, m.Sound (accounting allowed))
    (hcheck : ∀ w e, check w e = true → ok w e)
    (h : playCalls allowed check ms = some c) :
    (accounting allowed).Reach ok c :=
  Machine.Reach.play hms hcheck (.init ⟨0, rfl⟩) h

/-- A share of a worker. -/
def sampleRecord (payoutAddress : String) (workerSuffix : Option String)
    (nonceHex : String) : ShareRecord where
  payoutAddress := payoutAddress
  workerSuffix := workerSuffix
  sessionId := "s"
  jobId := "j"
  templateId := 1
  templateEpoch := 1
  extranonce1 := ""
  extranonce2 := "00"
  ntimeHex := "00"
  nonceHex := nonceHex
  difficulty := 1
  status := .accepted
  rejectReason := none
  lowDiffOk := true
  networkTargetOk := false
  blockHash := none

end StratumServer
