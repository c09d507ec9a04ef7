import StratumServer.Accounting.Schema
import Mathlib.Data.List.MinMax

/-!
# Rounds

The methods of `RoundRepository`.  `resolve_round_for_template` takes the
lock twice when no round covers the template: it lets go of the lock after
its query and calls `get_or_create_current_round`, which takes it again.
The query is `matchingRound` here, so that the two sections stay apart.
-/

namespace StratumServer

open Sql

namespace RoundRepository

/-- `RoundRepository::get_or_create_current_round`: the first open round, or
a new one that starts at the given template.  The flag says whether it is
new. -/
def getOrCreateCurrentRound (startTemplateId : Nat) (db : Database) :
    DbResult (Round × Bool) :=
  match db.rounds.rows.find? (·.status == .opened) with
  | some round => (.ok (round, false), db)
  | none =>
    match db.rounds.insert { startTemplateId } with
    | some (id, rounds) =>
      (.ok ({ id, startTemplateId }, true), { db with rounds })
    | none => (.error .sqlite, db)

/-- `RoundRepository::close_round`. -/
def closeRound (id endTemplateId : Nat) (status : RoundStatus)
    (db : Database) : DbResult Unit :=
  (.ok (), { db with
    rounds := db.rounds.modify (·.id == id)
      (fun r => { r with endTemplateId := some endTemplateId, status })
      fun _ => ⟨rfl, rfl⟩ })

/-- The `WHERE` clause of the query in `resolve_round_for_template`. -/
def Covers (templateId : Nat) (r : Round) : Prop :=
  (r.status = .opened ∧ r.startTemplateId ≤ templateId) ∨
    (r.status ≠ .opened ∧ r.startTemplateId ≤ templateId ∧
      ∀ e ∈ r.endTemplateId, templateId ≤ e)

instance (templateId : Nat) (r : Round) : Decidable (Covers templateId r) :=
  inferInstanceAs (Decidable (_ ∨ _ ∧ _ ∧ _))

/-- The query of `resolve_round_for_template`: of the rounds that cover the
template, the one that starts last. -/
def matchingRound (templateId : Nat) (db : Database) :
    DbResult (Option Round) :=
  (.ok ((db.rounds.rows.filter fun r => decide (Covers templateId r)).argmax
    Round.startTemplateId), db)

end RoundRepository

end StratumServer
