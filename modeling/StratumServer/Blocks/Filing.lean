import StratumServer.Lib.Calls
import StratumServer.Blocks.OpenRound

/-!
# The round of a template

`resolve_round_for_template` takes a round that covers the template.  If there
is none, its comment says, a new open round is created.  But it leaves that to
`get_or_create_current_round`, which returns the open round if there is one,
and that round may start after the template.

`filed_iff` says for every table that calls can lead to, and for every
template, whether the round that is returned covers the template.
-/

namespace StratumServer

/-! ## The calls -/

/-- A `u64` that can be bound to a statement: `rusqlite` fails for a number
that is not an integer of SQLite. -/
def Bindable (n : Nat) : Prop := n < 2 ^ 63

instance (n : Nat) : Decidable (Bindable n) :=
  inferInstanceAs (Decidable (_ < _))

namespace RoundRepository

/-- `RoundRepository::resolve_round_for_template`, with its two sections one
after the other. -/
def resolveRoundForTemplate (templateId : Nat) (db : Database) :
    DbResult (Round × Bool) :=
  if Bindable templateId then
    match matchingRound templateId db with
    | (.ok (some round), db) => (.ok (round, false), db)
    | (.ok none, db) => getOrCreateCurrentRound templateId db
    | (.error e, db) => (.error e, db)
  else (.error .sqlite, db)

/-- What `resolve_round_for_template` does: the template cannot be bound, or a
round covers it and is returned, or none does. -/
theorem resolveRoundForTemplate_cases (templateId : Nat) (db : Database) :
    (¬ Bindable templateId ∧
      resolveRoundForTemplate templateId db = (.error .sqlite, db)) ∨
    (Bindable templateId ∧ ∃ round ∈ db.rounds.rows, Covers templateId round ∧
      resolveRoundForTemplate templateId db = (.ok (round, false), db)) ∨
    (Bindable templateId ∧ (∀ r ∈ db.rounds.rows, ¬ Covers templateId r) ∧
      resolveRoundForTemplate templateId db =
        getOrCreateCurrentRound templateId db) := by
  unfold resolveRoundForTemplate
  by_cases hbind : Bindable templateId
  · rw [if_pos hbind, matchingRound]
    cases hmatch : (db.rounds.rows.filter fun r =>
        decide (Covers templateId r)).argmax Round.startTemplateId with
    | some round =>
      obtain ⟨hround, hcovers⟩ := List.mem_filter.1 (List.argmax_mem hmatch)
      exact Or.inr (Or.inl ⟨hbind, round, hround, of_decide_eq_true hcovers, rfl⟩)
    | none =>
      refine Or.inr (Or.inr ⟨hbind, fun r hr hcovers => ?_, rfl⟩)
      have hmem : r ∈ db.rounds.rows.filter fun r =>
          decide (Covers templateId r) :=
        List.mem_filter.2 ⟨hr, decide_eq_true hcovers⟩
      rw [List.argmax_eq_none.1 hmatch] at hmem
      cases hmem
  · rw [if_neg hbind]
    exact Or.inl ⟨hbind, rfl⟩

end RoundRepository

/-- The calls that change the rounds. -/
inductive RoundCall
  | resolve (templateId : Nat)
  /-- `close_round` after a block was found on the template. -/
  | closeFound (roundId templateId : Nat)
  /-- `close_round` after the block of the round was orphaned. -/
  | closeOrphaned (roundId : Nat)
  deriving DecidableEq, Repr

/-- The database after a call. -/
def Database.roundCall (db : Database) : RoundCall → Database
  | .resolve templateId =>
    (RoundRepository.resolveRoundForTemplate templateId db).2
  | .closeFound roundId templateId =>
    if Bindable templateId then
      (RoundRepository.closeRound roundId templateId .found db).2
    else db
  | .closeOrphaned roundId =>
    (RoundRepository.closeRound roundId 0 .orphaned db).2

/-! ## What the calls keep -/

/-- A round that is not open has an end. -/
def EndsKnown (db : Database) : Prop :=
  ∀ r ∈ db.rounds.rows, r.status ≠ .opened → ∃ e, r.endTemplateId = some e

theorem EndsKnown.getOrCreate {db : Database} (h : EndsKnown db)
    (templateId : Nat) :
    EndsKnown (RoundRepository.getOrCreateCurrentRound templateId db).2 := by
  rcases RoundRepository.getOrCreateCurrentRound_cases templateId db with
    ⟨_, _, _, heq⟩ | ⟨_, rounds, hrows, _, heq⟩
  · rw [heq]
    exact h
  · rw [heq]
    intro r hr hclosed
    rw [hrows] at hr
    rcases List.mem_append.1 hr with hold | hnew
    · exact h r hold hclosed
    · rw [List.mem_singleton.1 hnew] at hclosed
      exact absurd rfl hclosed

theorem EndsKnown.close {db : Database} (h : EndsKnown db)
    (roundId endTemplateId : Nat) (status : RoundStatus) :
    EndsKnown (RoundRepository.closeRound roundId endTemplateId status db).2 := by
  intro r hr hclosed
  have hrows : (RoundRepository.closeRound roundId endTemplateId status
      db).2.rounds.rows = db.rounds.rows.map fun r => if r.id == roundId then
        { r with endTemplateId := some endTemplateId, status } else r := rfl
  rw [hrows] at hr
  obtain ⟨r₀, hr₀, rfl⟩ := List.mem_map.1 hr
  split at hclosed
  · rename_i hid
    rw [if_pos hid]
    exact ⟨endTemplateId, rfl⟩
  · rename_i hid
    rw [if_neg hid]
    exact h r₀ hr₀ hclosed

theorem EndsKnown.roundCall {db : Database} (h : EndsKnown db)
    (call : RoundCall) : EndsKnown (db.roundCall call) := by
  cases call with
  | resolve templateId =>
    rw [Database.roundCall]
    rcases RoundRepository.resolveRoundForTemplate_cases templateId db with
      ⟨_, heq⟩ | ⟨_, _, _, _, heq⟩ | ⟨_, _, heq⟩
    · rw [heq]
      exact h
    · rw [heq]
      exact h
    · rw [heq]
      exact h.getOrCreate templateId
  | closeFound roundId templateId =>
    rw [Database.roundCall]
    split
    · exact h.close roundId templateId .found
    · exact h
  | closeOrphaned roundId => exact h.close roundId 0 .orphaned

/-- The database after a sequence of calls. -/
def roundCalls (now : Nat) (calls : List RoundCall) : Database :=
  calls.foldl Database.roundCall (initSchema now)

theorem endsKnown_roundCalls (now : Nat) (calls : List RoundCall) :
    EndsKnown (roundCalls now calls) :=
  Calls.Meets.invariant (fun _ call h _ => h.roundCall call)
    (fun r hr => by cases hr) (Calls.meets_of_forall (fun _ _ => True.intro) _ calls)

/-! ## The result -/

/-- A round that covers the template is returned for it. -/
def Filed (templateId : Nat) (db : Database) : Prop :=
  ∃ round isNew,
    (RoundRepository.resolveRoundForTemplate templateId db).1 =
      .ok (round, isNew) ∧
    round.startTemplateId ≤ templateId ∧
    (round.status = .opened ∨
      ∃ e, round.endTemplateId = some e ∧ templateId ≤ e)

/-- After every sequence of calls and for every template, a round that covers
the template is returned if and only if the template can be bound, and some
round covers it already or no round is open. -/
theorem filed_iff (now : Nat) (calls : List RoundCall) (templateId : Nat) :
    Filed templateId (roundCalls now calls) ↔ Bindable templateId ∧
      ((∃ r ∈ (roundCalls now calls).rounds.rows,
          RoundRepository.Covers templateId r) ∨
        ∀ r ∈ (roundCalls now calls).rounds.rows, r.status ≠ .opened) := by
  have hends := endsKnown_roundCalls now calls
  generalize roundCalls now calls = db at hends
  unfold Filed
  rcases RoundRepository.resolveRoundForTemplate_cases templateId db with
    ⟨hbind, heq⟩ | ⟨hbind, round, hround, hcovers, heq⟩ | ⟨hbind, hnone, heq⟩
  · rw [heq]
    constructor
    · rintro ⟨_, _, hok, _⟩
      cases hok
    · exact fun h => absurd h.1 hbind
  · refine ⟨fun _ => ⟨hbind, Or.inl ⟨round, hround, hcovers⟩⟩, fun _ => ?_⟩
    rw [heq]
    rcases hcovers with ⟨hopen, hstart⟩ | ⟨hclosed, hstart, hend⟩
    · exact ⟨round, false, rfl, hstart, Or.inl hopen⟩
    · obtain ⟨e, he⟩ := hends round hround hclosed
      exact ⟨round, false, rfl, hstart, Or.inr ⟨e, he, hend e he⟩⟩
  · rw [heq]
    rcases RoundRepository.getOrCreateCurrentRound_cases templateId db with
      ⟨round, hround, hopen, hget⟩ | ⟨hclosed, rounds, _, _, hget⟩
    · rw [hget]
      constructor
      · rintro ⟨_, _, hok, hstart, _⟩
        cases hok
        exact absurd (Or.inl ⟨hopen, hstart⟩) (hnone round hround)
      · rintro ⟨_, ⟨r, hr, hcovers⟩ | hall⟩
        · exact absurd hcovers (hnone r hr)
        · exact absurd hopen (hall round hround)
    · rw [hget]
      exact ⟨fun _ => ⟨hbind, Or.inr hclosed⟩, fun _ =>
        ⟨_, true, rfl, le_rfl, Or.inl rfl⟩⟩

/-- A round is opened at the template 5.  A share of an unknown job is filed
for the template 0, and under that round. -/
theorem filed_fails :
    (RoundRepository.resolveRoundForTemplate 0 (roundCalls 0 [.resolve 5])).1 =
      .ok ({ id := 1, startTemplateId := 5 }, false) ∧
    ¬ Filed 0 (roundCalls 0 [.resolve 5]) := by
  have hopen : (RoundRepository.resolveRoundForTemplate 0
      (roundCalls 0 [.resolve 5])).1 =
        .ok ({ id := 1, startTemplateId := 5 }, false) := by
    decide
  refine ⟨hopen, ?_⟩
  rintro ⟨round, isNew, hok, hstart, _⟩
  rw [hopen] at hok
  cases hok
  exact absurd hstart (by decide)

end StratumServer
