import StratumServer.Shares.Calls

/-!
# One open round

`resolve_round_for_template` lets go of the lock after its query, and other
tasks may open or close rounds before it goes on.  But a round is opened in
the section of `get_or_create_current_round` alone, and that section looks
for an open round first.

`getOrCreateCurrentRound_cases` says this of the section.  `OpenStep` is what
any section does to the open rounds, and `reach_oneOpen` is the result for
the runs of calls: there is at most one open round at any time, and a round
that was closed stays closed.
-/

namespace StratumServer

open Sql Tasks

/-! ## The sections -/

/-- `get_or_create_current_round` returns an open round, or there is none
and it opens one. -/
theorem RoundRepository.getOrCreateCurrentRound_cases (startTemplateId : Nat)
    (db : Database) :
    (∃ round ∈ db.rounds.rows, round.status = .opened ∧
      getOrCreateCurrentRound startTemplateId db = (.ok (round, false), db)) ∨
    (∀ r ∈ db.rounds.rows, r.status ≠ .opened) ∧
      ∃ rounds, rounds.rows = db.rounds.rows ++
          [{ id := db.rounds.seq + 1, startTemplateId }] ∧
        rounds.seq = db.rounds.seq + 1 ∧
        getOrCreateCurrentRound startTemplateId db =
          (.ok ({ id := db.rounds.seq + 1, startTemplateId }, true),
            { db with rounds }) := by
  unfold getOrCreateCurrentRound
  split
  · rename_i round hfind
    have hopen := List.find?_some hfind
    exact Or.inl ⟨round, List.mem_of_find?_eq_some hfind, eq_of_beq hopen, rfl⟩
  · rename_i hnone
    have hclosed : ∀ r ∈ db.rounds.rows, r.status ≠ .opened := by
      intro r hr hopen
      exact List.find?_eq_none.1 hnone r hr (beq_iff_eq.2 hopen)
    refine Or.inr ⟨hclosed, ?_⟩
    cases hins : db.rounds.insert { startTemplateId } with
    | none =>
      -- Rounds have no unique column.
      obtain ⟨_, _, k, _, hkey⟩ := Table.insert_none hins
      cases hkey
    | some x =>
      obtain ⟨id, rounds⟩ := x
      obtain ⟨_, rfl, hseq, hrows⟩ := Table.insert_some hins
      exact ⟨rounds, hrows, hseq, rfl⟩

/-- No two rounds are open. -/
def OneOpen (db : Database) : Prop :=
  ∀ r ∈ db.rounds.rows, ∀ r' ∈ db.rounds.rows,
    r.status = .opened → r'.status = .opened → r = r'

instance (db : Database) : Decidable (OneOpen db) :=
  inferInstanceAs (Decidable (∀ _ ∈ _, ∀ _ ∈ _, _))

/-- What a section may do to the rounds: each of them stays, and an open one
was open before, or it is new and there was none. -/
structure OpenStep (db db' : Database) : Prop where
  stays : ∀ r ∈ db.rounds.rows, ∃ r' ∈ db'.rounds.rows, r'.id = r.id
  opened : ∀ r' ∈ db'.rounds.rows, r'.status = .opened →
    (∃ r ∈ db.rounds.rows, r.id = r'.id ∧ r.status = .opened) ∨
      (∀ r ∈ db.rounds.rows, r.status ≠ .opened) ∧
        r'.id = db.rounds.seq + 1

theorem OpenStep.of_eq {db db' : Database} (h : db'.rounds = db.rounds) :
    OpenStep db db' := by
  constructor
  · intro r hr
    exact ⟨r, h ▸ hr, rfl⟩
  · intro r' hr' hopen
    exact Or.inl ⟨r', h ▸ hr', rfl, hopen⟩

/-- A section that closes no round by opening it. -/
def Op.reopens : Op → Bool
  | .db (.closeRound _ _ .opened) => true
  | _ => false

theorem DbOp.openStep {d : DbOp} (h : (Op.db d).reopens = false)
    (db : Database) : OpenStep db (d.run db).2 := by
  cases d with
  | getOrCreateCurrentRound templateId =>
    rcases RoundRepository.getOrCreateCurrentRound_cases templateId db with
      ⟨_, _, _, heq⟩ | ⟨hclosed, rounds, hrows, _, heq⟩
    · simp only [DbOp.run, heq]
      exact .of_eq rfl
    · simp only [DbOp.run, heq]
      constructor
      · intro r hr
        exact ⟨r, hrows ▸ List.mem_append_left _ hr, rfl⟩
      · intro r' hr' hopen
        rw [hrows] at hr'
        rcases List.mem_append.1 hr' with hold | hnew
        · exact Or.inl ⟨r', hold, rfl, hopen⟩
        · rw [List.mem_singleton.1 hnew]
          exact Or.inr ⟨hclosed, rfl⟩
  | closeRound id endTemplateId status =>
    have hrows : ((DbOp.closeRound id endTemplateId status).run db).2.rounds.rows =
        db.rounds.rows.map fun r => if r.id == id then
          { r with endTemplateId := some endTemplateId, status } else r := rfl
    constructor
    · intro r hr
      rw [hrows]
      refine ⟨_, List.mem_map_of_mem hr, ?_⟩
      split <;> rfl
    · intro r' hr' hopen
      rw [hrows] at hr'
      obtain ⟨r, hr, rfl⟩ := List.mem_map.1 hr'
      split at hopen
      · rw [show status = .opened from hopen] at h
        cases h
      · rename_i hid
        rw [if_neg hid]
        exact Or.inl ⟨r, hr, rfl, hopen⟩
  | _ => exact .of_eq ((DbOp.frame _ db).rounds rfl)

theorem OneOpen.step {db db' : Database} (h : OneOpen db)
    (hstep : OpenStep db db') : OneOpen db' := by
  intro r hr r' hr' hopen hopen'
  refine db'.rounds.eq_of_id hr hr' ?_
  rcases hstep.opened r hr hopen with ⟨a, ha, haid, haopen⟩ | ⟨hnone, hid⟩ <;>
    rcases hstep.opened r' hr' hopen' with
      ⟨b, hb, hbid, hbopen⟩ | ⟨hnone', hid'⟩
  · change r.id = r'.id
    rw [← haid, ← hbid, h a ha b hb haopen hbopen]
  · exact absurd haopen (hnone' a ha)
  · exact absurd hbopen (hnone b hb)
  · exact hid.trans hid'.symm

/-- A round that is not open stays so. -/
def StaysClosed (db db' : Database) : Prop :=
  ∀ r ∈ db.rounds.rows, r.status ≠ .opened →
    ∀ r' ∈ db'.rounds.rows, r'.id = r.id → r'.status ≠ .opened

theorem OpenStep.staysClosed {db₀ db db' : Database}
    (hstep : OpenStep db db') (hstays : ∀ r ∈ db₀.rounds.rows,
      ∃ r' ∈ db.rounds.rows, r'.id = r.id) (h : StaysClosed db₀ db) :
    StaysClosed db₀ db' := by
  intro r hr hclosed r' hr' hid hopen
  rcases hstep.opened r' hr' hopen with ⟨a, ha, haid, haopen⟩ | ⟨_, hnew⟩
  · exact h r hr hclosed a ha (haid.trans hid) haopen
  · -- A new round has an id that no round had before.
    obtain ⟨a, ha, haid⟩ := hstays r hr
    have hle : a.id ≤ db.rounds.seq := db.rounds.ids_le a ha
    omega

/-! ## The runs -/

/-- A round is closed as found or as orphaned. -/
def AccountingRequest.closes : AccountingRequest → Prop
  | .closeRound _ _ status => status = .found ∨ status = .orphaned
  | _ => True

theorem AccountingRequest.body_only {request : AccountingRequest}
    (h : request.closes) : request.body.Only (·.reopens = false) := by
  cases request with
  | recordShare a =>
    refine only_dropResult (Prog.Only.exceptBind (only_db rfl) fun worker => ?_)
    refine Prog.Only.exceptBind (only_resolveRoundForTemplate rfl rfl
      fun _ _ => rfl) fun round => ?_
    refine Prog.Only.exceptBind (only_db rfl) fun x => ?_
    refine Prog.Only.exceptBind (only_runIf_fallible
      (only_discard (only_db rfl))) fun _ => ?_
    exact Prog.only_pure _
  | resolveRoundForTemplate templateId =>
    exact only_dropResult (only_resolveRoundForTemplate rfl rfl fun _ _ => rfl)
  | getOrCreateCurrentRound startTemplateId =>
    refine only_dropResult (Prog.Only.exceptBind (only_db rfl) fun x => ?_)
    refine Prog.Only.exceptBind (only_runIf_fallible
      (only_liftM (only_dropResult (only_db rfl)))) fun _ => ?_
    exact Prog.only_pure _
  | closeRound id endTemplateId status =>
    refine only_dropResult (Prog.Only.exceptBind (only_db ?_) fun _ => ?_)
    · rcases h with rfl | rfl <;> rfl
    · exact only_liftM (only_dropResult (only_db rfl))

section Runs

variable {ok : CallWorld → CallEntry → Prop} {c c' : CallConfig}

/-- No section of such a run opens a round that is there. -/
theorem turns_reopens : (accounting AccountingRequest.closes).Turns ok
    fun _ e => ∀ t o r, e = .did t o r → o.reopens = false :=
  Machine.turns_only (fun _ => Prog.only_pure _) fun hs => by
    obtain ⟨hcloses, rfl, _⟩ := hs
    exact AccountingRequest.body_only hcloses

theorem step_openStep {e : CallEntry}
    (hstep : (accounting AccountingRequest.closes).Step c e c')
    (hkeeps : ∀ t o r, e = .did t o r → o.reopens = false) :
    OpenStep c.world.shared c'.world.shared := by
  rcases step_database hstep with ⟨t, d, rfl, heq⟩ | ⟨now, heq⟩ | heq
  · rw [heq]
    exact DbOp.openStep (hkeeps _ _ _ rfl) _
  · exact .of_eq (by rw [heq])
  · exact .of_eq (by rw [heq])

/-- At most one round is open, and a round that was closed is never open
again. -/
theorem reach_oneOpen
    (h : (accounting AccountingRequest.closes).Reach ok c) :
    OneOpen c.world.shared ∧
      ∀ c', (accounting AccountingRequest.closes).Leads ok c c' →
        StaysClosed c.world.shared c'.world.shared := by
  constructor
  · induction h with
    | init hs =>
      obtain ⟨now, rfl⟩ := hs
      intro r hr
      cases hr
    | step hc hok hstep ih =>
      exact ih.step (step_openStep hstep (turns_reopens hc hok hstep))
  · intro c' hleads
    have hboth : (∀ r ∈ c.world.shared.rounds.rows,
          ∃ r' ∈ c'.world.shared.rounds.rows, r'.id = r.id) ∧
        StaysClosed c.world.shared c'.world.shared := by
      induction hleads with
      | refl =>
        refine ⟨fun r hr => ⟨r, hr, rfl⟩, fun r hr hclosed r' hr' hid => ?_⟩
        rw [c.world.shared.rounds.eq_of_id hr' hr hid]
        exact hclosed
      | tail hlead hturn ih =>
        obtain ⟨e, hok, hstep⟩ := hturn
        have hopen := step_openStep hstep
          (turns_reopens (h.leads hlead) hok hstep)
        refine ⟨fun r hr => ?_, hopen.staysClosed ih.1 ih.2⟩
        obtain ⟨r', hr', hid⟩ := ih.1 r hr
        obtain ⟨r'', hr'', hid'⟩ := hopen.stays r' hr'
        exact ⟨r'', hr'', hid'.trans hid⟩
    exact hboth.2

end Runs

/-- Two tasks find no round for their templates before either opens one.
The round is closed then, and a new one is opened. -/
def overlap : List CallMove :=
  call 0 (.resolveRoundForTemplate 5) 1 ++
    call 1 (.resolveRoundForTemplate 3) 9 ++ resume 0 9 ++
    call 1 (.closeRound 1 6 .found) 9 ++ call 0 (.getOrCreateCurrentRound 9) 9

theorem reach_oneOpen_overlap :
    (playCalls AccountingRequest.closes (fun _ _ => true) overlap).map
        (fun c => c.world.shared.rounds.rows.map fun r =>
          (r.startTemplateId, r.status)) =
      some [(3, .found), (9, .opened)] ∧
    ∀ c ∈ playCalls AccountingRequest.closes (fun _ _ => true) overlap,
      OneOpen c.world.shared := by
  refine ⟨by decide +kernel, fun c hc => ?_⟩
  have hreach : (accounting AccountingRequest.closes).Reach
      (fun _ _ => True) c := by
    refine reach_playCalls ?_ (fun _ _ _ => trivial) hc
    refine sound_append (sound_append (sound_append (sound_append ?_ ?_) ?_) ?_) ?_
    · exact call_sound trivial
    · exact call_sound trivial
    · exact resume_sound
    · exact call_sound (Or.inl rfl)
    · exact call_sound trivial
  exact (reach_oneOpen hreach).1

end StratumServer
