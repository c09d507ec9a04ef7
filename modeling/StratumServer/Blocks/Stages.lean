import StratumServer.System.Grounding
import StratumServer.System.Rules

/-!
# The stages of a found block

After the node has accepted a block, the request that found it looks up a
round, records the block and closes the round, one section after the other.
`Stage` says how far a request has got, and `stage` reads it off what the
request has done.

`turns_staged` says that every session goes through the stages in this
order and does not end its request in the middle of them.  What the database
holds at a stage is not said here.
-/

namespace StratumServer

open Tasks

/-! ## Stages -/

/-- How far a request has got with its block. -/
inductive Stage
  /-- The node has not accepted a block. -/
  | early
  /-- The node has answered `null` to `submitblock`. -/
  | accepted (blockHash : String)
  /-- The round was looked up or created. -/
  | resolved (blockHash : String) (roundId : Nat)
  /-- The lookup of the round was refused. -/
  | unresolved
  /-- The block was to be recorded; the flag says whether it was stored. -/
  | recorded (blockHash : String) (roundId : Nat) (stored : Bool)
  /-- The round was to be closed. -/
  | closed (blockHash : String) (roundId : Nat) (stored : Bool)
  deriving DecidableEq, Repr

namespace Stage

/-- A request can end here. -/
def settled : Stage → Bool
  | early | unresolved | closed .. => true
  | _ => false

/-- The stage after an operation. -/
def next (suite : Suite) (s : Stage) (x : (o : Op) × o.Res) : Stage :=
  match s, x with
  | early, ⟨.submitBlock blockHex, .ok none⟩ =>
    accepted (suite.submittedHash blockHex)
  | accepted hash, ⟨.db (.matchingRound _), .ok (some round)⟩ =>
    resolved hash round.id
  | accepted _, ⟨.db (.matchingRound _), .error _⟩ => unresolved
  | accepted hash, ⟨.db (.getOrCreateCurrentRound _), .ok (round, _)⟩ =>
    resolved hash round.id
  | accepted _, ⟨.db (.getOrCreateCurrentRound _), .error _⟩ => unresolved
  | resolved hash roundId, ⟨.db (.recordFoundBlock _), .ok _⟩ =>
    recorded hash roundId true
  | resolved hash roundId, ⟨.db (.recordFoundBlock _), .error _⟩ =>
    recorded hash roundId false
  | recorded hash roundId stored, ⟨.db (.closeRound ..), _⟩ =>
    closed hash roundId stored
  | s, _ => s

/-- An operation has found or created the round `id`. -/
def FindsRound (x : (o : Op) × o.Res) (id : Nat) : Prop :=
  (∃ templateId round, x = ⟨.db (.matchingRound templateId), .ok (some round)⟩ ∧
      round.id = id) ∨
    ∃ templateId round isNew,
      x = ⟨.db (.getOrCreateCurrentRound templateId), .ok (round, isNew)⟩ ∧
        round.id = id

/-- What an operation does to a stage. -/
theorem next_cases (suite : Suite) (s : Stage) (x : (o : Op) × o.Res) :
    s.next suite x = s ∨
      (s = early ∧ ∃ hash, s.next suite x = accepted hash) ∨
      (∃ hash, s = accepted hash ∧ (s.next suite x = unresolved ∨
        ∃ id, FindsRound x id ∧ s.next suite x = resolved hash id)) ∨
      (∃ hash id block, s = resolved hash id ∧
        ((∃ row, x = ⟨.db (.recordFoundBlock block), .ok row⟩ ∧
            s.next suite x = recorded hash id true) ∨
          ∃ e, x = ⟨.db (.recordFoundBlock block), .error e⟩ ∧
            s.next suite x = recorded hash id false)) ∨
      ∃ hash id stored id' endTemplateId status r,
        s = recorded hash id stored ∧
        x = ⟨.db (.closeRound id' endTemplateId status), r⟩ ∧
        s.next suite x = closed hash id stored := by
  unfold Stage.next
  split
  · exact Or.inr (Or.inl ⟨rfl, _, rfl⟩)
  · exact Or.inr (Or.inr (Or.inl ⟨_, rfl,
      Or.inr ⟨_, Or.inl ⟨_, _, rfl, rfl⟩, rfl⟩⟩))
  · exact Or.inr (Or.inr (Or.inl ⟨_, rfl, Or.inl rfl⟩))
  · exact Or.inr (Or.inr (Or.inl ⟨_, rfl,
      Or.inr ⟨_, Or.inr ⟨_, _, _, rfl, rfl⟩, rfl⟩⟩))
  · exact Or.inr (Or.inr (Or.inl ⟨_, rfl, Or.inl rfl⟩))
  · exact Or.inr (Or.inr (Or.inr (Or.inl ⟨_, _, _, rfl,
      Or.inl ⟨_, rfl, rfl⟩⟩)))
  · exact Or.inr (Or.inr (Or.inr (Or.inl ⟨_, _, _, rfl,
      Or.inr ⟨_, rfl, rfl⟩⟩)))
  · exact Or.inr (Or.inr (Or.inr (Or.inr ⟨_, _, _, _, _, _, _, rfl, rfl, rfl⟩)))
  · exact Or.inl rfl

/-- The operations that a session performs at a stage. -/
def Allows (s : Stage) : Op → Prop
  | .submitBlock _ => s = early
  | .db (.matchingRound _) | .db (.getOrCreateCurrentRound _) =>
    s = early ∨ ∃ hash, s = accepted hash
  | .db (.recordFoundBlock block) => s = resolved block.blockHash block.roundId
  | .db (.closeRound roundId _ status) =>
    status = .found ∧ ∃ hash stored, s = recorded hash roundId stored
  | .respond .. | .closeSession _ => s.settled = true
  | _ => True

end Stage

variable (suite : Suite)

/-- The stage of a request. -/
def stage (done : Done) : Stage :=
  done.foldr (fun x s => s.next suite x) .early

@[simp] theorem stage_nil : stage suite [] = .early := rfl

@[simp] theorem stage_cons (x : (o : Op) × o.Res) (done : Done) :
    stage suite (x :: done) = (stage suite done).next suite x := rfl

/-- The operations that a session performs after `done`. -/
def SessionStep (done : Done) (o : Op) : Prop := (stage suite done).Allows o

/-- The stage of what session `i` is doing. -/
def sessionStage (i : Nat) (log : List PoolEntry) : Stage :=
  stage suite (current (.session i) log).2

theorem sessionStage_did (i : Nat) (o : Op) (r : o.Res)
    (log : List PoolEntry) :
    sessionStage suite i (.did (.session i) o r :: log) =
      (sessionStage suite i log).next suite ⟨o, r⟩ := by
  rw [sessionStage, current_did]
  rfl

theorem sessionStage_did_of_ne {i : Nat} {t : Task}
    (h : Task.session i ≠ t) (o : Op) (r : o.Res) (log : List PoolEntry) :
    sessionStage suite i (.did t o r :: log) = sessionStage suite i log := by
  rw [sessionStage, current_did_of_ne h]
  rfl

/-- New work of a session starts at the first stage. -/
theorem sessionStage_began (i : Nat) (t : Task) (k : Work)
    (log : List PoolEntry) :
    sessionStage suite i (.began t k :: log) = sessionStage suite i log ∨
      t = .session i ∧ sessionStage suite i (.began t k :: log) = .early := by
  unfold sessionStage
  by_cases ht : Task.session i = t
  · subst ht
    exact Or.inr ⟨rfl, by simp⟩
  · exact Or.inl (by rw [current_began_of_ne ht])

/-! ## The bodies of a session -/

variable {suite}

/-- The operations that leave every stage as it is. -/
def Op.offStage : Op → Bool
  | .submitBlock _ | .db (.matchingRound _) | .db (.getOrCreateCurrentRound _)
  | .db (.recordFoundBlock _) | .db (.closeRound ..) | .respond ..
  | .closeSession _ => false
  | _ => true

theorem Stage.next_offStage {o : Op} (ho : o.offStage = true) (s : Stage)
    (r : o.Res) : s.next suite ⟨o, r⟩ = s := by
  cases o with
  | db d => cases d <;> first | (cases s <;> rfl) | cases ho
  | _ => first | (cases s <;> rfl) | cases ho

theorem Stage.allows_offStage {o : Op} (ho : o.offStage = true) (s : Stage) :
    s.Allows o := by
  cases o with
  | db d => cases d <;> trivial
  | _ => trivial

/-- A lookup of a round before the node has accepted a block. -/
theorem Stage.next_early {o : Op} (ho : ∀ blockHex, o ≠ .submitBlock blockHex)
    (r : o.Res) : Stage.early.next suite ⟨o, r⟩ = .early := by
  cases o with
  | submitBlock blockHex => exact absurd rfl (ho blockHex)
  | db d => cases d <;> rfl
  | _ => rfl

section Bodies

variable {α : Type}

theorem keeps_offStage (P : Stage → Prop) {o : Op} (ho : o.offStage = true) :
    Prog.Keeps (SessionStep suite) (fun done => P (stage suite done))
      (Prog.perform o) := by
  refine Prog.keeps_perform fun done h => ⟨Stage.allows_offStage ho _, ?_⟩
  intro r
  rw [stage_cons, Stage.next_offStage ho]
  exact h

/-- The rule for an operation before the node has accepted a block. -/
theorem keeps_early {o : Op} (ho : Stage.early.Allows o)
    (hsubmit : ∀ blockHex, o ≠ .submitBlock blockHex) :
    Prog.Keeps (SessionStep suite) (fun done => stage suite done = .early)
      (Prog.perform o) := by
  refine Prog.keeps_perform fun done h => ?_
  unfold SessionStep
  rw [h]
  refine ⟨ho, fun r => ?_⟩
  rw [stage_cons, h, Stage.next_early hsubmit]

namespace AccountingService

theorem resolveRoundForTemplate_early (templateId : Nat) :
    Prog.Keeps (SessionStep suite) (fun done => stage suite done = .early)
      (resolveRoundForTemplate templateId).run := by
  refine Prog.Keeps.exceptBind ?_ fun r => ?_
  · refine Prog.Keeps.exceptBind (keeps_early (Or.inl rfl) fun _ => nofun)
      fun r => ?_
    cases r with
    | some round => exact Prog.keeps_pure _
    | none => exact keeps_early (Or.inl rfl) fun _ => nofun
  · refine Prog.Keeps.exceptBind (keeps_runIf_fallible (keeps_liftM
      (keeps_dropResult (keeps_early trivial fun _ => nofun)))) fun _ => ?_
    exact Prog.keeps_pure _

theorem recordShare_early (a : ShareRecord) :
    Prog.Keeps (SessionStep suite) (fun done => stage suite done = .early)
      (recordShare a).run := by
  refine Prog.Keeps.exceptBind (keeps_early trivial fun _ => nofun)
    fun worker => ?_
  refine Prog.Keeps.exceptBind (resolveRoundForTemplate_early _) fun round => ?_
  refine Prog.Keeps.exceptBind (keeps_early trivial fun _ => nofun) fun r => ?_
  refine Prog.Keeps.exceptBind (keeps_runIf_fallible (keeps_discard
    (keeps_early trivial fun _ => nofun))) fun _ => ?_
  exact Prog.keeps_pure _

/-- The lookup of the round for an accepted block. -/
theorem resolveRoundForTemplate_accepted {templateId : Nat} {hash : String}
    {done : Done} (h : stage suite done = .accepted hash) :
    (resolveRoundForTemplate templateId).run.Paths (SessionStep suite)
      (fun r done => match r with
        | .ok round => stage suite done = .resolved hash round.id
        | .error _ => stage suite done = .unresolved) done := by
  have hallows : ∀ {o : Op}, (Stage.accepted hash).Allows o →
      SessionStep suite done o := by
    intro o ho
    unfold SessionStep
    rw [h]
    exact ho
  -- The round is known after the first section or after the second.
  have hfind : (findRound templateId).run.Paths (SessionStep suite)
      (fun r done => match r with
        | .ok (round, _) => stage suite done = .resolved hash round.id
        | .error _ => stage suite done = .unresolved) done := by
    refine Prog.paths_exceptBind ⟨hallows (Or.inr ⟨hash, rfl⟩), fun r => ?_⟩
    match r with
    | .error e =>
      change (stage suite done).next suite _ = _
      rw [h]
      rfl
    | .ok (some round) =>
      change (stage suite done).next suite _ = _
      rw [h]
      rfl
    | .ok none =>
      have hstill : stage suite
          (⟨.db (.matchingRound templateId), .ok none⟩ :: done) =
            .accepted hash := by
        rw [stage_cons, h]
        rfl
      refine ⟨?_, fun r => ?_⟩
      · unfold SessionStep
        rw [hstill]
        exact Or.inr ⟨hash, rfl⟩
      · cases r with
        | error e =>
          change Stage.next suite (stage suite (_ :: done)) _ = _
          rw [hstill]
          rfl
        | ok result =>
          change Stage.next suite (stage suite (_ :: done)) _ = _
          rw [hstill]
          rfl
  refine Prog.paths_exceptBind (Prog.paths_mono ?_ hfind)
  intro r done hr
  cases r with
  | error e => exact hr
  | ok result =>
    refine Prog.paths_exceptBind (Prog.paths_mono ?_ (paths_runIf_liftM
      (keeps_dropResult (keeps_offStage (· = .resolved hash result.1.id) rfl))
      hr))
    rintro _ done ⟨rfl, hdone⟩
    exact hdone

/-- Recording an accepted block. -/
theorem recordFoundBlock_resolved (block : FoundBlock) {done : Done}
    (h : stage suite done = .resolved block.blockHash block.roundId) :
    (recordFoundBlock block).run.Paths (SessionStep suite)
      (fun _ done => ∃ stored, stage suite done =
        .recorded block.blockHash block.roundId stored) done := by
  refine Prog.paths_exceptBind (Prog.paths_perform h fun r => ?_)
  cases r with
  | error e =>
    refine ⟨false, ?_⟩
    rw [stage_cons, h]
    rfl
  | ok row =>
    have hstored : stage suite
        (⟨.db (.recordFoundBlock block), .ok row⟩ :: done) =
          .recorded block.blockHash block.roundId true := by
      rw [stage_cons, h]
      rfl
    dsimp only
    refine Prog.paths_mono (fun _ done hdone => ⟨true, hdone⟩)
      (Prog.Keeps.exceptBind (keeps_liftM (keeps_dropResult (keeps_offStage
        (· = .recorded block.blockHash block.roundId true) rfl)))
        (fun _ => Prog.keeps_pure _) _ hstored)

/-- Closing the round of an accepted block. -/
theorem closeRound_recorded {roundId templateId : Nat} {hash : String}
    {stored : Bool} {done : Done}
    (h : stage suite done = .recorded hash roundId stored) :
    (closeRound roundId templateId .found).run.Paths (SessionStep suite)
      (fun _ done => (stage suite done).settled = true) done := by
  have hclosed : ∀ r, (stage suite (⟨.db (.closeRound roundId templateId
      .found), r⟩ :: done)).settled = true := by
    intro r
    rw [stage_cons, h]
    rfl
  refine Prog.paths_exceptBind ⟨?_, fun r => ?_⟩
  · unfold SessionStep
    rw [h]
    exact ⟨rfl, hash, stored, rfl⟩
  · cases r with
    | error e => exact hclosed _
    | ok u =>
      exact keeps_liftM (keeps_dropResult
        (keeps_offStage (·.settled = true) rfl)) _ (hclosed _)

end AccountingService

theorem paths_dropResult {p : Fallible α} {E : Unit → Done → Prop}
    {done : Done} (h : p.run.Paths (SessionStep suite) (fun _ => E ()) done) :
    (dropResult p).Paths (SessionStep suite) E done :=
  Prog.paths_bind h

theorem recordAcceptedBlock_staged {job : MiningJob} {templateId : Nat}
    {hash : String} {done : Done} (h : stage suite done = .accepted hash) :
    (recordAcceptedBlock job templateId hash).Paths (SessionStep suite)
      (fun _ done => (stage suite done).settled = true) done := by
  refine Prog.paths_bind (Prog.paths_mono ?_
    (AccountingService.resolveRoundForTemplate_accepted h))
  intro r done hr
  cases r with
  | error e =>
    change (stage suite done).settled = true
    rw [hr]
    rfl
  | ok round =>
    -- The round is closed even when the block could not be recorded.
    refine Prog.paths_bind (paths_dropResult (Prog.paths_mono ?_
      (AccountingService.recordFoundBlock_resolved
        (acceptedBlock job round.id hash) hr)))
    rintro _ done ⟨stored, hstored⟩
    exact paths_dropResult (AccountingService.closeRound_recorded hstored)

theorem submitCandidate_staged {job : MiningJob} {templateId : Nat}
    {blockHex dedupeKey : String} {done : Done}
    (h : stage suite done = .early) :
    (submitCandidate job templateId blockHex (suite.submittedHash blockHex)
        dedupeKey).Paths (SessionStep suite)
      (fun _ done => (stage suite done).settled = true) done := by
  refine Prog.paths_bind ⟨h, fun r => ?_⟩
  have hearly : ∀ r : Op.Res (.submitBlock blockHex), r ≠ .ok none →
      (stage suite (⟨.submitBlock blockHex, r⟩ :: done)).settled = true := by
    intro r hr
    rw [stage_cons, h]
    match r with
    | .ok none => exact absurd rfl hr
    | .ok (some _) => rfl
    | .error _ => rfl
  match r with
  | .error e => exact hearly _ nofun
  | .ok (some reason) =>
    exact keeps_dropResult (keeps_offStage (·.settled = true) rfl) _
      (hearly _ nofun)
  | .ok none =>
    refine Prog.paths_bind (Prog.paths_mono ?_ (recordAcceptedBlock_staged ?_))
    · exact fun _ done hdone => keeps_dropResult
        (keeps_offStage (·.settled = true) rfl) _ hdone
    · rw [stage_cons, h]
      rfl

theorem respond_staged {o : Op} (ho : (∃ i st resp, o = .respond i st resp) ∨
    ∃ i, o = .closeSession i) :
    Prog.Keeps (SessionStep suite)
      (fun done => (stage suite done).settled = true) (Prog.perform o) := by
  refine Prog.keeps_perform fun done h => ?_
  rcases ho with ⟨i, st, resp, rfl⟩ | ⟨i, rfl⟩
  · refine ⟨h, fun r => ?_⟩
    rw [stage_cons]
    cases hs : stage suite done <;> rw [hs] at h <;> exact h
  · refine ⟨h, fun r => ?_⟩
    rw [stage_cons]
    cases hs : stage suite done <;> rw [hs] at h <;> exact h

theorem answerSubmit_staged (i : Nat) (session : SessionState)
    (j : Judgement) : Prog.Keeps (SessionStep suite)
      (fun done => (stage suite done).settled = true)
      (answerSubmit i session j) := by
  unfold answerSubmit
  split
  · refine Prog.Keeps.bind (keeps_offStage (·.settled = true) rfl) fun now => ?_
    split
    · exact respond_staged (Or.inl ⟨_, _, _, rfl⟩)
    · exact respond_staged (Or.inr ⟨_, rfl⟩)
  · exact respond_staged (Or.inl ⟨_, _, _, rfl⟩)

theorem finishSubmit_staged {i : Nat} {session : SessionState}
    {p : SubmitParams} {cachedJob : Option MiningJob} {j : Judgement}
    {dedupeKey : String} {done : Done} (h : stage suite done = .early) :
    (finishSubmit suite i session p cachedJob j dedupeKey).Paths
      (SessionStep suite) (fun _ done => (stage suite done).settled = true)
      done := by
  have hsettled : (stage suite done).settled = true := by
    rw [h]
    rfl
  unfold finishSubmit
  split
  · split
    · exact answerSubmit_staged i session j done hsettled
    · split
      · rename_i blockHex builtHash hbuilt
        obtain ⟨rfl, _⟩ := buildSubmitBlock_block suite hbuilt
        refine Prog.paths_bind (Prog.paths_mono ?_ (submitCandidate_staged h))
        exact fun _ done hdone => answerSubmit_staged i session j done hdone
      · exact answerSubmit_staged i session j done hsettled
      · exact respond_staged (Or.inr ⟨_, rfl⟩) done hsettled
  · exact answerSubmit_staged i session j done hsettled

theorem handleSubmit_staged (i : Nat) (session : SessionState)
    (p : SubmitParams) :
    (handleSubmit suite i session p).Paths (SessionStep suite)
      (fun _ done => (stage suite done).settled = true) [] := by
  unfold handleSubmit
  split
  · exact respond_staged (Or.inl ⟨_, _, _, rfl⟩) [] rfl
  · refine Prog.paths_bind ⟨trivial, fun cachedJob => ?_⟩
    have hpersist : Prog.Keeps (SessionStep suite)
        (fun done => stage suite done = .early)
        (persistShare suite session p (judge suite session p cachedJob)) := by
      unfold persistShare
      split
      · exact Prog.keeps_pure _
      · refine Prog.Keeps.bind (AccountingService.recordShare_early _)
          fun r => ?_
        cases r <;> exact Prog.keeps_pure _
    refine Prog.paths_bind (Prog.paths_mono ?_ (hpersist _ rfl))
    exact fun key done hdone => finishSubmit_staged hdone

end Bodies

/-! ## All runs -/

variable (suite)

/-- A session goes on through the stages. -/
def StagedOp (t : Task) (now : Option Work × Done) (o : Op) : Prop :=
  t.isSession = true → SessionStep suite now.2 o

/-- A session does not stop in the middle of the stages. -/
def StagedEnd (t : Task) (now : Option Work × Done) : Prop :=
  t.isSession = true → (stage suite now.2).settled = true

variable {suite} {data : ChainData} {config : ServerConfig}

/-- Only the sessions have to be looked at. -/
theorem follows_session {t : Task} {now : Option Work × Done} {p : Body Unit}
    (h : t.isSession = true → p.Paths (SessionStep suite)
      (fun _ done => (stage suite done).settled = true) now.2) :
    Follows (StagedOp suite) (StagedEnd suite) t now p :=
  follows_guard (fun _ now => SessionStep suite now.2)
    (fun _ now => (stage suite now.2).settled = true) h

/-- In every run, the sessions go through the stages. -/
theorem turns_staged {ok : PoolWorld → PoolEntry → Prop} :
    (pool suite data config).Turns ok
      (Follow (StagedOp suite) (StagedEnd suite)) := by
  refine Machine.turns_follow (fun t => follows_session fun ht => ?_) ?_
  · cases t with
    | session i => exact (rfl : Stage.settled .early = true)
    | _ => cases ht
  · intro t k s p s' hstart
    refine follows_session fun ht => ?_
    cases hstart with
    | submit => exact handleSubmit_staged _ _ _
    | connect | subscribe | authorize | newJob | disconnect =>
      exact (rfl : Stage.settled .early = true)
    | _ => cases ht

end StratumServer
