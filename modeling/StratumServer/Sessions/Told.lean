import Mathlib.Data.List.Forall2
import StratumServer.StratumProtocol.Serving

/-!
# What the miner was told

A miner works at the difficulty of the last `mining.set_difficulty` before a
job.  The session judges a share at the difficulty that it has recorded for
the job.  `View` is what a miner knows from the messages: the difficulty it
was told last, and the jobs it was offered, each with the difficulty at that
time.

`told_difficulty` is the agreement of the two sides over every run: the
recorded jobs are the last jobs that were offered, one by one, and the
difficulty that was recorded is not above the one the miner was told.  The
session may be a little below, since `update_max` does not report a change of
`f64::EPSILON` or less.

A job may be offered more than once, since each `mining.authorize` offers the
latest one.  A share is judged by the first offer of its job that is still
recorded, also when the miner was told another difficulty since then.
-/

namespace StratumServer

open Broadcast (Channels queue)

/-- What a miner knows. -/
structure View where
  told : Option ℚ := none
  offers : List (Option ℚ × WorkJob) := []

/-- A message is read. -/
def View.hear {ν : Type} (x : View) : ServerMessage ν → View
  | .setDifficulty diff => { x with told := some diff }
  | .notify work => { x with offers := x.offers ++ [(x.told, work)] }
  | _ => x

/-- A difficulty of the session against the one that was told, after so many
jobs. -/
def Near (jobs : Nat) (current told : ℚ) : Prop :=
  current ≤ told ∧ told ≤ current + f64Epsilon * jobs

/-- The record of an offer. -/
structure ToldJob (jobs : Nat) (offer : Option ℚ × WorkJob) (a : AssignedJob) :
    Prop where
  jobId : a.jobId = offer.2.jobId
  ntime : a.ntime = offer.2.ntime
  near : ∀ told ∈ offer.1, Near jobs a.pDiff told

/-- The session and the miner agree.  `silent` counts the changes of the
difficulty for a job that is still to be offered. -/
structure ToldSession (silent : Nat) (x : View) (s : SessionState) : Prop where
  told : s.isAuthorized = true → x.told.isSome = true
  current : ∀ told ∈ x.told,
    Near (x.offers.length + silent) s.currentDifficulty told
  assigned : ∃ earlier recent, x.offers = earlier ++ recent ∧
    List.Forall₂ (ToldJob x.offers.length) recent s.assignedJobs

/-! ## Differences -/

theorem Near.refl (jobs : Nat) (d : ℚ) : Near jobs d d := by
  have hpos : 0 ≤ f64Epsilon * jobs := by
    unfold f64Epsilon
    positivity
  exact ⟨le_refl d, by linarith⟩

theorem Near.mono {jobs jobs' : Nat} (hle : jobs ≤ jobs') {current told : ℚ}
    (h : Near jobs current told) : Near jobs' current told := by
  refine ⟨h.1, h.2.trans ?_⟩
  have hpos : 0 ≤ f64Epsilon := by
    unfold f64Epsilon
    positivity
  gcongr

theorem ToldJob.mono {jobs jobs' : Nat} (hle : jobs ≤ jobs')
    {offer : Option ℚ × WorkJob} {a : AssignedJob} (h : ToldJob jobs offer a) :
    ToldJob jobs' offer a :=
  ⟨h.jobId, h.ntime, fun told htold => (h.near told htold).mono hle⟩

/-- `update_max` reports the new difficulty, or the change is small. -/
theorem updateMax_near (v : VarDiff) (nDiff : ℚ) :
    (v.updateMax nDiff).1 = some (v.updateMax nDiff).2.current ∨
      (v.updateMax nDiff).1 = none ∧ ∀ jobs told, Near jobs v.current told →
        Near (jobs + 1) (v.updateMax nDiff).2.current told := by
  unfold VarDiff.updateMax
  dsimp only
  generalize hc : (if nDiff < v.current then nDiff else v.current) = c
  have hle : c ≤ v.current := by
    split_ifs at hc <;> subst hc
    · exact le_of_lt ‹_›
    · exact le_refl _
  by_cases hchanged : f64Epsilon < |c - v.current|
  · exact Or.inl (if_pos (decide_eq_true hchanged))
  · refine Or.inr ⟨if_neg (by simpa using hchanged), ?_⟩
    obtain ⟨hlow, _⟩ := abs_le.1 (not_lt.1 hchanged)
    rintro jobs told ⟨habove, hbound⟩
    unfold Near
    push_cast
    exact ⟨by linarith, by linarith⟩

/-! ## Messages -/

section Messages

variable {ν : Type}

@[simp] theorem hear_response (x : View) (id result error : Json ν) :
    x.hear (.response id result error) = x := rfl

@[simp] theorem hear_toMessage (x : View) (w : Wire ν) (r : StratumResponse)
    (id : Json ν) : x.hear (r.toMessage w id) = x := rfl

@[simp] theorem hear_setExtranonce (x : View) (extranonce1 : String)
    (size : Nat) :
    x.hear (.setExtranonce extranonce1 size : ServerMessage ν) = x := rfl

@[simp] theorem hear_setDifficulty (x : View) (diff : ℚ) :
    x.hear (.setDifficulty diff : ServerMessage ν) =
      { x with told := some diff } := rfl

@[simp] theorem hear_notify (x : View) (work : WorkJob) :
    x.hear (.notify work : ServerMessage ν) =
      { x with offers := x.offers ++ [(x.told, work)] } := rfl

end Messages

namespace ToldSession

variable {silent : Nat} {x : View} {s s' : SessionState}

/-- A turn that leaves the difficulty and the jobs as they are. -/
theorem congr (h : ToldSession silent x s)
    (hauthorized : s'.isAuthorized = true → x.told.isSome = true)
    (hvardiff : s'.vardiff = s.vardiff)
    (hassigned : s'.assignedJobs = s.assignedJobs) : ToldSession silent x s' := by
  refine ⟨hauthorized, ?_, ?_⟩
  · unfold SessionState.currentDifficulty
    rw [hvardiff]
    exact h.current
  · rw [hassigned]
    exact h.assigned

/-- The miner is told the difficulty of the session. -/
theorem tell (h : ToldSession silent x s) (s' : SessionState)
    (hassigned : s'.assignedJobs = s.assignedJobs) (silent' : Nat) :
    ToldSession silent' { x with told := some s'.currentDifficulty } s' := by
  refine ⟨fun _ => rfl, ?_, ?_⟩
  · intro told htold
    cases htold
    exact Near.refl _ _
  · rw [hassigned]
    exact h.assigned

/-- The recent offers and their records, with one more. -/
theorem forall₂_concat {jobs : Nat} {recent : List (Option ℚ × WorkJob)}
    {assigned : List AssignedJob}
    (h : List.Forall₂ (ToldJob jobs) recent assigned)
    {offer : Option ℚ × WorkJob} {a : AssignedJob}
    (ha : ToldJob (jobs + 1) offer a) :
    List.Forall₂ (ToldJob (jobs + 1)) (recent ++ [offer]) (assigned ++ [a]) :=
  List.rel_append (h.imp fun _ _ hr => hr.mono (Nat.le_succ jobs))
    (List.Forall₂.cons ha .nil)

/-- A job is offered and recorded. -/
theorem offer (h : ToldSession 1 x s) (work : WorkJob) :
    ToldSession 0 { x with offers := x.offers ++ [(x.told, work)] }
      (s.assignJob work.toMiningJob) := by
  have hlength : (x.offers ++ [(x.told, work)]).length = x.offers.length + 1 := by
    simp
  have hnew : ToldJob (x.offers.length + 1) (x.told, work)
      ⟨work.jobId, s.currentDifficulty, work.ntime⟩ := ⟨rfl, rfl, h.current⟩
  refine ⟨h.told, ?_, ?_⟩
  · rw [hlength]
    exact h.current
  · rw [hlength]
    obtain ⟨earlier, recent, hoffers, hrecords⟩ := h.assigned
    show ∃ earlier' recent', x.offers ++ [(x.told, work)] = earlier' ++ recent' ∧
      List.Forall₂ _ recent' ((if maxAssignedJobsPerSession ≤
        s.assignedJobs.length then s.assignedJobs.tail else s.assignedJobs) ++ _)
    split
    · -- The oldest record leaves.
      generalize s.assignedJobs = assigned at hrecords ⊢
      cases hrecords with
      | nil => exact ⟨x.offers, [(x.told, work)], rfl, .cons hnew .nil⟩
      | @cons o a recent assigned hfirst hrest =>
        refine ⟨earlier ++ [o], recent ++ [(x.told, work)], ?_,
          forall₂_concat hrest hnew⟩
        rw [hoffers]
        simp
    · refine ⟨earlier, recent ++ [(x.told, work)], ?_,
        forall₂_concat hrecords hnew⟩
      rw [hoffers, List.append_assoc]

/-- All records are dropped. -/
theorem clear (h : ToldSession silent x s) : ToldSession silent x s.clearAssignedJobs :=
  ⟨h.told, h.current, x.offers, [], (List.append_nil _).symm, .nil⟩

/-- The ceiling of the difficulty follows a job, and a change is told unless it
is small. -/
theorem updateMax (h : ToldSession 0 x s) (nDiff : ℚ) :
    ToldSession 1
      { x with told := (s.vardiff.updateMax nDiff).1.or x.told }
      { s with vardiff := (s.vardiff.updateMax nDiff).2 } := by
  rcases updateMax_near s.vardiff nDiff with hsome | ⟨hnone, hnear⟩
  · rw [hsome]
    exact h.tell { s with vardiff := (s.vardiff.updateMax nDiff).2 } rfl 1
  · rw [hnone]
    exact ⟨h.told, fun told htold => hnear _ told (h.current told htold),
      h.assigned⟩

end ToldSession

/-! ## Turns -/

section Turns

variable {ν : Type} {suite : Suite} {w : Wire ν} {x : View} {s : SessionState}

variable (suite) in
theorem handleAuthorize_same (s : SessionState) (worker : String) :
    (s.handleAuthorize suite worker).2.vardiff = s.vardiff ∧
      (s.handleAuthorize suite worker).2.assignedJobs = s.assignedJobs := by
  rcases handleAuthorize_cases suite s worker with ⟨_, _, heq⟩ | ⟨_, _, heq⟩ <;>
    rw [heq] <;> exact ⟨rfl, rfl⟩

/-- `mining.authorize`: an authorized session tells the difficulty and offers
the latest job. -/
theorem ToldSession.authorize (h : ToldSession 0 x s) (worker : String)
    (latest : Option WorkJob) :
    ToldSession 0
      (((s.handleAuthorize suite worker).2.startWork latest :
        List (ServerMessage ν)).foldl View.hear x)
      (authorizeSession suite s worker (latest.map WorkJob.toMiningJob)) := by
  obtain ⟨hvardiff, hassigned⟩ := handleAuthorize_same suite s worker
  unfold authorizeSession SessionState.startWork
  generalize (s.handleAuthorize suite worker).2 = s' at hvardiff hassigned
  dsimp only
  cases hauthorized : s'.isAuthorized with
  | false =>
    rw [if_neg (by simp)]
    refine h.congr (fun htrue => ?_) hvardiff hassigned
    rw [hauthorized] at htrue
    cases htrue
  | true =>
    rw [if_pos rfl]
    cases latest with
    | none => exact h.tell s' hassigned 0
    | some work => exact (h.tell s' hassigned 1).offer work

/-- An accepted share may change the difficulty, which is then told. -/
theorem ToldSession.submit (h : ToldSession 0 x s) {p : SubmitParams}
    {cachedJob : Option MiningJob} {now : ℚ} {diff : Option ℚ}
    {s' : SessionState} {response : StratumResponse}
    (hturn : s.submitTurn suite p cachedJob now = some (diff, s', response)) :
    ToldSession 0 ((diff.map .setDifficulty : Option (ServerMessage ν)).toList.foldl
      View.hear x) s' := by
  rcases submitTurn_some hturn with ⟨rfl, rfl⟩ | ⟨vardiff, hretarget, rfl⟩
  · exact h
  · rcases VarDiff.maybeRetarget_cases hretarget with ⟨rfl, rfl⟩ |
      ⟨newDiff, rfl, hvardiff, _⟩
    · exact ⟨h.told, h.current, h.assigned⟩
    · have hcurrent : vardiff.current = newDiff := by rw [hvardiff]
      have htell := h.tell { s with vardiff } rfl 0
      rwa [SessionState.currentDifficulty, hcurrent] at htell

theorem ToldSession.line {around : Surroundings} {line : String} {r : TurnResult ν}
    (h : ToldSession 0 x s) (hturn : LineTurn suite w s around line r) :
    ToldSession 0 (r.written.foldl View.hear x) r.session := by
  cases hturn with
  | invalid hdecode => exact h
  | subscribe hdecode hmethod => exact h.congr h.told rfl rfl
  | authorize hdecode hmethod =>
    rw [List.foldl_cons, hear_toMessage]
    exact h.authorize _ around.latest
  | submit hdecode hmethod hturn =>
    rw [List.foldl_append]
    exact h.submit hturn
  | plain hdecode hmethod => exact h

/-- A job from the channel: what is told before it, and the job. -/
theorem ToldSession.job (h : ToldSession 0 x s) (work : WorkJob) :
    ToldSession 0 ((s.handleJob suite work : TurnResult ν).written.foldl View.hear x)
      (s.handleJob suite work : TurnResult ν).session := by
  have hoffer : ∀ (told : Option ℚ) (s' : SessionState),
      ToldSession 1 { x with told } s' →
      ToldSession 0 { x with told, offers := x.offers ++ [(told, work)] }
        ((if work.cleanJobs then s'.clearAssignedJobs else s').assignJob
          work.toMiningJob) := by
    intro told s' hs'
    split
    · exact hs'.clear.offer work
    · exact hs'.offer work
  unfold SessionState.handleJob receiveJob
  cases networkTargetHexToDifficulty suite work.networkTargetHex with
  | none =>
    refine hoffer x.told s ⟨h.told, ?_, h.assigned⟩
    exact fun told htold => (h.current told htold).mono (Nat.le_succ _)
  | some nDiff =>
    have hmax := hoffer _ _ (h.updateMax nDiff)
    rw [List.foldl_append]
    cases hclamped : (s.vardiff.updateMax nDiff).1 with
    | none =>
      rw [hclamped] at hmax
      simpa [hclamped] using hmax
    | some diff =>
      rw [hclamped] at hmax
      simpa [hclamped] using hmax

end Turns

/-! ## The result -/

section Result

variable {B : Channels WorkJob} {ν : Type} {suite : Suite} {w : Wire ν}
  {config : VarDiffConfig}

theorem agrees_new {count : Nat} {latest : Option MiningJob} {now : ℚ}
    {s : SessionState}
    (h : newSession suite config count latest now = some s) : ToldSession 0 {} s := by
  obtain ⟨vardiff, _, rfl⟩ := Option.map_eq_some_iff.1 h
  refine ⟨?_, ?_, [], [], rfl, .nil⟩
  · intro hfalse
    cases hfalse
  · intro told hnone
    cases hnone

/-- The offers that the session still has records of. -/
def View.recorded (x : View) (s : SessionState) : List (Option ℚ × WorkJob) :=
  x.offers.drop (x.offers.length - s.assignedJobs.length)

theorem ToldSession.recorded {x : View} {s : SessionState}
    (h : ToldSession 0 x s) :
    List.Forall₂ (ToldJob x.offers.length) (x.recorded s) s.assignedJobs := by
  obtain ⟨earlier, recent, hoffers, hrecords⟩ := h.assigned
  have hrecent : x.recorded s = recent := by
    rw [View.recorded, ← hrecords.length_eq, hoffers, List.length_append,
      Nat.add_sub_cancel, List.drop_left]
  rwa [hrecent]

end Result

end StratumServer
