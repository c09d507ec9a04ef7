import StratumServer.Sessions.Ceiling
import Mathlib.Tactic.Linarith
import Mathlib.Tactic.NormNum
import Mathlib.Algebra.Order.Field.Basic

/-!
# The control of the pool difficulty

Sequences of calls of `VarDiff`.  A controller writes down each call with
what it has reported, newest first.  What the comments of the source call the
last retarget, the last network difficulty and the shares of the window are
functions of that log.

`controlled` says that the difficulty stays between the floor and the network
difficulty, and that it moves gradually and in the direction of the shares.
It needs network difficulties that are not below the floor.  `calm_iff` says
that otherwise, and for retarget times that are too long for a `Duration`,
the controller panics.
-/

namespace StratumServer

open Calls

namespace VarDiff

/-! ## Calls -/

/-- The calls of a session.  A network difficulty comes without a time. -/
inductive Call
  | recordShare (now : ℚ)
  | updateMax (nDiff : ℚ)
  | maybeRetarget (now : ℚ)
  deriving DecidableEq

/-- When the call is made. -/
def Call.time : Call → Option ℚ
  | .recordShare now | .maybeRetarget now => some now
  | .updateMax _ => none

/-- What a call reports and leaves; nothing stands for a panic. -/
def call (v : VarDiff) : Call → Option (Option ℚ × VarDiff)
  | .recordShare now => some (none, v.recordShare now)
  | .updateMax nDiff => some (v.updateMax nDiff)
  | .maybeRetarget now => v.maybeRetarget now

/-- A call that has returned. -/
structure Entry where
  call : Call
  before : VarDiff
  reported : Option ℚ
  after : VarDiff
  deriving DecidableEq

/-- A controller, and what it has done.  It is gone after a panic. -/
structure Controller where
  vardiff : Option VarDiff
  log : List Entry

/-- One call. -/
def Controller.step (c : Controller) (a : Call) : Controller :=
  match c.vardiff with
  | none => c
  | some v =>
    match v.call a with
    | none => { c with vardiff := none }
    | some (reported, v') => ⟨some v', ⟨a, v, reported, v'⟩ :: c.log⟩

/-! ## What the log says -/

/-- The time of the last retarget, or of the creation. -/
def lastRetargetOf (created : ℚ) : List Entry → ℚ
  | [] => created
  | e :: earlier =>
    match e.call, e.reported with
    | .maybeRetarget now, some _ => now
    | _, _ => lastRetargetOf created earlier

/-- The number of shares since then. -/
def sharesSince : List Entry → Nat
  | [] => 0
  | e :: earlier =>
    match e.call, e.reported with
    | .recordShare _, _ => sharesSince earlier + 1
    | .maybeRetarget _, some _ => 0
    | _, _ => sharesSince earlier

/-- The last network difficulty. -/
def lastNDiff (nDiff : ℚ) : List Entry → ℚ
  | [] => nDiff
  | e :: earlier =>
    match e.call with
    | .updateMax n => n
    | _ => lastNDiff nDiff earlier

section Control

variable (config : VarDiffConfig) (nDiff created : ℚ)

/-- A retarget at `now` that has reported `d`: it reports the new difficulty,
which is near the old one and on the side of the shares, and it is not too
early. -/
structure Gradual (earlier : List Entry) (e : Entry) (now d : ℚ) : Prop where
  reports : e.after.current = d
  changes : d ≠ e.before.current
  lower : 67 / 100 * e.before.current ≤ d
  upper : d ≤ 3 / 2 * e.before.current
  up : e.before.current < d →
    (now - lastRetargetOf created earlier) / config.targetSecs <
      sharesSince earlier
  down : d < e.before.current →
    (sharesSince earlier : ℚ) <
      (now - lastRetargetOf created earlier) / config.targetSecs
  spaced : lastRetargetOf created earlier + config.retargetSecs ≤ now

/-- What holds of every call. -/
structure Controlled (earlier : List Entry) (e : Entry) : Prop where
  floor : config.minFloor ≤ e.after.current
  ceiling : e.after.current ≤ lastNDiff nDiff (e :: earlier)
  gradual : ∀ now d, e.call = .maybeRetarget now → e.reported = some d →
    Gradual config created earlier e now d

/-- The fields of a controller agree with its log.  No time that it has seen
is after `clock`. -/
structure Agrees (clock : ℚ) (log : List Entry) (v : VarDiff) : Prop where
  settings : v.config = config
  floor : config.minFloor ≤ v.current
  ceiling : v.current ≤ v.max
  max : v.max = lastNDiff nDiff log
  lastRetarget : v.lastRetarget = lastRetargetOf created log
  shares : v.shareTimestamps.length = sharesSince log
  since : ∀ t ∈ v.shareTimestamps, v.lastRetarget ≤ t
  clock : v.lastRetarget ≤ clock

end Control

section Steps

variable {config : VarDiffConfig} {nDiff created clock : ℚ} {log : List Entry}
  {v v' : VarDiff}

theorem agrees_new (created : ℚ) (hn : config.minFloor ≤ nDiff) :
    ∃ v, new config nDiff created = some v ∧
      Agrees config nDiff created created [] v := by
  obtain ⟨initial, hinitial⟩ := Option.isSome_iff_exists.1
    ((clamp?_isSome (x := config.initialPct * nDiff)).2 hn)
  refine ⟨_, Option.map_eq_some_iff.2 ⟨initial, hinitial, rfl⟩, ?_⟩
  obtain ⟨_, hcases⟩ := clamp?_cases hinitial
  have hfloor : config.minFloor ≤ initial := by
    rcases hcases with ⟨_, rfl⟩ | ⟨_, rfl⟩ | ⟨hle, _, rfl⟩
    · exact le_refl _
    · exact hn
    · exact hle
  exact ⟨rfl, hfloor, clamp?_le hinitial, rfl, rfl, rfl, fun _ => nofun,
    le_refl _⟩

/-- All the shares that were recorded count. -/
theorem Agrees.shareCount_eq (h : Agrees config nDiff created clock log v) :
    v.shareCount = sharesSince log := by
  unfold shareCount
  rw [List.filter_eq_self.2 fun t ht => decide_eq_true (h.since t ht),
    h.shares]

theorem Agrees.recordShare (h : Agrees config nDiff created clock log v)
    {now : ℚ} (hnow : clock ≤ now) :
    Agrees config nDiff created now
      (⟨.recordShare now, v, none, v.recordShare now⟩ :: log)
      (v.recordShare now) where
  settings := h.settings
  floor := h.floor
  ceiling := h.ceiling
  max := h.max
  lastRetarget := h.lastRetarget
  shares := by
    unfold VarDiff.recordShare
    rw [List.length_append, h.shares]
    rfl
  since := by
    intro t ht
    rcases List.mem_append.1 ht with hold | hnew
    · exact h.since t hold
    · rw [List.mem_singleton.1 hnew]
      exact h.clock.trans hnow
  clock := h.clock.trans hnow

theorem Agrees.updateMax (h : Agrees config nDiff created clock log v) {n : ℚ}
    (hn : config.minFloor ≤ n) :
    Agrees config nDiff created clock
      (⟨.updateMax n, v, (v.updateMax n).1, (v.updateMax n).2⟩ :: log)
      (v.updateMax n).2 where
  settings := h.settings
  floor := by
    unfold VarDiff.updateMax
    dsimp only
    split
    · exact hn
    · exact h.floor
  ceiling := capped_updateMax v n
  max := rfl
  lastRetarget := h.lastRetarget
  shares := h.shares
  since := h.since
  clock := h.clock

/-- A retarget that changes nothing. -/
theorem Agrees.skip (h : Agrees config nDiff created clock log v) {now : ℚ}
    (hnow : clock ≤ now) :
    Agrees config nDiff created now (⟨.maybeRetarget now, v, none, v⟩ :: log)
      v :=
  ⟨h.settings, h.floor, h.ceiling, h.max, h.lastRetarget, h.shares, h.since,
    h.clock.trans hnow⟩

/-- The clamp does not move the difficulty back over where it was. -/
theorem scaled_bounds (hpos : 0 < v.current) (hfloor : config.minFloor ≤ v.current)
    (hceiling : v.current ≤ v.max) {now newDiff : ℚ}
    (hclamp : clamp? (v.scaled now) config.minFloor v.max = some newDiff) :
    67 / 100 * v.current ≤ newDiff ∧ newDiff ≤ 3 / 2 * v.current ∧
      (v.current < newDiff → 1 < v.ratio now) ∧
      (newDiff < v.current → v.ratio now < 1) := by
  obtain ⟨_, hcases⟩ := clamp?_cases hclamp
  unfold scaled at hcases
  by_cases hfast : 1 < v.ratio now
  · rw [if_pos hfast] at hcases
    have hge : v.current ≤ v.current * min (v.ratio now) (3 / 2) :=
      le_mul_of_one_le_right hpos.le (le_min hfast.le (by norm_num))
    have hle : v.current * min (v.ratio now) (3 / 2) ≤ 3 / 2 * v.current := by
      rw [mul_comm (3 / 2)]
      exact mul_le_mul_of_nonneg_left (min_le_right _ _) hpos.le
    have hnew : v.current ≤ newDiff ∧ newDiff ≤ 3 / 2 * v.current := by
      rcases hcases with ⟨hlow, rfl⟩ | ⟨hhigh, rfl⟩ | ⟨_, _, rfl⟩
      · exact absurd (hfloor.trans hge) (not_le.2 hlow)
      · exact ⟨hceiling, hhigh.le.trans hle⟩
      · exact ⟨hge, hle⟩
    refine ⟨by linarith [hnew.1], hnew.2, fun _ => hfast, fun hlt => ?_⟩
    exact absurd hnew.1 (not_le.2 hlt)
  · rw [if_neg hfast] at hcases
    have hle : v.current * Max.max (v.ratio now) (67 / 100) ≤ v.current :=
      mul_le_of_le_one_right hpos.le (max_le (not_lt.1 hfast) (by norm_num))
    have hge : 67 / 100 * v.current ≤
        v.current * Max.max (v.ratio now) (67 / 100) := by
      rw [mul_comm (67 / 100)]
      exact mul_le_mul_of_nonneg_left (le_max_right _ _) hpos.le
    have hnew : newDiff ≤ v.current ∧ 67 / 100 * v.current ≤ newDiff := by
      rcases hcases with ⟨hlow, rfl⟩ | ⟨hhigh, rfl⟩ | ⟨_, _, rfl⟩
      · exact ⟨hfloor, hge.trans hlow.le⟩
      · exact absurd (hle.trans hceiling) (not_le.2 hhigh)
      · exact ⟨hle, hge⟩
    refine ⟨hnew.2, by linarith [hnew.1], fun hlt => ?_, fun hlt => ?_⟩
    · exact absurd hnew.1 (not_le.2 hlt)
    · -- At a ratio of one the difficulty would stay.
      refine lt_of_le_of_ne (not_lt.1 hfast) fun hone => ?_
      have hsame : v.current * Max.max (v.ratio now) (67 / 100) = v.current := by
        rw [hone, max_eq_left (by norm_num), mul_one]
      rw [hsame] at hcases
      rcases hcases with ⟨hlow, _⟩ | ⟨hhigh, _⟩ | ⟨_, _, rfl⟩
      · exact absurd hfloor (not_le.2 hlow)
      · exact absurd hceiling (not_le.2 hhigh)
      · exact lt_irrefl _ hlt

/-- A retarget that reports a new difficulty. -/
theorem Agrees.retarget (h : Agrees config nDiff created clock log v)
    (hfloor : 0 < config.minFloor) (htarget : 0 < config.targetSecs)
    (hsecs : 0 < config.retargetSecs) {now newDiff : ℚ} (hnow : clock ≤ now)
    (hv' : v' = { v with current := newDiff, lastRetarget := now,
                         shareTimestamps := [] })
    (hwindow : v.config.retargetSecs ≤ v.window now)
    (hclamp : clamp? (v.scaled now) v.config.minFloor v.max = some newDiff)
    (hchange : f64Epsilon ≤ |newDiff - v.current|) :
    Agrees config nDiff created now
        (⟨.maybeRetarget now, v, some newDiff, v'⟩ :: log) v' ∧
      Gradual config created log ⟨.maybeRetarget now, v, some newDiff, v'⟩ now
        newDiff := by
  rw [h.settings] at hwindow hclamp
  have hpos : 0 < v.current := hfloor.trans_le h.floor
  have hlapse : v.window now = now - lastRetargetOf created log := by
    unfold window
    rw [h.lastRetarget]
    refine max_eq_right (sub_nonneg.2 ?_)
    rw [← h.lastRetarget]
    exact h.clock.trans hnow
  have hratio : v.ratio now = sharesSince log /
      ((now - lastRetargetOf created log) / config.targetSecs) := by
    unfold ratio
    rw [h.shareCount_eq, hlapse, h.settings]
  have hexpected : 0 < (now - lastRetargetOf created log) / config.targetSecs := by
    rw [hlapse] at hwindow
    exact div_pos (hsecs.trans_le hwindow) htarget
  obtain ⟨hlower, hupper, hup, hdown⟩ :=
    scaled_bounds hpos h.floor h.ceiling hclamp
  obtain ⟨hbounds, hcases⟩ := clamp?_cases hclamp
  have hnew : config.minFloor ≤ newDiff := by
    rcases hcases with ⟨_, rfl⟩ | ⟨_, rfl⟩ | ⟨hle, _, rfl⟩
    · exact le_refl _
    · exact hbounds
    · exact hle
  subst hv'
  constructor
  · exact ⟨h.settings, hnew, clamp?_le hclamp, h.max, rfl, rfl,
      fun _ => nofun, le_refl _⟩
  · refine ⟨rfl, ?_, hlower, hupper, fun hlt => ?_, fun hlt => ?_, ?_⟩
    · intro heq
      dsimp only at heq
      rw [heq, sub_self, abs_zero] at hchange
      exact absurd hchange (by unfold f64Epsilon; norm_num)
    · have hfast := hup hlt
      rwa [hratio, one_lt_div hexpected] at hfast
    · have hslow := hdown hlt
      rwa [hratio, div_lt_one hexpected] at hslow
    · rw [hlapse] at hwindow
      linarith

/-- One call keeps the controller in agreement with its log, and it does what
it should. -/
theorem Agrees.call (h : Agrees config nDiff created clock log v)
    (hfloor : 0 < config.minFloor) (htarget : 0 < config.targetSecs)
    (hsecs : 0 < config.retargetSecs) {a : Call} {reported : Option ℚ}
    (hn : ∀ n, a = .updateMax n → config.minFloor ≤ n)
    (htime : ∀ t ∈ a.time, clock ≤ t) (hcall : v.call a = some (reported, v')) :
    Agrees config nDiff created (a.time.getD clock) (⟨a, v, reported, v'⟩ :: log)
        v' ∧ Controlled config nDiff created log ⟨a, v, reported, v'⟩ := by
  -- The bounds of the new difficulty are part of the agreement.
  suffices hkeeps : Agrees config nDiff created (a.time.getD clock)
      (⟨a, v, reported, v'⟩ :: log) v' ∧ ∀ now d, a = .maybeRetarget now →
        reported = some d →
          Gradual config created log ⟨a, v, reported, v'⟩ now d by
    refine ⟨hkeeps.1, hkeeps.1.floor, ?_, hkeeps.2⟩
    rw [← hkeeps.1.max]
    exact hkeeps.1.ceiling
  cases a with
  | recordShare now =>
    cases hcall
    exact ⟨h.recordShare (htime now rfl), nofun⟩
  | updateMax n =>
    cases hcall
    exact ⟨h.updateMax (hn n rfl), nofun⟩
  | maybeRetarget now =>
    have hnow : clock ≤ now := htime now rfl
    rcases maybeRetarget_cases hcall with ⟨rfl, rfl⟩ |
      ⟨newDiff, rfl, hv', hwindow, _, hclamp, hchange⟩
    · exact ⟨h.skip hnow, nofun⟩
    · obtain ⟨hagrees, hgradual⟩ :=
        h.retarget hfloor htarget hsecs hnow hv' hwindow hclamp hchange
      refine ⟨hagrees, fun now' d hnow' hd => ?_⟩
      cases hnow'
      cases hd
      exact hgradual

/-- A controller whose network difficulties are not below the floor panics
only for a time that is too long. -/
theorem Agrees.isSome (h : Agrees config nDiff created clock log v)
    (hsecs : 0 < config.retargetSecs) (hshort : config.retargetSecs < 2 ^ 64)
    (a : Call) : (v.call a).isSome := by
  cases a with
  | recordShare | updateMax => rfl
  | maybeRetarget now =>
    refine maybeRetarget_isSome now ?_ ?_
    · rw [h.settings]
      exact ⟨hsecs.le, hshort⟩
    · rw [h.settings]
      exact h.floor.trans h.ceiling

end Steps

/-! ## Sequences of calls -/

section Runs

variable {config : VarDiffConfig} {nDiff created : ℚ}

/-- What is known at a time about a controller and its log. -/
structure Tracked (config : VarDiffConfig) (nDiff created clock : ℚ)
    (c : Controller) : Prop where
  agrees : ∀ v, c.vardiff = some v →
    Agrees config nDiff created clock c.log v
  each : Each (Controlled config nDiff created) c.log

/-- One call.  The clock moves to the time of the call, if it has one. -/
theorem Tracked.step (hfloor : 0 < config.minFloor)
    (htarget : 0 < config.targetSecs) (hsecs : 0 < config.retargetSecs)
    {a : Call} {clock : ℚ} {c : Controller}
    (h : Tracked config nDiff created clock c)
    (hn : ∀ n, a = .updateMax n → config.minFloor ≤ n)
    (hclock : ∀ t ∈ a.time, clock ≤ t) :
    Tracked config nDiff created (a.time.getD clock) (c.step a) ∧
      (config.retargetSecs < 2 ^ 64 → c.vardiff.isSome →
        (c.step a).vardiff.isSome ∧
          (c.step a).log.length = c.log.length + 1) := by
  unfold Controller.step
  split
  · rename_i hv
    refine ⟨⟨fun v hv' => ?_, h.each⟩, fun _ hsome => ?_⟩
    · cases hv'.symm.trans hv
    · rw [hv] at hsome
      cases hsome
  · rename_i v hv
    split
    · rename_i hcall
      refine ⟨⟨nofun, h.each⟩, fun hshort _ => ?_⟩
      have hsome := (h.agrees v hv).isSome hsecs hshort a
      rw [hcall] at hsome
      cases hsome
    · rename_i reported v' hcall
      obtain ⟨hkeeps, hcontrolled⟩ :=
        (h.agrees v hv).call hfloor htarget hsecs hn hclock hcall
      refine ⟨⟨fun v'' hv'' => ?_, hcontrolled, h.each⟩, fun _ _ => ⟨rfl, rfl⟩⟩
      cases hv''
      exact hkeeps

/-- The times of a run go on from the time of its first call. -/
theorem times_cons {a : Call} {calls : List Call} {clock : ℚ}
    (htimes : (clock :: (a :: calls).filterMap Call.time).Pairwise (· ≤ ·)) :
    (∀ t ∈ a.time, clock ≤ t) ∧
      (a.time.getD clock :: calls.filterMap Call.time).Pairwise (· ≤ ·) := by
  rw [List.filterMap_cons] at htimes
  cases htime : a.time with
  | none =>
    rw [htime] at htimes
    exact ⟨nofun, htimes⟩
  | some t =>
    rw [htime] at htimes
    obtain ⟨hclock, htail⟩ := List.pairwise_cons.1 htimes
    refine ⟨fun t' ht' => ?_, htail⟩
    cases ht'
    exact hclock t List.mem_cons_self

/-- The rest of a run: the clock and the log go on from what there is. -/
theorem Tracked.run (hfloor : 0 < config.minFloor)
    (htarget : 0 < config.targetSecs) (hsecs : 0 < config.retargetSecs)
    {calls : List Call} {clock : ℚ} {c : Controller}
    (h : Tracked config nDiff created clock c)
    (hn : ∀ n, .updateMax n ∈ calls → config.minFloor ≤ n)
    (htimes : (clock :: calls.filterMap Call.time).Pairwise (· ≤ ·)) :
    Each (Controlled config nDiff created)
        (calls.foldl Controller.step c).log ∧
      (config.retargetSecs < 2 ^ 64 → c.vardiff.isSome →
        (calls.foldl Controller.step c).log.length =
          calls.length + c.log.length) := by
  induction calls generalizing clock c with
  | nil => exact ⟨h.each, fun _ _ => (Nat.zero_add _).symm⟩
  | cons a calls ih =>
    rw [List.foldl_cons]
    obtain ⟨hclock, htail⟩ := times_cons htimes
    obtain ⟨hnext, hlogs⟩ := h.step hfloor htarget hsecs
      (fun n ha => hn n (ha ▸ List.mem_cons_self)) hclock
    obtain ⟨heach, hlength⟩ := ih hnext
      (fun n hmem => hn n (List.mem_cons_of_mem _ hmem)) htail
    refine ⟨heach, fun hshort hsome => ?_⟩
    obtain ⟨hsome', hlog⟩ := hlogs hshort hsome
    rw [hlength hshort hsome', hlog, List.length_cons]
    omega

/-- With network difficulties that are not below the floor and with times that
do not go back, every call is controlled, and none panics as long as the
retarget time fits into a `Duration`. -/
theorem controlled (hfloor : 0 < config.minFloor)
    (htarget : 0 < config.targetSecs) (hsecs : 0 < config.retargetSecs)
    {calls : List Call} (hnDiff : config.minFloor ≤ nDiff)
    (hn : ∀ n, .updateMax n ∈ calls → config.minFloor ≤ n)
    (htimes : (created :: calls.filterMap Call.time).Pairwise (· ≤ ·)) :
    ∃ v, new config nDiff created = some v ∧
      config.minFloor ≤ v.current ∧ v.current ≤ nDiff ∧
      Each (Controlled config nDiff created)
        (calls.foldl Controller.step ⟨some v, []⟩).log ∧
      (config.retargetSecs < 2 ^ 64 →
        (calls.foldl Controller.step ⟨some v, []⟩).log.length =
          calls.length) := by
  obtain ⟨v, hnew, hagrees⟩ := agrees_new created hnDiff
  have htracked : Tracked config nDiff created created ⟨some v, []⟩ :=
    ⟨fun v' hv' => by cases hv'; exact hagrees, trivial⟩
  obtain ⟨heach, hlength⟩ := htracked.run hfloor htarget hsecs hn htimes
  refine ⟨v, hnew, hagrees.floor, ?_, heach, fun hshort => hlength hshort rfl⟩
  exact hagrees.ceiling.trans (le_of_eq hagrees.max)

end Runs

/-- Six shares in one minute, a lower network difficulty, and one share in the
next minute. -/
def sampleCalls : List Call :=
  [.recordShare 10, .recordShare 20, .recordShare 30, .recordShare 40,
    .recordShare 50, .recordShare 60, .maybeRetarget 60, .updateMax (1 / 40),
    .recordShare 130, .maybeRetarget 130]

/-- The difficulty goes up by the largest factor, is capped, and goes down by
the smallest one. -/
theorem controlled_sample : ∃ v, new {} 1 0 = some v ∧
    (sampleCalls.foldl Controller.step ⟨some v, []⟩).log.filterMap
      (·.reported) = [67 / 4000, 1 / 40, 3 / 100] ∧
    Each (Controlled {} 1 0)
      (sampleCalls.foldl Controller.step ⟨some v, []⟩).log := by
  have hn : ∀ n, .updateMax n ∈ sampleCalls →
      ({} : VarDiffConfig).minFloor ≤ n := by
    intro n hn
    have heq : n = 1 / 40 := by simpa [sampleCalls] using hn
    rw [heq]
    decide +kernel
  obtain ⟨v, hnew, _, _, heach, _⟩ := @controlled {} 1 0 (by decide +kernel)
    (by decide +kernel) (by decide +kernel) sampleCalls (by decide +kernel) hn
    (by decide +kernel)
  refine ⟨v, hnew, ?_, heach⟩
  have hrun : (new {} 1 0).map (fun v =>
      (sampleCalls.foldl Controller.step ⟨some v, []⟩).log.filterMap
        (·.reported)) = some [67 / 4000, 1 / 40, 3 / 100] := by
    decide +kernel
  rw [hnew] at hrun
  exact Option.some.inj hrun

end VarDiff

/-! ## Panics -/

section Panics

variable (suite : Suite)

/-- The network difficulty that the accept loop takes from a job. -/
def MiningJob.nDiff (job : MiningJob) : ℚ :=
  (networkTargetHexToDifficulty suite job.networkTargetHex).getD 1

/-- The next turn does not panic. -/
def TurnCalm (c : Connection) (i : Input) : Prop :=
  ∀ s ∈ c.session, ∀ now, i = .retarget now → (s.retarget now).isSome

/-- Nothing panics while `jobs` are delivered: not the accept loop, whichever
of them is the latest job, and none of the connections. -/
structure Calm (config : VarDiffConfig) (jobs : List MiningJob) : Prop where
  accept : ∀ job ∈ jobs, ∀ count now,
    (newSession suite config count (some job) now).isSome
  session : ∀ job ∈ jobs, ∀ count now s,
    newSession suite config count (some job) now = some s →
    ∀ jobCache broadcast, (∀ j ∈ broadcast, j ∈ jobs) →
    ∀ inputs, (∀ j, .send j ∈ inputs → j ∈ jobs) →
      Meets (Connection.step suite) TurnCalm
        ⟨some s, jobCache, broadcast, []⟩ inputs

variable {suite} {config : VarDiffConfig} {jobs : List MiningJob}

/-- A new session has the network difficulty of the job as its ceiling. -/
theorem newSession_some {count : Nat} {job : MiningJob} {now : ℚ}
    {s : SessionState}
    (h : newSession suite config count (some job) now = some s) :
    s.vardiff.config = config ∧ s.vardiff.max = job.nDiff suite := by
  obtain ⟨vardiff, hvardiff, rfl⟩ := Option.map_eq_some_iff.1 h
  obtain ⟨initial, _, rfl⟩ := Option.map_eq_some_iff.1 hvardiff
  exact ⟨rfl, rfl⟩

theorem newSession_isSome {count : Nat} {job : MiningJob} {now : ℚ} :
    (newSession suite config count (some job) now).isSome ↔
      config.minFloor ≤ job.nDiff suite := by
  unfold newSession VarDiff.new
  rw [Option.isSome_map, Option.isSome_map]
  exact clamp?_isSome

theorem retarget_some {s s' : SessionState} {now : ℚ}
    (h : s.retarget now = some s') :
    s'.vardiff.config = s.vardiff.config ∧ s'.vardiff.max = s.vardiff.max := by
  obtain ⟨⟨reported, vardiff⟩, hcall, rfl⟩ := Option.map_eq_some_iff.1 h
  rcases VarDiff.maybeRetarget_cases hcall with ⟨_, rfl⟩ | ⟨_, _, rfl, _⟩
  · exact ⟨rfl, rfl⟩
  · exact ⟨rfl, rfl⟩

/-- A turn leaves the ceiling where it was, or moves it to the network
difficulty of a job that was sent. -/
theorem vardiff_turn {c : Connection} {s s'' : SessionState} {i : Input}
    {s' : Option SessionState} {entries : List SessionEntry}
    (h : Connection.Turn suite c s i s' entries) (hs'' : s'' ∈ s') :
    s''.vardiff.config = s.vardiff.config ∧
      (s''.vardiff.max = s.vardiff.max ∨
        ∃ job ∈ c.broadcast, s''.vardiff.max = job.nDiff suite) := by
  cases h with
  | subscribe | submit =>
    cases hs''
    exact ⟨rfl, Or.inl rfl⟩
  | authorize worker =>
    cases hs''
    have hvardiff : (s.handleAuthorize suite worker).2.vardiff = s.vardiff :=
      handleAuthorize_vardiff s worker
    rcases authorize_cases suite s worker c.jobCache.getLatest with
      ⟨heq, _⟩ | ⟨job, _, _, heq, _⟩
    · rw [heq, hvardiff]
      exact ⟨rfl, Or.inl rfl⟩
    · rw [heq]
      change (s.handleAuthorize suite worker).2.vardiff.config = _ ∧
        ((s.handleAuthorize suite worker).2.vardiff.max = _ ∨ _)
      rw [hvardiff]
      exact ⟨rfl, Or.inl rfl⟩
  | receive hjob =>
    rename_i job
    cases hs''
    unfold receiveJob
    cases hn : networkTargetHexToDifficulty suite job.networkTargetHex with
    | none =>
      dsimp only
      split
      · exact ⟨rfl, Or.inl rfl⟩
      · exact ⟨rfl, Or.inl rfl⟩
    | some n =>
      have hmax : n = job.nDiff suite := by
        unfold MiningJob.nDiff
        rw [hn]
        rfl
      dsimp only
      split
      · exact ⟨rfl, Or.inr ⟨job, hjob, hmax⟩⟩
      · exact ⟨rfl, Or.inr ⟨job, hjob, hmax⟩⟩
  | retarget now =>
    obtain ⟨hconfig, hmax⟩ := retarget_some hs''
    exact ⟨hconfig, Or.inl hmax⟩
  | disconnect => cases hs''

/-- Only `send` adds to what the sessions may receive. -/
theorem mem_broadcast_step {c : Connection} {i : Input} {job : MiningJob}
    (h : job ∈ (c.step suite i).broadcast) :
    job ∈ c.broadcast ∨ i = .send job := by
  cases i with
  | insert => exact Or.inl h
  | send job' =>
    rcases List.mem_cons.1 h with rfl | hold
    · exact Or.inr rfl
    · exact Or.inl hold
  | subscribe | authorize | submit | receive | retarget | disconnect =>
    refine Or.inl ?_
    unfold Connection.step at h
    cases hs : c.session with
    | none =>
      rw [hs] at h
      exact h
    | some s =>
      rw [hs] at h
      unfold Connection.stepSession at h
      dsimp only at h
      first
      | exact h
      | (split at h <;> exact h)

/-- The ceiling of every session is one of the network difficulties. -/
theorem meets_turnCalm (hfloor : ∀ job ∈ jobs, config.minFloor ≤ job.nDiff suite)
    (hsecs : 0 ≤ config.retargetSecs ∧ config.retargetSecs < 2 ^ 64)
    {c : Connection} (hbroadcast : ∀ j ∈ c.broadcast, j ∈ jobs)
    (hsession : ∀ s ∈ c.session, s.vardiff.config = config ∧
      config.minFloor ≤ s.vardiff.max)
    {inputs : List Input} (hsend : ∀ j, .send j ∈ inputs → j ∈ jobs) :
    Meets (Connection.step suite) TurnCalm c inputs := by
  induction inputs generalizing c with
  | nil => trivial
  | cons i inputs ih =>
    refine ⟨fun s hs now _ => ?_, ih (fun j hj => ?_) (fun s' hs' => ?_)
      fun j hj => hsend j (List.mem_cons_of_mem _ hj)⟩
    · obtain ⟨hconfig, hmax⟩ := hsession s hs
      unfold SessionState.retarget
      rw [Option.isSome_map]
      refine VarDiff.maybeRetarget_isSome now ?_ ?_
      · rw [← hconfig] at hsecs
        exact hsecs
      · rw [← hconfig] at hmax
        exact hmax
    · rcases mem_broadcast_step hj with hold | rfl
      · exact hbroadcast j hold
      · exact hsend j List.mem_cons_self
    · rcases Connection.step_cases suite c i with ⟨hsame, _⟩ |
        ⟨s, s₁, entries, hs, hturn, hnext, _⟩
      · rw [hsame] at hs'
        exact hsession s' hs'
      · rw [hnext] at hs'
        obtain ⟨hconfig, hmax⟩ := hsession s hs
        obtain ⟨hconfig', hmax'⟩ := vardiff_turn hturn hs'
        refine ⟨hconfig'.trans hconfig, ?_⟩
        rcases hmax' with heq | ⟨job, hjob, heq⟩
        · rw [heq]
          exact hmax
        · rw [heq]
          exact hfloor job (hbroadcast job hjob)

/-- Nothing panics just when no network difficulty is below the floor and the
retarget time fits into a `Duration`. -/
theorem calm_iff (suite : Suite) (config : VarDiffConfig)
    (jobs : List MiningJob) :
    Calm suite config jobs ↔
      ∀ job ∈ jobs, config.minFloor ≤ job.nDiff suite ∧
        0 ≤ config.retargetSecs ∧ config.retargetSecs < 2 ^ 64 := by
  constructor
  · intro h job hjob
    have hnew := h.accept job hjob 0 0
    refine ⟨newSession_isSome.1 hnew, ?_⟩
    obtain ⟨s, hs⟩ := Option.isSome_iff_exists.1 hnew
    have hcalm := (h.session job hjob 0 0 s hs ⟨0, [], []⟩ [] (fun _ => nofun)
      [.retarget 0] (fun j hj => by simp at hj)).1 s rfl 0 rfl
    by_contra hsecs
    have hduration : durationFromSecs? config.retargetSecs = none := by
      unfold durationFromSecs?
      refine if_pos ?_
      rw [not_and_or, not_le, not_lt] at hsecs
      exact hsecs
    unfold SessionState.retarget VarDiff.maybeRetarget VarDiff.recordShare at hcalm
    dsimp only at hcalm
    rw [(newSession_some hs).1, hduration] at hcalm
    cases hcalm
  · intro h
    refine ⟨fun job hjob count now => newSession_isSome.2 (h job hjob).1, ?_⟩
    intro job hjob count now s hs jobCache broadcast hbroadcast inputs hsend
    refine meets_turnCalm (fun j hj => (h j hj).1) (h job hjob).2 hbroadcast
      (fun s' hs' => ?_) hsend
    cases hs'
    obtain ⟨hconfig, hmax⟩ := newSession_some hs
    exact ⟨hconfig, hmax ▸ (h job hjob).1⟩

end Panics

/-- Sample libraries with the usual unit of difficulty. -/
def unitSuite : Suite :=
  { sampleSuite with
    targetToDifficulty := fun target =>
      if ofBigEndian target.1 = 0 then none
      else some (65535 * 2 ^ 208 / (ofBigEndian target.1 : ℚ)) }

/-- The target of difficulty one. -/
def unitTarget : String :=
  String.ofList (List.replicate 8 '0' ++ List.replicate 4 'f' ++
    List.replicate 52 '0')

/-- With the default settings, a template of a low difficulty ends the accept
loop.  A session that was there before panics at its next retarget. -/
theorem calm_fails :
    newSession unitSuite {} 1 (some easyJob) 0 = none ∧
    (newSession unitSuite {} 1 (some (sampleJob 7 1 unitTarget)) 0).map
        (fun s => ((receiveJob unitSuite s easyJob).retarget 61).isSome) =
      some false ∧
    ¬ Calm unitSuite {} [sampleJob 7 1 unitTarget, easyJob] := by
  have hnone : newSession unitSuite {} 1 (some easyJob) 0 = none := by
    decide +kernel
  refine ⟨hnone, by decide +kernel, fun h => ?_⟩
  have hsome := h.accept easyJob (by simp) 1 0
  rw [hnone] at hsome
  cases hsome

end StratumServer
