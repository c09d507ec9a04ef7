import Mathlib.Data.Rat.Defs
import Mathlib.Algebra.Order.Ring.Rat

/-!
# The difficulty of a session

`VarDiff` of `share_processing/difficulty.rs`, over the rationals: `f64`
values and times in seconds.  `f64::clamp` panics when its lower bound is
above its upper bound, and `Duration::from_secs_f64` when the number of
seconds is negative or too large, so the methods that use them give nothing
in these cases.
-/

namespace StratumServer

/-- `VarDiffConfig`. -/
structure VarDiffConfig where
  minFloor : ℚ := 1 / 1000
  initialPct : ℚ := 2 / 100
  targetSecs : ℚ := 20
  retargetSecs : ℚ := 60
  variancePercent : ℚ := 30 / 100
  deriving DecidableEq, Repr

/-- `VarDiff`: the pool difficulty of one connection. -/
structure VarDiff where
  config : VarDiffConfig
  current : ℚ
  max : ℚ
  lastRetarget : ℚ
  shareTimestamps : List ℚ
  deriving DecidableEq, Repr

/-- `f64::clamp`; nothing stands for the panic. -/
def clamp? (x lo hi : ℚ) : Option ℚ :=
  if hi < lo then none
  else if x < lo then some lo
  else if hi < x then some hi
  else some x

theorem clamp?_le {x lo hi y : ℚ} (h : clamp? x lo hi = some y) : y ≤ hi := by
  unfold clamp? at h
  split_ifs at h with hbounds hlow hhigh
  · cases h
    exact not_lt.1 hbounds
  · cases h
    exact le_refl _
  · cases h
    exact not_lt.1 hhigh

/-- A number between the bounds stays as it is. -/
theorem clamp?_cases {x lo hi y : ℚ} (h : clamp? x lo hi = some y) :
    lo ≤ hi ∧ (x < lo ∧ y = lo ∨ hi < x ∧ y = hi ∨
      lo ≤ x ∧ x ≤ hi ∧ y = x) := by
  unfold clamp? at h
  split_ifs at h with hbounds hlow hhigh
  · cases h
    exact ⟨not_lt.1 hbounds, Or.inl ⟨hlow, rfl⟩⟩
  · cases h
    exact ⟨not_lt.1 hbounds, Or.inr (Or.inl ⟨hhigh, rfl⟩)⟩
  · cases h
    exact ⟨not_lt.1 hbounds, Or.inr (Or.inr ⟨not_lt.1 hlow, not_lt.1 hhigh, rfl⟩)⟩

/-- The clamp panics just when the bounds are in the wrong order. -/
theorem clamp?_isSome {x lo hi : ℚ} : (clamp? x lo hi).isSome ↔ lo ≤ hi := by
  unfold clamp?
  split_ifs with hbounds <;> simp_all

/-- `Duration::from_secs_f64`, as seconds; nothing stands for the panic. -/
def durationFromSecs? (secs : ℚ) : Option ℚ :=
  if secs < 0 ∨ 2 ^ 64 ≤ secs then none else some secs

/-- `f64::EPSILON`. -/
def f64Epsilon : ℚ := 1 / 2 ^ 52

namespace VarDiff

/-- `VarDiff::new`. -/
def new (config : VarDiffConfig) (nDiff now : ℚ) : Option VarDiff :=
  (clamp? (config.initialPct * nDiff) config.minFloor nDiff).map fun initial =>
    { config, current := initial, max := nDiff, lastRetarget := now,
      shareTimestamps := [] }

/-- `VarDiff::record_share`. -/
def recordShare (v : VarDiff) (now : ℚ) : VarDiff :=
  { v with shareTimestamps := v.shareTimestamps ++ [now] }

/-- `VarDiff::update_max`: the new ceiling, and the difficulty when the
ceiling has pushed it down. -/
def updateMax (v : VarDiff) (newNDiff : ℚ) : Option ℚ × VarDiff :=
  let current := if newNDiff < v.current then newNDiff else v.current
  let changed := decide (f64Epsilon < |current - v.current|)
  (if changed then some current else none,
    { v with max := newNDiff, current := current })

/-- The time since the last retarget.  `Instant::duration_since` is zero for
an earlier time. -/
def window (v : VarDiff) (now : ℚ) : ℚ := Max.max 0 (now - v.lastRetarget)

/-- The shares since the last retarget. -/
def shareCount (v : VarDiff) : ℚ :=
  ((v.shareTimestamps.filter fun t => decide (v.lastRetarget ≤ t)).length : ℚ)

/-- The shares since the last retarget by those that were expected. -/
def ratio (v : VarDiff) (now : ℚ) : ℚ :=
  v.shareCount / (v.window now / v.config.targetSecs)

/-- The difficulty before the clamp. -/
def scaled (v : VarDiff) (now : ℚ) : ℚ :=
  if 1 < v.ratio now then v.current * min (v.ratio now) (3 / 2)
  else v.current * Max.max (v.ratio now) (67 / 100)

/-- `VarDiff::maybe_retarget`. -/
def maybeRetarget (v : VarDiff) (now : ℚ) : Option (Option ℚ × VarDiff) :=
  match durationFromSecs? v.config.retargetSecs with
  | none => none
  | some retarget =>
    if v.window now < retarget then some (none, v)
    else if v.shareCount < 1 then some (none, v)
    else if |v.ratio now - 1| ≤ v.config.variancePercent then some (none, v)
    else
      (clamp? (v.scaled now) v.config.minFloor v.max).map fun newDiff =>
        if |newDiff - v.current| < f64Epsilon then (none, v)
        else (some newDiff,
          { v with current := newDiff, lastRetarget := now,
                   shareTimestamps := [] })

/-- Nothing changes, or the difficulty is scaled and clamped. -/
theorem maybeRetarget_cases {v v' : VarDiff} {now : ℚ} {d : Option ℚ}
    (h : v.maybeRetarget now = some (d, v')) :
    d = none ∧ v' = v ∨ ∃ newDiff, d = some newDiff ∧
      v' = { v with current := newDiff, lastRetarget := now,
                    shareTimestamps := [] } ∧
      v.config.retargetSecs ≤ v.window now ∧ 1 ≤ v.shareCount ∧
      clamp? (v.scaled now) v.config.minFloor v.max = some newDiff ∧
      f64Epsilon ≤ |newDiff - v.current| := by
  unfold maybeRetarget at h
  split at h
  · cases h
  rename_i retarget hretarget
  have hsecs : retarget = v.config.retargetSecs := by
    unfold durationFromSecs? at hretarget
    split at hretarget
    · cases hretarget
    · exact (Option.some.inj hretarget).symm
  split at h
  · cases h
    exact Or.inl ⟨rfl, rfl⟩
  rename_i hwindow
  split at h
  · cases h
    exact Or.inl ⟨rfl, rfl⟩
  rename_i hcount
  split at h
  · cases h
    exact Or.inl ⟨rfl, rfl⟩
  obtain ⟨newDiff, hclamp, heq⟩ := Option.map_eq_some_iff.1 h
  split at heq
  · cases heq
    exact Or.inl ⟨rfl, rfl⟩
  · rename_i hchange
    cases heq
    exact Or.inr ⟨newDiff, rfl, rfl, hsecs ▸ not_lt.1 hwindow,
      not_lt.1 hcount, hclamp, not_lt.1 hchange⟩

/-- The two panics of a retarget. -/
theorem maybeRetarget_isSome {v : VarDiff} (now : ℚ)
    (hsecs : 0 ≤ v.config.retargetSecs ∧ v.config.retargetSecs < 2 ^ 64)
    (hbounds : v.config.minFloor ≤ v.max) : (v.maybeRetarget now).isSome := by
  have hduration : durationFromSecs? v.config.retargetSecs =
      some v.config.retargetSecs := by
    unfold durationFromSecs?
    rw [if_neg (not_or.2 ⟨not_lt.2 hsecs.1, not_le.2 hsecs.2⟩)]
  unfold maybeRetarget
  rw [hduration]
  dsimp only
  split
  · rfl
  split
  · rfl
  split
  · rfl
  rw [Option.isSome_map]
  exact clamp?_isSome.2 hbounds

/-- The difficulty is not above the ceiling. -/
def Capped (v : VarDiff) : Prop := v.current ≤ v.max

theorem capped_new {config : VarDiffConfig} {nDiff now : ℚ} {v : VarDiff}
    (h : new config nDiff now = some v) : v.Capped := by
  obtain ⟨initial, hclamp, rfl⟩ := Option.map_eq_some_iff.1 h
  exact clamp?_le hclamp

theorem capped_updateMax (v : VarDiff) (newNDiff : ℚ) :
    (v.updateMax newNDiff).2.Capped := by
  unfold Capped updateMax
  dsimp only
  split
  · exact le_refl _
  · rename_i hnot
    exact not_lt.1 hnot

theorem Capped.maybeRetarget {v v' : VarDiff} {now : ℚ} {d : Option ℚ}
    (h : v.Capped) (hv : v.maybeRetarget now = some (d, v')) : v'.Capped := by
  rcases maybeRetarget_cases hv with ⟨_, rfl⟩ |
    ⟨newDiff, _, rfl, _, _, hclamp, _⟩
  · exact h
  · exact clamp?_le hclamp

end VarDiff

end StratumServer
