import StratumServer.Sessions.Earned

/-!
# The ceiling of the pool difficulty

A job is recorded with the pool difficulty of the session at that moment.  It
must not be above the network difficulty of the job, since a hash that finds
a block could be rejected otherwise.

The session takes over the network difficulty of each job that it receives.
But `mining.authorize` hands out the latest job of the cache, and the
consumer puts a job there before it sends it.  `recorded_capped` is the
result for the runs in which the session is up to date then, and
`recorded_capped_fails` is a run in which it is not.
-/

namespace StratumServer

open Calls

/-- What the two library functions for difficulties promise.  The second part
says that a target is met at its own difficulty. -/
structure Suite.Weighs (suite : Suite) : Prop where
  antitone : ∀ hash d d', d ≤ d' →
    suite.headerMeetsDifficulty hash d' = some true →
    suite.headerMeetsDifficulty hash d = some true
  target : ∀ (hash target : Bytes32) n,
    suite.targetToDifficulty target = some n →
    ofBigEndian hash.1 ≤ ofBigEndian target.1 →
    suite.headerMeetsDifficulty hash n = some true

/-- The difficulty that a job is recorded with is not above its network
difficulty, and no hash that meets its target is rejected for it. -/
structure CappedFor (suite : Suite) (job : MiningJob) (a : AssignedJob) :
    Prop where
  le : ∀ n, networkTargetHexToDifficulty suite job.networkTargetHex = some n →
    a.pDiff ≤ n
  meets : ∀ n header target,
    networkTargetHexToDifficulty suite job.networkTargetHex = some n →
    bytes32? job.networkTargetHex = some target →
    ofBigEndian (suite.calcHash header).reverse.1 ≤ ofBigEndian target.1 →
    (judgeHeader suite header a.pDiff job.networkTargetHex).rejectReason ≠
      some .lowDifficultyShare

/-- The second part follows from the first. -/
theorem CappedFor.of_le {suite : Suite} (hsuite : suite.Weighs)
    {job : MiningJob} {a : AssignedJob}
    (h : ∀ n, networkTargetHexToDifficulty suite job.networkTargetHex =
      some n → a.pDiff ≤ n) : CappedFor suite job a := by
  refine ⟨h, fun n header target hn htarget hle => ?_⟩
  have hdifficulty : suite.targetToDifficulty target = some n := by
    unfold networkTargetHexToDifficulty at hn
    rwa [htarget] at hn
  have hmeets := hsuite.antitone _ _ _ (h n hn)
    (hsuite.target (suite.calcHash header).reverse target n hdifficulty hle)
  unfold judgeHeader
  dsimp only
  rw [hmeets, htarget]
  exact nofun

/-- Every record is capped. -/
def OnlyCapped (suite : Suite) (_ : List SessionEntry) : SessionEntry → Prop
  | .recorded job a => CappedFor suite job a
  | _ => True

/-- When `mining.authorize` hands out a job, the ceiling of the session is not
above the network difficulty of the job. -/
def UpToDate (suite : Suite) (c : Connection) : Input → Prop
  | .authorize worker => ∀ s ∈ c.session, ∀ job ∈ c.jobCache.getLatest,
    (s.handleAuthorize suite worker).2.isAuthorized = true →
      ∀ n ∈ networkTargetHexToDifficulty suite job.networkTargetHex,
        s.vardiff.max ≤ n
  | _ => True

instance (suite : Suite) (c : Connection) :
    ∀ i, Decidable (UpToDate suite c i)
  | .authorize _ => inferInstanceAs (Decidable (∀ _ ∈ _, ∀ _ ∈ _, _ → ∀ _ ∈ _, _))
  | .insert _ | .send _ | .subscribe | .receive _ | .submit _ | .retarget _
  | .disconnect => inferInstanceAs (Decidable True)

section Result

variable {suite : Suite}

theorem handleAuthorize_vardiff (s : SessionState) (worker : String) :
    (s.handleAuthorize suite worker).2.vardiff = s.vardiff := by
  unfold SessionState.handleAuthorize
  split
  · rfl
  · split <;> rfl

/-- After a new job has come in, the difficulty is capped, also by the network
difficulty of the job. -/
theorem prepareFor_capped {s : SessionState} (h : s.vardiff.Capped)
    (job : MiningJob) :
    (s.prepareFor suite job).vardiff.Capped ∧
      ∀ n, networkTargetHexToDifficulty suite job.networkTargetHex = some n →
        (s.prepareFor suite job).currentDifficulty ≤ n := by
  unfold SessionState.prepareFor SessionState.currentDifficulty
  cases hn : networkTargetHexToDifficulty suite job.networkTargetHex with
  | none =>
    refine ⟨?_, nofun⟩
    dsimp only
    split
    · exact h
    · exact h
  | some nDiff =>
    have hcapped := s.vardiff.capped_updateMax nDiff
    dsimp only
    refine ⟨?_, fun n hn' => ?_⟩
    · split
      · exact hcapped
      · exact hcapped
    · cases hn'
      split
      · exact hcapped
      · exact hcapped

theorem onlyCapped_answer {s : SessionState} {worker : String} :
    ∀ e ∈ answerEntries suite s worker, ∀ earlier,
      OnlyCapped suite earlier e := by
  intro e he _
  unfold answerEntries at he
  split at he
  · rw [List.mem_singleton.1 he]
    trivial
  · cases he

/-- A turn keeps the cap, and what it records is capped. -/
theorem capped_turn (hsuite : suite.Weighs) {c : Connection}
    {s : SessionState} {i : Input} {s' : Option SessionState}
    {entries : List SessionEntry} (hs : c.session = some s)
    (hcapped : s.vardiff.Capped)
    (heach : Each (OnlyCapped suite) c.transcript) (hok : UpToDate suite c i)
    (hturn : Connection.Turn suite c s i s' entries) :
    Each (OnlyCapped suite) (entries ++ c.transcript) ∧
      ∀ s'' ∈ s', s''.vardiff.Capped := by
  cases hturn with
  | subscribe =>
    refine ⟨⟨trivial, heach⟩, fun _ hs' => ?_⟩
    cases hs'
    exact hcapped
  | authorize worker =>
    rcases authorize_cases suite s worker c.jobCache.getLatest with
      ⟨heq, ht⟩ | ⟨job, hlatest, hauth, heq, ht⟩
    · rw [heq, ht]
      refine ⟨heach.append onlyCapped_answer, fun _ hs' => ?_⟩
      cases hs'
      rw [handleAuthorize_vardiff]
      exact hcapped
    · rw [heq, ht, List.append_assoc]
      refine ⟨⟨.of_le hsuite fun n hn => ?_, trivial,
        heach.append onlyCapped_answer⟩, fun _ hs' => ?_⟩
      · have hmax := hok s hs job hlatest hauth n hn
        change (s.handleAuthorize suite worker).2.vardiff.current ≤ n
        rw [handleAuthorize_vardiff]
        exact le_trans hcapped hmax
      · cases hs'
        change (s.handleAuthorize suite worker).2.vardiff.Capped
        rw [handleAuthorize_vardiff]
        exact hcapped
  | @receive job hjob =>
    obtain ⟨hprepared, hle⟩ := @prepareFor_capped suite s hcapped job
    have hcleared : Each (OnlyCapped suite)
        ((if job.cleanJobs then [.cleared] else []) ++ c.transcript) := by
      split
      · exact ⟨trivial, heach⟩
      · exact heach
    unfold receiveEntries
    rw [List.append_assoc]
    refine ⟨⟨.of_le hsuite hle, trivial, hcleared⟩, fun _ hs' => ?_⟩
    cases hs'
    exact hprepared
  | submit hsubscribed =>
    refine ⟨⟨trivial, heach⟩, fun _ hs' => ?_⟩
    cases hs'
    exact hcapped
  | retarget now =>
    refine ⟨heach, fun _ hs' => ?_⟩
    obtain ⟨⟨_, v⟩, hv, rfl⟩ := Option.map_eq_some_iff.1 hs'
    exact VarDiff.Capped.maybeRetarget (v := s.vardiff.recordShare now)
      hcapped hv
  | disconnect =>
    refine ⟨heach, fun _ hs' => ?_⟩
    cases hs'

/-- In every run of a connection that meets the condition, every record is
capped. -/
theorem recorded_capped (hsuite : suite.Weighs) {config : VarDiffConfig}
    {count : Nat} {now : ℚ} {jobCache : JobCache} {broadcast : List MiningJob}
    {c : Connection}
    (haccept : Connection.accept suite config count now jobCache broadcast =
      some c) {inputs : List Input}
    (h : Meets (Connection.step suite) (UpToDate suite) c inputs) :
    Each (OnlyCapped suite)
      (inputs.foldl (Connection.step suite) c).transcript := by
  obtain ⟨s, hnew, rfl⟩ := Option.map_eq_some_iff.1 haccept
  obtain ⟨vardiff, hvardiff, rfl⟩ := Option.map_eq_some_iff.1 hnew
  refine Connection.each_of_meets suite (I := fun s _ => s.vardiff.Capped)
    (capped_turn hsuite) ?_ ?_ h
  · intro s hs
    cases hs
    exact VarDiff.capped_new hvardiff
  · trivial

end Result

theorem weighingSuite_weighs : weighingSuite.Weighs where
  antitone hash d d' hle h := by
    have hd' := of_decide_eq_true (Option.some.inj h)
    have hd : (ofBigEndian hash.1 : ℚ) * d ≤ 2 ^ 256 :=
      le_trans (mul_le_mul_of_nonneg_left hle (Nat.cast_nonneg _)) hd'
    exact congrArg some (decide_eq_true hd)
  target hash target n hn hle := by
    change (if ofBigEndian target.1 = 0 then none else _) = some n at hn
    split_ifs at hn with hzero
    cases hn
    have hpos : (0 : ℚ) < ofBigEndian target.1 := by
      exact_mod_cast Nat.pos_of_ne_zero hzero
    have hle' : (ofBigEndian hash.1 : ℚ) ≤ ofBigEndian target.1 := by
      exact_mod_cast hle
    refine congrArg some (decide_eq_true ?_)
    rw [mul_div_assoc', div_le_iff₀ hpos, mul_comm]
    exact mul_le_mul_of_nonneg_left hle' (by norm_num)

/-- A cache with a job of medium difficulty. -/
def mediumCache : JobCache :=
  JobCache.insert ⟨512, [], []⟩ (sampleJob 7 1 mediumTarget)

/-- A job of a lower difficulty. -/
def easyJob : MiningJob := sampleJob 8 2 easyTarget

/-- The miner authorizes a worker, and then the easy job is sent to it. -/
theorem recorded_capped_sample : ∃ c : Connection,
    Connection.accept weighingSuite {} 1 0 mediumCache [] = some c ∧
    Meets (Connection.step weighingSuite) (UpToDate weighingSuite) c
      [.subscribe, .authorize "lotus_a.rig", .insert easyJob, .send easyJob,
        .receive easyJob] ∧
    (recordsSince ([.subscribe, .authorize "lotus_a.rig", .insert easyJob,
      .send easyJob, .receive easyJob].foldl
        (Connection.step weighingSuite) c).transcript).length = 2 ∧
    Each (OnlyCapped weighingSuite)
      ([.subscribe, .authorize "lotus_a.rig", .insert easyJob, .send easyJob,
        .receive easyJob].foldl (Connection.step weighingSuite)
          c).transcript := by
  have hrun : (Connection.accept weighingSuite {} 1 0 mediumCache []).map
      (fun c => decide
        (Meets (Connection.step weighingSuite) (UpToDate weighingSuite) c
          [.subscribe, .authorize "lotus_a.rig", .insert easyJob,
            .send easyJob, .receive easyJob] ∧
        (recordsSince ([.subscribe, .authorize "lotus_a.rig",
          .insert easyJob, .send easyJob, .receive easyJob].foldl
            (Connection.step weighingSuite) c).transcript).length = 2)) =
      some true := by
    decide +kernel
  obtain ⟨c, hc, hend⟩ := Option.map_eq_some_iff.1 hrun
  obtain ⟨hmeets, hlength⟩ := of_decide_eq_true hend
  exact ⟨c, hc, hmeets, hlength, recorded_capped weighingSuite_weighs hc hmeets⟩

/-- The last record has a difficulty above the network difficulty of its
job. -/
def recordsAbove (suite : Suite) : List SessionEntry → Bool
  | .recorded job a :: _ =>
    (networkTargetHexToDifficulty suite job.networkTargetHex).any
      fun n => decide (n < a.pDiff)
  | _ => false

/-- The easy job is in the cache but has not come to the session when the
miner authorizes its worker. -/
theorem recorded_capped_fails : weighingSuite.Weighs ∧ ∃ c : Connection,
    Connection.accept weighingSuite {} 1 0 mediumCache [] = some c ∧
    ¬ Each (OnlyCapped weighingSuite)
      ([.subscribe, .insert easyJob, .authorize "lotus_a.rig"].foldl
        (Connection.step weighingSuite) c).transcript := by
  have hrun : (Connection.accept weighingSuite {} 1 0 mediumCache []).map
      (fun c => recordsAbove weighingSuite
        ([.subscribe, .insert easyJob, .authorize "lotus_a.rig"].foldl
          (Connection.step weighingSuite) c).transcript) = some true := by
    decide +kernel
  obtain ⟨c, hc, hend⟩ := Option.map_eq_some_iff.1 hrun
  refine ⟨weighingSuite_weighs, c, hc, fun heach => ?_⟩
  generalize List.foldl (Connection.step weighingSuite) c _ = c' at hend heach
  unfold recordsAbove at hend
  split at hend
  · rename_i job a _ ht
    rw [ht] at heach
    obtain ⟨n, hn, hlt⟩ := (Option.any_eq_true _ _).1 hend
    exact absurd (heach.1.le n hn) (not_le.2 (of_decide_eq_true hlt))
  · cases hend

end StratumServer
