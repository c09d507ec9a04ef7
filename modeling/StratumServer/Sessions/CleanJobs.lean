import StratumServer.Sessions.Earned

/-!
# A clean job makes the earlier jobs stale

A `mining.notify` message whose `clean_jobs` flag is set tells the miner to
drop its earlier jobs.  The message is written in two places.  The one for a
new job clears the queue of the session before it writes; the one after
`mining.authorize` takes the latest job of the cache and clears nothing.

There are two groups.

* `freshIds` lists the jobs that the miner has been told about since the last
  clean job.  `Fresh` says that the queue holds no other.
* `accepted_notStale` is the result.  Its condition, `Cleaned`, is about
  `mining.authorize` only, and `accepted_notStale_fails` is a run without it.
-/

namespace StratumServer

open Calls

/-! ## The jobs of the miner -/

/-- The ids that were sent to the miner since the last clean job, with that
job. -/
def freshIds : List SessionEntry → List String
  | [] => []
  | .notified job :: t =>
    if job.cleanJobs then [job.jobId] else job.jobId :: freshIds t
  | .subscribed :: t | .authorized _ :: t | .cleared :: t | .recorded .. :: t
  | .judged .. :: t => freshIds t

/-- A fresh id was sent with the clean job or after it. -/
theorem notified_of_mem_freshIds {later before : List SessionEntry}
    {job : MiningJob} (hclean : job.cleanJobs = true) {id : String}
    (h : id ∈ freshIds (later ++ .notified job :: before)) :
    ∃ job', .notified job' ∈ later ++ [.notified job] ∧ job'.jobId = id := by
  induction later with
  | nil =>
    rw [List.nil_append, freshIds, if_pos hclean] at h
    exact ⟨job, List.mem_cons_self, (List.mem_singleton.1 h).symm⟩
  | cons e later ih =>
    have hrest : id ∈ freshIds (later ++ .notified job :: before) →
        ∃ job', .notified job' ∈ e :: later ++ [.notified job] ∧
          job'.jobId = id := by
      intro h
      obtain ⟨job', hmem, hid⟩ := ih h
      exact ⟨job', List.mem_cons_of_mem _ hmem, hid⟩
    cases e with
    | notified job' =>
      rw [List.cons_append, freshIds] at h
      split at h
      · exact ⟨job', List.mem_cons_self, (List.mem_singleton.1 h).symm⟩
      · rcases List.mem_cons.1 h with hid | hold
        · exact ⟨job', List.mem_cons_self, hid.symm⟩
        · exact hrest hold
    | _ => exact hrest h

/-- The queue holds fresh jobs only. -/
def Fresh (s : SessionState) (t : List SessionEntry) : Prop :=
  ∀ a ∈ s.assignedJobs, a.jobId ∈ freshIds t

theorem mem_assignJob {s : SessionState} {job : MiningJob} {a : AssignedJob}
    (ha : a ∈ (s.assignJob job).assignedJobs) :
    a ∈ s.assignedJobs ∨ a.jobId = job.jobId := by
  unfold SessionState.assignJob SessionState.recordAssignedJob at ha
  dsimp only at ha
  rcases List.mem_append.1 ha with hold | hnew
  · split at hold
    · exact Or.inl (List.mem_of_mem_tail hold)
    · exact Or.inl hold
  · rw [List.mem_singleton.1 hnew]
    exact Or.inr rfl

namespace Fresh

variable {suite : Suite} {s : SessionState} {t : List SessionEntry}

/-- A job is sent.  When it is clean, the queue may hold no other. -/
theorem assign (h : Fresh s t) {job : MiningJob}
    (hclean : job.cleanJobs = true → ∀ a ∈ s.assignedJobs,
      a.jobId = job.jobId) :
    Fresh (s.assignJob job) (s.assignEntries job ++ t) := by
  intro a ha
  change a.jobId ∈ if job.cleanJobs then [job.jobId] else job.jobId :: freshIds t
  have ha' := mem_assignJob ha
  split
  · rename_i hjob
    rcases ha' with hold | hnew
    · exact List.mem_singleton.2 (hclean hjob a hold)
    · exact List.mem_singleton.2 hnew
  · rcases ha' with hold | hnew
    · exact List.mem_cons_of_mem _ (h a hold)
    · exact List.mem_cons.2 (Or.inl hnew)

theorem handleAuthorize (h : Fresh s t) (worker : String) :
    Fresh (s.handleAuthorize suite worker).2
      (answerEntries suite s worker ++ t) := by
  have hids : freshIds (answerEntries suite s worker ++ t) = freshIds t := by
    unfold answerEntries
    split <;> rfl
  unfold Fresh
  rw [hids]
  unfold SessionState.handleAuthorize
  split
  · exact h
  · split
    · exact h
    · exact h

theorem prepareFor (h : Fresh s t) (job : MiningJob) :
    Fresh (s.prepareFor suite job)
      ((if job.cleanJobs then [.cleared] else []) ++ t) ∧
      (job.cleanJobs = true → (s.prepareFor suite job).assignedJobs = []) := by
  obtain ⟨vardiff, hprepare⟩ := s.prepareFor_eq suite job
  rw [hprepare]
  cases job.cleanJobs with
  | false => exact ⟨h, fun hclean => Bool.noConfusion hclean⟩
  | true => exact ⟨fun a ha => (List.not_mem_nil ha).elim, fun _ => rfl⟩

end Fresh

/-! ## The result -/

/-- If the entry is an accepted submission, then its job was sent to the
miner with the last clean job or after it. -/
def NotStale (suite : Suite) (earlier : List SessionEntry) :
    SessionEntry → Prop
  | .judged p s cachedJob =>
    (judge suite s p cachedJob).validation.accepted = true →
      ∀ later job before, earlier = later ++ .notified job :: before →
        job.cleanJobs = true →
        ∃ job', .notified job' ∈ later ++ [.notified job] ∧
          job'.jobId = p.jobId
  | _ => True

theorem notStale_of_isJudged {suite : Suite} {e : SessionEntry}
    (h : e.isJudged = false) (earlier : List SessionEntry) :
    NotStale suite earlier e := by
  cases e with
  | judged => cases h
  | _ => trivial

/-- When `mining.authorize` hands out a clean job, the session has no other
job assigned. -/
def Cleaned (suite : Suite) (c : Connection) : Input → Prop
  | .authorize worker => ∀ s ∈ c.session, ∀ job ∈ c.jobCache.getLatest,
    (s.handleAuthorize suite worker).2.isAuthorized = true →
      job.cleanJobs = true → ∀ a ∈ s.assignedJobs, a.jobId = job.jobId
  | _ => True

instance (suite : Suite) (c : Connection) : ∀ i, Decidable (Cleaned suite c i)
  | .authorize _ => inferInstanceAs (Decidable (∀ _ ∈ _, ∀ _ ∈ _, _))
  | .insert _ | .send _ | .subscribe | .receive _ | .submit _ | .retarget _
  | .disconnect => inferInstanceAs (Decidable True)

section Result

variable {suite : Suite}

theorem handleAuthorize_assignedJobs (s : SessionState) (worker : String) :
    (s.handleAuthorize suite worker).2.assignedJobs = s.assignedJobs := by
  unfold SessionState.handleAuthorize
  split
  · rfl
  · split <;> rfl

theorem Fresh.notStale {s : SessionState} {t : List SessionEntry}
    (h : Fresh s t) {p : SubmitParams} {cachedJob : Option MiningJob} :
    NotStale suite t (.judged p s cachedJob) := by
  intro haccepted later job before ht hclean
  obtain ⟨job', _, hvalidation, _⟩ := judge_accepted suite haccepted
  rw [hvalidation] at haccepted
  obtain ⟨_, _, a, _, ha, _⟩ := validateShare_accepted suite haccepted
  have hid : a.jobId = p.jobId := by
    have heq := List.find?_some ha
    exact eq_of_beq heq
  have hfresh := h a (List.mem_of_find?_eq_some ha)
  rw [ht, hid] at hfresh
  exact notified_of_mem_freshIds hclean hfresh

/-- After a turn the queue is fresh again, and no submission was accepted for
a stale job. -/
theorem fresh_turn {c : Connection} {s : SessionState} {i : Input}
    {s' : Option SessionState} {entries : List SessionEntry}
    (hs : c.session = some s) (hfresh : Fresh s c.transcript)
    (heach : Each (NotStale suite) c.transcript) (hok : Cleaned suite c i)
    (hturn : Connection.Turn suite c s i s' entries) :
    Each (NotStale suite) (entries ++ c.transcript) ∧
      ∀ s'' ∈ s', Fresh s'' (entries ++ c.transcript) := by
  cases hturn with
  | subscribe =>
    refine ⟨⟨trivial, heach⟩, fun _ hs' => ?_⟩
    cases hs'
    exact hfresh
  | authorize worker =>
    refine ⟨heach.append fun e he => notStale_of_isJudged
      (authorizeEntries_isJudged suite e he), fun _ hs' => ?_⟩
    cases hs'
    have hauthorized : Fresh (s.handleAuthorize suite worker).2
        (answerEntries suite s worker ++ c.transcript) :=
      hfresh.handleAuthorize worker
    rcases authorize_cases suite s worker c.jobCache.getLatest with
      ⟨heq, ht⟩ | ⟨job, hlatest, hauth, heq, ht⟩
    · rw [heq, ht]
      exact hauthorized
    · rw [heq, ht, List.append_assoc]
      refine hauthorized.assign fun hclean => ?_
      rw [handleAuthorize_assignedJobs]
      exact hok s hs job hlatest hauth hclean
  | @receive job hjob =>
    refine ⟨heach.append fun e he => notStale_of_isJudged
      (receiveEntries_isJudged suite e he), fun _ hs' => ?_⟩
    cases hs'
    obtain ⟨hprepared, hempty⟩ :=
      @Fresh.prepareFor suite s c.transcript hfresh job
    unfold receiveEntries
    rw [List.append_assoc]
    refine hprepared.assign fun hclean a ha => ?_
    rw [hempty hclean] at ha
    cases ha
  | submit hsubscribed =>
    refine ⟨⟨hfresh.notStale, heach⟩, fun _ hs' => ?_⟩
    cases hs'
    exact hfresh
  | retarget now =>
    refine ⟨heach, fun _ hs' => ?_⟩
    obtain ⟨_, _, rfl⟩ := Option.map_eq_some_iff.1 hs'
    exact hfresh
  | disconnect =>
    refine ⟨heach, fun _ hs' => ?_⟩
    cases hs'

/-- In every run of a connection that meets the condition, no submission is
accepted for a stale job. -/
theorem accepted_notStale {config : VarDiffConfig} {count : Nat} {now : ℚ}
    {jobCache : JobCache} {broadcast : List MiningJob} {c : Connection}
    (haccept : Connection.accept suite config count now jobCache broadcast =
      some c) {inputs : List Input}
    (h : Meets (Connection.step suite) (Cleaned suite) c inputs) :
    Each (NotStale suite)
      (inputs.foldl (Connection.step suite) c).transcript := by
  obtain ⟨s, hnew, rfl⟩ := Option.map_eq_some_iff.1 haccept
  obtain ⟨vardiff, _, rfl⟩ := Option.map_eq_some_iff.1 hnew
  refine Connection.each_of_meets suite (I := Fresh) fresh_turn ?_ ?_ h
  · intro s hs
    cases hs
    exact nofun
  · trivial

end Result

/-- A clean job. -/
def cleanJob : MiningJob := { sampleJob 8 2 easyTarget with cleanJobs := true }

/-- A clean job enters the cache after the first one was handed out, and
comes to the session as `handedOut` says.  Then the miner submits for one of
the two. -/
def minesStale (handedOut : List Input) (job : MiningJob) : List Input :=
  [.subscribe, .authorize "lotus_a.rig", .insert cleanJob] ++ handedOut ++
    [.submit (sampleSubmit "lotus_a.rig" job "0a")]

/-- The clean job is sent to the session, and is worked on. -/
theorem accepted_notStale_sample : ∃ c : Connection,
    Connection.accept sampleSuite {} 1 0 sampleCache [] = some c ∧
    Meets (Connection.step sampleSuite) (Cleaned sampleSuite) c
      (minesStale [.send cleanJob, .receive cleanJob] cleanJob) ∧
    ((minesStale [.send cleanJob, .receive cleanJob] cleanJob).foldl
      (Connection.step sampleSuite) c).transcript.head?.any
        (·.accepted sampleSuite) = true ∧
    Each (NotStale sampleSuite)
      ((minesStale [.send cleanJob, .receive cleanJob] cleanJob).foldl
        (Connection.step sampleSuite) c).transcript := by
  have hrun : (Connection.accept sampleSuite {} 1 0 sampleCache []).map
      (fun c => decide
        (Meets (Connection.step sampleSuite) (Cleaned sampleSuite) c
          (minesStale [.send cleanJob, .receive cleanJob] cleanJob) ∧
        ((minesStale [.send cleanJob, .receive cleanJob] cleanJob).foldl
          (Connection.step sampleSuite) c).transcript.head?.any
            (·.accepted sampleSuite) = true)) = some true := by
    decide +kernel
  obtain ⟨c, hc, hend⟩ := Option.map_eq_some_iff.1 hrun
  obtain ⟨hmeets, haccepted⟩ := of_decide_eq_true hend
  exact ⟨c, hc, hmeets, haccepted, accepted_notStale hc hmeets⟩

/-- The last entry is an accepted submission for another job than the clean
one that the miner was sent last. -/
def acceptsStale (suite : Suite) : List SessionEntry → Bool
  | .judged p s cachedJob :: .recorded _ _ :: .notified job :: _ =>
    (judge suite s p cachedJob).validation.accepted && job.cleanJobs &&
      job.jobId != p.jobId
  | _ => false

/-- A second `mining.authorize` takes the clean job from the cache before the
session has received it, and the submission for the first job is accepted. -/
theorem accepted_notStale_fails : ∃ c : Connection,
    Connection.accept sampleSuite {} 1 0 sampleCache [] = some c ∧
    ¬ Each (NotStale sampleSuite)
      ((minesStale [.authorize "lotus_b.rig"] (sampleJob 7 1 easyTarget)).foldl
        (Connection.step sampleSuite) c).transcript := by
  have hrun : (Connection.accept sampleSuite {} 1 0 sampleCache []).map
      (fun c => acceptsStale sampleSuite
        ((minesStale [.authorize "lotus_b.rig"]
          (sampleJob 7 1 easyTarget)).foldl
            (Connection.step sampleSuite) c).transcript) = some true := by
    decide +kernel
  obtain ⟨c, hc, hend⟩ := Option.map_eq_some_iff.1 hrun
  refine ⟨c, hc, fun heach => ?_⟩
  generalize List.foldl (Connection.step sampleSuite) c _ = c' at hend heach
  unfold acceptsStale at hend
  split at hend
  · rename_i p s cachedJob job a job' before ht
    rw [ht] at heach
    simp only [Bool.and_eq_true, bne_iff_ne, ne_eq] at hend
    obtain ⟨⟨haccepted, hclean⟩, hne⟩ := hend
    obtain ⟨job'', hmem, hid⟩ := heach.1 haccepted [.recorded job a] job'
      before rfl hclean
    have hjob : job'' = job' := by simpa using hmem
    exact hne (hjob ▸ hid)
  · cases hend

end StratumServer
