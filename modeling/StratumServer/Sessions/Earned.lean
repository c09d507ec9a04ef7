import StratumServer.Shares.Answer
import StratumServer.StratumProtocol.Connection

/-!
# Only earned shares are credited

A submission is accepted on the word of the session: the set of its workers,
and the queue of its assigned jobs.  `Backed` says what stands behind the two
in the transcript of the connection, and `accepted_earned` is what follows
for a submission.

A share is stored with the difficulty of its assigned job, unless its dedupe
key is taken: then the row that has the key stays as it is.
`creditsRecorded_fails` is a run of one session in which that row has another
difficulty.
-/

namespace StratumServer

open Calls

/-! ## The queue of assigned jobs -/

/-- The jobs recorded since the last `clear_assigned_jobs`, newest first. -/
def recordsSince : List SessionEntry → List (MiningJob × AssignedJob)
  | [] => []
  | .cleared :: _ => []
  | .recorded job assigned :: t => (job, assigned) :: recordsSince t
  | .subscribed :: t | .authorized _ :: t | .notified _ :: t
  | .judged .. :: t => recordsSince t

/-- A queue that holds the last `n` elements, after one more. -/
theorem queue_push {α : Type} {n : Nat} (hn : 0 < n) (l : List α) (a : α) :
    (if n ≤ (l.take n).reverse.length then (l.take n).reverse.tail
      else (l.take n).reverse) ++ [a] = ((a :: l).take n).reverse := by
  obtain ⟨m, rfl⟩ := Nat.exists_eq_succ_of_ne_zero hn.ne'
  rw [List.take_succ_cons, List.reverse_cons]
  congr 1
  rw [List.length_reverse, List.length_take]
  by_cases hfull : m < l.length
  · have hle : m.succ ≤ min m.succ l.length := by omega
    rw [if_pos hle, List.take_add_one, List.getElem?_eq_getElem hfull,
      Option.toList_some, List.reverse_append, List.reverse_singleton,
      List.singleton_append, List.tail_cons]
  · have hle : ¬ m.succ ≤ min m.succ l.length := by omega
    rw [if_neg hle, List.take_of_length_le (by omega),
      List.take_of_length_le (by omega)]

/-! ## What stands behind a session -/

/-- The worker was authorized after the session had subscribed. -/
def AuthorizedIn (t : List SessionEntry) (worker : String) : Prop :=
  ∃ later before, t = later ++ .authorized worker :: before ∧
    .subscribed ∈ before

theorem AuthorizedIn.append {t : List SessionEntry} {worker : String}
    (h : AuthorizedIn t worker) (entries : List SessionEntry) :
    AuthorizedIn (entries ++ t) worker := by
  obtain ⟨later, before, rfl, hsubscribed⟩ := h
  exact ⟨entries ++ later, before, by rw [List.append_assoc], hsubscribed⟩

/-- What stands behind a session in its transcript. -/
structure Backed (extranonce1 : String) (s : SessionState)
    (t : List SessionEntry) : Prop where
  extranonce1 : s.extranonce1 = extranonce1
  subscribed : s.isSubscribed = true → .subscribed ∈ t
  authorized : ∀ worker ∈ s.authorizedWorkers, AuthorizedIn t worker
  assigned : s.assignedJobs = (((recordsSince t).map Prod.snd).take
    maxAssignedJobsPerSession).reverse
  records : ∀ x ∈ recordsSince t, .notified x.1 ∈ t ∧
    x.2.jobId = x.1.jobId ∧ x.2.ntime = x.1.ntime

namespace Backed

variable {suite : Suite} {e1 : String} {s s' : SessionState}
  {t : List SessionEntry}

/-- The difficulty is not part of it. -/
theorem vardiff (h : Backed e1 s t) (vardiff : VarDiff) :
    Backed e1 { s with vardiff } t :=
  ⟨h.extranonce1, h.subscribed, h.authorized, h.assigned, h.records⟩

/-- An entry that is no record. -/
theorem push (h : Backed e1 s t) {e : SessionEntry}
    (hrecords : recordsSince (e :: t) = recordsSince t) :
    Backed e1 s (e :: t) := by
  refine ⟨h.extranonce1, fun hsubscribed => ?_, fun worker hworker => ?_, ?_,
    fun x hx => ?_⟩
  · exact List.mem_cons_of_mem _ (h.subscribed hsubscribed)
  · exact (h.authorized worker hworker).append [e]
  · rw [hrecords]
    exact h.assigned
  · rw [hrecords] at hx
    obtain ⟨hnotified, hx'⟩ := h.records x hx
    exact ⟨List.mem_cons_of_mem _ hnotified, hx'⟩

theorem subscribe (h : Backed e1 s t) :
    Backed e1 s.handleSubscribe (.subscribed :: t) :=
  have hpush := h.push (e := .subscribed) rfl
  ⟨h.extranonce1, fun _ => List.mem_cons_self, hpush.authorized,
    hpush.assigned, hpush.records⟩

/-- A job is sent to the miner and recorded. -/
theorem assign (h : Backed e1 s t) (job : MiningJob) :
    Backed e1 (s.assignJob job) (s.assignEntries job ++ t) := by
  refine ⟨h.extranonce1, fun hsubscribed => ?_, fun worker hworker => ?_, ?_,
    fun x hx => ?_⟩
  · exact List.mem_append_right _ (h.subscribed hsubscribed)
  · exact (h.authorized worker hworker).append _
  · unfold SessionState.assignJob SessionState.recordAssignedJob
    dsimp only
    rw [h.assigned]
    exact queue_push (by decide) _ _
  · rcases List.mem_cons.1 hx with rfl | hold
    · exact ⟨by simp [SessionState.assignEntries], rfl, rfl⟩
    · obtain ⟨hnotified, hx'⟩ := h.records x hold
      exact ⟨List.mem_append_right _ hnotified, hx'⟩

theorem clear (h : Backed e1 s t) :
    Backed e1 s.clearAssignedJobs (.cleared :: t) := by
  refine ⟨h.extranonce1, fun hsubscribed => ?_, fun worker hworker => ?_, rfl,
    nofun⟩
  · exact List.mem_cons_of_mem _ (h.subscribed hsubscribed)
  · exact (h.authorized worker hworker).append [.cleared]

/-- A worker is authorized by a session that has subscribed. -/
theorem handleAuthorize (h : Backed e1 s t) (worker : String) :
    Backed e1 (s.handleAuthorize suite worker).2
      (answerEntries suite s worker ++ t) := by
  unfold answerEntries SessionState.handleAuthorize
  by_cases hsubscribed : s.isSubscribed = true
  · by_cases hparses : (parseWorkerName suite.isLotusAddress worker).isNone
    · simp only [hsubscribed, hparses, Bool.not_true, Bool.false_eq_true,
        if_false, if_true]
      rw [if_neg (by decide)]
      exact h
    · simp only [hsubscribed, hparses, Bool.not_true, Bool.false_eq_true,
        if_false, if_true]
      have hpush := h.push (e := .authorized worker) rfl
      refine ⟨h.extranonce1, fun _ => hpush.subscribed hsubscribed,
        fun w hw => ?_, hpush.assigned, hpush.records⟩
      rcases List.mem_insert_iff.1 hw with rfl | hold
      · exact ⟨[], t, rfl, h.subscribed hsubscribed⟩
      · exact hpush.authorized w hold
  · simp only [hsubscribed, Bool.not_false, if_true]
    rw [if_neg (by decide)]
    exact h

theorem authorize (h : Backed e1 s t) (worker : String)
    (latest : Option MiningJob) :
    Backed e1 (authorizeSession suite s worker latest)
      (authorizeEntries suite s worker latest ++ t) := by
  have hauthorized : Backed e1 (s.handleAuthorize suite worker).2
      (answerEntries suite s worker ++ t) := h.handleAuthorize worker
  rcases authorize_cases suite s worker latest with ⟨hs, ht⟩ |
    ⟨job, _, _, hs, ht⟩
  · rw [hs, ht]
    exact hauthorized
  · rw [hs, ht, List.append_assoc]
    exact hauthorized.assign job

theorem prepareFor (h : Backed e1 s t) (job : MiningJob) :
    Backed e1 (s.prepareFor suite job)
      ((if job.cleanJobs then [.cleared] else []) ++ t) := by
  obtain ⟨vardiff, hprepare⟩ := s.prepareFor_eq suite job
  rw [hprepare]
  cases job.cleanJobs with
  | false => exact h.vardiff vardiff
  | true => exact (h.vardiff vardiff).clear

theorem receive (h : Backed e1 s t) (job : MiningJob) :
    Backed e1 (receiveJob suite s job) (receiveEntries suite s job ++ t) := by
  unfold receiveEntries
  rw [List.append_assoc]
  exact (h.prepareFor job).assign job

theorem retarget (h : Backed e1 s t) {now : ℚ}
    (hs' : s.retarget now = some s') : Backed e1 s' t := by
  obtain ⟨⟨_, vardiff⟩, _, rfl⟩ := Option.map_eq_some_iff.1 hs'
  exact h.vardiff vardiff

end Backed

/-! ## What an accepted submission has behind it -/

/-- What the transaction of `record_share` does with the difficulty of a
share.  A new row has it, and a row that has the key of the share stays. -/
structure StoredWith (difficulty : ℚ) (share : Share) (outcome : ShareOutcome)
    (db : Database) : Prop where
  new : (∀ r ∈ db.shares.rows, r.dedupeKey ≠ share.dedupeKey) →
    ∃ row, row.dedupeKey = share.dedupeKey ∧ row.difficulty = difficulty ∧
      (ShareRepository.insertShareAndOutcomeAtomic share outcome
        db).2.shares.rows = db.shares.rows ++ [row]
  taken : (∃ r ∈ db.shares.rows, r.dedupeKey = share.dedupeKey) →
    (ShareRepository.insertShareAndOutcomeAtomic share outcome
      db).2.shares.rows = db.shares.rows

theorem storedWith (share : Share) (outcome : ShareOutcome) (db : Database) :
    StoredWith share.difficulty share outcome db := by
  obtain ⟨shareId, _, _, _, shares, _, hrun, hshares, _⟩ :=
    ShareRepository.insertShareAndOutcomeAtomic_cases share outcome db
  constructor
  · intro hfree
    rw [hrun]
    rcases hshares with ⟨_, _, _, hrows⟩ | ⟨_, ⟨r, hr, hkey, _⟩, _⟩
    · exact ⟨{ share with id := shareId }, rfl, rfl, hrows⟩
    · exact absurd hkey (hfree r hr)
  · rintro ⟨r, hr, hkey⟩
    rw [hrun]
    rcases hshares with ⟨_, hfree, _⟩ | ⟨_, _, rfl⟩
    · exact absurd hkey (hfree r hr)
    · rfl

/-- An accepted submission has been earned.  `earlier` is what the connection
had done before it, and `job` is the job of the cache that it was judged
by. -/
structure Earned (suite : Suite) (extranonce1 : String)
    (earlier : List SessionEntry) (p : SubmitParams) (s : SessionState)
    (job : MiningJob) : Prop where
  authorized : AuthorizedIn earlier p.workerName
  assigned : ∃ x ∈ (recordsSince earlier).take maxAssignedJobsPerSession,
    x.1.jobId = p.jobId ∧ x.2.jobId = p.jobId ∧ .notified x.1 ∈ earlier ∧
    p.ntimeHex = x.2.ntime ∧
    (∃ header, submissionHeader suite job extranonce1 p = some header ∧
      suite.headerMeetsDifficulty (suite.calcHash header).reverse x.2.pDiff =
        some true) ∧
    ∀ name workerId roundId db,
      let a := shareRecord s p (judge suite s p (some job)) name
      StoredWith x.2.pDiff (a.share workerId) (a.outcome workerId roundId) db

/-- If the entry is an accepted submission, then it has been earned. -/
def OnlyEarned (suite : Suite) (extranonce1 : String)
    (earlier : List SessionEntry) : SessionEntry → Prop
  | .judged p s cachedJob =>
    (judge suite s p cachedJob).validation.accepted = true →
      ∃ job, cachedJob = some job ∧ job.jobId = p.jobId ∧
        Earned suite extranonce1 earlier p s job
  | _ => True

theorem onlyEarned_of_isJudged {suite : Suite} {extranonce1 : String}
    {e : SessionEntry} (h : e.isJudged = false)
    (earlier : List SessionEntry) : OnlyEarned suite extranonce1 earlier e := by
  cases e with
  | judged => cases h
  | _ => trivial

section Result

variable {suite : Suite} {e1 : String} {s : SessionState}
  {t : List SessionEntry}

/-- The job of the queue that a submission is judged by. -/
theorem Backed.getAssignedJob (h : Backed e1 s t) {jobId : String}
    {a : AssignedJob} (ha : s.getAssignedJob jobId = some a) :
    ∃ x ∈ (recordsSince t).take maxAssignedJobsPerSession,
      x.2 = a ∧ x.1.jobId = jobId ∧ x.2.jobId = jobId ∧ .notified x.1 ∈ t := by
  have hmem := List.mem_of_find?_eq_some ha
  have hid : a.jobId = jobId := by
    have heq := List.find?_some ha
    exact eq_of_beq heq
  rw [h.assigned, List.mem_reverse, ← List.map_take] at hmem
  obtain ⟨x, hx, rfl⟩ := List.mem_map.1 hmem
  obtain ⟨hnotified, hsame, _⟩ := h.records x (List.mem_of_mem_take hx)
  exact ⟨x, hx, rfl, hsame.symm.trans hid, hid, hnotified⟩

theorem Backed.onlyEarned (h : Backed e1 s t) {jobCache : JobCache}
    {p : SubmitParams} :
    OnlyEarned suite e1 t (.judged p s (jobCache.get p.jobId)) := by
  intro haccepted
  obtain ⟨job, hjob, hvalidation, _⟩ := judge_accepted suite haccepted
  rw [hvalidation] at haccepted
  obtain ⟨hworker, _, a, header, ha, hntime, hheader, hjudged⟩ :=
    validateShare_accepted suite haccepted
  rw [hjudged] at haccepted
  obtain ⟨x, hx, hxa, hxjob, hxid, hnotified⟩ := h.getAssignedJob ha
  refine ⟨job, hjob, JobCache.get_some hjob, h.authorized _ hworker, x, hx,
    hxjob, hxid, hnotified, ?_, ⟨header, ?_, ?_⟩,
    fun name workerId roundId db => ?_⟩
  · rw [hxa]
    exact hntime
  · rw [← h.extranonce1]
    exact hheader
  · rw [hxa]
    exact judgeHeader_accepted suite haccepted
  · have hdifficulty : ((shareRecord s p (judge suite s p (some job))
        name).share workerId).difficulty = x.2.pDiff := by
      change ((s.getAssignedJob p.jobId).map (·.pDiff)).getD _ = _
      rw [ha, hxa]
      rfl
    rw [← hdifficulty]
    exact storedWith _ _ db

/-- A turn keeps what backs the session, and an accepted submission has been
earned. -/
theorem backed_turn {c : Connection} {s : SessionState} {i : Input}
    {s' : Option SessionState} {entries : List SessionEntry}
    (hbacked : Backed e1 s c.transcript)
    (heach : Each (OnlyEarned suite e1) c.transcript)
    (hturn : Connection.Turn suite c s i s' entries) :
    Each (OnlyEarned suite e1) (entries ++ c.transcript) ∧
      ∀ s'' ∈ s', Backed e1 s'' (entries ++ c.transcript) := by
  cases hturn with
  | subscribe =>
    refine ⟨⟨trivial, heach⟩, fun _ hs' => ?_⟩
    cases hs'
    exact hbacked.subscribe
  | authorize worker =>
    refine ⟨heach.append fun e he => onlyEarned_of_isJudged
      (authorizeEntries_isJudged suite e he), fun _ hs' => ?_⟩
    cases hs'
    exact hbacked.authorize worker _
  | receive hjob =>
    refine ⟨heach.append fun e he => onlyEarned_of_isJudged
      (receiveEntries_isJudged suite e he), fun _ hs' => ?_⟩
    cases hs'
    exact hbacked.receive _
  | submit hsubscribed =>
    refine ⟨⟨hbacked.onlyEarned, heach⟩, fun _ hs' => ?_⟩
    cases hs'
    exact hbacked.push rfl
  | retarget now => exact ⟨heach, fun _ hs' => hbacked.retarget hs'⟩
  | disconnect =>
    refine ⟨heach, fun _ hs' => ?_⟩
    cases hs'

/-- In every run of a connection, an accepted submission has been earned. -/
theorem accepted_earned {config : VarDiffConfig} {count : Nat} {now : ℚ}
    {jobCache : JobCache} {broadcast : List MiningJob} {c : Connection}
    (haccept : Connection.accept suite config count now jobCache broadcast =
      some c) (inputs : List Input) :
    Each (OnlyEarned suite (extranonce1Of count))
      (inputs.foldl (Connection.step suite) c).transcript := by
  obtain ⟨s, hnew, rfl⟩ := Option.map_eq_some_iff.1 haccept
  obtain ⟨vardiff, _, rfl⟩ := Option.map_eq_some_iff.1 hnew
  refine Connection.each_of_meets suite (I := Backed (extranonce1Of count))
    (fun _ hbacked heach _ hturn => backed_turn hbacked heach hturn) ?_ ?_
    (meets_of_forall (fun _ _ => trivial) _ _)
  · intro s hs
    cases hs
    exact ⟨rfl, nofun, nofun, rfl, nofun⟩
  · trivial

end Result

/-- A cache with one job. -/
def sampleCache : JobCache :=
  JobCache.insert ⟨512, [], []⟩ (sampleJob 7 1 easyTarget)

/-- A miner subscribes, authorizes a worker and submits. -/
def minesOne : List Input :=
  [.subscribe, .authorize "lotus_a.rig",
    .submit (sampleSubmit "lotus_a.rig" (sampleJob 7 1 easyTarget) "0a")]

/-- A connection whose last submission is accepted. -/
theorem accepted_earned_sample : ∃ c : Connection,
    Connection.accept sampleSuite {} 1 0 sampleCache [] = some c ∧
    ((minesOne.foldl (Connection.step sampleSuite) c).transcript.head?.any
      (·.accepted sampleSuite)) = true ∧
    Each (OnlyEarned sampleSuite (extranonce1Of 1))
      (minesOne.foldl (Connection.step sampleSuite) c).transcript := by
  have hrun : (Connection.accept sampleSuite {} 1 0 sampleCache []).map
      (fun c => (minesOne.foldl (Connection.step sampleSuite)
        c).transcript.head?.any (·.accepted sampleSuite)) = some true := by
    decide +kernel
  obtain ⟨c, hc, haccepted⟩ := Option.map_eq_some_iff.1 hrun
  exact ⟨c, hc, haccepted, accepted_earned hc minesOne⟩

/-! ## A row with another difficulty -/

/-- When a submission is answered with `true`, the share under its dedupe key
has the difficulty that its job was assigned with. -/
def CreditsRecorded (suite : Suite) (w : PoolWorld) (e : PoolEntry) : Prop :=
  ∀ i ∈ answeredTrue e, ∀ x ∈ submissionOf suite w i,
    ∀ a ∈ x.session.getAssignedJob x.params.jobId,
      ∀ s ∈ w.shared.db.shares.rows, ∀ o ∈ w.shared.db.shareOutcomes.rows,
        RowFor w.shared.db x s o → s.difficulty = a.pDiff

instance (suite : Suite) (w : PoolWorld) (e : PoolEntry) :
    Decidable (CreditsRecorded suite w e) :=
  inferInstanceAs (Decidable (∀ _ ∈ _, ∀ _ ∈ _, ∀ _ ∈ _, ∀ _ ∈ _, ∀ _ ∈ _, _))

/-- A session submits work for a job that the cache has and that has not come
to it, for a worker that is not authorized.  The share is rejected and stored
with the difficulty of the session.  Then the easier job comes to the session,
the worker is authorized, and the same work is accepted. -/
def submitsEarly : List Scene :=
  let job := { sampleJob 8 2 easyTarget with cleanJobs := true }
  let p := sampleSubmit "lotus_a.rig" job "0a"
  bootsWith (sampleJob 7 1 mediumTarget) ++
    [.begin (.session 0) (.connect 0), .begin (.session 0) .subscribe,
      .begin .consumer .miningWorkChanged,
      .run .consumer 20 { template := some job }] ++
    submits 0 p ++
    [.begin (.session 0) (.newJob job),
      .begin (.session 0) (.authorize "lotus_a.rig")] ++
    submits 0 p

/-- The row keeps the difficulty of the rejected submission. -/
theorem creditsRecorded_fails :
    ¬ (pool weighingSuite sampleData sampleConfig).Turns (fun _ _ => True)
      (CreditsRecorded weighingSuite) :=
  not_turns _ _ _ ["genesis"] (by decide) submitsEarly (by decide +kernel)
    (by decide +kernel)

end StratumServer
