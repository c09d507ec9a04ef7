import StratumServer.Jobs.Cache
import StratumServer.StratumProtocol.Serving

/-!
# Current work reaches every miner

The consumer puts a new job into the cache and then sends it.  A connection
gets it from the channel, or, when it authorizes a worker, from the cache.  The
two ways race: a connection that authorizes between the two steps of the
consumer is handed the same job twice, and one that falls behind in the
channel misses jobs.

`Stocked` is what the cache and the channel have in common, `Supplied` is what
a connection has.  Neither speaks of a connection that still has jobs to take
from the channel, so a lag needs no case of its own: it leaves jobs to take.

`current_work` says where every interleaving ends up: when the consumer has
sent what it fetched, a connection that has taken all jobs works on the newest
one, and on no other.
-/

namespace StratumServer

open Broadcast (Channels queue)

/-! ## Messages and sessions -/

section Messages

variable {ν : Type}

/-- The job of a `mining.notify`. -/
def ServerMessage.work? : ServerMessage ν → Option WorkJob
  | .notify work => some work
  | _ => none

/-- The jobs that were written. -/
def worksOf (written : List (ServerMessage ν)) : List WorkJob :=
  written.filterMap ServerMessage.work?

theorem worksOf_append (a b : List (ServerMessage ν)) :
    worksOf (a ++ b) = worksOf a ++ worksOf b := List.filterMap_append

@[simp] theorem worksOf_toMessage (w : Wire ν) (r : StratumResponse)
    (id : Json ν) (l : List (ServerMessage ν)) :
    worksOf (r.toMessage w id :: l) = worksOf l := rfl

@[simp] theorem worksOf_setDifficulty (diff : Option ℚ)
    (l : List (ServerMessage ν)) :
    worksOf ((diff.map .setDifficulty).toList ++ l) = worksOf l := by
  cases diff <;> rfl

end Messages

/-- A new session has no work. -/
theorem newSession_blank {suite : Suite} {config : VarDiffConfig} {count : Nat}
    {latest : Option MiningJob} {now : ℚ} {s : SessionState}
    (h : newSession suite config count latest now = some s) :
    s.isAuthorized = false ∧ s.assignedJobs = [] := by
  obtain ⟨vardiff, _, rfl⟩ := Option.map_eq_some_iff.1 h
  exact ⟨rfl, rfl⟩

/-- The assigned job stands for the work. -/
def AssignedJob.IsFor (a : AssignedJob) (work : WorkJob) : Prop :=
  a.jobId = work.jobId ∧ a.ntime = work.ntime

theorem mem_assigned_cases {s : SessionState} {job : MiningJob} {a : AssignedJob}
    (h : a ∈ (s.assignJob job).assignedJobs) :
    a ∈ s.assignedJobs ∨ a.jobId = job.jobId ∧ a.ntime = job.ntime := by
  have happend : (s.assignJob job).assignedJobs =
      (if maxAssignedJobsPerSession ≤ s.assignedJobs.length then
        s.assignedJobs.tail else s.assignedJobs) ++
        [⟨job.jobId, s.currentDifficulty, job.ntime⟩] := rfl
  rw [happend, List.mem_append, List.mem_singleton] at h
  rcases h with h | rfl
  · split at h
    · exact Or.inl (List.mem_of_mem_tail h)
    · exact Or.inl h
  · exact Or.inr ⟨rfl, rfl⟩

theorem assignJob_ne_nil (s : SessionState) (job : MiningJob) :
    (s.assignJob job).assignedJobs ≠ [] := by
  simp [SessionState.assignJob, SessionState.recordAssignedJob]

/-! ## The cache and the channel -/

namespace Serving

variable {B : Channels WorkJob} {ν : Type} {suite : Suite} {w : Wire ν}
  {config : VarDiffConfig} {maxSize : Nat} {initial : WorkJob}
  {log : List AuthorizationEvent}

/-- All jobs that were inserted, oldest first. -/
def jobs (v : Serving B ν) : List WorkJob := B.sent v.channel ++ v.unsent.toList

/-- The cache has been filled with the jobs, and all but the first one are
clean. -/
structure Stocked (maxSize : Nat) (v : Serving B ν) : Prop where
  cache : v.jobCache = JobCache.inserts maxSize (v.jobs.map WorkJob.toMiningJob)
  reason : v.jobs.getLast?.map WorkJob.reason = some v.latestReason
  sent_ne_nil : B.sent v.channel ≠ []
  clean : ∀ work ∈ v.jobs.tail, work.cleanJobs = true

@[simp] theorem jobs_start :
    (start maxSize initial log : Serving B ν).jobs = [initial] := by
  simp [start, jobs]

theorem stocked_start :
    (start maxSize initial log : Serving B ν).Stocked maxSize where
  cache := by
    rw [jobs_start]
    rfl
  reason := by
    rw [jobs_start]
    rfl
  sent_ne_nil := by simp [start]
  clean := by simp

theorem Stocked.of_eq {v v' : Serving B ν} (h : v.Stocked maxSize)
    (hcache : v'.jobCache = v.jobCache) (hreason : v'.latestReason = v.latestReason)
    (hchannel : v'.channel = v.channel) (hunsent : v'.unsent = v.unsent) :
    v'.Stocked maxSize := by
  have hjobs : v'.jobs = v.jobs := by rw [jobs, jobs, hchannel, hunsent]
  constructor
  · rw [hcache, hjobs, h.cache]
  · rw [hreason, hjobs, h.reason]
  · rw [hchannel]
    exact h.sent_ne_nil
  · rw [hjobs]
    exact h.clean

theorem Stocked.workChanged {v v' : Serving B ν} (h : v.Stocked maxSize)
    (hunsent : v.unsent = none) {work : WorkJob} (hclean : work.cleanJobs = true)
    (hcache : v'.jobCache = v.jobCache.insert work.toMiningJob)
    (hreason : v'.latestReason = work.reason)
    (hchannel : v'.channel = v.channel) (hunsent' : v'.unsent = some work) :
    v'.Stocked maxSize := by
  have hold : v.jobs = B.sent v.channel := by simp [jobs, hunsent]
  have hjobs : v'.jobs = v.jobs ++ [work] := by
    rw [hold]
    simp [jobs, hchannel, hunsent']
  constructor
  · rw [hcache, h.cache, hjobs, List.map_append]
    exact (JobCache.inserts_concat maxSize _ _).symm
  · rw [hjobs, hreason]
    simp
  · rw [hchannel]
    exact h.sent_ne_nil
  · rw [hjobs, List.tail_append_of_ne_nil (by rw [hold]; exact h.sent_ne_nil)]
    intro x hx
    rcases List.mem_append.1 hx with hx | hx
    · exact h.clean x hx
    · rw [List.mem_singleton.1 hx]
      exact hclean

theorem Stocked.sendJob {v v' : Serving B ν} (h : v.Stocked maxSize)
    {work : WorkJob} (hunsent : v.unsent = some work)
    (hcache : v'.jobCache = v.jobCache) (hreason : v'.latestReason = v.latestReason)
    (hchannel : v'.channel = B.send v.channel work) (hunsent' : v'.unsent = none) :
    v'.Stocked maxSize := by
  have hjobs : v'.jobs = v.jobs := by
    simp [jobs, hchannel, hunsent, hunsent']
  constructor
  · rw [hcache, hjobs, h.cache]
  · rw [hreason, hjobs, h.reason]
  · rw [hchannel]
    simp
  · rw [hjobs]
    exact h.clean

/-- The latest job is the last one that was inserted. -/
theorem Stocked.latest_eq {v : Serving B ν} (h : v.Stocked maxSize)
    (hsize : 0 < maxSize) : v.latest = v.jobs.getLast? := by
  have hreason := h.reason
  rw [latest, h.cache, JobCache.getLatest_inserts hsize, List.getLast?_map]
  cases hlast : v.jobs.getLast? with
  | none => rfl
  | some work =>
    rw [hlast] at hreason
    simp at hreason
    simp [← hreason]

/-! ## The connections -/

/-- The jobs that a connection which has taken all jobs may hold. -/
def newest (channel : B.Channel) (unsent : Option WorkJob) :
    List WorkJob :=
  (B.sent channel).getLast?.toList ++ unsent.toList

/-- The session works on one of the newest jobs only, and an authorized one
was told so. -/
structure Offers (channel : B.Channel) (unsent : Option WorkJob)
    (s : SessionState) (works : List WorkJob) : Prop where
  assigned : ∀ a ∈ s.assignedJobs, ∃ work ∈ newest channel unsent, a.IsFor work
  authorized : s.isAuthorized = true → s.assignedJobs ≠ [] ∧
    ∃ work ∈ newest channel unsent, works.getLast? = some work

/-- A connection has what it needs. -/
structure Supplied (channel : B.Channel) (unsent : Option WorkJob)
    (m : Miner B ν) : Prop where
  begun : 1 ≤ B.next m.receiver
  next_le : B.next m.receiver ≤ (B.sent channel).length
  offers : B.waiting channel m.receiver = 0 → ∀ s, m.session = some s →
    Offers channel unsent s (worksOf m.written)

variable {channel : B.Channel} {unsent : Option WorkJob} {m : Miner B ν}
  {s : SessionState}

theorem Offers.congr {works : List WorkJob} (h : Offers channel unsent s works)
    {s' : SessionState} {works' : List WorkJob}
    (hassigned : s'.assignedJobs = s.assignedJobs)
    (hauthorized : s'.isAuthorized = s.isAuthorized) (hworks : works' = works) :
    Offers channel unsent s' works' := by
  subst hworks
  constructor
  · rw [hassigned]
    exact h.assigned
  · rw [hassigned, hauthorized]
    exact h.authorized

/-- A job of the newest is handed out. -/
theorem offers_assign {works : List WorkJob} {work : WorkJob}
    (hwork : work ∈ newest channel unsent)
    (h : ∀ a ∈ s.assignedJobs, ∃ work ∈ newest channel unsent, a.IsFor work) :
    Offers channel unsent (s.assignJob work.toMiningJob) (works ++ [work]) where
  assigned := by
    intro a ha
    rcases mem_assigned_cases ha with ha | ha
    · exact h a ha
    · exact ⟨work, hwork, ha⟩
  authorized := fun _ =>
    ⟨assignJob_ne_nil s _, work, hwork, List.getLast?_concat⟩

/-- The latest job is one of the newest. -/
theorem getLast?_mem_newest {v : Serving B ν} (h : v.Stocked maxSize) :
    ∃ work, v.jobs.getLast? = some work ∧ work ∈ newest v.channel v.unsent := by
  unfold jobs newest
  cases v.unsent with
  | some work => exact ⟨work, by simp, by simp⟩
  | none =>
    have hlast := List.getLast?_eq_some_getLast h.sent_ne_nil
    exact ⟨_, by simpa using hlast, by simp [hlast]⟩

/-- A line of the miner. -/
theorem Offers.line {v : Serving B ν} (hstocked : v.Stocked maxSize)
    (hsize : 0 < maxSize) {works : List WorkJob}
    (h : Offers v.channel v.unsent s works) {now : ℚ} {text : String}
    {r : TurnResult ν} (hturn : LineTurn suite w s (v.around now) text r) :
    Offers v.channel v.unsent r.session (works ++ worksOf r.written) := by
  cases hturn with
  | invalid hdecode => exact h.congr rfl rfl (List.append_nil _)
  | subscribe hdecode hmethod => exact h.congr rfl rfl (List.append_nil _)
  | plain hdecode hmethod => exact h.congr rfl rfl (List.append_nil _)
  | submit hdecode hmethod hsubmit =>
    obtain ⟨vardiff, rfl⟩ := submitTurn_session hsubmit
    exact h.congr rfl rfl (by simp [worksOf, ServerMessage.work?,
      StratumResponse.toMessage])
  | @authorize req hdecode hmethod =>
    obtain ⟨work, hlast, hwork⟩ := getLast?_mem_newest hstocked
    have hlatest : (v.around now).latest = some work :=
      (hstocked.latest_eq hsize).trans hlast
    rcases handleAuthorize_cases suite s (req.param 0) with ⟨code, message, heq⟩ |
      ⟨_, _, heq⟩
    · -- The worker is refused, but there may be another one.
      simp only [authorizeSession, SessionState.startWork, heq, hlatest,
        worksOf_toMessage]
      by_cases hauthorized : s.isAuthorized = true
      · simp only [hauthorized, Option.map_some, if_true]
        exact offers_assign hwork h.assigned
      · simp only [hauthorized, Bool.false_eq_true, if_false]
        exact h.congr rfl rfl (List.append_nil _)
    · simp only [authorizeSession, SessionState.startWork, heq, hlatest,
        Option.map_some, if_true, worksOf_toMessage]
      exact offers_assign hwork h.assigned

/-- A job of the channel. -/
theorem offers_job {work : WorkJob} (hwork : work ∈ newest channel unsent)
    (hclean : work.cleanJobs = true) (works : List WorkJob) :
    Offers channel unsent (s.handleJob suite work : TurnResult ν).session
      (works ++ worksOf (s.handleJob suite work : TurnResult ν).written) := by
  have hworks : worksOf (s.handleJob suite work : TurnResult ν).written =
      [work] := worksOf_setDifficulty _ _
  rw [hworks]
  have hsession : ∃ vardiff, (s.handleJob suite work : TurnResult ν).session =
      ({ s with vardiff, assignedJobs := [] } : SessionState).assignJob
        work.toMiningJob := by
    simp only [SessionState.handleJob, receiveJob, hclean, if_true,
      SessionState.clearAssignedJobs]
    cases networkTargetHexToDifficulty suite work.networkTargetHex with
    | some nDiff => exact ⟨_, rfl⟩
    | none => exact ⟨_, rfl⟩
  obtain ⟨vardiff, hsession⟩ := hsession
  rw [hsession]
  exact offers_assign hwork (by simp)

/-! ## One move -/

theorem Supplied.workChanged (h : Supplied channel none m) (work : WorkJob) :
    Supplied channel (some work) m where
  begun := h.begun
  next_le := h.next_le
  offers := by
    intro hwaiting s hs
    have hoffers := h.offers hwaiting s hs
    have hsub : ∀ x ∈ newest channel none, x ∈ newest channel (some work) := by
      intro x hx
      simp only [newest, List.mem_append] at hx ⊢
      exact hx.imp_right (by simp)
    constructor
    · intro a ha
      obtain ⟨x, hx, hfor⟩ := hoffers.assigned a ha
      exact ⟨x, hsub x hx, hfor⟩
    · intro hauthorized
      obtain ⟨hne, x, hx, hlast⟩ := hoffers.authorized hauthorized
      exact ⟨hne, x, hsub x hx, hlast⟩

/-- There is now a job to take. -/
theorem Supplied.sendJob (h : Supplied channel unsent m) (work : WorkJob)
    (unsent' : Option WorkJob) : Supplied (B.send channel work) unsent' m where
  begun := h.begun
  next_le := by
    rw [B.sent_send, List.length_append]
    exact Nat.le_add_right_of_le h.next_le
  offers := by
    intro hwaiting
    have hnext := h.next_le
    simp [Channels.waiting] at hwaiting
    omega

theorem supplied_listen (hsent : B.sent channel ≠ []) {s : SessionState}
    (hs : s.isAuthorized = false ∧ s.assignedJobs = []) :
    Supplied channel unsent (⟨some s, B.subscribe channel, [], []⟩ : Miner B ν) where
  begun := by
    rw [B.next_subscribe]
    exact List.length_pos_of_ne_nil hsent
  next_le := (B.next_subscribe channel).le
  offers := by
    rintro _ _ ⟨⟩
    constructor
    · rw [hs.2]
      simp
    · rw [hs.1]
      simp

theorem Supplied.leave (h : Supplied channel unsent m) :
    Supplied channel unsent { m with session := none } where
  begun := h.begun
  next_le := h.next_le
  offers := by simp

theorem Supplied.line {v : Serving B ν} (hstocked : v.Stocked maxSize)
    (hsize : 0 < maxSize) (h : Supplied v.channel v.unsent m)
    (hs : m.session = some s) (now : ℚ) (text : String) :
    Supplied v.channel v.unsent
      (m.afterLine text (s.handleLine suite w (v.around now) text)) := by
  cases hturn : s.handleLine suite w (v.around now) text with
  | none => exact h.leave
  | some r =>
    refine ⟨h.begun, h.next_le, ?_⟩
    rintro hwaiting _ ⟨⟩
    rw [Miner.afterLine, worksOf_append]
    exact (h.offers hwaiting s hs).line hstocked hsize (handleLine_turn suite w hturn)

/-- The last job of the channel is taken. -/
theorem Supplied.job (h : Supplied channel unsent m)
    (hclean : ∀ work ∈ (B.sent channel).tail, work.cleanJobs = true)
    (s : SessionState) {work : WorkJob} {receiver : B.Receiver}
    (hrecv : B.recv channel m.receiver = (.value work, receiver)) :
    Supplied channel unsent (m.afterJob receiver (s.handleJob suite work)) := by
  obtain ⟨hback, hnext⟩ := Channels.next_of_recv hrecv h.next_le
  have hbegun := h.begun
  refine ⟨hbegun.trans hback, hnext, ?_⟩
  rintro hwaiting _ ⟨⟩
  have hlast := Channels.getLast?_of_recv hrecv hwaiting
  -- The job is not the first one of the channel, so it is clean.
  have hmem : work ∈ (B.sent channel).tail := by
    apply List.mem_of_getElem? (i := B.next m.receiver - 1)
    rw [List.getElem?_tail, ← (B.recv_value hrecv).1]
    congr 1
    omega
  rw [Miner.afterJob, worksOf_append]
  exact offers_job (by simp [newest, hlast]) (hclean work hmem) _

/-- After a lag there are jobs to take. -/
theorem Supplied.noJob (h : Supplied channel unsent m)
    (hrecv : ∀ work, (B.recv channel m.receiver).1 ≠ .value work) :
    Supplied channel unsent
      { m with receiver := (B.recv channel m.receiver).2 } := by
  obtain ⟨answer, receiver, heq⟩ : ∃ answer receiver,
      B.recv channel m.receiver = (answer, receiver) := ⟨_, _, rfl⟩
  obtain ⟨hback, hnext⟩ := Channels.next_of_recv heq h.next_le
  rw [heq] at hrecv ⊢
  refine ⟨h.begun.trans hback, hnext, fun hwaiting => ?_⟩
  cases answer with
  | value work => exact absurd rfl (hrecv work)
  | lagged missed =>
    have hlt := (B.recv_lagged heq).2
    simp only [Channels.waiting] at hwaiting
    omega
  | empty =>
    apply h.offers
    rw [Channels.waiting, ← (B.recv_empty heq).2]
    exact hwaiting

/-- The invariant. -/
structure Delivers (maxSize : Nat) (v : Serving B ν) : Prop where
  stocked : v.Stocked maxSize
  opening : ∀ s, v.opening = some s →
    s.isAuthorized = false ∧ s.assignedJobs = []
  supplied : v.Each fun _ m => Supplied v.channel v.unsent m

theorem Delivers.moves (hsize : 0 < maxSize) {v v' : Serving B ν}
    {e : ServingEvent} (h : v.Delivers maxSize)
    (hmove : Moves suite w config v e v') : v'.Delivers maxSize := by
  obtain ⟨hstocked, hopening, hsupplied⟩ := h
  cases hmove with
  | workChanged work hunsent =>
    have hclean : work.announced.cleanJobs = true := rfl
    refine ⟨hstocked.workChanged hunsent hclean rfl rfl rfl rfl, hopening, ?_⟩
    intro i m hm
    have hold := hsupplied i m hm
    rw [hunsent] at hold
    exact hold.workChanged _
  | sendJob work hunsent =>
    refine ⟨hstocked.sendJob hunsent rfl rfl rfl rfl, hopening, ?_⟩
    exact fun i m hm => (hsupplied i m hm).sendJob work none
  | accept now s hs =>
    refine ⟨hstocked.of_eq rfl rfl rfl rfl, ?_, hsupplied⟩
    rintro _ ⟨⟩
    exact newSession_blank hs
  | acceptPanics now =>
    exact ⟨hstocked.of_eq rfl rfl rfl rfl, hopening, hsupplied⟩
  | listen s hs =>
    refine ⟨hstocked.of_eq rfl rfl rfl rfl, ?_, ?_⟩
    · intro _ hnone
      cases hnone
    · intro i m hm
      simp only [List.getElem?_append] at hm
      split at hm
      · exact hsupplied i m hm
      · obtain rfl := List.mem_singleton.1 (List.mem_of_getElem? hm)
        exact supplied_listen hstocked.sent_ne_nil (hopening s hs)
  | line i text now stored m s hm hs =>
    refine ⟨hstocked.of_eq rfl rfl rfl rfl, hopening, ?_⟩
    exact Each.set hsupplied
      ((hsupplied i m hm).line hstocked hsize hs now text) rfl
  | job i m s work receiver hm hs hrecv =>
    refine ⟨hstocked.of_eq rfl rfl rfl rfl, hopening, ?_⟩
    refine Each.set hsupplied ((hsupplied i m hm).job ?_ s hrecv) rfl
    intro x hx
    apply hstocked.clean
    rw [jobs, List.tail_append_of_ne_nil hstocked.sent_ne_nil]
    exact List.mem_append_left _ hx
  | noJob i m hm hrecv =>
    refine ⟨hstocked.of_eq rfl rfl rfl rfl, hopening, ?_⟩
    exact Each.set hsupplied ((hsupplied i m hm).noJob hrecv) rfl
  | leave i m hm =>
    refine ⟨hstocked.of_eq rfl rfl rfl rfl, hopening, ?_⟩
    exact Each.set hsupplied (hsupplied i m hm).leave rfl

theorem delivers_start : (start maxSize initial log : Serving B ν).Delivers maxSize := by
  refine ⟨stocked_start, ?_, ?_⟩
  · intro s hnone
    cases hnone
  · intro i m hm
    simp [start] at hm

theorem delivers_run (hsize : 0 < maxSize) (events : List ServingEvent) :
    ((start maxSize initial log : Serving B ν).run suite w config events).Delivers
      maxSize :=
  run_invariant (fun _ _ _ h hmove => h.moves hsize hmove) delivers_start events

/-! ## The newest job -/

/-- The miner was told last of `work`, which is the latest job.  A submission
for it is not stale and fails for no time stamp, and no submission for another
job is accepted. -/
structure WorksOn (suite : Suite) (v : Serving B ν) (m : Miner B ν)
    (s : SessionState) (work : WorkJob) : Prop where
  latest : v.latest = some work
  told : (worksOf m.written).getLast? = some work
  current : ∀ p : SubmitParams, p.jobId = work.jobId → p.ntimeHex = work.ntime →
    (judge suite s p (v.jobCache.get p.jobId)).validation.rejectReason ∉
      [some .staleJob, some .ntimeMismatch]
  only : ∀ p : SubmitParams,
    (judge suite s p (v.jobCache.get p.jobId)).validation.accepted = true →
      p.jobId = work.jobId ∧ p.ntimeHex = work.ntime

/-- The latest job is in the cache. -/
theorem get_of_latest {v : Serving B ν} {work : WorkJob}
    (h : v.latest = some work) :
    v.jobCache.get work.jobId = some work.toMiningJob := by
  obtain ⟨job, hjob, rfl⟩ := Option.map_eq_some_iff.1 h
  obtain ⟨id, _, hid⟩ := Option.bind_eq_some_iff.1 hjob
  show v.jobCache.get job.jobId = some job
  rw [JobCache.get_some hid]
  exact hid

/-- A job that is only assigned with one id and one time. -/
theorem getAssignedJob_isFor {work : WorkJob}
    (h : ∀ a ∈ s.assignedJobs, a.IsFor work) {jobId : String} {a : AssignedJob}
    (ha : s.getAssignedJob jobId = some a) :
    jobId = work.jobId ∧ a.ntime = work.ntime := by
  have hfor := h a (List.mem_of_find?_eq_some ha)
  have hid : a.jobId = jobId := by simpa using List.find?_some ha
  exact ⟨hid ▸ hfor.1, hfor.2⟩

/-- A submission for an assigned job, with its time. -/
theorem validateShare_rejectReason {p : SubmitParams} {job : MiningJob}
    {a : AssignedJob} (ha : s.getAssignedJob p.jobId = some a)
    (hntime : p.ntimeHex = a.ntime) :
    (validateShare suite p s job).rejectReason ∉
      [some .staleJob, some .ntimeMismatch] := by
  unfold validateShare
  split
  · simp [ValidationResult.rejected]
  split
  · simp [ValidationResult.rejected]
  simp only [ha]
  rw [if_neg (not_not.2 hntime)]
  split
  · simp [ValidationResult.rejected]
  · unfold judgeHeader
    dsimp only
    split
    · split <;> simp [ValidationResult.rejected]
    · simp [ValidationResult.rejected]

/-- A connection that has taken all jobs works on the newest one. -/
theorem Delivers.worksOn (hsize : 0 < maxSize) {v : Serving B ν}
    (h : v.Delivers maxSize) (hsent : v.unsent = none) :
    v.Each fun _ m => ∀ s, m.session = some s → s.isAuthorized = true →
      B.waiting v.channel m.receiver = 0 → ∃ work, WorksOn suite v m s work := by
  intro i m hm s hs hauthorized hwaiting
  have hoffers := (h.supplied i m hm).offers hwaiting s hs
  obtain ⟨hne, work, hwork, htold⟩ := hoffers.authorized hauthorized
  have hlast : (B.sent v.channel).getLast? = some work := by
    simpa [newest, hsent] using hwork
  have hassigned : ∀ a ∈ s.assignedJobs, a.IsFor work := by
    intro a ha
    obtain ⟨work', hwork', hfor⟩ := hoffers.assigned a ha
    have hsame : work' = work := by
      simpa [newest, hsent, hlast] using hwork'
    exact hsame ▸ hfor
  have hlatest : v.latest = some work := by
    rw [h.stocked.latest_eq hsize, jobs, hsent]
    simpa using hlast
  refine ⟨work, hlatest, htold, ?_, ?_⟩
  · intro p hid hntime
    obtain ⟨a, ha⟩ : ∃ a, s.getAssignedJob p.jobId = some a := by
      obtain ⟨b, hb⟩ := List.exists_mem_of_ne_nil _ hne
      apply Option.isSome_iff_exists.1
      rw [SessionState.getAssignedJob, List.find?_isSome]
      exact ⟨b, hb, by simp [(hassigned b hb).1, hid]⟩
    have hfor := getAssignedJob_isFor hassigned ha
    rw [hid, get_of_latest hlatest]
    exact validateShare_rejectReason ha (hntime.trans hfor.2.symm)
  · intro p haccepted
    obtain ⟨job, _, hvalid, _⟩ := judge_accepted suite haccepted
    rw [hvalid] at haccepted
    obtain ⟨_, _, a, _, ha, hntime, _⟩ := validateShare_accepted suite haccepted
    have hfor := getAssignedJob_isFor hassigned ha
    exact ⟨hfor.1, hntime.trans hfor.2⟩

end Serving

section Results

variable {B : Channels WorkJob} {ν : Type} {suite : Suite} {w : Wire ν}
  {config : VarDiffConfig}

open Serving

/-- For every interleaving: when the consumer has sent what it fetched, an
authorized connection that has taken all jobs works on the newest one. -/
theorem current_work {maxSize : Nat} (hsize : 0 < maxSize) (initial : WorkJob)
    (log : List AuthorizationEvent) (events : List ServingEvent)
    (hsent : ((start maxSize initial log : Serving B ν).run suite w config
      events).unsent = none) :
    ((start maxSize initial log : Serving B ν).run suite w config events).Each
      fun _ m => ∀ s, m.session = some s → s.isAuthorized = true →
        B.waiting ((start maxSize initial log : Serving B ν).run suite w config
          events).channel m.receiver = 0 →
        ∃ work, WorksOn suite
          ((start maxSize initial log).run suite w config events) m s work :=
  (delivers_run hsize events).worksOn hsize hsent

/-- A miner that logs in and takes the next job works on it. -/
theorem current_work_sample :
    ∃ m s work, (sampleServing (joins 0 ++ announces 2 ++ [.job 0])).miners[0]? =
        some m ∧ m.session = some s ∧ s.isAuthorized = true ∧
      WorksOn sampleSuite (sampleServing (joins 0 ++ announces 2 ++ [.job 0]))
        m s work := by
  have hrun : (sampleServing (joins 0 ++ announces 2 ++ [.job 0])).unsent = none ∧
      ∃ m ∈ (sampleServing (joins 0 ++ announces 2 ++ [.job 0])).miners[0]?,
        ∃ s ∈ m.session, s.isAuthorized = true ∧
          (queue WorkJob).waiting
            (sampleServing (joins 0 ++ announces 2 ++ [.job 0])).channel
            m.receiver = 0 := by decide +kernel
  obtain ⟨hsent, m, hm, s, hs, hauthorized, hwaiting⟩ := hrun
  obtain ⟨work, hwork⟩ := current_work (show 0 < 512 by decide)
    (sampleWork 1) [] _ hsent 0 m hm s hs hauthorized hwaiting
  exact ⟨m, s, work, hm, hs, hauthorized, hwork⟩

end Results

end StratumServer
