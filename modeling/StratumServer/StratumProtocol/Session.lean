import StratumServer.ShareProcessing.Difficulty
import StratumServer.Lib.Separated

/-!
# Jobs, the job cache and sessions

`MiningJob` and the job cache, `SessionState` with the methods that
`handle_connection` calls, and the parsing of worker names and job ids.

A job is only ever made by `template_to_job`, which writes its id out of its
template id and its epoch.  So `jobId` is a function of the other two here
and cannot disagree with them.
-/

namespace StratumServer

/-! ## Jobs -/

/-- `MiningJob`. -/
structure MiningJob where
  templateId : Nat
  templateEpoch : Nat
  prevhash : String
  coinbase1 : String
  coinbase2 : String
  merkleBranches : List String
  version : String
  nbits : String
  ntime : String
  networkTargetHex : String
  cleanJobs : Bool
  height : Int
  epochHash : String
  extendedMetadataHash : String
  blockSize : Nat
  blockBytes : List UInt8
  coinbaseValue : Nat
  deriving DecidableEq, Repr

/-- The id that `template_to_job` gives a job. -/
def jobIdOf (templateId templateEpoch : Nat) : String :=
  s!"job-{templateId}-{templateEpoch}"

/-- A job id names its template and its epoch. -/
theorem jobIdOf_inj {t t' e e' : Nat} (h : jobIdOf t e = jobIdOf t' e') :
    t = t' ∧ e = e' := by
  have hlist : "job-" ++ t.repr ++ "-" ++ e.repr =
      "job-" ++ t'.repr ++ "-" ++ e'.repr := h
  simp only [String.append_assoc, String.append_right_inj] at hlist
  obtain ⟨ht, he⟩ := Text.repr_sep_inj (c := '-') (by decide) (by decide) hlist
  exact ⟨ht, Text.eq_of_repr he⟩

/-- `MiningJob::job_id`. -/
def MiningJob.jobId (job : MiningJob) : String :=
  jobIdOf job.templateId job.templateEpoch

/-- Two jobs of one template: whether a job is clean is no part of the
template. -/
def MiningJob.SameTemplate (a b : MiningJob) : Prop :=
  { a with cleanJobs := b.cleanJobs } = b

instance (a b : MiningJob) : Decidable (a.SameTemplate b) :=
  inferInstanceAs (Decidable (_ = _))

theorem MiningJob.SameTemplate.refl (a : MiningJob) : a.SameTemplate a := rfl

theorem MiningJob.SameTemplate.symm {a b : MiningJob} (h : a.SameTemplate b) :
    b.SameTemplate a := by
  have hback := congrArg (fun job => { job with cleanJobs := a.cleanJobs }) h
  exact hback.symm

/-- `str::parse::<u64>`: digits, with an optional `+` in front. -/
def parseU64 (cs : List Char) : Option Nat :=
  let digits := if cs.head? = some '+' then cs.tail else cs
  if digits ≠ [] ∧ digits.all Char.isDigit then
    let n := digits.foldl (fun n c => 10 * n + (c.toNat - 48)) 0
    if n < 2 ^ 64 then some n else none
  else none

/-- `parse_template_metadata_from_job_id`: the two numbers around the last
`-` after `job-`. -/
def parseTemplateMetadataFromJobId (jobId : String) : Option (Nat × Nat) :=
  let cs := jobId.toList
  if cs.take 4 = "job-".toList then
    let stripped := cs.drop 4
    if '-' ∈ stripped then
      let epoch := (stripped.reverse.takeWhile (· ≠ '-')).reverse
      let template := stripped.take (stripped.length - epoch.length - 1)
      match parseU64 template, parseU64 epoch with
      | some t, some e => some (t, e)
      | _, _ => none
    else none
  else none

/-! ## The job cache -/

/-- `JobCache`: the order in which ids were inserted, and the jobs that the
cache still holds. -/
structure JobCache where
  maxSize : Nat
  jobOrder : List String
  cache : List MiningJob
  deriving DecidableEq, Repr

namespace JobCache

/-- `JobCache::new`. -/
def new (maxSize : Nat) : JobCache := ⟨maxSize, [], []⟩

/-- The eviction loop of `insert`: ids leave the front of the order, and
their jobs leave the cache, until the order fits. -/
def evict (maxSize : Nat) (order : List String) (cache : List MiningJob) :
    List String × List MiningJob :=
  let oldest := order.take (order.length - maxSize)
  (order.drop (order.length - maxSize),
    cache.filter fun j => !oldest.contains j.jobId)

/-- `JobCache::insert`. -/
def insert (c : JobCache) (job : MiningJob) : JobCache :=
  let (order, cache) := evict c.maxSize (c.jobOrder ++ [job.jobId]) c.cache
  { c with jobOrder := order,
           cache := cache.filter (·.jobId ≠ job.jobId) ++ [job] }

/-- `JobCache::get`. -/
def get (c : JobCache) (jobId : String) : Option MiningJob :=
  c.cache.find? (·.jobId == jobId)

/-- `JobCache::get_latest`. -/
def getLatest (c : JobCache) : Option MiningJob :=
  c.jobOrder.getLast?.bind c.get

theorem get_some {c : JobCache} {jobId : String} {job : MiningJob}
    (h : c.get jobId = some job) : job.jobId = jobId := by
  have hfound := List.find?_some h
  simpa using hfound

theorem mem_insert {c : JobCache} {job job' : MiningJob}
    (h : job' ∈ (c.insert job).cache) : job' ∈ c.cache ∨ job' = job := by
  rcases List.mem_append.1 h with hold | hnew
  · exact Or.inl (List.mem_of_mem_filter (List.mem_of_mem_filter hold))
  · exact Or.inr (List.mem_singleton.1 hnew)

end JobCache

/-! ## Worker names -/

/-- `WorkerName`. -/
structure WorkerName where
  payoutAddress : String
  workerSuffix : Option String
  deriving DecidableEq, Repr

/-- `parse_worker_name`.  `isLotusAddress` stands for the parser of the
address type, which is not part of the repository. -/
def parseWorkerName (isLotusAddress : String → Bool) (input : String) :
    Option WorkerName :=
  let cs := input.toList
  let address := String.ofList (cs.takeWhile (· ≠ '.'))
  let suffix :=
    if '.' ∈ cs then some (String.ofList ((cs.dropWhile (· ≠ '.')).tail))
    else none
  if !isLotusAddress address then none
  else if suffix = some "" then none
  else some { payoutAddress := address, workerSuffix := suffix }

/-- A parsed name has no empty suffix. -/
theorem parseWorkerName_suffix {isLotusAddress : String → Bool}
    {input : String} {name : WorkerName}
    (h : parseWorkerName isLotusAddress input = some name) :
    name.workerSuffix.filter (· ≠ "") = name.workerSuffix := by
  have hne : name.workerSuffix ≠ some "" := by
    unfold parseWorkerName at h
    dsimp only at h
    generalize (if '.' ∈ input.toList then _ else none) = suffix at h
    split_ifs at h with _ hsuffix
    cases h
    exact hsuffix
  cases hsuffix : name.workerSuffix with
  | none => rfl
  | some suffix =>
    rw [hsuffix] at hne
    have hsuffix' : suffix ≠ "" := fun heq => hne (congrArg some heq)
    simp [Option.filter, hsuffix']

/-! ## Sessions -/

/-- `AssignedJob`. -/
structure AssignedJob where
  jobId : String
  pDiff : ℚ
  ntime : String
  deriving DecidableEq, Repr

/-- `MAX_ASSIGNED_JOBS_PER_SESSION`. -/
def maxAssignedJobsPerSession : Nat := 128

/-- `SessionState`. -/
structure SessionState where
  sessionId : String
  extranonce1 : String
  isSubscribed : Bool := false
  isAuthorized : Bool := false
  authorizedWorkers : List String := []
  assignedJobs : List AssignedJob := []
  vardiff : VarDiff
  deriving DecidableEq, Repr

namespace SessionState

/-- `SessionState::get_assigned_job`: the first match. -/
def getAssignedJob (s : SessionState) (jobId : String) : Option AssignedJob :=
  s.assignedJobs.find? (·.jobId == jobId)

/-- `SessionState::record_assigned_job`: the oldest job leaves when the list
is full. -/
def recordAssignedJob (s : SessionState) (jobId : String) (pDiff : ℚ)
    (ntime : String) : SessionState :=
  let kept :=
    if maxAssignedJobsPerSession ≤ s.assignedJobs.length then
      s.assignedJobs.tail
    else s.assignedJobs
  { s with assignedJobs := kept ++ [⟨jobId, pDiff, ntime⟩] }

/-- `SessionState::clear_assigned_jobs`. -/
def clearAssignedJobs (s : SessionState) : SessionState :=
  { s with assignedJobs := [] }

/-- `SessionState::current_difficulty`. -/
def currentDifficulty (s : SessionState) : ℚ := s.vardiff.current

end SessionState

end StratumServer
