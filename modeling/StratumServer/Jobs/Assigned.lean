import StratumServer.Lib.Recent
import StratumServer.StratumProtocol.Session

/-!
# The jobs of a session

A session remembers the jobs that were sent to the miner, each with its
difficulty, in a queue of at most 128 entries.  `get_assigned_job` searches
the queue from the front.  So when a job is sent again, as to a second worker
that is authorized on the session, the record that it finds is the first one,
and the miner was told the difficulty of the second.

`assignedJobs_calls` describes the queue after any sequence of calls, and
`latestWins_iff` says after which of them the newest record is found for
every job.
-/

namespace StratumServer

open Recent

/-! ## The calls -/

/-- The two calls that change the queue. -/
inductive AssignCall
  | record (assigned : AssignedJob)
  | clear
  deriving DecidableEq, Repr

/-- The session after a call. -/
def SessionState.assignCall (s : SessionState) : AssignCall → SessionState
  | .record a => s.recordAssignedJob a.jobId a.pDiff a.ntime
  | .clear => s.clearAssignedJobs

/-- The record that a call makes. -/
def AssignCall.assigned? : AssignCall → Option AssignedJob
  | .record a => some a
  | .clear => none

/-- The records since the last `clear_assigned_jobs`, the oldest first. -/
def recordsSinceClear (calls : List AssignCall) : List AssignedJob :=
  (calls.rtakeWhile (· ≠ .clear)).filterMap AssignCall.assigned?

/-- The records that count: the last 128 since the last clear. -/
def recentRecords (calls : List AssignCall) : List AssignedJob :=
  (recordsSinceClear calls).rtake maxAssignedJobsPerSession

theorem recordsSinceClear_record (calls : List AssignCall) (a : AssignedJob) :
    recordsSinceClear (calls ++ [.record a]) = recordsSinceClear calls ++ [a] := by
  unfold recordsSinceClear
  rw [List.rtakeWhile_concat_pos _ _ _ (by simp), List.filterMap_append]
  rfl

theorem recordsSinceClear_clear (calls : List AssignCall) :
    recordsSinceClear (calls ++ [.clear]) = [] := by
  unfold recordsSinceClear
  rw [List.rtakeWhile_concat_neg _ _ _ (by simp), List.filterMap_nil]

/-! ## The queue -/

theorem recordAssignedJob_assignedJobs (s : SessionState) (a : AssignedJob) :
    (s.recordAssignedJob a.jobId a.pDiff a.ntime).assignedJobs =
      push maxAssignedJobsPerSession s.assignedJobs a := rfl

/-- The queue holds the last 128 records since the last clear. -/
theorem assignedJobs_calls {s : SessionState} (hnew : s.assignedJobs = [])
    (calls : List AssignCall) :
    (calls.foldl SessionState.assignCall s).assignedJobs =
      recentRecords calls := by
  induction calls using List.reverseRecOn with
  | nil => exact hnew
  | append_singleton calls call ih =>
    rw [List.foldl_append, List.foldl_cons, List.foldl_nil]
    cases call with
    | record a =>
      rw [SessionState.assignCall, recordAssignedJob_assignedJobs, ih,
        recentRecords, recentRecords, recordsSinceClear_record,
        push_rtake (by decide)]
    | clear =>
      rw [recentRecords, recordsSinceClear_clear, List.rtake_nil]
      rfl

/-! ## The result -/

/-- After the calls the queue has at most 128 entries, and the lookup of a
job gives its newest record among those that count. -/
structure LatestWins (s : SessionState) (calls : List AssignCall) : Prop where
  bounded : (calls.foldl SessionState.assignCall s).assignedJobs.length ≤ 128
  latest : ∀ jobId,
    (calls.foldl SessionState.assignCall s).getAssignedJob jobId =
      (recentRecords calls).reverse.find? (·.jobId == jobId)

/-- For every new session and every sequence of calls, the lookups give the
newest records if and only if the oldest and the newest record of each job
agree, among those that count. -/
theorem latestWins_iff {s : SessionState} (hnew : s.assignedJobs = [])
    (calls : List AssignCall) :
    LatestWins s calls ↔ EndsAgree AssignedJob.jobId (recentRecords calls) := by
  have hqueue := assignedJobs_calls hnew calls
  rw [← find?_eq_find?_reverse_iff]
  constructor
  · intro h jobId
    rw [← h.latest jobId, SessionState.getAssignedJob, hqueue]
  · intro h
    constructor
    · rw [hqueue, recentRecords, length_rtake]
      exact Nat.min_le_left _ _
    · intro jobId
      rw [← h jobId, SessionState.getAssignedJob, hqueue]

/-- A session that has not been sent a job. -/
def unassignedSession : SessionState where
  sessionId := "sess-1"
  extranonce1 := "00000001"
  vardiff := ⟨{}, 1, 1, 0, []⟩

/-- A job, a clean job and one more. -/
def assignCalls : List AssignCall :=
  [.record ⟨"job-7-1", 1, "6adc0c6a0000"⟩, .clear,
    .record ⟨"job-8-1", 2, "6bdc0c6a0000"⟩,
    .record ⟨"job-9-1", 1, "6cdc0c6a0000"⟩]

theorem latestWins_sample : unassignedSession.assignedJobs = [] ∧
    EndsAgree AssignedJob.jobId (recentRecords assignCalls) ∧
    LatestWins unassignedSession assignCalls := by
  have hagree : EndsAgree AssignedJob.jobId (recentRecords assignCalls) :=
    endsAgree_of_nodup (by decide)
  exact ⟨rfl, hagree, (latestWins_iff rfl assignCalls).2 hagree⟩

/-- A job that is sent again, with half the difficulty. -/
def resendCalls : List AssignCall :=
  [.record ⟨"job-7-1", 2, "6adc0c6a0000"⟩,
    .record ⟨"job-7-1", 1, "6adc0c6a0000"⟩]

/-- The lookup still gives the first record. -/
theorem latestWins_fails :
    (resendCalls.foldl SessionState.assignCall unassignedSession).getAssignedJob
      "job-7-1" = some ⟨"job-7-1", 2, "6adc0c6a0000"⟩ ∧
    ¬ LatestWins unassignedSession resendCalls := by
  have hfirst : (resendCalls.foldl SessionState.assignCall
      unassignedSession).getAssignedJob "job-7-1" =
        some ⟨"job-7-1", 2, "6adc0c6a0000"⟩ := by
    decide
  refine ⟨hfirst, fun h => ?_⟩
  have hlatest := h.latest "job-7-1"
  rw [hfirst] at hlatest
  exact absurd hlatest (by decide)

end StratumServer
