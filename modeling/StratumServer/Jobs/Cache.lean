import Mathlib.Data.List.Nodup
import Mathlib.Data.List.Perm.Subperm
import StratumServer.Lib.Recent
import StratumServer.StratumProtocol.Session

/-!
# The job cache

The cache keeps the ids of the jobs in the order in which they came, and the
jobs themselves in a map.  When there are more than `max_size` ids, the oldest
one is taken out of both.  A job that comes again has its id in the order
twice, but the map has one entry for it: when the first id leaves the order,
the entry of the second job is invalidated with it.

`get_inserts` says what a lookup gives after any sequence of inserts.
`newestKept_iff` says after which sequences the newest jobs are all there.
`cache_fits` is what the map needs in order to keep its entries: at no time
does it hold more than `max_size` of them.
-/

namespace StratumServer

open Recent

namespace JobCache

/-! ## One insert -/

theorem insert_maxSize (c : JobCache) (job : MiningJob) :
    (c.insert job).maxSize = c.maxSize := rfl

theorem insert_jobOrder (c : JobCache) (job : MiningJob) :
    (c.insert job).jobOrder = (c.jobOrder ++ [job.jobId]).rtake c.maxSize := rfl

/-- The ids that an insert takes out of the order. -/
def evictedIds (c : JobCache) (job : MiningJob) : List String :=
  (c.jobOrder ++ [job.jobId]).take
    ((c.jobOrder ++ [job.jobId]).length - c.maxSize)

theorem insert_cache (c : JobCache) (job : MiningJob) :
    (c.insert job).cache = (c.cache.filter fun j =>
      decide (j.jobId ∉ c.evictedIds job ∧ j.jobId ≠ job.jobId)) ++ [job] := by
  have hcache : (c.insert job).cache = ((c.cache.filter fun j =>
      !(c.evictedIds job).contains j.jobId).filter
        (·.jobId ≠ job.jobId)) ++ [job] := rfl
  rw [hcache, List.filter_filter]
  congr 2
  funext j
  simp [and_comm]

/-- What a lookup gives after an insert. -/
theorem get_insert (c : JobCache) (job : MiningJob) (jobId : String) :
    (c.insert job).get jobId = if job.jobId = jobId then some job
      else if jobId ∈ c.evictedIds job then none else c.get jobId := by
  unfold get
  rw [insert_cache, List.find?_append, List.find?_filter]
  by_cases hnew : job.jobId = jobId
  · rw [if_pos hnew, List.find?_cons_of_pos (by simpa using hnew)]
    -- What is left of the old entries has another id.
    refine Option.or_eq_some_iff.2 (Or.inr ⟨List.find?_eq_none.2 ?_, rfl⟩)
    intro j _
    simp [hnew]
  · rw [if_neg hnew, List.find?_cons_of_neg (by simpa using hnew),
      List.find?_nil, Option.or_none]
    split
    · rename_i hout
      rw [List.find?_eq_none]
      rintro j _ hj
      simp only [decide_eq_true_eq, beq_iff_eq] at hj
      exact hj.1.1 (hj.2 ▸ hout)
    · rename_i hin
      congr 1
      funext j
      by_cases hj : j.jobId = jobId
      · simp [hj, hin, Ne.symm hnew]
      · simp [hj]

/-- An id of the order is taken out of it or stays. -/
theorem evicted_or_kept (c : JobCache) (job : MiningJob) {id : String}
    (hid : id ∈ c.jobOrder ++ [job.jobId]) :
    id ∈ c.evictedIds job ∨ id ∈ (c.insert job).jobOrder := by
  rw [← List.take_append_drop
    ((c.jobOrder ++ [job.jobId]).length - c.maxSize)
    (c.jobOrder ++ [job.jobId])] at hid
  exact List.mem_append.1 hid

/-- The new id stays. -/
theorem mem_insert_jobOrder (c : JobCache) (job : MiningJob)
    (hsize : 0 < c.maxSize) : job.jobId ∈ (c.insert job).jobOrder := by
  obtain ⟨m, hm⟩ := Nat.exists_eq_succ_of_ne_zero hsize.ne'
  rw [insert_jobOrder, hm, List.rtake_concat_succ]
  exact List.mem_append_right _ (List.mem_singleton.2 rfl)

/-- The ids of the jobs in the map are different, and they are in the
order. -/
structure Keyed (c : JobCache) : Prop where
  nodup : (c.cache.map (·.jobId)).Nodup
  ordered : ∀ j ∈ c.cache, j.jobId ∈ c.jobOrder

theorem Keyed.insert {c : JobCache} (h : c.Keyed) (hsize : 0 < c.maxSize)
    (job : MiningJob) : (c.insert job).Keyed := by
  constructor
  · rw [insert_cache, List.map_append]
    refine List.nodup_append.2 ⟨?_, List.nodup_singleton _, ?_⟩
    · exact (List.Sublist.map _ List.filter_sublist).nodup h.nodup
    · rintro id hid _ hnew rfl
      obtain ⟨j, hj, rfl⟩ := List.mem_map.1 hid
      have hkept := of_decide_eq_true (List.mem_filter.1 hj).2
      exact hkept.2 (List.mem_singleton.1 hnew)
  · intro j hj
    rw [insert_cache] at hj
    rcases List.mem_append.1 hj with hold | hnew
    · obtain ⟨hj, hkept⟩ := List.mem_filter.1 hold
      have hin := List.mem_append_left [job.jobId] (h.ordered j hj)
      exact (c.evicted_or_kept job hin).resolve_left (of_decide_eq_true hkept).1
    · rw [List.mem_singleton.1 hnew]
      exact c.mem_insert_jobOrder job hsize

/-! ## A sequence of inserts -/

/-- The cache after a sequence of inserts. -/
def inserts (n : Nat) (jobs : List MiningJob) : JobCache :=
  jobs.foldl insert (new n)

theorem inserts_concat (n : Nat) (jobs : List MiningJob) (job : MiningJob) :
    inserts n (jobs ++ [job]) = (inserts n jobs).insert job := by
  rw [inserts, List.foldl_append]
  rfl

theorem inserts_maxSize (n : Nat) (jobs : List MiningJob) :
    (inserts n jobs).maxSize = n := by
  induction jobs using List.reverseRecOn with
  | nil => rfl
  | append_singleton jobs job ih => rw [inserts_concat, insert_maxSize, ih]

variable {n : Nat} (hn : 0 < n)

include hn

/-- The order has the last `n` ids. -/
theorem inserts_jobOrder (jobs : List MiningJob) :
    (inserts n jobs).jobOrder = (jobs.map (·.jobId)).rtake n := by
  induction jobs using List.reverseRecOn with
  | nil => rw [List.map_nil, List.rtake_nil]; rfl
  | append_singleton jobs job ih =>
    rw [inserts_concat, insert_jobOrder, ih, inserts_maxSize,
      rtake_rtake_concat hn, List.map_append]
    rfl

/-- An insert takes out the id `n` places before it. -/
theorem evictedIds_inserts (jobs : List MiningJob) (job : MiningJob) :
    (inserts n jobs).evictedIds job =
      (jobs.reverse[n - 1]?.map (·.jobId)).toList := by
  unfold evictedIds
  rw [inserts_jobOrder hn, inserts_maxSize, take_rtake_concat hn,
    ← List.map_reverse, List.getElem?_map]

/-- What a lookup gives after the inserts. -/
theorem get_inserts (jobs : List MiningJob) (jobId : String) :
    (inserts n jobs).get jobId =
      survivor n MiningJob.jobId jobId jobs.reverse := by
  induction jobs using List.reverseRecOn with
  | nil => rfl
  | append_singleton jobs job ih =>
    rw [inserts_concat, get_insert, ih, evictedIds_inserts hn,
      List.reverse_append, List.reverse_singleton, List.singleton_append,
      survivor]
    simp only [Option.mem_toList]

theorem keyed_inserts (jobs : List MiningJob) : (inserts n jobs).Keyed := by
  induction jobs using List.reverseRecOn with
  | nil => exact ⟨List.nodup_nil, fun _ hj => nomatch hj⟩
  | append_singleton jobs job ih =>
    rw [inserts_concat]
    exact ih.insert (by rw [inserts_maxSize]; exact hn) job

/-- The map never holds more than `n` jobs. -/
theorem cache_fits (jobs : List MiningJob) :
    (inserts n jobs).cache.length ≤ n := by
  have hkeyed := keyed_inserts hn jobs
  have hsubset : (inserts n jobs).cache.map (·.jobId) ⊆
      (inserts n jobs).jobOrder := by
    intro id hid
    obtain ⟨j, hj, rfl⟩ := List.mem_map.1 hid
    exact hkeyed.ordered j hj
  calc (inserts n jobs).cache.length
      = ((inserts n jobs).cache.map (·.jobId)).length :=
      (List.length_map _).symm
    _ ≤ (inserts n jobs).jobOrder.length :=
      (List.subperm_of_subset hkeyed.nodup hsubset).length_le
    _ = min n (jobs.map (·.jobId)).length := by
      rw [inserts_jobOrder hn, length_rtake]
    _ ≤ n := Nat.min_le_left _ _

/-- The latest job is the last one that was inserted. -/
theorem getLatest_inserts (jobs : List MiningJob) :
    (inserts n jobs).getLatest = jobs.getLast? := by
  unfold getLatest
  rw [inserts_jobOrder hn]
  rcases jobs.eq_nil_or_concat with rfl | ⟨jobs, job, rfl⟩
  · rw [List.map_nil, List.rtake_nil]
    rfl
  · obtain ⟨m, rfl⟩ := Nat.exists_eq_succ_of_ne_zero hn.ne'
    rw [List.concat_eq_append, List.map_append, List.map_singleton,
      List.rtake_concat_succ,
      List.getLast?_concat, Option.bind_some, List.getLast?_concat,
      inserts_concat, get_insert, if_pos rfl]

end JobCache

/-! ## The result -/

/-- After the inserts the latest job is the last one, the lookup of an id
that one of the last `n` jobs has gives the last job with that id, and no
other id is there. -/
structure NewestKept (n : Nat) (jobs : List MiningJob) : Prop where
  latest : (JobCache.inserts n jobs).getLatest = jobs.getLast?
  kept : ∀ jobId ∈ (jobs.rtake n).map (·.jobId),
    (JobCache.inserts n jobs).get jobId = jobs.reverse.find? (·.jobId == jobId)
  gone : ∀ jobId ∉ (jobs.rtake n).map (·.jobId),
    (JobCache.inserts n jobs).get jobId = none

/-- For every size and every sequence of inserts, the newest jobs are kept if
and only if no job takes a newer one with its id along when it leaves. -/
theorem newestKept_iff {n : Nat} (hn : 1 ≤ n) (jobs : List MiningJob) :
    NewestKept n jobs ↔ LeavesAlone MiningJob.jobId n jobs := by
  rw [← survivor_newest_iff]
  constructor
  · intro h jobId hrecent
    rw [← JobCache.get_inserts hn, h.kept jobId hrecent]
  · intro h
    refine ⟨JobCache.getLatest_inserts hn jobs, ?_, ?_⟩
    · intro jobId hrecent
      rw [JobCache.get_inserts hn, h jobId hrecent]
    · intro jobId hold
      rw [JobCache.get_inserts hn]
      exact survivor_none hn fun c hc hid => hold (mem_rtake_keys.2 ⟨c, hc, hid⟩)

/-- A job for the block at a height. -/
def cachedJob (templateId : Nat) (height : Int) : MiningJob where
  templateId := templateId
  templateEpoch := 1
  prevhash := ""
  coinbase1 := ""
  coinbase2 := ""
  merkleBranches := []
  version := ""
  nbits := ""
  ntime := "6adc0c6a0000"
  networkTargetHex := ""
  cleanJobs := false
  height := height
  epochHash := ""
  extendedMetadataHash := ""
  blockSize := 0
  blockBytes := []
  coinbaseValue := 0

/-- Three templates in a cache for two jobs. -/
theorem newestKept_sample :
    NewestKept 2 [cachedJob 7 100, cachedJob 8 101, cachedJob 9 102] :=
  (newestKept_iff (by decide) _).2 (leavesAlone_of_nodup (by decide))

/-- The node gives one template twice and then the next one.  The first id
leaves the order, and the job that was inserted second is gone. -/
theorem newestKept_fails :
    (JobCache.inserts 2 [cachedJob 7 100, cachedJob 7 100, cachedJob 8 101]).get
      "job-7-1" = none ∧
    ¬ NewestKept 2 [cachedJob 7 100, cachedJob 7 100, cachedJob 8 101] := by
  have hgone : (JobCache.inserts 2
      [cachedJob 7 100, cachedJob 7 100, cachedJob 8 101]).get "job-7-1" = none := by
    decide
  refine ⟨hgone, fun h => ?_⟩
  have hkept := h.kept "job-7-1" (by decide)
  rw [hgone] at hkept
  exact absurd hkept (by decide)

end StratumServer
