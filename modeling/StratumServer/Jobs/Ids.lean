import StratumServer.NodeIntegration.Template
import StratumServer.StratumProtocol.Server

/-!
# Job ids

`template_to_job` writes the id of a job from its template and its epoch, and
`parse_template_metadata_from_job_id` reads the two back.  `handle_submit`
does so for a job that has left the cache while the session still has it
assigned, so that the share is filed under the key that it would have had
with the job in the cache.

`jobIds_roundTrip` puts this together.  The digits are read back by
`parseU64_repr`, and the last `-` of an id is the one in front of the epoch
because digits contain none.
-/

namespace StratumServer

/-! ## Reading an id -/

/-- A number that fits into a `u64` is read back from its digits. -/
theorem parseU64_repr {n : Nat} (h : n < 2 ^ 64) :
    parseU64 n.repr.toList = some n := by
  rw [Nat.toList_repr]
  have hdigits : ∀ c ∈ Nat.toDigits 10 n, c.isDigit = true := fun c hc =>
    Nat.isDigit_of_mem_toDigits (by decide) (by decide) hc
  have hsign : (Nat.toDigits 10 n).head? ≠ some '+' := by
    intro hhead
    have hplus := hdigits '+' (List.mem_of_head? hhead)
    cases hplus
  have hvalue : (Nat.toDigits 10 n).foldl
      (fun n c => 10 * n + (c.toNat - 48)) 0 = n := by
    have hback := Nat.ofDigitChars_ten_toDigits (n := n)
    rw [Nat.ofDigitChars_eq_foldl] at hback
    exact hback
  unfold parseU64
  rw [if_neg hsign]
  dsimp only
  rw [if_pos ⟨Nat.toDigits_ne_nil, List.all_eq_true.2 hdigits⟩, hvalue,
    if_pos h]

/-- The id of a job gives its template and its epoch. -/
theorem parseTemplateMetadata_jobIdOf {t e : Nat} (ht : t < 2 ^ 64)
    (he : e < 2 ^ 64) :
    parseTemplateMetadataFromJobId (jobIdOf t e) = some (t, e) := by
  have hid : (jobIdOf t e).toList =
      "job-".toList ++ (t.repr.toList ++ '-' :: e.repr.toList) := by
    have htext : jobIdOf t e = "job-" ++ t.repr ++ "-" ++ e.repr := rfl
    rw [htext]
    simp only [String.toList_append, List.append_assoc]
    rfl
  have hprefix : "job-".toList.length = 4 := by decide
  have hepoch := Text.takeWhile_reverse_sep (l := t.repr.toList)
    (Text.notMem_repr (c := '-') (by decide) e)
  have hlength : (t.repr.toList ++ '-' :: e.repr.toList).length -
      e.repr.toList.length - 1 = t.repr.toList.length := by
    rw [List.length_append, List.length_cons]
    omega
  unfold parseTemplateMetadataFromJobId
  dsimp only
  rw [hid, List.take_left' hprefix, if_pos rfl, List.drop_left' hprefix,
    if_pos (by simp), hepoch, hlength, List.take_left, parseU64_repr ht,
    parseU64_repr he]

/-! ## A job that has left the cache -/

/-- The dedupe key of a submission that `handle_submit` records, with what
the cache gave for its job. -/
def submittedKey (suite : Suite) (session : SessionState) (p : SubmitParams)
    (cachedJob : Option MiningJob) (name : WorkerName) (workerId : Nat) :
    String :=
  (shareRecord session p (judge suite session p cachedJob) name).dedupeKey
    workerId

/-- The key does not depend on whether an assigned job is still cached. -/
theorem submittedKey_evicted (suite : Suite) {session : SessionState}
    {p : SubmitParams} {job : MiningJob} (hid : p.jobId = job.jobId)
    (hassigned : (session.getAssignedJob p.jobId).isSome = true)
    (ht : job.templateId < 2 ^ 64) (he : job.templateEpoch < 2 ^ 64)
    (name : WorkerName) (workerId : Nat) :
    submittedKey suite session p none name workerId =
      submittedKey suite session p (some job) name workerId := by
  obtain ⟨assigned, hassigned⟩ := Option.isSome_iff_exists.1 hassigned
  have hparsed : parseTemplateMetadataFromJobId p.jobId =
      some (job.templateId, job.templateEpoch) := by
    rw [hid]
    exact parseTemplateMetadata_jobIdOf ht he
  unfold submittedKey ShareRecord.dedupeKey shareRecord judge
  simp only [hassigned, hparsed, Option.getD_some]

/-! ## The result -/

/-- What the ids of the jobs of one template and one epoch are to satisfy. -/
structure RoundTrips (suite : Suite) (t e : UInt64) : Prop where
  parsed : ∀ template cleanJobs job,
    template.templateId = t.toNat → template.curtime = e.toNat →
    templateToJob suite template cleanJobs = .ok job →
    parseTemplateMetadataFromJobId job.jobId = some (t.toNat, e.toNat)
  distinct : ∀ t' e' : UInt64,
    jobIdOf t.toNat e.toNat = jobIdOf t'.toNat e'.toNat → t = t' ∧ e = e'
  /-- For every job with this id, and every session that it is assigned to. -/
  sameKey : ∀ (job : MiningJob) (session : SessionState) (p : SubmitParams)
    (name : WorkerName) (workerId : Nat),
    job.jobId = jobIdOf t.toNat e.toNat → p.jobId = job.jobId →
    (session.getAssignedJob p.jobId).isSome = true →
    submittedKey suite session p none name workerId =
      submittedKey suite session p (some job) name workerId

/-- Job ids round-trip, for all template ids and epochs. -/
theorem jobIds_roundTrip (suite : Suite) (t e : UInt64) :
    RoundTrips suite t e := by
  have ht := t.toNat_lt
  have he := e.toNat_lt
  constructor
  · intro template cleanJobs job hid hcurtime hjob
    rw [(templateToJob_ok suite hjob).jobId, hid, hcurtime]
    exact parseTemplateMetadata_jobIdOf ht he
  · intro t' e' hsame
    obtain ⟨htemplate, hepoch⟩ := jobIdOf_inj hsame
    exact ⟨UInt64.toNat_inj.1 htemplate, UInt64.toNat_inj.1 hepoch⟩
  · intro job session p name workerId hjob hp hassigned
    obtain ⟨htemplate, hepoch⟩ := jobIdOf_inj hjob
    exact submittedKey_evicted suite hp hassigned (htemplate ▸ ht)
      (hepoch ▸ he) name workerId

end StratumServer
