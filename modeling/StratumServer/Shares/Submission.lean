import StratumServer.Shares.Ledger

/-!
# Submissions and their rows

The submission that a session is handling, and the rows that stand for it.

There are three groups.

* The submission behind an answer.  `submissionOf` reads it off the log: the
  request, the session, the job that the cache gave and the worker name.
* The rows.  `RowFor` says that a share and its outcome stand under the
  dedupe key of a submission, `Records` that they are of this very
  submission.  `records_of_accepted` tells when the first gives the second.
* Jobs.  Two submissions of the same texts can only differ in their block
  hash when their jobs have one id and two templates; `OneTemplate` says
  that the node gives no such jobs.
-/

namespace StratumServer

open Sql Tasks

/-! ## The submission behind an answer -/

/-- A submission with what it was judged by. -/
structure Submission where
  params : SubmitParams
  session : SessionState
  job : MiningJob
  name : WorkerName

/-- The job that a request was judged against. -/
def judgedJob (done : Done) : Option MiningJob :=
  done.findSome? fun x =>
    match x with
    | ⟨.jobCacheGet _, job⟩ => job
    | _ => none

/-- A statement that the database has refused. -/
def refused : (o : Op) × o.Res → Bool
  | ⟨.db _, .error _⟩ => true
  | _ => false

/-- Every statement of a piece of work has succeeded. -/
def StatementsSucceed (done : Done) : Prop := ∀ x ∈ done, refused x = false

instance (done : Done) : Decidable (StatementsSucceed done) :=
  inferInstanceAs (Decidable (∀ _ ∈ _, _))

/-- An insertion of a submission that was not reported as a duplicate. -/
def insertedNew : (o : Op) × o.Res → Bool
  | ⟨.db (.insertShareAndOutcomeAtomic _ _), .ok (_, _, isNew)⟩ => isNew
  | _ => false

/-- The submission that session `i` is handling. -/
def submissionOf (suite : Suite) (w : PoolWorld) (i : Nat) :
    Option Submission :=
  match (current (.session i) w.log).1, w.shared.sessions i,
      judgedJob (current (.session i) w.log).2 with
  | some (.submit p), some session, some job =>
    (parseWorkerName suite.isLotusAddress p.workerName).map fun name =>
      ⟨p, session, job, name⟩
  | _, _, _ => none

/-! ## The rows of a submission -/

/-- The dedupe key of a submission for a worker id. -/
def Submission.dedupeKey (x : Submission) (workerId : Nat) : String :=
  ShareRepository.buildDedupeKey workerId x.job.templateId x.job.templateEpoch
    x.params.extranonce2 x.params.ntimeHex x.params.nonceHex

/-- The share and its outcome stand under the dedupe key of the submission,
for a worker of its name. -/
def RowFor (db : Database) (x : Submission) (s : Share) (o : ShareOutcome) :
    Prop :=
  o.shareId = s.id ∧ ∃ worker ∈ db.workers.rows,
    worker.payoutAddress = x.name.payoutAddress ∧
    worker.workerSuffix = x.name.workerSuffix ∧ s.workerId = worker.id ∧
    s.dedupeKey = x.dedupeKey worker.id

instance (db : Database) (x : Submission) (s : Share) (o : ShareOutcome) :
    Decidable (RowFor db x s o) :=
  inferInstanceAs (Decidable (_ ∧ ∃ _ ∈ _, _))

/-- The share and its outcome are of this very submission, which was
accepted. -/
def Records (suite : Suite) (x : Submission) (s : Share) (o : ShareOutcome) :
    Prop :=
  o.status = .accepted ∧ s.extranonce1 = x.session.extranonce1 ∧
    s.jobId = x.params.jobId ∧ s.extranonce2 = x.params.extranonce2 ∧
    s.ntimeHex6b = x.params.ntimeHex ∧ s.nonceHex8b = x.params.nonceHex ∧
    o.blockHash = (validateShare suite x.params x.session x.job).blockHash

instance (suite : Suite) (x : Submission) (s : Share) (o : ShareOutcome) :
    Decidable (Records suite x s o) :=
  inferInstanceAs (Decidable (_ ∧ _ ∧ _ ∧ _ ∧ _ ∧ _ ∧ _))

/-- The tables hold an accepted row of this very submission. -/
def Recorded (suite : Suite) (db : Database) (x : Submission) : Prop :=
  ∃ s ∈ db.shares.rows, ∃ o ∈ db.shareOutcomes.rows,
    RowFor db x s o ∧ Records suite x s o

instance (suite : Suite) (db : Database) (x : Submission) :
    Decidable (Recorded suite db x) :=
  inferInstanceAs (Decidable (∃ _ ∈ _, ∃ _ ∈ _, _))

/-- The tables hold a row under the dedupe key of the submission.  It is of
this very submission when the insertion was not reported as a duplicate, and
also when the earlier row was accepted from the same extranonce. -/
def Stored (suite : Suite) (db : Database) (isNew : Bool) (x : Submission) :
    Prop :=
  ∃ s ∈ db.shares.rows, ∃ o ∈ db.shareOutcomes.rows, RowFor db x s o ∧
    (isNew = true ∨ o.status = .accepted ∧
        s.extranonce1 = x.session.extranonce1 →
      Records suite x s o)

instance (suite : Suite) (db : Database) (isNew : Bool) (x : Submission) :
    Decidable (Stored suite db isNew x) :=
  inferInstanceAs (Decidable (∃ _ ∈ _, ∃ _ ∈ _, _))

/-! ## Jobs -/

/-- The job that an entry of the log puts into the cache. -/
def insertedJob : PoolEntry → Option MiningJob
  | .did _ (.jobCacheInsert job) _ => some job
  | _ => none

/-- The jobs that have been put into the cache. -/
def insertedJobs (log : List PoolEntry) : List MiningJob :=
  log.filterMap insertedJob

/-- What the node promises: a template id with its epoch names one template.
A job that is put into the cache has the template of every earlier one with
its id. -/
def OneTemplate (w : PoolWorld) (e : PoolEntry) : Prop :=
  ∀ job ∈ insertedJob e, ∀ job' ∈ insertedJobs w.log,
    job'.jobId = job.jobId → job'.SameTemplate job

instance (w : PoolWorld) (e : PoolEntry) : Decidable (OneTemplate w e) :=
  inferInstanceAs (Decidable (∀ _ ∈ _, ∀ _ ∈ _, _))

/-! ## Where an accepted row comes from -/

/-- The share and the outcome come from an accepted submission for a job. -/
def FromJob (suite : Suite) (job : MiningJob) (s : Share) (o : ShareOutcome) :
    Prop :=
  ∃ (p : SubmitParams) (session : SessionState), p.jobId = job.jobId ∧
    s.jobId = p.jobId ∧ s.extranonce1 = session.extranonce1 ∧
    s.extranonce2 = p.extranonce2 ∧ s.ntimeHex6b = p.ntimeHex ∧
    s.nonceHex8b = p.nonceHex ∧
    (validateShare suite p session job).accepted = true ∧
    o.blockHash = (validateShare suite p session job).blockHash

variable {suite : Suite}

/-- An accepted row under the key of an accepted submission, from the same
extranonce, is the row of this very submission. -/
theorem records_of_accepted {db : Database} (hledger : Ledger db)
    {x : Submission} {s : Share} {o : ShareOutcome} {workerId : Nat}
    {job : MiningJob} (hs : s ∈ db.shares.rows)
    (ho : o ∈ db.shareOutcomes.rows) (hlink : o.shareId = s.id)
    (hkey : s.dedupeKey = x.dedupeKey workerId)
    (haccepted : o.status = .accepted)
    (hextranonce1 : s.extranonce1 = x.session.extranonce1)
    (hfrom : FromJob suite job s o)
    (htemplate : job.jobId = x.job.jobId → job.SameTemplate x.job)
    (hjobId : x.params.jobId = x.job.jobId)
    (hx : (validateShare suite x.params x.session x.job).accepted = true) :
    Records suite x s o := by
  obtain ⟨hjob, hformat⟩ := hledger.accepted o ho haccepted s hs hlink.symm
  obtain ⟨_, hformat', _⟩ := validateShare_accepted suite hx
  obtain ⟨hcolon₁, hcolon₂⟩ := validateShareFormat_notMem hformat
  obtain ⟨hcolon₁', hcolon₂'⟩ := validateShareFormat_notMem hformat'
  -- The two keys are equal, so the columns that they are built from are.
  rw [hledger.key s hs] at hkey
  obtain ⟨_, hid, hepoch, htexts⟩ := ShareRepository.buildDedupeKey_inj hkey
  obtain ⟨hextranonce2, hntime, hnonce⟩ :=
    htexts hcolon₁ hcolon₁' hcolon₂ hcolon₂'
  have hjobId' : s.jobId = x.params.jobId := by
    rw [hjob, hjobId, hid, hepoch]
    rfl
  obtain ⟨p, session, hp, hsp, he1, he2, hnt, hno, hp', hhash⟩ := hfrom
  have hsame : job.SameTemplate x.job := by
    refine htemplate ?_
    rw [← hp, ← hsp, hjobId', hjobId]
  have hvalid := validateShare_congr suite hsame (he1.symm.trans hextranonce1)
    (he2.symm.trans hextranonce2) (hnt.symm.trans hntime)
    (hno.symm.trans hnonce) hp' hx
  refine ⟨haccepted, hextranonce1, hjobId', hextranonce2, hntime, hnonce, ?_⟩
  rw [hhash, hvalid]

/-- What is stored about a submission stays. -/
theorem Stored.stay {db db' : Database} {isNew : Bool} {x : Submission}
    (h : Stored suite db isNew x) (hrows : db.SharesStay db') :
    Stored suite db' isNew x := by
  obtain ⟨s, hs, o, ho, ⟨hlink, worker, hworker, hname⟩, hrecords⟩ := h
  obtain ⟨o', ho', hid, hstatus, hhash⟩ := hrows.outcomes o ho
  refine ⟨s, hrows.shares s hs, o', ho',
    ⟨hid.trans hlink, worker, hrows.workers worker hworker, hname⟩, ?_⟩
  simpa only [Records, hstatus, hhash] using hrecords

end StratumServer
