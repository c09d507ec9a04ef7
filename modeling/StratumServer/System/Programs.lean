import StratumServer.System.Grounding
import StratumServer.System.Rules

/-!
# The bodies meet the grounding contract

One lemma for each body of the server.  `Kept t J` says that `J` is
knowledge which stays while task `t` and the others work, apart from the
submission of a batch.  A body that uses nothing but its arguments is safe
for any such `J`; a body that uses what it has read gets that as its `J`.

`grounding_valid` puts the lemmas together.
-/

namespace StratumServer

open Sql Tasks

variable {suite : Suite} {data : ChainData} {config : ServerConfig}
  {t : Task} {J : PoolWorld → Prop}

/-! ## Knowledge -/

/-- Knowledge that stays. -/
def Kept (t : Task) (J : PoolWorld → Prop) : Prop :=
  ∀ w w' : PoolWorld, w.shared.db.Evolves w'.shared.db →
    (t = .handler → w.shared.db.PendingStays w'.shared.db) → J w → J w'

theorem kept_true : Kept t fun _ => True :=
  fun _ _ _ _ _ => trivial

theorem Kept.and {K : PoolWorld → Prop} (hJ : Kept t J) (hK : Kept t K) :
    Kept t fun w => J w ∧ K w :=
  fun w w' he hp h => ⟨hJ w w' he hp h.1, hK w w' he hp h.2⟩

theorem kept_hasBlock (b : FoundBlock) :
    Kept t fun w => w.shared.db.HasBlock b :=
  fun _ _ he _ h => he.blocks b h

theorem kept_settled (b : PayoutBatch) :
    Kept t fun w => w.shared.db.HasBatch (· ≠ .pending) b :=
  fun _ _ he _ h => he.settled b h

theorem Kept.stable (hJ : Kept t J) :
    (grounding suite data config).Stable t J :=
  ⟨Rely.refl t, fun hrely _ h => hJ _ _ hrely.evolves hrely.pending h⟩

/-- The operation ends a pending batch. -/
def Op.marksBatch : Op → Bool
  | .db (.markBatchSubmitted _ _) => true
  | _ => false

/-- A row stands behind the operation, or it ends a pending batch. -/
def Op.isBound : Op → Bool
  | .db (.insertShareAndOutcomeAtomic _ _) | .db (.recordFoundBlock _)
  | .db (.createPayout _ _ _ _) | .db (.rebuildPayout _ _ _ _ _)
  | .db (.updateCoinbaseTxid _ _) | .db (.updateBatchStatus _ _)
  | .db (.updateStatus _ _) | .db (.markBatchSubmitted _ _)
  | .signAndSubmit _ => true
  | _ => false

theorem onRows_of_free {o : Op} (h : o.isBound = false) (w : PoolWorld) :
    OnRows suite data w t o := by
  unfold OnRows
  split
  all_goals first | exact True.intro | cases h

theorem marksBatch_of_free {o : Op} (h : o.isBound = false) :
    o.marksBatch = false := by
  unfold Op.marksBatch
  split
  · cases h
  · rfl

/-- A grounded operation other than the submission of a batch keeps what is
known. -/
theorem Kept.did (hJ : Kept t J) {w : PoolWorld} {o : Op} {r : o.Res}
    {s' : Pool} (hsem : (pool suite data config).sem o w.shared r s')
    (hg : Grounded suite data w t o)
    (hmark : o.marksBatch = false) (h : J w) :
    J (w.after s' (.did t o r)) := by
  refine hJ w _ ?_ (fun _ => ?_) h
  · rcases sem_database hsem with heq | ⟨d, rfl, _, rfl⟩
    · rw [World.after_shared, heq]
      exact .refl _
    · exact hg.evolves
  · rcases sem_database hsem with heq | ⟨d, rfl, _, rfl⟩
    · rw [World.after_shared, heq]
      exact fun _ h => h
    · refine hg.pendingStays ?_
      rintro id txid rfl
      cases hmark

/-- The rule for one operation. -/
theorem safe_op (hJ : Kept t J) {o : Op} (hby : o.by t = true)
    (hrows : ∀ w, J w → Sound data w.shared.db → OnRows suite data w t o)
    (hmark : o.marksBatch = false) :
    (grounding suite data config).Safe t J (Prog.perform o) := by
  refine Contract.safe_perform hJ.stable ?_
  intro w r s' h hinv hsem _
  have hg : Grounded suite data w t o := ⟨hby, hrows w h hinv⟩
  exact ⟨hg, hJ.did hsem hg hmark h⟩

/-- The rule for a section. -/
theorem safe_db (hJ : Kept t J) {d : DbOp} (hby : d.by t = true)
    (hrows : ∀ w, J w → Sound data w.shared.db →
      OnRows suite data w t (.db d))
    (hmark : (Op.db d).marksBatch = false) :
    (grounding suite data config).Safe t J (db d).run :=
  safe_op hJ hby hrows hmark

/-- The rule for a section whose result is then known about. -/
theorem safe_read (hJ : Kept t J) {d : DbOp} (hby : d.by t = true)
    (hrows : ∀ w, J w → Sound data w.shared.db →
      OnRows suite data w t (.db d))
    (hmark : (Op.db d).marksBatch = false)
    {K : d.Res → PoolWorld → Prop} (hK : ∀ a, Kept t (K a))
    (hread : ∀ w w' : PoolWorld, Sound data w.shared.db → J w →
      w'.shared.db = (d.run w.shared.db).2 → ∀ a,
        (d.run w.shared.db).1 = .ok a → K a w')
    {α : Type} {g : Except Error d.Res → Body α}
    (hok : ∀ a w, J w → K a w →
      (grounding suite data config).wp t (g (.ok a)) (fun _ => J) w)
    (herror : ∀ e, (grounding suite data config).Safe t J (g (.error e))) :
    (grounding suite data config).Safe t J ((db d).run >>= g) := by
  intro w h
  refine Contract.wp_bind (Rely.refl t) (Contract.wp_perform ?_)
  intro w₁ hrely hinv r s' hsem _
  have h₁ : J w₁ := hJ _ _ hrely.evolves hrely.pending h
  have hg : Grounded suite data w₁ t (.db d) := ⟨hby, hrows w₁ h₁ hinv⟩
  have hafter := hJ.did hsem hg hmark h₁
  refine ⟨hg, fun w₂ hrely₂ hinv₂ => ?_⟩
  have h₂ : J w₂ := hJ _ _ hrely₂.evolves hrely₂.pending hafter
  cases r with
  | error e => exact herror e w₂ h₂
  | ok a =>
    refine hok a w₂ h₂ ?_
    refine hK a _ _ hrely₂.evolves hrely₂.pending ?_
    rcases sem_db hsem with ⟨hr, rfl⟩ | ⟨⟨e, he⟩, _⟩
    · exact hread w₁ _ hinv h₁ rfl a hr.symm
    · cases he

/-- The same for a fallible body, which ends when the section fails. -/
theorem safe_exceptRead (hJ : Kept t J) {d : DbOp} (hby : d.by t = true)
    (hrows : ∀ w, J w → Sound data w.shared.db →
      OnRows suite data w t (.db d))
    (hmark : (Op.db d).marksBatch = false)
    {K : d.Res → PoolWorld → Prop} (hK : ∀ a, Kept t (K a))
    (hread : ∀ w w' : PoolWorld, Sound data w.shared.db → J w →
      w'.shared.db = (d.run w.shared.db).2 → ∀ a,
        (d.run w.shared.db).1 = .ok a → K a w')
    {α : Type} {f : d.Res → Fallible α}
    (hf : ∀ a w, J w → K a w →
      (grounding suite data config).wp t (f a).run (fun _ => J) w) :
    (grounding suite data config).Safe t J (db d >>= f).run := by
  rw [ExceptT.run_bind]
  refine safe_read hJ hby hrows hmark hK hread hf fun e => ?_
  exact Contract.safe_pure hJ.stable _

/-- A section that no row stands behind. -/
theorem safe_free (hJ : Kept t J) {d : DbOp} (hby : d.by t = true)
    (hfree : (Op.db d).isBound = false) :
    (grounding suite data config).Safe t J (db d).run :=
  safe_db hJ hby (fun w _ _ => onRows_of_free hfree w)
    (marksBatch_of_free hfree)

/-- An operation that no row stands behind. -/
theorem safe_other (hJ : Kept t J) {o : Op} (hby : o.by t = true)
    (hfree : o.isBound = false) :
    (grounding suite data config).Safe t J (Prog.perform o) :=
  safe_op hJ hby (fun w _ _ => onRows_of_free hfree w)
    (marksBatch_of_free hfree)

theorem safe_event (hJ : Kept t J) (e : AccountingEvent) :
    (grounding suite data config).Safe t J (db (.recordEvent e)).run :=
  safe_free hJ rfl rfl

/-! ## The bodies of a session -/

namespace AccountingService

/-- What a record of an accepted submission satisfies. -/
def Judged (a : ShareRecord) : Prop :=
  a.status = .accepted → a.jobId = jobIdOf a.templateId a.templateEpoch ∧
    validateShareFormat a.extranonce2 a.ntimeHex a.nonceHex = true

theorem recordShare_safe (ht : t.isSession = true) {a : ShareRecord}
    (ha : Judged a) : (grounding suite data config).Safe t (fun _ => True)
      (recordShare a).run := by
  -- The row that `upsert` returns is there when the share is stored.
  let Known (worker : Worker) (w : PoolWorld) : Prop :=
    worker ∈ w.shared.db.workers.rows ∧
      worker.payoutAddress = a.payoutAddress ∧
      worker.workerSuffix = a.workerSuffix.filter (· ≠ "")
  have hkept : ∀ worker, Kept t (Known worker) :=
    fun worker w w' he _ h => ⟨he.workers worker h.1, h.2⟩
  refine safe_exceptRead (d := .upsert a.payoutAddress a.workerSuffix)
    kept_true ht (fun _ _ _ => trivial) rfl
    (K := Known) hkept ?_ ?_
  · intro w w' _ _ hdb worker hr
    obtain ⟨v, workers, hrun, haddr, hsuffix, hmem, _⟩ :=
      WorkerRepository.upsert_cases a.payoutAddress a.workerSuffix w.shared.db
    simp only [DbOp.run, hrun] at hr hdb
    cases hr
    exact ⟨hdb ▸ hmem, haddr, hsuffix⟩
  intro worker
  have hJ := kept_true.and (hkept worker)
  refine Contract.Safe.forget ?_
  refine Contract.safe_exceptBind hJ.stable
    (safe_resolveRoundForTemplate hJ.stable (safe_event hJ)
      (safe_free hJ rfl rfl)
      (safe_free hJ ht rfl)) fun round => ?_
  refine Contract.safe_exceptBind hJ.stable (safe_db hJ ht ?_ rfl)
    fun r => ?_
  · intro w h _
    exact ⟨a, worker, round.id, h.2.1, h.2.2.1, h.2.2.2, rfl, rfl, ha⟩
  refine Contract.safe_exceptBind hJ.stable (safe_runIf_fallible hJ.stable
    (safe_discard hJ.stable (safe_free hJ rfl rfl))) fun _ => ?_
  exact Contract.safe_pure hJ.stable _

end AccountingService

theorem shareRecord_judged {session : SessionState} {p : SubmitParams}
    {cachedJob : Option MiningJob}
    (hjob : ∀ job, cachedJob = some job → job.jobId = p.jobId)
    (name : WorkerName) : AccountingService.Judged
      (shareRecord session p (judge suite session p cachedJob) name) := by
  intro hstatus
  have haccepted : (judge suite session p cachedJob).validation.accepted := by
    by_contra hrejected
    simp [shareRecord, hrejected] at hstatus
  obtain ⟨job, hcached, hvalid, htemplate, hepoch⟩ :=
    judge_accepted suite haccepted
  rw [hvalid] at haccepted
  obtain ⟨_, hformat, _⟩ := validateShare_accepted suite haccepted
  refine ⟨?_, hformat⟩
  simp only [shareRecord, htemplate, hepoch]
  exact (hjob job hcached).symm

theorem persistShare_safe (ht : t.isSession = true) {session : SessionState}
    {p : SubmitParams} {cachedJob : Option MiningJob}
    (hjob : ∀ job, cachedJob = some job → job.jobId = p.jobId) :
    (grounding suite data config).Safe t (fun _ => True)
      (persistShare suite session p (judge suite session p cachedJob)) := by
  unfold persistShare
  cases parseWorkerName suite.isLotusAddress p.workerName with
  | none => exact Contract.safe_pure kept_true.stable _
  | some name =>
    refine Contract.Safe.bind kept_true.stable
      (AccountingService.recordShare_safe ht (shareRecord_judged hjob name))
      fun r => ?_
    cases r <;> exact Contract.safe_pure kept_true.stable _

theorem submitCandidate_safe (ht : t.isSession = true) (job : MiningJob)
    (templateId : Nat) (blockHex : String) (hash : Bytes32)
    (dedupeKey : String) :
    (grounding suite data config).Safe t (fun _ => True)
      (submitCandidate job templateId blockHex hash.toHexBe dedupeKey) := by
  refine safe_submitCandidate kept_true.stable
    (safe_other kept_true ht rfl)
    (safe_recordAcceptedBlock kept_true.stable (safe_event kept_true) ?_ ?_ ?_ ?_)
    fun text => safe_free kept_true ht rfl
  · exact safe_free kept_true rfl rfl
  · exact safe_free kept_true ht rfl
  · exact fun roundId => safe_db kept_true ht
      (fun _ _ _ => ⟨job, roundId, hash, rfl⟩) rfl
  · exact fun id => safe_free kept_true ht rfl

theorem answerSubmit_safe (i : Nat) (session : SessionState) (j : Judgement) :
    (grounding suite data config).Safe (.session i) (fun _ => True)
      (answerSubmit i session j) := by
  have hrespond : ∀ st resp, (grounding suite data config).Safe (.session i)
      (fun _ => True) (Prog.perform (Op.respond i st resp)) :=
    fun st resp => safe_other kept_true (by simp [Op.by]) rfl
  unfold answerSubmit
  split
  · refine Contract.Safe.bind kept_true.stable
      (safe_other kept_true rfl rfl) fun now => ?_
    split
    · exact hrespond _ _
    · exact safe_other kept_true (by simp [Op.by]) rfl
  · exact hrespond _ _

theorem finishSubmit_safe (i : Nat) (session : SessionState)
    (p : SubmitParams) (cachedJob : Option MiningJob) (j : Judgement)
    (dedupeKey : String) :
    (grounding suite data config).Safe (.session i) (fun _ => True)
      (finishSubmit suite i session p cachedJob j dedupeKey) := by
  unfold finishSubmit
  split
  · split
    · exact answerSubmit_safe i session j
    · split
      · rename_i blockHex builtHash hbuilt
        obtain ⟨_, hash, rfl⟩ := buildSubmitBlock_block suite hbuilt
        exact Contract.Safe.bind kept_true.stable
          (submitCandidate_safe rfl _ _ _ hash _)
          fun _ => answerSubmit_safe i session j
      · exact answerSubmit_safe i session j
      · exact safe_other kept_true (by simp [Op.by]) rfl
  · exact answerSubmit_safe i session j

theorem handleSubmit_safe (i : Nat) (session : SessionState)
    (p : SubmitParams) :
    (grounding suite data config).Safe (.session i) (fun _ => True)
      (handleSubmit suite i session p) := by
  unfold handleSubmit
  split
  · exact safe_other kept_true (by simp [Op.by]) rfl
  · intro w _
    refine Contract.wp_bind (Rely.refl _) (Contract.wp_perform ?_)
    rintro w₁ _ _ cachedJob s' ⟨rfl, rfl⟩ _
    refine ⟨⟨rfl, trivial⟩, fun w₂ _ _ => ?_⟩
    refine Contract.Safe.bind kept_true.stable (persistShare_safe rfl ?_)
      (fun key => finishSubmit_safe i session p _ _ key) w₂ trivial
    exact fun job hjob => JobCache.get_some hjob

/-! ## The bodies of the consumer -/

theorem checkMaturation_safe (ht : t = .consumer ∨ t = .main)
    (tipHeight : Int) (minConfirmations : Nat) :
    (grounding suite data config).Safe t (fun _ => True)
      (AccountingService.checkMaturation tipHeight minConfirmations).run := by
  refine Contract.safe_exceptBind kept_true.stable
    (safe_free kept_true rfl rfl)
    fun immature => ?_
  refine Contract.safe_exceptFoldlM kept_true.stable fun matured block => ?_
  unfold AccountingService.matureBlock
  split
  · refine Contract.safe_exceptBind kept_true.stable (safe_free kept_true
      (by rcases ht with rfl | rfl <;> rfl) rfl) fun _ => ?_
    exact Contract.safe_pure kept_true.stable _
  · exact Contract.safe_pure kept_true.stable _

theorem announceMatured_safe (ht : t = .consumer ∨ t = .main) (tip : Int)
    (minConfirmations : Nat) :
    (grounding suite data config).Safe t (fun _ => True)
      (announceMatured tip minConfirmations) := by
  refine Contract.Safe.bind kept_true.stable
    (checkMaturation_safe ht tip minConfirmations) fun r => ?_
  cases r with
  | error e => exact Contract.safe_pure kept_true.stable _
  | ok matured =>
    refine Contract.safe_forM kept_true.stable fun b _ => ?_
    exact safe_other kept_true (by rcases ht with rfl | rfl <;> rfl)
      rfl

theorem handleBlockDisconnected_safe (event : BlockEvent) :
    (grounding suite data config).Safe .consumer (fun _ => True)
      (handleBlockDisconnected event) := by
  refine Contract.Safe.bind kept_true.stable
    (safe_free kept_true rfl rfl) fun r => ?_
  match r with
  | .error e => exact Contract.safe_pure kept_true.stable _
  | .ok none => exact Contract.safe_pure kept_true.stable _
  | .ok (some found) =>
    refine Contract.Safe.bind kept_true.stable
      (safe_free kept_true rfl rfl) fun r => ?_
    match r with
    | .error e => exact Contract.safe_pure kept_true.stable _
    | .ok _ =>
      refine Contract.Safe.bind kept_true.stable
        (safe_closeRound kept_true.stable (safe_event kept_true)
      (safe_free kept_true rfl rfl)) fun r => ?_
      match r with
      | .error e => exact Contract.safe_pure kept_true.stable _
      | .ok _ => exact safe_dropResult kept_true.stable (safe_event kept_true _)

theorem reconnectBlock_safe (fb : FoundBlock) :
    (grounding suite data config).Safe .consumer (fun _ => True)
      (reconnectBlock fb) := by
  refine Contract.Safe.bind kept_true.stable
    (safe_free kept_true rfl rfl) fun r => ?_
  match r with
  | .error e => exact Contract.safe_pure kept_true.stable _
  | .ok batches =>
    dsimp only
    split
    · exact Contract.safe_pure kept_true.stable _
    · refine Contract.Safe.bind kept_true.stable
        (safe_free kept_true rfl rfl)
        fun r => ?_
      match r with
      | .error e => exact Contract.safe_pure kept_true.stable _
      | .ok _ =>
        exact safe_runIf kept_true.stable (safe_dropResult kept_true.stable
          (safe_free kept_true rfl rfl))

theorem reconnectOrphaned_safe (blockHash : String) :
    (grounding suite data config).Safe .consumer (fun _ => True)
      (reconnectOrphaned blockHash) := by
  refine Contract.Safe.bind kept_true.stable
    (safe_free kept_true rfl rfl) fun r => ?_
  match r with
  | .error e => exact Contract.safe_pure kept_true.stable _
  | .ok none => exact Contract.safe_pure kept_true.stable _
  | .ok (some fb) =>
    dsimp only
    split
    · exact reconnectBlock_safe fb
    · exact Contract.safe_pure kept_true.stable _

theorem handleBlockConnected_safe (minConfirmations : Nat)
    (event : BlockEvent) :
    (grounding suite data config).Safe .consumer (fun _ => True)
      (handleBlockConnected minConfirmations event) := by
  unfold handleBlockConnected
  split
  · exact Contract.safe_pure kept_true.stable _
  · refine Contract.Safe.bind kept_true.stable
      (safe_other kept_true rfl rfl) fun _ => ?_
    refine Contract.Safe.bind kept_true.stable
      (safe_other kept_true rfl rfl) fun tip => ?_
    refine Contract.Safe.bind kept_true.stable
      (reconnectOrphaned_safe event.blockHash) fun _ => ?_
    refine Contract.Safe.bind kept_true.stable
      (announceMatured_safe (Or.inl rfl) tip minConfirmations) fun _ => ?_
    exact safe_other kept_true rfl rfl

theorem onMiningWorkChanged_safe :
    (grounding suite data config).Safe .consumer (fun _ => True)
      onMiningWorkChanged := by
  refine Contract.Safe.bind kept_true.stable
    (safe_other kept_true rfl rfl) fun r => ?_
  match r with
  | none => exact Contract.safe_pure kept_true.stable _
  | some job =>
    refine Contract.Safe.bind kept_true.stable
      (safe_other kept_true rfl rfl) fun _ => ?_
    exact safe_other kept_true rfl rfl

/-! ## Confirming a batch -/

theorem confirming_updateBatchStatus {log : List PoolEntry} {id : Nat}
    {status : BatchStatus} {r : Except Error Unit} :
    confirming t (.did t (.db (.updateBatchStatus id status)) r :: log) =
      some id := by
  simp [confirming]

theorem confirming_other {log : List PoolEntry} {o : Op} {r : o.Res}
    (h : ∀ id status, o ≠ .db (.updateBatchStatus id status)) :
    confirming t (.did t o r :: log) = confirming t log := by
  unfold confirming
  rw [current_did, List.findSome?_cons]
  cases o with
  | db d =>
    cases d with
    | updateBatchStatus id status => exact absurd rfl (h id status)
    | _ => rfl
  | _ => rfl

theorem Rely.confirming {w w' : PoolWorld} (h : Rely t w w') :
    confirming t w'.log = confirming t w.log := by
  unfold StratumServer.confirming
  rw [h.current]

theorem getByRoundId_some {roundId : Nat} {db : Database} {b : FoundBlock}
    (h : ((DbOp.getByRoundId roundId).run db).1 = .ok (some b)) :
    b ∈ db.foundBlocks.rows ∧ b.roundId = roundId := by
  have hfind := Except.ok.inj h
  have hround := List.find?_some hfind
  exact ⟨List.mem_reverse.1 (List.mem_of_find?_eq_some hfind),
    by simpa using hround⟩

/-- The end of a confirmation: the newest block of the round becomes paid. -/
theorem markPaid_wp (ht : t = .handler ∨ t = .main) (hJ : Kept t J)
    {batch : PayoutBatch} {w : PoolWorld} (hw : J w)
    (hbatch : w.shared.db.HasBatch (· ≠ .pending) batch)
    (hconfirming : confirming t w.log = some batch.id) :
    (grounding suite data config).wp t
      ((db (.getByRoundId batch.roundId)).run >>= fun r =>
        match r with
        | .ok (some fb) => dropResult (db (.updateStatus fb.id .paid))
        | _ => pure ()) (fun _ => J) w := by
  refine Contract.wp_bind (Rely.refl t) (Contract.wp_perform ?_)
  intro w₁ hrely₁ hinv₁ r s₁ hsem₁ _
  have hg₁ : Grounded suite data w₁ t (.db (.getByRoundId batch.roundId)) :=
    ⟨rfl, trivial⟩
  -- What is known at `w` is known after the query, wherever it comes to.
  have hkeep : ∀ {K : PoolWorld → Prop}, Kept t K → K w₁ → ∀ {w₂},
      Rely t (w₁.after s₁ (.did t _ r)) w₂ → K w₂ :=
    fun hK h _ hrely => hK _ _ hrely.evolves hrely.pending
      (hK.did hsem₁ hg₁ rfl h)
  refine ⟨hg₁, fun w₂ hrely₂ hinv₂ => ?_⟩
  have hw₂ : J w₂ :=
    hkeep hJ (hJ _ _ hrely₁.evolves hrely₁.pending hw) hrely₂
  match r with
  | .error e => exact Contract.safe_pure hJ.stable _ w₂ hw₂
  | .ok none => exact Contract.safe_pure hJ.stable _ w₂ hw₂
  | .ok (some fb) =>
    obtain ⟨hmem, hround⟩ : fb ∈ w₁.shared.db.foundBlocks.rows ∧
        fb.roundId = batch.roundId := by
      rcases sem_db hsem₁ with ⟨hr, _⟩ | ⟨⟨e, he⟩, _⟩
      · exact getByRoundId_some hr.symm
      · cases he
    have hK := (kept_settled (t := t) batch).and (kept_hasBlock fb)
    have hK₂ := hkeep hK
      ⟨hrely₁.evolves.settled batch hbatch, .of_mem hmem⟩ hrely₂
    have hconfirming₂ : confirming t w₂.log = some batch.id := by
      rw [hrely₂.confirming, World.after_log, confirming_other (by simp),
        hrely₁.confirming, hconfirming]
    refine wp_dropResult (Rely.refl t) (Contract.wp_perform ?_)
    intro w₃ hrely₃ hinv₃ r₃ s₃ hsem₃ _
    obtain ⟨hsettled, hblock⟩ :=
      hK _ _ hrely₃.evolves hrely₃.pending hK₂
    have hg₃ : Grounded suite data w₃ t (.db (.updateStatus fb.id .paid)) := by
      refine ⟨by rcases ht with rfl | rfl <;> rfl, batch, fb, hsettled, hblock,
        ?_, rfl, hround⟩
      rw [hrely₃.confirming, hconfirming₂]
    refine ⟨hg₃, fun w₄ hrely₄ _ => ?_⟩
    refine Contract.safe_pure hJ.stable _ w₄
      (hJ _ _ hrely₄.evolves hrely₄.pending (hJ.did hsem₃ hg₃
        rfl (hJ _ _ hrely₃.evolves hrely₃.pending hw₂)))

/-- Setting a settled batch to confirmed. -/
theorem updateBatchStatus_wp (ht : t = .handler ∨ t = .main) (hJ : Kept t J)
    {batch : PayoutBatch} {w : PoolWorld} (hw : J w)
    (hbatch : w.shared.db.HasBatch (· ≠ .pending) batch) :
    (grounding suite data config).wp t
      (db (.updateBatchStatus batch.id .confirmed)).run
      (fun _ w' => J w' ∧ w'.shared.db.HasBatch (· ≠ .pending) batch ∧
        confirming t w'.log = some batch.id) w := by
  refine Contract.wp_perform ?_
  intro w₁ hrely₁ hinv₁ r s₁ hsem₁ _
  have hK := hJ.and (kept_settled (t := t) batch)
  have hK₁ := hK _ _ hrely₁.evolves hrely₁.pending ⟨hw, hbatch⟩
  have hg₁ : Grounded suite data w₁ t
      (.db (.updateBatchStatus batch.id .confirmed)) :=
    ⟨by rcases ht with rfl | rfl <;> rfl, batch, hK₁.2, rfl⟩
  refine ⟨hg₁, fun w₂ hrely₂ _ => ?_⟩
  obtain ⟨hw₂, hbatch₂⟩ := hK _ _ hrely₂.evolves hrely₂.pending
    (hK.did hsem₁ hg₁ rfl hK₁)
  refine ⟨hw₂, hbatch₂, ?_⟩
  rw [hrely₂.confirming, World.after_log]
  exact confirming_updateBatchStatus

theorem confirmBatch_wp (ht : t = .handler ∨ t = .main) (hJ : Kept t J)
    {batch : PayoutBatch} {w : PoolWorld} (hw : J w)
    (hbatch : w.shared.db.HasBatch (· ≠ .pending) batch) :
    (grounding suite data config).wp t (confirmBatch batch)
      (fun _ => J) w := by
  refine Contract.wp_bind (Rely.refl t) (wp_dropResult (Rely.refl t)
    (Contract.wp_mono ?_ (updateBatchStatus_wp ht hJ hw hbatch)))
  rintro _ w₁ _ ⟨hw₁, hbatch₁, hconfirming₁⟩ w₂ hrely₂ _
  exact markPaid_wp ht hJ (hJ _ _ hrely₂.evolves hrely₂.pending hw₁)
    (hrely₂.evolves.settled batch hbatch₁)
    (hrely₂.confirming.trans hconfirming₁)

theorem settleBatch_wp (ht : t = .handler ∨ t = .main) (hJ : Kept t J)
    {batch : PayoutBatch} {w : PoolWorld} (hw : J w)
    (hbatch : w.shared.db.HasBatch (· ≠ .pending) batch) :
    (grounding suite data config).wp t (AccountingService.settleBatch batch)
      (fun _ => J) w := by
  refine Contract.wp_bind (Rely.refl t)
    (Contract.wp_mono ?_ (updateBatchStatus_wp ht hJ hw hbatch))
  rintro r w₁ _ ⟨hw₁, hbatch₁, hconfirming₁⟩
  cases r with
  | error e => exact Contract.safe_pure hJ.stable _ w₁ hw₁
  | ok _ => exact markPaid_wp ht hJ hw₁ hbatch₁ hconfirming₁

theorem listBatches_ok {status : BatchStatus} {db : Database}
    {batches : List PayoutBatch}
    (h : ((DbOp.listBatches (some status)).run db).1 = .ok batches)
    {b : PayoutBatch} (hb : b ∈ batches) :
    b ∈ db.payoutBatches.rows ∧ b.status = status := by
  cases h
  obtain ⟨hmem, hstatus⟩ := List.mem_filter.1 hb
  exact ⟨List.mem_reverse.1 hmem, by simpa using hstatus⟩

/-- All the batches of a list are settled. -/
def AllSettled (batches : List PayoutBatch) (w : PoolWorld) : Prop :=
  ∀ b ∈ batches, w.shared.db.HasBatch (· ≠ .pending) b

theorem kept_allSettled (batches : List PayoutBatch) :
    Kept t (AllSettled batches) :=
  fun _ _ he _ h b hb => he.settled b (h b hb)

/-- Submitted batches that a query has listed are settled from then on. -/
theorem listSubmitted_settled {w w' : PoolWorld} {batches : List PayoutBatch}
    (hdb : w'.shared.db =
      ((DbOp.listBatches (some .submitted)).run w.shared.db).2)
    (h : ((DbOp.listBatches (some .submitted)).run w.shared.db).1 =
      .ok batches) : AllSettled batches w' := by
  intro b hb
  obtain ⟨hmem, hstatus⟩ := listBatches_ok h hb
  refine ⟨b, hdb ▸ hmem, rfl, ?_⟩
  rw [hstatus]
  exact BatchStatus.noConfusion

/-! ## The startup sequence -/

theorem orphanBlock_safe (block : FoundBlock) (reason : OrphanReason) :
    (grounding suite data config).Safe .main (fun _ => True)
      (AccountingService.orphanBlock block reason) := by
  refine Contract.Safe.bind kept_true.stable (safe_dropResult kept_true.stable
    (safe_free kept_true rfl rfl)) fun _ => ?_
  exact safe_dropResult kept_true.stable
    (safe_closeRound kept_true.stable (safe_event kept_true)
      (safe_free kept_true rfl rfl))

theorem startupReconcile_safe :
    (grounding suite data config).Safe .main (fun _ => True)
      startupReconcile := by
  refine Contract.Safe.bind kept_true.stable
    (safe_other kept_true rfl rfl) fun r => ?_
  cases r with
  | error e => exact Contract.safe_pure kept_true.stable _
  | ok tipHeight =>
    refine safe_dropResult kept_true.stable (Contract.safe_exceptBind
      kept_true.stable (safe_free kept_true rfl rfl)
      fun confirmed => safe_liftM kept_true.stable
      (Contract.safe_forM kept_true.stable fun block _ => ?_))
    unfold AccountingService.reconcileBlock
    split
    · exact orphanBlock_safe block _
    · refine Contract.Safe.bind kept_true.stable
        (safe_other kept_true rfl rfl)
        fun r => ?_
      match r with
      | .error e => exact Contract.safe_pure kept_true.stable _
      | .ok none => exact Contract.safe_pure kept_true.stable _
      | .ok (some canonicalHash) =>
        dsimp only
        split
        · exact orphanBlock_safe block _
        · exact Contract.safe_pure kept_true.stable _

theorem reconcileSubmittedPayouts_safe :
    (grounding suite data config).Safe .main (fun _ => True)
      AccountingService.reconcileSubmittedPayouts.run := by
  refine safe_exceptRead (d := .listBatches (some .submitted)) kept_true rfl
    (fun _ _ _ => trivial) rfl (K := AllSettled)
    kept_allSettled (fun w w' _ _ hdb a hr => listSubmitted_settled hdb hr) ?_
  intro submitted
  have hJ := kept_true.and (kept_allSettled (t := .main) submitted)
  refine Contract.Safe.forget ?_
  refine safe_liftM hJ.stable (Contract.safe_forM hJ.stable fun batch hb => ?_)
  unfold AccountingService.reconcileBatch
  split
  · exact Contract.safe_pure hJ.stable _
  · refine Contract.Safe.bind hJ.stable
      (safe_other hJ rfl rfl) fun r => ?_
    cases r with
    | error e => exact Contract.safe_pure hJ.stable _
    | ok tx =>
      dsimp only
      split
      · exact fun w h => settleBatch_wp (Or.inr rfl) hJ h (h.2 batch hb)
      · exact Contract.safe_pure hJ.stable _

theorem mainBoot_safe :
    (grounding suite data config).Safe .main (fun _ => True)
      (mainBoot config) := by
  refine Contract.Safe.bind kept_true.stable
    (safe_other kept_true rfl rfl) fun r => ?_
  cases r with
  | none => exact Contract.safe_pure kept_true.stable _
  | some job =>
    refine Contract.Safe.bind kept_true.stable
      (safe_other kept_true rfl rfl) fun _ => ?_
    refine Contract.Safe.bind kept_true.stable
      (safe_other kept_true rfl rfl) fun _ => ?_
    refine Contract.Safe.bind kept_true.stable startupReconcile_safe fun _ => ?_
    refine Contract.Safe.bind kept_true.stable (safe_dropResult
      kept_true.stable reconcileSubmittedPayouts_safe) fun _ => ?_
    refine Contract.Safe.bind kept_true.stable
      (safe_other kept_true rfl rfl) fun _ => ?_
    refine Contract.Safe.bind kept_true.stable
      (safe_other kept_true rfl rfl) fun _ => ?_
    refine Contract.Safe.bind kept_true.stable ?_ fun _ => ?_
    · refine Contract.Safe.bind kept_true.stable
        (safe_other kept_true rfl rfl) fun r => ?_
      cases r with
      | error e => exact Contract.safe_pure kept_true.stable _
      | ok tipHeight => exact announceMatured_safe (Or.inr rfl) tipHeight _
    refine Contract.Safe.bind kept_true.stable (safe_runIf kept_true.stable
      (safe_other kept_true rfl rfl)) fun _ => ?_
    exact safe_other kept_true rfl rfl

/-! ## The bodies of the payout handler -/

/-- All the batches of a list are pending. -/
def AllPending (batches : List PayoutBatch) (w : PoolWorld) : Prop :=
  ∀ b ∈ batches, w.shared.db.HasBatch (· = .pending) b

theorem kept_allPending (batches : List PayoutBatch) :
    Kept .handler (AllPending batches) :=
  fun _ _ _ hp h b hb => hp rfl b (h b hb)

/-- A block that was read from the table: it is there, and the coinbase
transaction that it names is its own. -/
def ReadBlock (data : ChainData) (b : FoundBlock) (w : PoolWorld) : Prop :=
  w.shared.db.HasBlock b ∧
    ∀ txid, b.coinbaseTxid = some txid → txid = data.coinbaseTxid b.blockHash

theorem kept_readBlock (data : ChainData) (b : FoundBlock) :
    Kept t (ReadBlock data b) :=
  fun _ _ he _ h => ⟨he.blocks b h.1, h.2⟩

namespace AccountingService

theorem rebuildPayoutPlanForBatch_safe (hJ : Kept .handler J) (batchId : Nat)
    (settings : PayoutSettings) :
    (grounding suite data config).Safe .handler J
      (rebuildPayoutPlanForBatch suite batchId settings).run := by
  let Batch (r : Option PayoutBatch) (w : PoolWorld) : Prop :=
    ∀ batch, r = some batch → batch.id = batchId ∧
      (batch.status = .pending → w.shared.db.HasBatch (· = .pending) batch)
  have hkept : ∀ r, Kept .handler (Batch r) :=
    fun r w w' _ hp h batch hr => ⟨(h batch hr).1,
      fun hstatus => hp rfl batch ((h batch hr).2 hstatus)⟩
  refine safe_exceptRead (d := .getBatchById batchId) hJ rfl
    (fun _ _ _ => trivial) rfl (K := Batch) hkept ?_ ?_
  · intro w w' _ _ hdb r hr batch hbatch
    have hfind := (Except.ok.inj hr).trans hbatch
    have hid : batch.id = batchId := by simpa using List.find?_some hfind
    exact ⟨hid, fun hstatus => ⟨batch, hdb ▸ List.mem_of_find?_eq_some hfind,
      rfl, hstatus⟩⟩
  intro r
  have hJ₁ := hJ.and (hkept r)
  refine Contract.Safe.forget ?_
  cases r with
  | none => exact Contract.safe_pure hJ₁.stable _
  | some batch =>
    dsimp only
    split
    · exact Contract.safe_pure hJ₁.stable _
    · rename_i hstatus
      let Block (r : Option FoundBlock) (w : PoolWorld) : Prop :=
        ∀ b, r = some b → w.shared.db.HasBlock b ∧ b.roundId = batch.roundId
      have hkept₂ : ∀ r, Kept .handler (Block r) :=
        fun r w w' he _ h b hr => ⟨he.blocks b (h b hr).1, (h b hr).2⟩
      refine safe_exceptRead (d := .getByRoundId batch.roundId) hJ₁ rfl
        (fun _ _ _ => trivial) rfl (K := Block) hkept₂ ?_ ?_
      · intro w w' _ _ hdb r hr b hb
        obtain ⟨hmem, hround⟩ := getByRoundId_some (hr.trans (by rw [hb]))
        exact ⟨⟨b, hdb ▸ hmem, rfl⟩, hround⟩
      intro r
      have hJ₂ := hJ₁.and (hkept₂ r)
      refine Contract.Safe.forget ?_
      cases r with
      | none => exact Contract.safe_pure hJ₂.stable _
      | some foundBlock =>
        refine safe_db hJ₂ rfl ?_ rfl
        intro w h _
        obtain ⟨hid, hpending⟩ := h.1.2 batch rfl
        obtain ⟨hblock, hround⟩ := h.2 foundBlock rfl
        exact ⟨hblock, rfl, rfl, batch, hpending (by simpa using hstatus), hid,
          hround.symm⟩

theorem resolveCoinbaseTxid_wp (hJ : Kept .handler J) {block : FoundBlock}
    {w : PoolWorld} (hw : J w) (hblock : ReadBlock data block w) :
    (grounding suite data config).wp .handler (resolveCoinbaseTxid block)
      (fun r w' => J w' ∧ ∀ txid, r = some txid →
        txid = data.coinbaseTxid block.blockHash) w := by
  have hK := hJ.and (kept_readBlock (t := .handler) data block)
  -- An end that has found nothing.
  have hnone : ∀ w, J w ∧ ReadBlock data block w →
      (grounding suite data config).wp .handler
        (pure none : Body (Option String)) (fun r w' => J w' ∧ ∀ txid,
          r = some txid → txid = data.coinbaseTxid block.blockHash) w := by
    intro w h w' hrely _
    exact ⟨(hK _ _ hrely.evolves hrely.pending h).1, by intro txid h; cases h⟩
  unfold resolveCoinbaseTxid
  split
  · rename_i txid htxid
    intro w' hrely _
    refine ⟨hJ _ _ hrely.evolves hrely.pending hw, ?_⟩
    rintro _ ⟨⟩
    exact hblock.2 txid htxid
  · refine Contract.wp_bind (Rely.refl _) (Contract.wp_perform ?_)
    intro w₁ hrely₁ _ r s₁ hsem₁ _
    have hg₁ : Grounded suite data w₁ .handler (.getBlock block.blockHash) :=
      ⟨rfl, trivial⟩
    refine ⟨hg₁, fun w₂ hrely₂ _ => ?_⟩
    have h₂ := hK _ _ hrely₂.evolves hrely₂.pending (hK.did hsem₁ hg₁
      rfl
      (hK _ _ hrely₁.evolves hrely₁.pending ⟨hw, hblock⟩))
    match r with
    | .error e => exact hnone w₂ h₂
    | .ok none => exact hnone w₂ h₂
    | .ok (some []) => exact hnone w₂ h₂
    | .ok (some (entry :: rest)) =>
      dsimp only
      split
      · exact hnone w₂ h₂
      · rename_i hne
        have hown : entry.txid = data.coinbaseTxid block.blockHash :=
          hsem₁.2 _ entry rfl rfl hne
        refine Contract.wp_bind (Rely.refl _) (Contract.wp_mono ?_
          (safe_dropResult hK.stable (safe_db hK (d := .updateCoinbaseTxid
            block.id entry.txid) rfl ?_ rfl) w₂ h₂))
        · intro _ w₃ _ h₃ w₄ hrely₄ _
          refine ⟨hJ _ _ hrely₄.evolves hrely₄.pending h₃.1, ?_⟩
          rintro _ ⟨⟩
          exact hown
        · intro w h _
          exact ⟨block, h.2.1, rfl, hown⟩

theorem fetchCoinbaseOutput_safe (hJ : Kept .handler J) (txid : String) :
    (grounding suite data config).Safe .handler J
      (fetchCoinbaseOutput txid) := by
  refine Contract.Safe.bind hJ.stable
    (safe_other hJ rfl rfl) fun r => ?_
  split
  · split <;> exact Contract.safe_pure hJ.stable _
  · exact Contract.safe_pure hJ.stable _

theorem loadOutputs_safe (hJ : Kept .handler J) (batch : PayoutBatch)
    (settings : PayoutSettings) :
    (grounding suite data config).Safe .handler J
      (loadOutputs suite batch settings) := by
  refine Contract.Safe.bind hJ.stable
    (safe_free hJ rfl rfl) fun r => ?_
  match r with
  | .error e => exact Contract.safe_pure hJ.stable _
  | .ok (p :: ps) => exact Contract.safe_pure hJ.stable _
  | .ok [] =>
    refine Contract.Safe.bind hJ.stable
      (rebuildPayoutPlanForBatch_safe hJ batch.id settings) fun r => ?_
    cases r <;> exact Contract.safe_pure hJ.stable _

/-- Submitting a batch leaves the batches with other ids pending. -/
theorem allPending_markBatchSubmitted {l : List PayoutBatch} {w w' : PoolWorld}
    {id : Nat} {txid : String} (hids : ∀ b ∈ l, b.id ≠ id)
    (hdb : w'.shared.db =
      ((DbOp.markBatchSubmitted id txid).run w.shared.db).2)
    (h : AllPending l w) : AllPending l w' := by
  intro b hb
  obtain ⟨b', hb', hfix, hpending⟩ := h b hb
  refine ⟨b', ?_, hfix, hpending⟩
  rw [hdb]
  refine List.mem_map.2 ⟨b', hb', if_neg ?_⟩
  have hid := PayoutBatch.id_of_fixed hfix
  simpa [hid] using hids b hb

theorem signBatch_wp {l : List PayoutBatch} {batch : PayoutBatch}
    {signed : SignedBatchData} {w : PoolWorld}
    (hids : ∀ b ∈ l, b.id ≠ batch.id) (hw : AllPending (batch :: l) w)
    (hsigned : ∀ w₁, Rely .handler w w₁ →
      OnRows suite data w₁ .handler (.signAndSubmit signed)) :
    (grounding suite data config).wp .handler (signBatch batch signed)
      (fun _ => AllPending l) w := by
  have hJ := kept_allPending (batch :: l)
  have hrest : ∀ {w}, AllPending (batch :: l) w → AllPending l w :=
    fun h b hb => h b (List.mem_cons_of_mem _ hb)
  refine Contract.wp_bind (Rely.refl _) (Contract.wp_perform ?_)
  intro w₁ hrely₁ _ r s₁ hsem₁ _
  have hg₁ : Grounded suite data w₁ .handler (.signAndSubmit signed) :=
    ⟨rfl, hsigned w₁ hrely₁⟩
  refine ⟨hg₁, fun w₂ hrely₂ _ => ?_⟩
  have h₂ := hJ _ _ hrely₂.evolves hrely₂.pending (hJ.did hsem₁ hg₁
    rfl (hJ _ _ hrely₁.evolves hrely₁.pending hw))
  cases r with
  | error e =>
    exact Contract.safe_pure (kept_allPending l).stable _ w₂ (hrest h₂)
  | ok txid =>
    refine wp_dropResult (Rely.refl _) (Contract.wp_perform ?_)
    intro w₃ hrely₃ _ r₃ s₃ hsem₃ _
    have h₃ := hJ _ _ hrely₃.evolves hrely₃.pending h₂
    refine ⟨⟨rfl, batch, h₃ batch List.mem_cons_self, rfl⟩,
      fun w₄ hrely₄ _ => ?_⟩
    refine Contract.safe_pure (kept_allPending l).stable _ w₄
      (kept_allPending l _ _ hrely₄.evolves hrely₄.pending ?_)
    rcases sem_db hsem₃ with ⟨_, rfl⟩ | ⟨_, rfl⟩
    · exact allPending_markBatchSubmitted hids rfl (hrest h₃)
    · exact hrest h₃

theorem payBatch_wp {l : List PayoutBatch} {batch : PayoutBatch}
    {block : FoundBlock} (settings : PayoutSettings) {w : PoolWorld}
    (hids : ∀ b ∈ l, b.id ≠ batch.id) (hround : block.roundId = batch.roundId)
    (hw : AllPending (batch :: l) w) (hblock : ReadBlock data block w) :
    (grounding suite data config).wp .handler
      (payBatch suite batch block settings) (fun _ => AllPending l) w := by
  have hJ := (kept_allPending (batch :: l)).and
    (kept_readBlock (t := .handler) data block)
  have hend : ∀ w, AllPending (batch :: l) w ∧ ReadBlock data block w →
      (grounding suite data config).wp .handler (pure () : Body Unit)
        (fun _ => AllPending l) w := by
    intro w h w' hrely _ b hb
    exact (hJ _ _ hrely.evolves hrely.pending h).1 b (List.mem_cons_of_mem _ hb)
  refine Contract.wp_bind (Rely.refl _) (Contract.wp_mono ?_
    (resolveCoinbaseTxid_wp hJ ⟨hw, hblock⟩ hblock))
  rintro r w₁ _ ⟨h₁, hown⟩
  cases r with
  | none => exact hend w₁ h₁
  | some coinbaseTxid =>
    refine Contract.wp_bind (Rely.refl _) (Contract.wp_mono ?_
      (fetchCoinbaseOutput_safe hJ coinbaseTxid w₁ h₁))
    rintro r w₂ _ h₂
    match r with
    | none => exact hend w₂ h₂
    | some (coinbaseAmount, coinbaseVout, script) =>
      refine Contract.wp_bind (Rely.refl _) (Contract.wp_mono ?_
        (loadOutputs_safe hJ batch settings w₂ h₂))
      rintro r w₃ _ h₃
      cases r with
      | none => exact hend w₃ h₃
      | some outputs =>
        refine signBatch_wp hids h₃.1 fun w₄ hrely₄ => ?_
        have h₄ := hJ _ _ hrely₄.evolves hrely₄.pending h₃
        exact ⟨batch, block, outputs, h₄.1 batch List.mem_cons_self, h₄.2.1,
          hround, rfl, hown coinbaseTxid rfl⟩

theorem processBatch_wp {l : List PayoutBatch} {batch : PayoutBatch}
    (settings : PayoutSettings) {w : PoolWorld}
    (hids : ∀ b ∈ l, b.id ≠ batch.id) (hw : AllPending (batch :: l) w) :
    (grounding suite data config).wp .handler
      (processBatch suite settings batch).run (fun _ => AllPending l) w := by
  have hJ := kept_allPending (batch :: l)
  have hend : ∀ {α : Type} (a : α) w, AllPending (batch :: l) w →
      (grounding suite data config).wp .handler (pure a : Body α)
        (fun _ => AllPending l) w := by
    intro α a w h w' hrely _ b hb
    exact hJ _ _ hrely.evolves hrely.pending h b (List.mem_cons_of_mem _ hb)
  refine Contract.wp_exceptBind (Rely.refl _) (Contract.wp_perform ?_)
  intro w₁ hrely₁ hinv₁ r s₁ hsem₁ _
  have hg₁ : Grounded suite data w₁ .handler
      (.db (.getByRoundId batch.roundId)) := ⟨rfl, trivial⟩
  have h₁ := hJ _ _ hrely₁.evolves hrely₁.pending hw
  refine ⟨hg₁, fun w₂ hrely₂ _ => ?_⟩
  have h₂ := hJ _ _ hrely₂.evolves hrely₂.pending
    (hJ.did hsem₁ hg₁ rfl h₁)
  match r with
  | .error e => exact hend _ w₂ h₂
  | .ok none => exact hend _ w₂ h₂
  | .ok (some block) =>
    rcases sem_db hsem₁ with ⟨hr, rfl⟩ | ⟨⟨e, he⟩, _⟩
    · obtain ⟨hmem, hround⟩ := getByRoundId_some hr.symm
      have hread : ReadBlock data block w₂ := by
        refine kept_readBlock (t := .handler) data block _ _ hrely₂.evolves
          hrely₂.pending ?_
        exact ⟨.of_mem hmem, fun txid => hinv₁.coinbase block hmem txid⟩
      refine wp_liftM (Rely.refl _) (Contract.wp_mono ?_
        (payBatch_wp settings hids hround h₂ hread))
      intro _ w₃ _ h₃ w₄ hrely₄ _
      exact kept_allPending l _ _ hrely₄.evolves hrely₄.pending h₃
    · cases he

theorem processPendingPayouts_safe (settings : PayoutSettings) :
    (grounding suite data config).Safe .handler (fun _ => True)
      (processPendingPayouts suite settings).run := by
  -- While the loop runs, the batches that are still to come are pending, and
  -- no two of them have one id.
  let Rest (l : List PayoutBatch) (w : PoolWorld) : Prop :=
    AllPending l w ∧ l.Pairwise (fun a b => a.id ≠ b.id)
  have hkept : ∀ l, Kept .handler (Rest l) :=
    fun l w w' he hp h => ⟨kept_allPending l w w' he hp h.1, h.2⟩
  refine safe_exceptRead (d := .listBatches (some .pending)) kept_true rfl
    (fun _ _ _ => trivial) rfl (K := Rest) hkept ?_ ?_
  · intro w w' _ _ hdb pending hr
    refine ⟨fun b hb => ?_, ?_⟩
    · obtain ⟨hmem, hstatus⟩ := listBatches_ok hr hb
      exact ⟨b, hdb ▸ hmem, rfl, hstatus⟩
    · cases hr
      refine List.Pairwise.filter _ (List.pairwise_reverse.2 ?_)
      exact w.shared.db.payoutBatches.ids_lt.imp fun hlt =>
        Ne.symm (Nat.ne_of_lt hlt)
  intro pending w _ h
  refine Contract.wp_exceptForM (Rely.refl _) Rest ?_ ?_ ?_ h
  · exact fun h hrely => hkept _ _ _ hrely.evolves hrely.pending h
  · rintro batch l w ⟨hpending, hids⟩
    obtain ⟨hne, hids⟩ := List.pairwise_cons.1 hids
    refine Contract.wp_mono ?_ (processBatch_wp settings
      (fun b hb => Ne.symm (hne b hb)) hpending)
    intro r w' _ h
    cases r with
    | ok _ => exact ⟨h, hids⟩
    | error e => exact fun _ _ _ => trivial
  · exact fun _ _ _ => trivial

end AccountingService

theorem getByHash_some {blockHash : String} {db : Database} {b : FoundBlock}
    (h : ((DbOp.getByHash blockHash).run db).1 = .ok (some b)) :
    b ∈ db.foundBlocks.rows ∧ b.blockHash = blockHash := by
  have hfind := Except.ok.inj h
  have hhash := List.find?_some hfind
  exact ⟨List.mem_of_find?_eq_some hfind, by simpa using hhash⟩

/-- The rule for a body that looks a block up by its hash first. -/
theorem safe_getByHash {blockHash : String}
    {g : Except Error (Option FoundBlock) → Body Unit}
    (hsome : ∀ b w, w.shared.db.HasBlock b →
      (grounding suite data config).wp t (g (.ok (some b)))
        (fun _ _ => True) w)
    (hnone : g (.ok none) = pure ()) (herror : ∀ e, g (.error e) = pure ()) :
    (grounding suite data config).Safe t (fun _ => True)
      ((db (.getByHash blockHash)).run >>= g) := by
  refine safe_read (d := .getByHash blockHash) kept_true rfl
    (fun _ _ _ => trivial) rfl
    (K := fun r w => ∀ b, r = some b → w.shared.db.HasBlock b) ?_ ?_ ?_ ?_
  · exact fun r w w' he _ h b hr => he.blocks b (h b hr)
  · intro w w' _ _ hdb r hr b hb
    obtain ⟨hmem, _⟩ := getByHash_some (hr.trans (by rw [hb]))
    exact ⟨b, hdb ▸ hmem, rfl⟩
  · intro r w _ h
    cases r with
    | none =>
      rw [hnone]
      exact Contract.safe_pure kept_true.stable _ w trivial
    | some b => exact hsome b w (h b rfl)
  · intro e
    rw [herror]
    exact Contract.safe_pure kept_true.stable _

theorem createPayout_safe (ht : t = .handler ∨ t.isHttp = true)
    (block : FoundBlock) (settings : PayoutSettings) :
    (grounding suite data config).Safe t (fun w => w.shared.db.HasBlock block)
      (dropResult (AccountingService.createPayoutForFoundBlock suite block
        settings)) := by
  have hJ := kept_hasBlock (t := t) block
  refine safe_dropResult hJ.stable (safe_db hJ ?_ ?_ rfl)
  · rcases ht with rfl | ht
    · rfl
    · simp [DbOp.by, ht]
  · exact fun w h _ => ⟨h, rfl, rfl⟩

theorem handleBlockMatured_safe (blockHash : String)
    (settings : PayoutSettings) :
    (grounding suite data config).Safe .handler (fun _ => True)
      (handleBlockMatured suite blockHash settings) := by
  refine safe_getByHash (fun block w hblock => ?_) rfl fun _ => rfl
  have hJ := kept_hasBlock (t := .handler) block
  refine Contract.wp_bind (Rely.refl _) (Contract.wp_mono ?_
    (safe_free hJ (d := .listBatches none) rfl rfl w hblock))
  intro existing w₁ _ hblock₁
  refine Contract.wp_bind (Rely.refl _) (Contract.wp_mono ?_
    (safe_runIf hJ.stable (createPayout_safe (Or.inl rfl) block settings)
      w₁ hblock₁))
  intro _ w₂ _ _
  exact safe_dropResult kept_true.stable
    (AccountingService.processPendingPayouts_safe settings) w₂ trivial

theorem confirmSubmitted_safe (txids : List String) :
    (grounding suite data config).Safe .handler (fun _ => True)
      (confirmSubmitted txids) := by
  refine safe_read (d := .listBatches (some .submitted)) kept_true rfl
    (fun _ _ _ => trivial) rfl (K := AllSettled)
    kept_allSettled (fun w w' _ _ hdb a hr => listSubmitted_settled hdb hr) ?_
    fun e => Contract.safe_pure kept_true.stable _
  intro submitted
  have hJ := kept_true.and (kept_allSettled (t := .handler) submitted)
  refine Contract.Safe.forget
    (Contract.safe_forM hJ.stable fun batch hb => ?_)
  unfold confirmIfMined
  split
  · exact safe_runIf hJ.stable fun w h =>
      confirmBatch_wp (Or.inl rfl) hJ h (h.2 batch hb)
  · exact Contract.safe_pure hJ.stable _

theorem handlePayoutEvent_safe (settings : PayoutSettings)
    (event : PayoutEvent) :
    (grounding suite data config).Safe .handler (fun _ => True)
      (handlePayoutEvent suite settings event) := by
  cases event with
  | blockMatured blockHash => exact handleBlockMatured_safe blockHash settings
  | blockConnected txids =>
    refine Contract.Safe.bind kept_true.stable (confirmSubmitted_safe txids)
      fun _ => ?_
    exact safe_dropResult kept_true.stable
      (AccountingService.processPendingPayouts_safe settings)

/-! ## The payout route -/

theorem triggerPayout_safe (i : Nat) (blockHash : String)
    (settings : PayoutSettings) :
    (grounding suite data config).Safe (.http i) (fun _ => True)
      (triggerPayout suite blockHash settings) := by
  refine safe_getByHash (fun block w hblock => ?_) rfl fun _ => rfl
  dsimp only
  split
  · exact Contract.safe_pure kept_true.stable _ w trivial
  · split
    · exact Contract.safe_pure kept_true.stable _ w trivial
    · exact Contract.wp_mono (fun _ _ _ _ => trivial)
        (createPayout_safe (Or.inr rfl) block settings w hblock)

/-! ## All runs -/

/-- Every run of the server meets the grounding contract. -/
theorem grounding_valid : (grounding suite data config).Valid where
  refl := Rely.refl
  trans _ _ _ _ := Rely.trans
  init := by
    rintro s ⟨now, chain, _, rfl⟩
    exact Sound.new now
  boot := by
    intro t w _ _
    cases t with
    | main => exact mainBoot_safe w trivial
    | _ => exact Contract.safe_pure kept_true.stable _ w trivial
  keeps hinv hsem _ hg := grounding_keeps hinv hsem hg
  others _ hsem _ hg hu := grounding_others hsem hg hu
  began := by
    intro w t k p s' hinv _ hstart _
    have hdb := start_database hstart
    refine ⟨?_, fun u hu => .of_database hdb (current_began_of_ne hu k), ?_⟩
    · change Sound data s'.db
      rw [hdb]
      exact hinv
    · cases hstart with
      | submit => exact handleSubmit_safe _ _ _ _ trivial
      | blockConnected => exact handleBlockConnected_safe _ _ _ trivial
      | blockDisconnected => exact handleBlockDisconnected_safe _ _ trivial
      | miningWorkChanged => exact onMiningWorkChanged_safe _ trivial
      | payoutEvent => exact handlePayoutEvent_safe _ _ _ trivial
      | triggerPayout => exact triggerPayout_safe _ _ _ _ trivial
      | _ => exact Contract.safe_pure kept_true.stable _ _ trivial
  env := by
    rintro w s' hinv (⟨now, _, rfl⟩ | ⟨_, chain, _, rfl⟩) _
    · refine ⟨Sound.now hinv now, fun u => ⟨⟨?_, ?_, ?_⟩, fun _ => ?_, rfl⟩⟩
      all_goals exact fun _ h => h
    · exact ⟨hinv, fun u => .of_database rfl rfl⟩
  crash := by
    rintro w s' hinv ⟨chain, _, rfl⟩ _
    exact hinv

/-- The turns of a run are grounded. -/
theorem turns_grounded {ok : PoolWorld → PoolEntry → Prop} :
    (pool suite data config).Turns ok (grounding suite data config).Known :=
  grounding_valid.turns.mono fun _ _ _ => trivial

theorem reach_grounded {ok : PoolWorld → PoolEntry → Prop} {c : PoolConfig}
    (h : (pool suite data config).Reach ok c) :
    (pool suite data config).Reach
      (fun w e => ok w e ∧ (grounding suite data config).Known w e) c :=
  turns_grounded.reach h

end StratumServer
