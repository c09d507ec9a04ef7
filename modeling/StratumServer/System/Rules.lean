import StratumServer.Lib.Contract
import StratumServer.Lib.Trace
import StratumServer.System.Effects

/-!
# Rules for the bodies of the server

The rules of `StratumServer.Lib.Contract` and of `StratumServer.Lib.Trace`
for the shapes that the bodies are made of: a section under the connection
lock, a call whose result is dropped, an `if` without an `else`, and a body
inside a fallible one.  The bodies at the end of `handle_submit` and the loop
body of `process_pending_payouts` occur in several results, so the rules for
them are here too.
-/

namespace StratumServer

open Tasks

variable {suite : Suite} {data : ChainData} {config : ServerConfig}
  {C : Contract (pool suite data config)} {t : Task} {α : Type}

/-! ## Shapes of fallible bodies -/

theorem run_liftM (p : Body α) :
    (liftM p : Fallible α).run = p >>= fun a => pure (.ok a) := rfl

theorem run_discard (p : Fallible α) :
    (discard p).run = p.run >>= fun r => pure (r.map fun _ => ()) := by
  change (Functor.mapConst PUnit.unit p).run = _
  rw [map_const, Function.comp_apply, ExceptT.run_map]
  rfl

theorem run_runIf (c : Bool) (p : Fallible Unit) :
    (runIf c p).run = if c then p.run else pure (.ok ()) := by
  cases c <;> rfl

/-! ## Postconditions -/

section Wp

variable (hrefl : ∀ w, C.rely t w w)

include hrefl

theorem wp_dropResult {p : Fallible α} {Q : Unit → PoolWorld → Prop}
    {w : PoolWorld} (h : C.wp t p.run (fun _ => C.wp t (pure ()) Q) w) :
    C.wp t (dropResult p) Q w :=
  Contract.wp_bind hrefl h

theorem wp_liftM {p : Body α} {Q : Except Error α → PoolWorld → Prop}
    {w : PoolWorld} (h : C.wp t p (fun a => C.wp t (pure (.ok a)) Q) w) :
    C.wp t (liftM p : Fallible α).run Q w := by
  rw [run_liftM]
  exact Contract.wp_bind hrefl h

end Wp

/-! ## Bodies that keep what is known -/

section Safe

variable {J : PoolWorld → Prop} (hJ : C.Stable t J)

include hJ

theorem safe_dropResult {p : Fallible α} (hp : C.Safe t J p.run) :
    C.Safe t J (dropResult p) :=
  hp.bind hJ fun _ => Contract.safe_pure hJ _

theorem safe_liftM {p : Body α} (hp : C.Safe t J p) :
    C.Safe t J (liftM p : Fallible α).run := by
  rw [run_liftM]
  exact hp.bind hJ fun _ => Contract.safe_pure hJ _

theorem safe_discard {p : Fallible α} (hp : C.Safe t J p.run) :
    C.Safe t J (discard p).run := by
  rw [run_discard]
  exact hp.bind hJ fun _ => Contract.safe_pure hJ _

theorem safe_runIf {c : Bool} {p : Body Unit} (hp : C.Safe t J p) :
    C.Safe t J (runIf c p) := by
  cases c with
  | false => exact Contract.safe_pure hJ _
  | true => exact hp

theorem safe_runIf_fallible {c : Bool} {p : Fallible Unit}
    (hp : C.Safe t J p.run) : C.Safe t J (runIf c p).run := by
  cases c with
  | false => exact Contract.safe_pure hJ _
  | true => exact hp

end Safe

/-! ## Bodies and what was done before them -/

section Keeps

variable {G : Done → Op → Prop} {K : Done → Prop}

theorem paths_db {d : DbOp} {E : Except Error d.Res → Done → Prop}
    {done : Done} (hG : G done (.db d))
    (hE : ∀ r, E r (⟨.db d, r⟩ :: done)) : (db d).run.Paths G E done :=
  Prog.paths_perform hG hE

theorem keeps_dropResult {p : Fallible α} (hp : Prog.Keeps G K p.run) :
    Prog.Keeps G K (dropResult p) :=
  hp.bind fun _ => Prog.keeps_pure _

theorem keeps_liftM {p : Body α} (hp : Prog.Keeps G K p) :
    Prog.Keeps G K (liftM p : Fallible α).run := by
  rw [run_liftM]
  exact hp.bind fun _ => Prog.keeps_pure _

theorem keeps_discard {p : Fallible α} (hp : Prog.Keeps G K p.run) :
    Prog.Keeps G K (discard p).run := by
  rw [run_discard]
  exact hp.bind fun _ => Prog.keeps_pure _

theorem keeps_runIf {c : Bool} {p : Body Unit} (hp : Prog.Keeps G K p) :
    Prog.Keeps G K (runIf c p) := by
  cases c with
  | false => exact Prog.keeps_pure _
  | true => exact hp

/-- A body without a `Result` inside a fallible one does not end it. -/
theorem paths_runIf_liftM {c : Bool} {p : Body Unit} (hp : Prog.Keeps G K p)
    {done : Done} (h : K done) :
    (runIf c (liftM p : Fallible Unit)).run.Paths G
      (fun r done => r = .ok () ∧ K done) done := by
  cases c with
  | false => exact ⟨rfl, h⟩
  | true =>
    change (liftM p : Fallible Unit).run.Paths G _ done
    rw [run_liftM]
    refine Prog.paths_bind (Prog.paths_mono ?_ (hp done h))
    exact fun _ done hdone => ⟨rfl, hdone⟩

theorem keeps_runIf_fallible {c : Bool} {p : Fallible Unit}
    (hp : Prog.Keeps G K p.run) : Prog.Keeps G K (runIf c p).run := by
  cases c with
  | false => exact Prog.keeps_pure _
  | true => exact hp

end Keeps

/-! ## What bodies perform -/

section Footprints

variable {P : Op → Prop}

theorem only_dropResult {p : Fallible α} (hp : p.run.Only P) :
    (dropResult p).Only P :=
  hp.bind fun _ => Prog.only_pure _

theorem only_liftM {p : Body α} (hp : p.Only P) :
    (liftM p : Fallible α).run.Only P := by
  rw [run_liftM]
  exact hp.bind fun _ => Prog.only_pure _

theorem only_runIf {c : Bool} {p : Body Unit} (hp : p.Only P) :
    (runIf c p).Only P := by
  cases c with
  | false => exact Prog.only_pure _
  | true => exact hp

theorem only_db {d : DbOp} (h : P (.db d)) : (db d).run.Only P :=
  Prog.only_perform h

theorem only_runIf_fallible {c : Bool} {p : Fallible Unit}
    (hp : p.run.Only P) : (runIf c p).run.Only P := by
  cases c with
  | false => exact Prog.only_pure _
  | true => exact hp

theorem only_discard {p : Fallible α} (hp : p.run.Only P) :
    (discard p).run.Only P := by
  rw [run_discard]
  exact hp.bind fun _ => Prog.only_pure _

/-- The sections of `resolve_round_for_template`. -/
theorem only_resolveRoundForTemplate {templateId : Nat}
    (hmatching : P (.db (.matchingRound templateId)))
    (hcreate : P (.db (.getOrCreateCurrentRound templateId)))
    (hevent : ∀ e, e.eventType = .roundOpened → P (.db (.recordEvent e))) :
    (AccountingService.resolveRoundForTemplate templateId).run.Only P := by
  refine Prog.Only.exceptBind ?_ fun x => ?_
  · refine Prog.Only.exceptBind (only_db hmatching) fun r => ?_
    cases r with
    | some round => exact Prog.only_pure _
    | none => exact only_db hcreate
  · refine Prog.Only.exceptBind (only_runIf_fallible
      (only_liftM (only_dropResult (only_db (hevent _ rfl))))) fun _ => ?_
    exact Prog.only_pure _

/-- What `process_pending_payouts` performs before it signs a batch. -/
def Op.prepares : Op → Bool
  | .getBlock _ | .getRawTransaction _ | .db (.updateCoinbaseTxid ..)
  | .db (.getPayoutsByBatch _) | .db (.getBatchById _) | .db (.getByRoundId _)
  | .db (.rebuildPayout ..) => true
  | _ => false

namespace AccountingService

theorem resolveCoinbaseTxid_only (block : FoundBlock) :
    (resolveCoinbaseTxid block).Only (·.prepares = true) := by
  unfold resolveCoinbaseTxid
  split
  · exact Prog.only_pure _
  · refine Prog.Only.bind (Prog.only_perform rfl) fun r => ?_
    split
    · split
      · exact Prog.only_pure _
      · exact Prog.Only.bind (only_dropResult (only_db rfl))
          fun _ => Prog.only_pure _
    · exact Prog.only_pure _

theorem fetchCoinbaseOutput_only (coinbaseTxid : String) :
    (fetchCoinbaseOutput coinbaseTxid).Only (·.prepares = true) := by
  refine Prog.Only.bind (Prog.only_perform rfl) fun r => ?_
  split
  · split <;> exact Prog.only_pure _
  · exact Prog.only_pure _

theorem loadOutputs_only (suite : Suite) (batch : PayoutBatch)
    (settings : PayoutSettings) :
    (loadOutputs suite batch settings).Only (·.prepares = true) := by
  refine Prog.Only.bind (only_db rfl) fun r => ?_
  match r with
  | .error e | .ok (p :: ps) => exact Prog.only_pure _
  | .ok [] =>
    refine Prog.Only.bind ?_ fun r => ?_
    · refine Prog.Only.exceptBind (only_db rfl) fun r => ?_
      cases r with
      | none => exact Prog.only_pure _
      | some batch =>
        dsimp only
        split
        · exact Prog.only_pure _
        · refine Prog.Only.exceptBind (only_db rfl) fun r => ?_
          cases r with
          | none => exact Prog.only_pure _
          | some block => exact only_db rfl
    · cases r <;> exact Prog.only_pure _

/-- The rule for the loop body of `process_pending_payouts`: what its
operations before the signing keep, and then the signing of a plan for the
batch. -/
theorem keeps_processBatch {G : Done → Op → Prop} {J : Done → Prop}
    {batch : PayoutBatch} {settings : PayoutSettings}
    (hprepare : ∀ o done, o.prepares = true → J done →
      G done o ∧ ∀ r, J (⟨o, r⟩ :: done))
    (hsign : ∀ signed block outputs,
      signed.plan = batchPlan batch block outputs →
        Prog.Keeps G J (signBatch batch signed)) :
    Prog.Keeps G J (processBatch suite settings batch).run := by
  have honly : ∀ {α : Type} {p : Body α}, p.Only (·.prepares = true) →
      Prog.Keeps G J p := fun hp => hp.keeps hprepare
  refine Prog.Keeps.exceptBind (honly (only_db rfl)) fun r => ?_
  match r with
  | none => exact Prog.keeps_pure _
  | some block =>
    refine keeps_liftM (Prog.Keeps.bind (honly
      (resolveCoinbaseTxid_only block)) fun r => ?_)
    match r with
    | none => exact Prog.keeps_pure _
    | some coinbaseTxid =>
      refine Prog.Keeps.bind (honly (fetchCoinbaseOutput_only coinbaseTxid))
        fun r => ?_
      match r with
      | none => exact Prog.keeps_pure _
      | some (coinbaseAmount, coinbaseVout, script) =>
        refine Prog.Keeps.bind (honly (loadOutputs_only suite batch settings))
          fun r => ?_
        match r with
        | none => exact Prog.keeps_pure _
        | some outputs => exact hsign _ block outputs rfl

end AccountingService

end Footprints

/-! ## The tail of a session

These bodies use nothing but their arguments, so they keep whatever their
operations keep. -/

section Tail

variable {J : PoolWorld → Prop} (hJ : C.Stable t J)
  (hevent : ∀ e, C.Safe t J (db (.recordEvent e)).run)

include hJ hevent

theorem safe_resolveRoundForTemplate {templateId : Nat}
    (hmatching : C.Safe t J (db (.matchingRound templateId)).run)
    (hcreate : C.Safe t J (db (.getOrCreateCurrentRound templateId)).run) :
    C.Safe t J (AccountingService.resolveRoundForTemplate templateId).run := by
  refine Contract.safe_exceptBind hJ ?_ fun r => ?_
  · refine Contract.safe_exceptBind hJ hmatching fun r => ?_
    cases r with
    | some round => exact Contract.safe_pure hJ _
    | none => exact hcreate
  · refine Contract.safe_exceptBind hJ (safe_runIf_fallible hJ
      (safe_liftM hJ (safe_dropResult hJ (hevent _)))) fun _ => ?_
    exact Contract.safe_pure hJ _

theorem safe_closeRound {id endTemplateId : Nat} {status : RoundStatus}
    (hclose : C.Safe t J (db (.closeRound id endTemplateId status)).run) :
    C.Safe t J (AccountingService.closeRound id endTemplateId status).run :=
  Contract.safe_exceptBind hJ hclose fun _ =>
    safe_liftM hJ (safe_dropResult hJ (hevent _))

theorem safe_recordFoundBlock {block : FoundBlock}
    (hrecord : C.Safe t J (db (.recordFoundBlock block)).run) :
    C.Safe t J (AccountingService.recordFoundBlock block).run := by
  refine Contract.safe_exceptBind hJ hrecord fun row => ?_
  refine Contract.safe_exceptBind hJ
    (safe_liftM hJ (safe_dropResult hJ (hevent _))) fun _ => ?_
  exact Contract.safe_pure hJ _

theorem safe_recordAcceptedBlock {job : MiningJob} {templateId : Nat}
    {builtHash : String}
    (hmatching : C.Safe t J (db (.matchingRound templateId)).run)
    (hcreate : C.Safe t J (db (.getOrCreateCurrentRound templateId)).run)
    (hrecord : ∀ roundId, C.Safe t J
      (db (.recordFoundBlock (acceptedBlock job roundId builtHash))).run)
    (hclose : ∀ id, C.Safe t J (db (.closeRound id templateId .found)).run) :
    C.Safe t J (recordAcceptedBlock job templateId builtHash) := by
  refine Contract.Safe.bind hJ
    (safe_resolveRoundForTemplate hJ hevent hmatching hcreate) fun r => ?_
  cases r with
  | error e => exact Contract.safe_pure hJ _
  | ok round =>
    refine Contract.Safe.bind hJ (safe_dropResult hJ
      (safe_recordFoundBlock hJ hevent (hrecord round.id))) fun _ => ?_
    exact safe_dropResult hJ (safe_closeRound hJ hevent (hclose round.id))

omit hevent in
theorem safe_submitCandidate {job : MiningJob} {templateId : Nat}
    {blockHex builtHash dedupeKey : String}
    (hsubmit : C.Safe t J (Prog.perform (Op.submitBlock blockHex)))
    (hrecord : C.Safe t J (recordAcceptedBlock job templateId builtHash))
    (hupdate : ∀ text,
      C.Safe t J (db (.updateOutcomeNodeResult dedupeKey text)).run) :
    C.Safe t J
      (submitCandidate job templateId blockHex builtHash dedupeKey) := by
  refine Contract.Safe.bind hJ hsubmit fun r => ?_
  match r with
  | .ok none =>
    exact Contract.Safe.bind hJ hrecord fun _ => safe_dropResult hJ (hupdate _)
  | .ok (some reason) => exact safe_dropResult hJ (hupdate _)
  | .error e => exact Contract.safe_pure hJ _

end Tail

end StratumServer
