import StratumServer.Shares.Ledger
import StratumServer.System.Simulation

/-!
# When a proof of work is credited once

Two submissions stand for one block header when they have the same
extranonce of the session and the same job, and their hex texts stand for
the same bytes.  The dedupe key of the server is built from other things:
the worker id and the texts as the miner wrote them.

`reach_creditedOncePerText` says what the key gives in every run: work that
comes back in the same texts and from the same worker, under a name with a
suffix, is not credited again.  `creditedTwice` is a run in which it comes
back in another letter case and is.
-/

namespace StratumServer

open Sql Tasks

/-! ## One piece of work -/

/-- Two texts that `hex::decode` reads as the same bytes. -/
def SameBytes (a b : String) : Prop :=
  (Text.hexDecode a).isSome ∧ Text.hexDecode a = Text.hexDecode b

instance (a b : String) : Decidable (SameBytes a b) :=
  inferInstanceAs (Decidable (_ ∧ _))

/-- Two submissions of the same block header. -/
def Share.SameWork (s₁ s₂ : Share) : Prop :=
  s₁.extranonce1 = s₂.extranonce1 ∧ s₁.jobId = s₂.jobId ∧
    SameBytes s₁.extranonce2 s₂.extranonce2 ∧
    SameBytes s₁.ntimeHex6b s₂.ntimeHex6b ∧
    SameBytes s₁.nonceHex8b s₂.nonceHex8b

instance (s₁ s₂ : Share) : Decidable (s₁.SameWork s₂) :=
  inferInstanceAs (Decidable (_ ∧ _ ∧ _ ∧ _ ∧ _))

/-- The outcome `o` credits the share `s`. -/
def Credits (o : ShareOutcome) (s : Share) : Prop :=
  o.shareId = s.id ∧ o.status = .accepted

instance (o : ShareOutcome) (s : Share) : Decidable (Credits o s) :=
  inferInstanceAs (Decidable (_ ∧ _))

/-- No piece of work is credited by two rows. -/
def CreditedOnce (db : Database) : Prop :=
  ∀ s₁ ∈ db.shares.rows, ∀ s₂ ∈ db.shares.rows,
    ∀ o₁ ∈ db.shareOutcomes.rows, ∀ o₂ ∈ db.shareOutcomes.rows,
      Credits o₁ s₁ → Credits o₂ s₂ → s₁.SameWork s₂ → o₁ = o₂

instance (db : Database) : Decidable (CreditedOnce db) :=
  inferInstanceAs (Decidable (∀ _ ∈ _, ∀ _ ∈ _, ∀ _ ∈ _, ∀ _ ∈ _, _))

/-! ## Work that comes back in the same texts -/

/-- The two shares are written in the same texts, and their workers have the
same name, with a suffix. -/
def SameTexts (db : Database) (s₁ s₂ : Share) : Prop :=
  s₁.extranonce2 = s₂.extranonce2 ∧ s₁.ntimeHex6b = s₂.ntimeHex6b ∧
    s₁.nonceHex8b = s₂.nonceHex8b ∧
    ∃ w₁ ∈ db.workers.rows, ∃ w₂ ∈ db.workers.rows,
      w₁.id = s₁.workerId ∧ w₂.id = s₂.workerId ∧
      w₁.payoutAddress = w₂.payoutAddress ∧
      w₁.workerSuffix = w₂.workerSuffix ∧ w₁.workerSuffix.isSome

/-- No piece of work is credited by two rows for the same texts. -/
def CreditedOncePerText (db : Database) : Prop :=
  ∀ s₁ ∈ db.shares.rows, ∀ s₂ ∈ db.shares.rows,
    ∀ o₁ ∈ db.shareOutcomes.rows, ∀ o₂ ∈ db.shareOutcomes.rows,
      Credits o₁ s₁ → Credits o₂ s₂ → s₁.SameWork s₂ →
        SameTexts db s₁ s₂ → o₁ = o₂

section Invariant

variable {suite : Suite} {data : ChainData} {config : ServerConfig}
  {db : Database}

/-- Workers of one name with a suffix are one worker. -/
theorem SameTexts.workerId {s₁ s₂ : Share} (h : SameTexts db s₁ s₂) :
    s₁.workerId = s₂.workerId := by
  obtain ⟨_, _, _, w₁, hw₁, w₂, hw₂, hid₁, hid₂, haddr, hsuffix, hsome⟩ := h
  obtain ⟨suffix, hsuffix₁⟩ := Option.isSome_iff_exists.1 hsome
  have heq : w₁ = w₂ := by
    refine db.workers.eq_of_key hw₁ hw₂ (k := (w₁.payoutAddress, suffix)) ?_ ?_
    · simp [Record.key, hsuffix₁]
    · simp [Record.key, ← hsuffix, hsuffix₁, haddr]
  rw [← hid₁, ← hid₂, heq]

/-- Work that comes back in the same texts has the same key. -/
theorem dedupeKey_of_sameTexts {s₁ s₂ : Share} (h : SameTexts db s₁ s₂)
    (hkey₁ : s₁.WellKeyed) (hkey₂ : s₂.WellKeyed)
    (hjob₁ : s₁.jobId = jobIdOf s₁.templateId s₁.templateEpoch)
    (hjob₂ : s₂.jobId = jobIdOf s₂.templateId s₂.templateEpoch)
    (hjob : s₁.jobId = s₂.jobId) : s₁.dedupeKey = s₂.dedupeKey := by
  obtain ⟨htemplate, hepoch⟩ := jobIdOf_inj (hjob₁.symm.trans (hjob.trans hjob₂))
  rw [hkey₁, hkey₂, h.workerId, htemplate, hepoch, h.1, h.2.1, h.2.2.1]

/-- The outcome that credits a share has its key. -/
theorem Credits.dedupeKey (hledger : Ledger db) {s : Share} {o : ShareOutcome}
    (hs : s ∈ db.shares.rows) (ho : o ∈ db.shareOutcomes.rows)
    (h : Credits o s) : o.dedupeKey = s.dedupeKey := by
  obtain ⟨s', hs', hid, hkey, _⟩ := hledger.link o ho
  rw [← hkey, db.shares.eq_of_id hs' hs (hid.trans h.1)]

theorem Ledger.creditedOncePerText (hledger : Ledger db) :
    CreditedOncePerText db := by
  intro s₁ hs₁ s₂ hs₂ o₁ ho₁ o₂ ho₂ hc₁ hc₂ hwork htexts
  have hjob₁ := hledger.accepted o₁ ho₁ hc₁.2 s₁ hs₁ hc₁.1.symm
  have hjob₂ := hledger.accepted o₂ ho₂ hc₂.2 s₂ hs₂ hc₂.1.symm
  have hkey := dedupeKey_of_sameTexts htexts (hledger.key s₁ hs₁)
    (hledger.key s₂ hs₂) hjob₁.1 hjob₂.1 hwork.2.1
  refine db.shareOutcomes.eq_of_key ho₁ ho₂ (k := s₁.dedupeKey) ?_ ?_
  · exact congrArg some (hc₁.dedupeKey hledger hs₁ ho₁)
  · exact congrArg some ((hc₂.dedupeKey hledger hs₂ ho₂).trans hkey.symm)

/-- In every run, work that comes back in the same texts and from the same
worker is not credited again. -/
theorem reach_creditedOncePerText {c : PoolConfig}
    (h : (pool suite data config).Reach (fun _ _ => True) c) :
    CreditedOncePerText c.world.shared.db :=
  (reach_ledger h).creditedOncePerText

end Invariant

/-! ## Runs -/

/-- Two submissions of one miner, one after the other. -/
def submitsTwice (worker worker' extranonce2 extranonce2' : String) :
    List Scene :=
  let job := sampleJob 7 10 hardTarget
  bootsWith job ++ logsIn 0 worker ++
    [.begin (.session 0) (.authorize worker')] ++
    submits 0 (sampleSubmit worker job extranonce2) ++
    submits 0 (sampleSubmit worker' job extranonce2')

/-- A run in which the same texts come back and are not credited again. -/
theorem reach_creditedOncePerText_sample : ∃ c : PoolConfig,
    c.world.shared.db.shareOutcomes.rows.length = 1 ∧
      CreditedOncePerText c.world.shared.db := by
  have hrun : (schedule sampleSuite sampleData sampleConfig (fun _ _ => true)
      ["genesis"] (submitsTwice "lotus_a.rig" "lotus_a.rig" "0a" "0a")).map
      (fun c => c.world.shared.db.shareOutcomes.rows.length) = some 1 := by
    decide +kernel
  obtain ⟨c, hc, hlength⟩ := Option.map_eq_some_iff.1 hrun
  exact ⟨c, hlength, reach_creditedOncePerText (reach_schedule _ _ _
    (fun _ _ _ => trivial) (by decide) hc)⟩

/-- One piece of work that is credited twice, in another letter case. -/
theorem creditedTwice : ∃ c : PoolConfig,
    (pool sampleSuite sampleData sampleConfig).Reach (fun _ _ => True) c ∧
      ¬ CreditedOnce c.world.shared.db := by
  have hrun : (schedule sampleSuite sampleData sampleConfig (fun _ _ => true)
      ["genesis"] (submitsTwice "lotus_a.rig" "lotus_a.rig" "0a" "0A")).map
        (fun c => decide (CreditedOnce c.world.shared.db)) = some false := by
    decide +kernel
  obtain ⟨c, hc, hcredited⟩ := Option.map_eq_some_iff.1 hrun
  exact ⟨c, reach_schedule _ _ _ (fun _ _ _ => trivial) (by decide) hc,
    of_decide_eq_false hcredited⟩

/-- Another worker of the same session is credited for the work again. -/
example : (schedule sampleSuite sampleData sampleConfig (fun _ _ => true)
    ["genesis"] (submitsTwice "lotus_a.rig" "lotus_b.rig" "0a" "0a")).map
      (fun c => decide (CreditedOnce c.world.shared.db)) = some false := by
  decide +kernel

end StratumServer
