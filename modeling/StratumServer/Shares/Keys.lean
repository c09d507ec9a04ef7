import StratumServer.Shares.Ledger

/-!
# Who can take a dedupe key

The dedupe key of a share is its worker, its template and the three texts of
the submission with colons between them.  A miner may send any texts, and
submissions that are rejected are stored too.

The texts of a well-formed submission contain no colon, so its key has five
of them.  Another key with five colons has none inside its texts either, and
then the two are the same part by part.  `wellFormed_key_unique` says this of
the keys, and `row_of_wellFormed_key` of the rows that are stored.
-/

namespace StratumServer

namespace ShareRepository

/-- The parts of a dedupe key. -/
def keyParts (workerId : Int) (templateId templateEpoch : Nat)
    (extranonce2 ntime nonce : String) : List String :=
  [workerId.repr, templateId.repr, templateEpoch.repr, extranonce2, ntime,
    nonce]

theorem toList_buildDedupeKey (workerId : Int) (templateId templateEpoch : Nat)
    (extranonce2 ntime nonce : String) :
    (buildDedupeKey workerId templateId templateEpoch extranonce2 ntime
      nonce).toList = [':'].intercalate ((keyParts workerId templateId
        templateEpoch extranonce2 ntime nonce).map String.toList) := by
  have hkey : buildDedupeKey workerId templateId templateEpoch extranonce2
      ntime nonce = workerId.repr ++ ":" ++ templateId.repr ++ ":" ++
        templateEpoch.repr ++ ":" ++ extranonce2 ++ ":" ++ ntime ++ ":" ++
        nonce := rfl
  have hcolon : ":".toList = [':'] := by decide
  rw [hkey, keyParts]
  simp only [List.map_cons, List.map_nil, List.intercalate_cons_cons,
    List.intercalate_singleton, String.toList_append, hcolon,
    List.append_assoc]

/-- No part of the key of a well-formed submission contains a colon. -/
theorem notMem_keyParts {workerId : Int} {templateId templateEpoch : Nat}
    {extranonce2 ntime nonce : String}
    (h : validateShareFormat extranonce2 ntime nonce = true) :
    ∀ part ∈ keyParts workerId templateId templateEpoch extranonce2 ntime
      nonce, ':' ∉ part.toList := by
  have hcolon : isAsciiHexdigit ':' = false := by decide
  obtain ⟨hextranonce2, hntime⟩ := validateShareFormat_notMem h
  simp only [validateShareFormat, Bool.and_eq_true] at h
  have hnonce := notMem_of_all_isAsciiHexdigit hcolon h.2
  simp only [keyParts, List.forall_mem_cons, List.not_mem_nil, false_imp_iff,
    implies_true, and_true]
  exact ⟨Text.notMem_int_repr (by decide) (by decide) _,
    Text.notMem_repr (by decide) _, Text.notMem_repr (by decide) _,
    hextranonce2, hntime, hnonce⟩

section Keys

variable {w w' : Int} {t t' e e' : Nat}
  {extranonce2 extranonce2' ntime ntime' nonce nonce' : String}

/-- The parts of two keys are the same if the keys are and one of the
submissions is well formed. -/
theorem keyParts_of_key_eq
    (hformat : validateShareFormat extranonce2 ntime nonce = true)
    (h : buildDedupeKey w t e extranonce2 ntime nonce =
      buildDedupeKey w' t' e' extranonce2' ntime' nonce') :
    keyParts w t e extranonce2 ntime nonce =
      keyParts w' t' e' extranonce2' ntime' nonce' := by
  have hlist := congrArg String.toList h
  rw [toList_buildDedupeKey, toList_buildDedupeKey] at hlist
  have hclean : ∀ part ∈ (keyParts w t e extranonce2 ntime nonce).map
      String.toList, ':' ∉ part := by
    intro part hpart
    obtain ⟨s, hs, rfl⟩ := List.mem_map.1 hpart
    exact notMem_keyParts hformat s hs
  have hparts := Text.intercalate_inj (by rfl) hclean hlist
  exact List.map_injective_iff.2
    (fun _ _ hstring => String.toList_inj.1 hstring) hparts

theorem keyParts_inj (h : keyParts w t e extranonce2 ntime nonce =
      keyParts w' t' e' extranonce2' ntime' nonce') :
    w = w' ∧ t = t' ∧ e = e' ∧ extranonce2 = extranonce2' ∧ ntime = ntime' ∧
      nonce = nonce' := by
  simp only [keyParts, List.cons.injEq, and_true] at h
  obtain ⟨hw, ht, he, htexts⟩ := h
  exact ⟨Text.eq_of_int_repr hw, Text.eq_of_repr ht, Text.eq_of_repr he, htexts⟩

end Keys

end ShareRepository

/-- For all workers, templates and epochs: a submission of any texts that has
the dedupe key of a well-formed one is that submission. -/
theorem wellFormed_key_unique (w w' : Int) (t t' e e' : Nat)
    (extranonce2 extranonce2' ntime ntime' nonce nonce' : String)
    (hformat : validateShareFormat extranonce2 ntime nonce = true)
    (h : ShareRepository.buildDedupeKey w t e extranonce2 ntime nonce =
      ShareRepository.buildDedupeKey w' t' e' extranonce2' ntime' nonce') :
    w = w' ∧ t = t' ∧ e = e' ∧ extranonce2 = extranonce2' ∧ ntime = ntime' ∧
      nonce = nonce' := by
  apply ShareRepository.keyParts_inj
  exact ShareRepository.keyParts_of_key_eq hformat h

/-- A submission, and the same one again. -/
theorem wellFormed_key_unique_sample :
    validateShareFormat "00000003" "6adc0c6a0000" "bc5df0ee5f1cfa3a" = true ∧
      (-1 : Int) = -1 ∧ 890 = 890 ∧ 100 = 100 ∧ "00000003" = "00000003" ∧
      "6adc0c6a0000" = "6adc0c6a0000" ∧
      "bc5df0ee5f1cfa3a" = "bc5df0ee5f1cfa3a" := by
  have hformat : validateShareFormat "00000003" "6adc0c6a0000"
      "bc5df0ee5f1cfa3a" = true := by
    decide
  exact ⟨hformat, wellFormed_key_unique (-1) (-1) 890 890 100 100 _ _ _ _ _ _
    hformat rfl⟩

/-- A share row under the key of a well-formed submission is a row of that
submission. -/
theorem row_of_wellFormed_key {db : Database} (hledger : Ledger db) {s : Share}
    (hs : s ∈ db.shares.rows) {a : ShareRecord} {workerId : Nat}
    (hformat : validateShareFormat a.extranonce2 a.ntimeHex a.nonceHex = true)
    (hkey : s.dedupeKey = a.dedupeKey workerId) :
    s.workerId = workerId ∧ s.templateId = a.templateId ∧
      s.templateEpoch = a.templateEpoch ∧ s.extranonce2 = a.extranonce2 ∧
      s.ntimeHex6b = a.ntimeHex ∧ s.nonceHex8b = a.nonceHex := by
  have hown := (hledger.key s hs).symm.trans hkey
  have hparts := ShareRepository.keyParts_of_key_eq hformat hown.symm
  obtain ⟨hw, hrest⟩ := ShareRepository.keyParts_inj hparts.symm
  exact ⟨Int.ofNat_inj.1 hw, hrest⟩

end StratumServer
