import StratumServer.Blocks.Built

/-!
# The size of a block

The size of a job is worked out from a coinbase with zeros in the place of
the extranonces.  The block is built later, with the extranonces of a
submission in that place.  They are inside of the script, whose length is
written in front of it.  So the two coinbases are read in the same way, and
they have the same length when they are written again.

The parts of the coinbase are texts in hexadecimal.  Nothing is assumed of
their lengths: the first one may end in the middle of a byte, the numbers in
it may be written in a longer form than they need, and bytes may follow the
transaction in the second one.

`Suite.Reads.deserTx_replace` says this of the two coinbases, and
`blockSize_real` of the block.
-/

namespace StratumServer

/-! ## What is assumed -/

/-- The libraries read a transaction in the usual format.  They may insist on
numbers in their shortest form. -/
structure Suite.Reads (suite : Suite) where
  ofTx : Transaction → suite.Tx
  serTx_ofTx : ∀ tx, suite.serTx (ofTx tx) = Codec.transaction.encode tx
  insists : Bool
  deserTx_eq : ∀ bs, suite.deserTx bs =
    ((Codec.transaction.decode bs).filter fun x =>
      !insists || bs == Codec.transaction.encode x.1 ++ x.2).map
        fun x => ofTx x.1

/-- The first part of the coinbase ends in the script of its input, and the
second part begins there, or right after it. -/
structure MiningTemplate.CutIn (template : MiningTemplate) (h : ScriptHead)
    (script tail : List UInt8) : Prop where
  sample : Text.hexDecode (template.coinbase1 ++ dummyExtranonce ++
    template.coinbase2) = some (h.bytes ++ (script ++ tail))
  length : script.length = h.length.1
  starts : 2 * h.bytes.length ≤ template.coinbase1.toList.length
  ends : template.coinbase1.toList.length + 2 * extranonceTotalSize ≤
    2 * (h.bytes.length + script.length)

/-! ## The coinbase -/

section Result

variable {suite : Suite}

/-- Whether a transaction is read does not depend on the bytes of its script,
nor does the length of what is read. -/
theorem Suite.Reads.deserTx_replace (hreads : suite.Reads) {h : ScriptHead}
    {script script' tail : List UInt8} (hscript : script.length = h.length.1)
    (hscript' : script'.length = h.length.1) {t : suite.Tx}
    (ht : suite.deserTx (h.bytes ++ (script ++ tail)) = some t) :
    ∃ t', suite.deserTx (h.bytes ++ (script' ++ tail)) = some t' ∧
      (suite.serTx t').length = (suite.serTx t).length := by
  rw [hreads.deserTx_eq] at ht
  obtain ⟨⟨tx, unread⟩, hfilter, rfl⟩ := Option.map_eq_some_iff.1 ht
  obtain ⟨hdecode, hform⟩ := Option.filter_eq_some_iff.1 hfilter
  obtain ⟨r, hrest, rfl⟩ := (ScriptHead.decode_iff hscript).1 hdecode
  have hdecode' := (ScriptHead.decode_iff hscript').2 ⟨r, hrest, rfl⟩
  refine ⟨hreads.ofTx (h.transaction script' hscript' r), ?_, ?_⟩
  · rw [hreads.deserTx_eq, hdecode', Option.filter_some_pos, Option.map_some]
    simp only [ScriptHead.encode_transaction, Bool.or_eq_true,
      Bool.not_eq_eq_eq_not, Bool.not_true, beq_iff_eq, List.append_assoc] at hform ⊢
    rcases hform with hlax | hshortest
    · exact Or.inl hlax
    · obtain ⟨hbytes, htail⟩ := h.bytes_append_inj hshortest
      rw [hbytes, List.append_cancel_left htail]
      exact Or.inr rfl
  · rw [hreads.serTx_ofTx, hreads.serTx_ofTx, ScriptHead.encode_transaction,
      ScriptHead.encode_transaction]
    simp only [List.length_append, hscript, hscript']

/-- The coinbase with eight other bytes. -/
theorem MiningTemplate.CutIn.replace {template : MiningTemplate} {h : ScriptHead}
    {script tail : List UInt8} (hcut : template.CutIn h script tail)
    {extranonces : String} {x : List UInt8}
    (hx : Text.hexDecode extranonces = some x)
    (hlength : x.length = extranonceTotalSize) :
    ∃ script', script'.length = h.length.1 ∧
      Text.hexDecode (template.coinbase1 ++ extranonces ++ template.coinbase2) =
        some (h.bytes ++ (script' ++ tail)) := by
  obtain ⟨hdigits, hdouble⟩ := Text.hexDecodeChars_some hx
  have hdummy : dummyExtranonce.toList.length = 2 * extranonceTotalSize := by
    rw [dummyExtranonce, Text.length_hexEncode, List.length_replicate]
  obtain ⟨script', hscript', hbytes⟩ := Text.hexDecode_replace hcut.sample
    hcut.starts (by rw [hdummy]; exact hcut.ends) hdigits (by
      rw [hdouble, hdummy, hlength])
  exact ⟨script', hscript'.trans hcut.length, hbytes⟩

/-! ## The block -/

/-- For every job of a template that is cut in the script, and for all eight
bytes of the extranonces, the block that is built has the size of the job. -/
theorem blockSize_real (hformats : suite.Formats) (hreads : suite.Reads)
    {template : MiningTemplate} {cleanJobs : Bool} {job : MiningJob}
    (hjob : templateToJob suite template cleanJobs = .ok job)
    (hwrite : ∀ header metadata txs,
      suite.deserBlock template.block = some (header, metadata, txs) →
        suite.serBlock header metadata txs = template.block)
    {h : ScriptHead} {script tail : List UInt8}
    (hcut : template.CutIn h script tail) {extranonce1 : String}
    {p : SubmitParams} {x : List UInt8}
    (hx : Text.hexDecode (extranonce1 ++ p.extranonce2) = some x)
    (hlength : x.length = extranonceTotalSize) {header : suite.Header}
    (hheader : submissionHeader suite job extranonce1 p = some header) :
    ∃ blockHex blockHash bytes,
      buildSubmitBlock suite job extranonce1 p = .block blockHex blockHash ∧
      Text.hexDecode blockHex = some bytes ∧ bytes.length = job.blockSize := by
  have hgives := templateToJob_ok suite hjob
  obtain ⟨header₀, metadata, tx₀, txs, sample, sampleTx, hread, hsample,
    hsampleTx, hsize⟩ := computeBlockSize_ok suite hgives.blockSize
  cases hcut.sample.symm.trans hsample
  obtain ⟨script', hscript', hbytes⟩ := hcut.replace hx hlength
  obtain ⟨tx, htx, hsame⟩ :=
    hreads.deserTx_replace hcut.length hscript' hsampleTx
  -- The block differs from that of the template in its header and coinbase.
  have hreal : (suite.serBlock (suite.updateMerkleRoot header (tx :: txs))
      metadata (tx :: txs)).length = job.blockSize := by
    have hdiff := hformats.length_serBlock
      (suite.updateMerkleRoot header (tx :: txs)) header₀ metadata tx tx₀ txs
    have hle := hformats.length_le_serBlock header₀ metadata tx₀ txs
    rw [hwrite _ _ _ hread] at hdiff hle
    rw [asU64, if_pos (by omega)] at hsize
    omega
  refine ⟨_, (suite.calcHash (suite.updateMerkleRoot header (tx :: txs))).toHexBe,
    _, ?_, Text.hexDecode_hexEncode _, hreal⟩
  rw [← String.append_assoc] at hbytes
  unfold buildSubmitBlock
  rw [hgives.blockBytes, hread, hheader, hgives.coinbase1, hgives.coinbase2,
    hbytes, Option.bind_some, htx]
  dsimp only
  rw [if_pos (by rw [hreal]; simp)]

end Result

/-! ## A sample -/

/-- The sample libraries take numbers in any form. -/
def wireSuite_reads : wireSuite.Reads where
  ofTx tx := tx
  serTx_ofTx _ := rfl
  insists := false
  deserTx_eq bs := by
    change (Codec.transaction.decode bs).map _ = _
    cases Codec.transaction.decode bs <;> rfl

/-- What stands in front of the script of the sample coinbase. -/
def wireHead : ScriptHead where
  version := wireCoinbase.version
  count := Codec.encodeSize 1
  inputs := ⟨1, by decide⟩
  count_reads := Codec.compactSize.decode_encode ⟨1, by decide⟩
  inputs_pos := Nat.one_pos
  prevOut := wireCoinbase.prevOut
  size := Codec.encodeSize 12
  length := ⟨12, by decide⟩
  size_reads := Codec.compactSize.decode_encode ⟨12, by decide⟩

theorem wireTemplate_cutIn : wireTemplate.CutIn wireHead
    (wireCoinbase.before ++ List.replicate 8 0) wireCoinbase.part2 where
  sample := by
    rw [hexDecode_wireTemplate]
    decide
  length := by decide
  starts := by
    rw [show wireTemplate.coinbase1 = Text.hexEncode wireCoinbase.part1 from rfl,
      Text.length_hexEncode]
    decide
  ends := by
    rw [show wireTemplate.coinbase1 = Text.hexEncode wireCoinbase.part1 from rfl,
      Text.length_hexEncode]
    decide

theorem blockSize_real_sample : ∃ blockHex blockHash bytes,
    buildSubmitBlock wireSuite wireJob wireSession.extranonce1
      (wireSubmit [0, 0, 0, 3]) = .block blockHex blockHash ∧
    Text.hexDecode blockHex = some bytes ∧
      bytes.length = wireTemplate.block.length := by
  have hheader : (wireHeader [0, 0, 0, 3]).isSome = true := by decide +kernel
  obtain ⟨header, hheader⟩ := Option.isSome_iff_exists.1 hheader
  obtain ⟨header₀, tx₀, hread, hwrite⟩ := wireTemplate_block
  refine blockSize_real wireSuite_formats wireSuite_reads
    templateToJob_wireTemplate ?_ wireTemplate_cutIn
    (Text.hexDecode_append (Text.hexDecode_hexEncode _)
      (Text.hexDecode_hexEncode _)) rfl
    ((submissionHeader_wireSubmit _).trans hheader)
  intro header metadata txs hblock
  cases hread.symm.trans hblock
  exact hwrite

end StratumServer
