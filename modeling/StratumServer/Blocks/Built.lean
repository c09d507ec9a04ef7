import StratumServer.NodeIntegration.Template
import StratumServer.Lib.Transaction

/-!
# The validator and the block builder

A submission that finds a block is judged by `validate_share`, and its block
is built by `build_submit_block`.  Both build the same header, but only the
builder reads the coinbase that the miner has put together.

The length of the coinbase script is part of `coinbase1`, and the size of the
block is part of the job.  Both were written for an `extranonce2` of four
bytes, while `validate_share_format` lets one to eight bytes through.
`agrees_iff` says for which submissions the builder returns the block that
was judged, and `agrees_fails` is one for which it does not.
-/

namespace StratumServer

open Codec (encodeSize)

/-! ## What is assumed of the libraries -/

/-- The libraries read and write transactions and blocks in the usual
formats. -/
structure Suite.Formats (suite : Suite) where
  serHeader : suite.Header → List UInt8
  serMetadata : suite.Metadata → List UInt8
  headerSize : Nat
  length_serHeader : ∀ header, (serHeader header).length = headerSize
  /-- Reading a transaction stops at its end. -/
  deserTx_encode : ∀ tx rest, ∃ t,
    suite.deserTx (Codec.transaction.encode tx ++ rest) = some t ∧
      suite.serTx t = Codec.transaction.encode tx
  serTx_encode : ∀ t, ∃ tx, suite.serTx t = Codec.transaction.encode tx
  serBlock_eq : ∀ header metadata txs,
    suite.serBlock header metadata txs = serHeader header ++
      (serMetadata metadata ++ (encodeSize txs.length ++
        txs.flatMap suite.serTx))

/-- The branches belong to the transactions: with any coinbase in front of
these, `update_merkle_root` gives the root that the branches give. -/
def Suite.BranchesOf (suite : Suite) (branches : List String)
    (txs : List suite.Tx) : Prop :=
  ∀ (args : HeaderArgs) header tx, args.merkleBranches = branches →
    (suite.buildStratumHeader args).bind suite.deserHeader = some header →
    Text.hexDecode (args.coinbase1 ++ args.extranonce1 ++ args.extranonce2 ++
      args.coinbase2) = some (suite.serTx tx) →
    suite.updateMerkleRoot header (tx :: txs) = header

/-- The texts of a template are the two parts of a coinbase whose script
length counts both extranonces. -/
structure MiningTemplate.CutFrom (template : MiningTemplate)
    (c : Coinbase extranonceTotalSize) : Prop where
  coinbase1 : Text.hexDecode template.coinbase1 = some c.part1
  coinbase2 : Text.hexDecode template.coinbase2 = some c.part2

/-! ## The property and the condition -/

/-- The coinbase of a submission. -/
def coinbaseText (job : MiningJob) (extranonce1 : String) (p : SubmitParams) :
    String :=
  job.coinbase1 ++ extranonce1 ++ p.extranonce2 ++ job.coinbase2

section Result

variable (suite : Suite)

/-- The builder returns a block, with the hash that the validator found. -/
def Agrees (job : MiningJob) (session : SessionState) (p : SubmitParams) :
    Prop :=
  ∃ blockHex blockHash,
    buildSubmitBlock suite job session.extranonce1 p =
      .block blockHex blockHash ∧
    (validateShare suite p session job).blockHash = some blockHash

/-- The `extranonce2` has four bytes.  It may also have one byte less or more
if the coinbase happens to be a transaction all the same. -/
def Fits (job : MiningJob) (extranonce1 : String) (p : SubmitParams) : Prop :=
  ∃ bs, Text.hexDecode p.extranonce2 = some bs ∧
    (bs.length = extranonce2Size ∨
      (bs.length + 1 = extranonce2Size ∨ bs.length = extranonce2Size + 1) ∧
        ∃ tx, Text.hexDecode (coinbaseText job extranonce1 p) =
          some (Codec.transaction.encode tx))

/-- The hash of the block does not tell the coinbase that was read from the
one that was submitted, although they differ. -/
def Collides (job : MiningJob) (extranonce1 : String) (p : SubmitParams)
    (txs : List suite.Tx) : Prop :=
  ∃ header bytes tx,
    submissionHeader suite job extranonce1 p = some header ∧
    Text.hexDecode (coinbaseText job extranonce1 p) = some bytes ∧
    suite.deserTx bytes = some tx ∧ suite.serTx tx ≠ bytes ∧
    suite.calcHash (suite.updateMerkleRoot header (tx :: txs)) =
      suite.calcHash header

variable {suite : Suite}

/-! ## The size of a block -/

/-- Blocks that differ in the header and the coinbase. -/
theorem Suite.Formats.length_serBlock (hformats : suite.Formats)
    (header header' : suite.Header) (metadata : suite.Metadata)
    (tx tx' : suite.Tx) (txs : List suite.Tx) :
    (suite.serBlock header metadata (tx :: txs)).length +
        (suite.serTx tx').length =
      (suite.serBlock header' metadata (tx' :: txs)).length +
        (suite.serTx tx).length := by
  rw [hformats.serBlock_eq, hformats.serBlock_eq]
  simp only [List.length_append, List.length_cons, List.flatMap_cons,
    hformats.length_serHeader]
  omega

theorem Suite.Formats.length_le_serBlock (hformats : suite.Formats)
    (header : suite.Header) (metadata : suite.Metadata) (tx : suite.Tx)
    (txs : List suite.Tx) :
    (suite.serTx tx).length ≤
      (suite.serBlock header metadata (tx :: txs)).length := by
  rw [hformats.serBlock_eq]
  simp only [List.length_append, List.flatMap_cons]
  omega

/-- The block size of a job is that of its template with a coinbase whose
script is filled up. -/
theorem blockSize_eq (hformats : suite.Formats) {template : MiningTemplate}
    {c : Coinbase extranonceTotalSize} (hcut : template.CutFrom c)
    {header : suite.Header} {metadata : suite.Metadata} {tx : suite.Tx}
    {txs : List suite.Tx}
    (hread : suite.deserBlock template.block = some (header, metadata, tx :: txs))
    (hwrite : suite.serBlock header metadata (tx :: txs) = template.block)
    {cleanJobs : Bool} {job : MiningJob}
    (hjob : templateToJob suite template cleanJobs = .ok job) :
    job.blockSize + (suite.serTx tx).length = template.block.length +
      (c.part1.length + extranonceTotalSize + c.part2.length) := by
  obtain ⟨_, _, tx', _, bytes, sampleTx, hread', hbytes, hsample, hsize⟩ :=
    computeBlockSize_ok suite (templateToJob_ok suite hjob).blockSize
  rw [hread] at hread'
  cases hread'
  let zeros : Codec.Field extranonceTotalSize :=
    ⟨List.replicate extranonceTotalSize 0, List.length_replicate⟩
  have hzeros : Text.hexDecode dummyExtranonce = some zeros.1 :=
    Text.hexDecode_hexEncode _
  have hbytes' := Text.hexDecode_append
    (Text.hexDecode_append hcut.coinbase1 hzeros) hcut.coinbase2
  rw [hbytes, ← c.encode_transaction zeros] at hbytes'
  cases hbytes'
  obtain ⟨t, ht, hlength⟩ := hformats.deserTx_encode (c.transaction zeros) []
  rw [List.append_nil, hsample] at ht
  cases ht
  have hle := hformats.length_le_serBlock header metadata tx txs
  rw [hwrite] at hle
  rw [hlength, c.encode_transaction, asU64, if_pos (by omega)] at hsize
  simp only [List.length_append, zeros.2] at hsize
  omega

/-- The size of a block with another header and another coinbase differs from
the block size of the job by as much as the coinbases do. -/
theorem length_sub_blockSize (hformats : suite.Formats)
    {template : MiningTemplate} {c : Coinbase extranonceTotalSize}
    (hcut : template.CutFrom c) {header₀ : suite.Header}
    {metadata : suite.Metadata} {tx₀ : suite.Tx} {txs : List suite.Tx}
    (hread : suite.deserBlock template.block =
      some (header₀, metadata, tx₀ :: txs))
    (hwrite : suite.serBlock header₀ metadata (tx₀ :: txs) = template.block)
    {cleanJobs : Bool} {job : MiningJob}
    (hjob : templateToJob suite template cleanJobs = .ok job)
    (header : suite.Header) (tx : suite.Tx) :
    ((suite.serBlock header metadata (tx :: txs)).length : Int) -
        job.blockSize =
      (suite.serTx tx).length -
        (c.part1.length + extranonceTotalSize + c.part2.length) := by
  have hsize := blockSize_eq hformats hcut hread hwrite hjob
  have hlength := hformats.length_serBlock header header₀ metadata tx tx₀ txs
  rw [hwrite] at hlength
  omega

/-! ## The result -/

/-- When the builder returns a block. -/
theorem buildSubmitBlock_block_iff {job : MiningJob} {extranonce1 : String}
    {p : SubmitParams} {header₀ header : suite.Header}
    {metadata : suite.Metadata} {tx₀ : suite.Tx} {txs : List suite.Tx}
    {bytes : List UInt8}
    (hread : suite.deserBlock job.blockBytes =
      some (header₀, metadata, tx₀ :: txs))
    (hheader : submissionHeader suite job extranonce1 p = some header)
    (hbytes : Text.hexDecode (coinbaseText job extranonce1 p) = some bytes)
    (blockHash : String) :
    (∃ blockHex, buildSubmitBlock suite job extranonce1 p =
        .block blockHex blockHash) ↔
      ∃ tx, suite.deserTx bytes = some tx ∧
        (((suite.serBlock (suite.updateMerkleRoot header (tx :: txs)) metadata
          (tx :: txs)).length : Int) - (job.blockSize : Int)).natAbs ≤ 1 ∧
        blockHash =
          (suite.calcHash (suite.updateMerkleRoot header (tx :: txs))).toHexBe := by
  unfold coinbaseText at hbytes
  unfold buildSubmitBlock
  rw [hread, hheader, hbytes, Option.bind_some]
  cases hdeser : suite.deserTx bytes with
  | none =>
    constructor
    · rintro ⟨_, h⟩
      cases h
    · rintro ⟨_, h, _⟩
      cases h
  | some tx =>
    dsimp only
    split
    · rename_i hsize
      constructor
      · rintro ⟨_, h⟩
        cases h
        exact ⟨tx, rfl, hsize, rfl⟩
      · rintro ⟨tx', htx, _, rfl⟩
        cases htx
        exact ⟨_, rfl⟩
    · rename_i hsize
      constructor
      · rintro ⟨_, h⟩
        cases h
      · rintro ⟨tx', htx, hsize', _⟩
        cases htx
        exact absurd hsize' hsize

/-- An `extranonce2` that fits makes the coinbase a transaction. -/
theorem Fits.transaction {job : MiningJob} {extranonce1 : String}
    {p : SubmitParams} {c : Coinbase extranonceTotalSize}
    {bs₁ bs₂ : List UInt8} (hlength : bs₁.length = extranonce1Size)
    (hbs₂ : Text.hexDecode p.extranonce2 = some bs₂)
    (hbytes : Text.hexDecode (coinbaseText job extranonce1 p) =
      some (c.part1 ++ bs₁ ++ bs₂ ++ c.part2))
    (h : Fits job extranonce1 p) :
    ∃ tx, Codec.transaction.encode tx = c.part1 ++ bs₁ ++ bs₂ ++ c.part2 := by
  obtain ⟨bs, hbs, hfour | ⟨_, tx, htx⟩⟩ := h
  · cases hbs₂.symm.trans hbs
    let x : Codec.Field extranonceTotalSize := ⟨bs₁ ++ bs₂, by
      rw [List.length_append, hlength, hfour, extranonceTotalSize]⟩
    refine ⟨c.transaction x, ?_⟩
    rw [c.encode_transaction x, List.append_assoc c.part1 bs₁ bs₂]
  · exact ⟨tx, Option.some.inj (htx.symm.trans hbytes)⟩

/-- For every job of a template and every accepted submission that finds a
block, the builder returns the block that was judged if and only if the
`extranonce2` fits. -/
theorem agrees_iff (hformats : suite.Formats) {template : MiningTemplate}
    {c : Coinbase extranonceTotalSize} (hcut : template.CutFrom c)
    {header₀ : suite.Header} {metadata : suite.Metadata} {tx₀ : suite.Tx}
    {txs : List suite.Tx}
    (hread : suite.deserBlock template.block =
      some (header₀, metadata, tx₀ :: txs))
    (hwrite : suite.serBlock header₀ metadata (tx₀ :: txs) = template.block)
    (hbranches : suite.BranchesOf template.merkleBranches txs)
    {cleanJobs : Bool} {job : MiningJob}
    (hjob : templateToJob suite template cleanJobs = .ok job)
    {session : SessionState} {p : SubmitParams}
    (hextranonce1 : ∃ bs, Text.hexDecode session.extranonce1 = some bs ∧
      bs.length = extranonce1Size)
    (haccepted : (validateShare suite p session job).accepted = true)
    (hnetwork : (validateShare suite p session job).networkTargetOk = true)
    (hcollision : ¬ Collides suite job session.extranonce1 p txs) :
    Agrees suite job session p ↔ Fits job session.extranonce1 p := by
  have hdiff := length_sub_blockSize hformats hcut hread hwrite hjob
  have hgives := templateToJob_ok suite hjob
  obtain ⟨_, hformat, _⟩ := validateShare_accepted suite haccepted
  obtain ⟨header, hheader, hhash⟩ :=
    validateShare_blockHash suite haccepted hnetwork
  obtain ⟨bs₁, hbs₁, hlength⟩ := hextranonce1
  obtain ⟨bs₂, hbs₂⟩ := validateShareFormat_hexDecode hformat
  have hbytes : Text.hexDecode (coinbaseText job session.extranonce1 p) =
      some (c.part1 ++ bs₁ ++ bs₂ ++ c.part2) := by
    unfold coinbaseText
    rw [hgives.coinbase1, hgives.coinbase2]
    exact Text.hexDecode_append (Text.hexDecode_append
      (Text.hexDecode_append hcut.coinbase1 hbs₁) hbs₂) hcut.coinbase2
  have hbuilt := buildSubmitBlock_block_iff
    (by rw [hgives.blockBytes]; exact hread) hheader hbytes
  constructor
  · rintro ⟨blockHex, blockHash, hblockHex, hsame⟩
    obtain ⟨tx, hdeser, hclose, rfl⟩ := (hbuilt blockHash).1 ⟨_, hblockHex⟩
    rw [hhash] at hsame
    have hcalc := Bytes32.toHexBe_inj (Option.some.inj hsame)
    -- The same hash means that nothing of the coinbase was left unread.
    have hwhole : suite.serTx tx = c.part1 ++ bs₁ ++ bs₂ ++ c.part2 := by
      by_contra hne
      exact hcollision ⟨header, _, tx, hheader, hbytes, hdeser, hne,
        hcalc.symm⟩
    rw [hdiff, hwhole] at hclose
    simp only [List.length_append, hlength, extranonceTotalSize,
      extranonce1Size, extranonce2Size] at hclose
    refine ⟨bs₂, hbs₂, ?_⟩
    by_cases hfour : bs₂.length = extranonce2Size
    · exact Or.inl hfour
    · obtain ⟨tx', htx'⟩ := hformats.serTx_encode tx
      refine Or.inr ⟨?_, tx', by rw [hbytes, ← hwhole, htx']⟩
      unfold extranonce2Size at hfour ⊢
      omega
  · intro hfits
    obtain ⟨tx', htx'⟩ := hfits.transaction hlength hbs₂ hbytes
    obtain ⟨tx, hdeser, hser⟩ := hformats.deserTx_encode tx' []
    rw [List.append_nil, htx'] at hdeser
    rw [htx'] at hser
    have hroot : suite.updateMerkleRoot header (tx :: txs) = header :=
      hbranches (headerArgs job session.extranonce1 p) header tx
        hgives.merkleBranches hheader (hbytes.trans (congrArg some hser.symm))
    have hclose : (((suite.serBlock (suite.updateMerkleRoot header (tx :: txs))
        metadata (tx :: txs)).length : Int) - job.blockSize).natAbs ≤ 1 := by
      obtain ⟨bs, hbs, hfits⟩ := hfits
      cases hbs₂.symm.trans hbs
      rw [hdiff, hser]
      simp only [List.length_append, hlength, extranonceTotalSize,
        extranonce1Size]
      unfold extranonce2Size at hfits ⊢
      omega
    obtain ⟨blockHex, hblockHex⟩ := (hbuilt _).2 ⟨tx, hdeser, hclose, rfl⟩
    exact ⟨blockHex, _, hblockHex, by rw [hhash, hroot]⟩

end Result

/-! ## A sample -/

/-- A number of thirty-two bytes that depends on all bytes of a text. -/
def checksum (bs : List UInt8) : Bytes32 :=
  ⟨Codec.le 32 (bs.foldl (fun n b => (256 * n + b.toNat) % (2 ^ 256 - 189)) 1),
    Codec.length_le _ _⟩

/-- The bytes of a header around its merkle root.  Fields that are the same
for all blocks of a job are zero, except for the size and the height. -/
def headerAround (a : HeaderArgs) : Option (Codec.Field 96 × Codec.Field 32) :=
  (Text.hexDecode (a.ntime ++ a.nonce)).bind fun bs =>
    if h : (bs ++ Codec.le 8 a.blockSize ++ Codec.le 4 a.height.toNat ++
        List.replicate 70 0).length = 96 then
      some (⟨_, h⟩, ⟨List.replicate 32 0, List.length_replicate⟩)
    else none

/-- Another merkle root in a header. -/
def withRoot (header : Codec.Field 160) (root : Bytes32) : Codec.Field 160 :=
  ⟨header.1.take 96 ++ root.1 ++ header.1.drop 128, by
    rw [List.length_append, List.length_append, List.length_take,
      List.length_drop, header.2, root.2]
    rfl⟩

/-- Libraries that use the formats.  A checksum takes the place of the hash,
and there are only blocks without other transactions. -/
def wireSuite : Suite where
  Header := Codec.Field 160
  Metadata := Unit
  Tx := Transaction
  isLotusAddress a := a.startsWith "lotus_"
  buildStratumHeader a :=
    (Text.hexDecode (a.coinbase1 ++ a.extranonce1 ++ a.extranonce2 ++
      a.coinbase2)).bind fun coinbase => (headerAround a).map fun x =>
      x.1.1 ++ (checksum coinbase).1 ++ x.2.1
  deserHeader bs := ((Codec.bytes 160).decode bs).map (·.1)
  calcHash header := checksum header.1
  headerMeetsDifficulty _ _ := some true
  targetToDifficulty _ := some 1
  epochHash header := ⟨(header.1.drop 64).take 32, by
    rw [List.length_take, List.length_drop, header.2]
    rfl⟩
  extendedMetadataHash header := ⟨header.1.drop 128, by
    rw [List.length_drop, header.2]⟩
  deserBlock bs :=
    (((Codec.bytes 160).pair (Codec.compactSize.pair
      Codec.transaction.vec)).decode bs).map fun x => (x.1.1, (), x.1.2.2.1)
  deserTx bs := (Codec.transaction.decode bs).map (·.1)
  serTx := Codec.transaction.encode
  updateMerkleRoot header txs :=
    withRoot header (checksum (txs.flatMap Codec.transaction.encode))
  serBlock header _ txs := header.1 ++ (encodeSize 0 ++
    (encodeSize txs.length ++ txs.flatMap Codec.transaction.encode))
  submittedHash hex :=
    match Text.hexDecode hex with
    | some bs => (checksum (bs.take 160)).toHexBe
    | none => ""
  submittedHash_ser header _ txs := by
    rw [Text.hexDecode_hexEncode]
    dsimp only
    rw [List.take_append_of_le_length (le_of_eq header.2.symm),
      List.take_of_length_le (le_of_eq header.2)]

def wireSuite_formats : wireSuite.Formats where
  serHeader header := header.1
  serMetadata _ := encodeSize 0
  headerSize := 160
  length_serHeader header := header.2
  deserTx_encode tx rest := by
    refine ⟨tx, ?_, rfl⟩
    change (Codec.transaction.decode _).map _ = _
    rw [Codec.transaction.decode_encode]
    rfl
  serTx_encode tx := ⟨tx, rfl⟩
  serBlock_eq _ _ _ := rfl

/-- What is read from the parts of a header. -/
theorem wireSuite_deserHeader (front : Codec.Field 96) (root : Bytes32)
    (back : Codec.Field 32) : ∃ h,
    wireSuite.deserHeader (front.1 ++ root.1 ++ back.1) =
      some ⟨front.1 ++ root.1 ++ back.1, h⟩ := by
  have hlength : (front.1 ++ root.1 ++ back.1).length = 160 := by
    rw [List.length_append, List.length_append, front.2, back.2, root.2]
  have hread := (Codec.bytes 160).decode_encode ⟨_, hlength⟩ []
  rw [List.append_nil] at hread
  exact ⟨hlength, congrArg (Option.map Prod.fst) hread⟩

/-- The header of a submission whose coinbase is known. -/
theorem submissionHeader_wireSuite (job : MiningJob) (extranonce1 : String)
    (p : SubmitParams) {coinbase : List UInt8}
    (h : Text.hexDecode (coinbaseText job extranonce1 p) = some coinbase) :
    submissionHeader wireSuite job extranonce1 p =
      ((headerAround (headerArgs job extranonce1 p)).map fun x =>
        x.1.1 ++ (checksum coinbase).1 ++ x.2.1).bind wireSuite.deserHeader := by
  unfold submissionHeader
  change ((Text.hexDecode (coinbaseText job extranonce1 p)).bind _).bind _ = _
  rw [h]
  rfl

theorem withRoot_self (front : Codec.Field 96) (root : Bytes32)
    (back : Codec.Field 32) (h : (front.1 ++ root.1 ++ back.1).length = 160) :
    withRoot ⟨front.1 ++ root.1 ++ back.1, h⟩ root =
      ⟨front.1 ++ root.1 ++ back.1, h⟩ := by
  have htake : (front.1 ++ root.1 ++ back.1).take 96 = front.1 := by
    rw [List.append_assoc, List.take_append_of_le_length (by rw [front.2]),
      List.take_of_length_le (by rw [front.2])]
  have hdrop : (front.1 ++ root.1 ++ back.1).drop 128 = back.1 := by
    have hlength : (front.1 ++ root.1).length = 128 := by
      rw [List.length_append, front.2, root.2]
    rw [← hlength, List.drop_left]
  refine Subtype.ext ?_
  change (front.1 ++ root.1 ++ back.1).take 96 ++ root.1 ++
    (front.1 ++ root.1 ++ back.1).drop 128 = _
  rw [htake, hdrop]

/-- The root of a block with one transaction. -/
theorem wireSuite_branchesOf : wireSuite.BranchesOf [] [] := by
  intro args header tx _ hheader htx
  obtain ⟨bytes, hbuilt, hdeser⟩ := Option.bind_eq_some_iff.1 hheader
  obtain ⟨coinbase, hcoinbase, hbuilt⟩ := Option.bind_eq_some_iff.1 hbuilt
  obtain ⟨⟨front, back⟩, _, rfl⟩ := Option.map_eq_some_iff.1 hbuilt
  rw [htx] at hcoinbase
  cases hcoinbase
  obtain ⟨hlength, hread⟩ := wireSuite_deserHeader front
    (checksum (Codec.transaction.encode tx)) back
  cases hdeser.symm.trans hread
  change withRoot _ (checksum (Codec.transaction.encode tx ++ [])) = _
  rw [List.append_nil]
  exact withRoot_self front _ back hlength

/-- A coinbase with two outputs.  The first one has no value. -/
def wireCoinbase : Coinbase extranonceTotalSize where
  version := ⟨[2, 0, 0, 0], rfl⟩
  prevOut := ⟨List.replicate 32 0 ++ List.replicate 4 255, by decide⟩
  before := [0x00, 0x00, 0x0e, 0x2f]
  after := []
  bound := by decide
  sequence := ⟨List.replicate 4 255, by decide⟩
  outputs := ⟨[
    ⟨⟨List.replicate 8 0, by decide⟩,
      ⟨[0x6a, 0x05, 0x6c, 0x6f, 0x67, 0x6f, 0x73], by decide⟩⟩,
    ⟨⟨[0x7e, 0xcf, 0x36, 0x0d, 0, 0, 0, 0], rfl⟩, ⟨[0x51], by decide⟩⟩],
    by decide⟩
  lockTime := ⟨List.replicate 4 0, by decide⟩

/-- The template of a block whose only transaction is this coinbase. -/
def wireTemplate : MiningTemplate where
  templateId := 890
  block := List.replicate 160 0 ++ [0, 1] ++
    (wireCoinbase.part1 ++ List.replicate 8 0 ++ wireCoinbase.part2)
  header := []
  height := 1292529
  version := 1
  target := ⟨List.replicate 32 255, by decide⟩
  curtime := 100
  coinbaseValue := 5000000000
  coinbase1 := Text.hexEncode wireCoinbase.part1
  coinbase2 := Text.hexEncode wireCoinbase.part2
  merkleBranches := []
  prevHashStratum := "00"
  nbitsStratum := "10d0091c"
  ntimeStratum := "6adc0c6a0000"

theorem wireTemplate_cutFrom : wireTemplate.CutFrom wireCoinbase where
  coinbase1 := Text.hexDecode_hexEncode _
  coinbase2 := Text.hexDecode_hexEncode _

theorem wireTemplate_block : ∃ header₀ tx₀,
    wireSuite.deserBlock wireTemplate.block = some (header₀, (), [tx₀]) ∧
    wireSuite.serBlock header₀ () [tx₀] = wireTemplate.block := by
  have hread : (wireSuite.deserBlock wireTemplate.block).any (fun x =>
      decide (x.2.2.length = 1 ∧
        wireSuite.serBlock x.1 x.2.1 x.2.2 = wireTemplate.block)) = true := by
    decide +kernel
  obtain ⟨⟨header₀, _, txs⟩, hblock, hx⟩ := (Option.any_eq_true _ _).1 hread
  obtain ⟨hlength, hwrite⟩ := of_decide_eq_true hx
  obtain ⟨tx₀, rfl⟩ := List.length_eq_one_iff.1 hlength
  exact ⟨header₀, tx₀, hblock, hwrite⟩

/-- The job of the template. -/
def wireJob : MiningJob where
  templateId := 890
  templateEpoch := 100
  prevhash := "00"
  coinbase1 := wireTemplate.coinbase1
  coinbase2 := wireTemplate.coinbase2
  merkleBranches := []
  version := Text.hexEncode (Codec.le 4 1).reverse
  nbits := "10d0091c"
  ntime := "6adc0c6a0000"
  networkTargetHex := wireTemplate.target.toHexBe
  cleanJobs := false
  height := 1292529
  epochHash := ""
  extendedMetadataHash := ""
  blockSize := wireTemplate.block.length
  blockBytes := wireTemplate.block
  coinbaseValue := 5000000000

/-- The coinbase of the template with zeros for the extranonces. -/
theorem hexDecode_wireTemplate : Text.hexDecode (wireTemplate.coinbase1 ++
    dummyExtranonce ++ wireTemplate.coinbase2) = some (wireCoinbase.part1 ++
      List.replicate 8 0 ++ wireCoinbase.part2) :=
  Text.hexDecode_append (Text.hexDecode_append
    (Text.hexDecode_hexEncode _) (Text.hexDecode_hexEncode _))
    (Text.hexDecode_hexEncode _)

theorem templateToJob_wireTemplate :
    templateToJob wireSuite wireTemplate false = .ok wireJob := by
  have hsize : computeBlockSizeWithExtranonce wireSuite wireTemplate.block
      wireTemplate.coinbase1 wireTemplate.coinbase2 =
        .ok wireTemplate.block.length := by
    unfold computeBlockSizeWithExtranonce
    rw [hexDecode_wireTemplate]
    decide +kernel
  unfold templateToJob
  rw [hsize]
  rfl

/-- A session that works on the job. -/
def wireSession : SessionState where
  sessionId := "sess-1"
  extranonce1 := Text.hexEncode [0x79, 0xac, 0xa8, 0xe7]
  isSubscribed := true
  isAuthorized := true
  authorizedWorkers := ["lotus_a.rig"]
  assignedJobs := [⟨wireJob.jobId, 1, wireJob.ntime⟩]
  vardiff := ⟨{}, 1, 1, 0, []⟩

def wireSubmit (extranonce2 : List UInt8) : SubmitParams :=
  ⟨"lotus_a.rig", wireJob.jobId, Text.hexEncode extranonce2, wireJob.ntime,
    "bc5df0ee5f1cfa3a"⟩

/-- The bytes of the coinbase of a submission. -/
def wireBytes (extranonce2 : List UInt8) : List UInt8 :=
  wireCoinbase.part1 ++ [0x79, 0xac, 0xa8, 0xe7] ++ extranonce2 ++
    wireCoinbase.part2

theorem hexDecode_wireSubmit (extranonce2 : List UInt8) :
    Text.hexDecode (coinbaseText wireJob wireSession.extranonce1
      (wireSubmit extranonce2)) = some (wireBytes extranonce2) :=
  Text.hexDecode_append (Text.hexDecode_append (Text.hexDecode_append
    (Text.hexDecode_hexEncode _) (Text.hexDecode_hexEncode _))
    (Text.hexDecode_hexEncode _)) (Text.hexDecode_hexEncode _)

/-- The header of a submission. -/
def wireHeader (extranonce2 : List UInt8) : Option (Codec.Field 160) :=
  ((headerAround (headerArgs wireJob wireSession.extranonce1
    (wireSubmit extranonce2))).map fun x =>
      x.1.1 ++ (checksum (wireBytes extranonce2)).1 ++ x.2.1).bind
    wireSuite.deserHeader

theorem submissionHeader_wireSubmit (extranonce2 : List UInt8) :
    submissionHeader wireSuite wireJob wireSession.extranonce1
      (wireSubmit extranonce2) = wireHeader extranonce2 :=
  submissionHeader_wireSuite _ _ _ (hexDecode_wireSubmit extranonce2)

/-- A submission with an `extranonce2` of four bytes. -/
theorem agrees_iff_sample :
    (validateShare wireSuite (wireSubmit [0, 0, 0, 3]) wireSession
      wireJob).networkTargetOk = true ∧
    Fits wireJob wireSession.extranonce1 (wireSubmit [0, 0, 0, 3]) ∧
    Agrees wireSuite wireJob wireSession (wireSubmit [0, 0, 0, 3]) := by
  have hfound : ((validateShare wireSuite (wireSubmit [0, 0, 0, 3]) wireSession
      wireJob).accepted && (validateShare wireSuite (wireSubmit [0, 0, 0, 3])
        wireSession wireJob).networkTargetOk) = true := by
    unfold validateShare
    rw [submissionHeader_wireSubmit]
    decide +kernel
  obtain ⟨haccepted, hnetwork⟩ := Bool.and_eq_true_iff.1 hfound
  obtain ⟨header₀, tx₀, hread, hwrite⟩ := wireTemplate_block
  have hfits : Fits wireJob wireSession.extranonce1 (wireSubmit [0, 0, 0, 3]) :=
    ⟨_, Text.hexDecode_hexEncode _, Or.inl rfl⟩
  have hcollision : ¬ Collides wireSuite wireJob wireSession.extranonce1
      (wireSubmit [0, 0, 0, 3]) [] := by
    rintro ⟨_, bytes, tx, _, hbytes, htx, hne, _⟩
    cases (hexDecode_wireSubmit _).symm.trans hbytes
    have hwhole : (wireSuite.deserTx (wireBytes [0, 0, 0, 3])).all (fun tx =>
        wireSuite.serTx tx == wireBytes [0, 0, 0, 3]) = true := by
      decide +kernel
    rw [htx, Option.all_some, beq_iff_eq] at hwhole
    exact hne hwhole
  have hextranonce1 : ∃ bs, Text.hexDecode wireSession.extranonce1 = some bs ∧
      bs.length = extranonce1Size :=
    ⟨_, Text.hexDecode_hexEncode _, rfl⟩
  have hiff := agrees_iff wireSuite_formats wireTemplate_cutFrom hread hwrite
    wireSuite_branchesOf templateToJob_wireTemplate hextranonce1 haccepted
    hnetwork hcollision
  exact ⟨hnetwork, hfits, hiff.2 hfits⟩

/-- A submission with an `extranonce2` of one byte finds a block, and the
builder panics on it. -/
theorem agrees_fails : wireTemplate.CutFrom wireCoinbase ∧
    wireSuite.BranchesOf wireTemplate.merkleBranches [] ∧
    templateToJob wireSuite wireTemplate false = .ok wireJob ∧
    (validateShare wireSuite (wireSubmit [0]) wireSession wireJob).accepted =
      true ∧
    (validateShare wireSuite (wireSubmit [0]) wireSession
      wireJob).networkTargetOk = true ∧
    buildSubmitBlock wireSuite wireJob wireSession.extranonce1
      (wireSubmit [0]) = .panic ∧
    ¬ Agrees wireSuite wireJob wireSession (wireSubmit [0]) := by
  have hfound : ((validateShare wireSuite (wireSubmit [0]) wireSession
      wireJob).accepted && (validateShare wireSuite (wireSubmit [0])
        wireSession wireJob).networkTargetOk) = true := by
    unfold validateShare
    rw [submissionHeader_wireSubmit]
    decide +kernel
  obtain ⟨haccepted, hnetwork⟩ := Bool.and_eq_true_iff.1 hfound
  have hpanic : buildSubmitBlock wireSuite wireJob wireSession.extranonce1
      (wireSubmit [0]) = .panic := by
    unfold buildSubmitBlock
    rw [submissionHeader_wireSubmit]
    have hbytes := hexDecode_wireSubmit [0]
    unfold coinbaseText at hbytes
    rw [hbytes]
    decide +kernel
  refine ⟨wireTemplate_cutFrom, wireSuite_branchesOf,
    templateToJob_wireTemplate, haccepted, hnetwork, hpanic, ?_⟩
  rintro ⟨_, _, hblock, _⟩
  rw [hpanic] at hblock
  cases hblock

end StratumServer
