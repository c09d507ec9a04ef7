import StratumServer.StratumProtocol.Session
import StratumServer.Accounting.Schema
import StratumServer.Lib.Text

/-!
# Judging a submission and building its block

`validate_share_format`, `validate_share` and `build_submit_block`.  Both of
the last two build the header with `build_stratum_header` from the same
arguments; `headerArgs` is that call.

`Suite` stands for the Lotus libraries that the repository takes from
outside: header building, hashing, serialization and the address parser.
The one law it states is what a block hash is: the node finds the hash of a
submitted block by hashing the header that was serialized into it.
-/

namespace StratumServer

/-! ## The libraries -/

/-- The arguments of `build_stratum_header`. -/
structure HeaderArgs where
  coinbase1 : String
  extranonce1 : String
  extranonce2 : String
  coinbase2 : String
  merkleBranches : List String
  prevhash : String
  version : String
  nbits : String
  ntime : String
  nonce : String
  height : Int
  epochHash : String
  extendedMetadataHash : String
  blockSize : Nat
  deriving DecidableEq, Repr

/-- Thirty-two bytes: a hash or a target. -/
abbrev Bytes32 := { bs : List UInt8 // bs.length = 32 }

/-- A hash as the repository prints it: the bytes from the last to the
first, in hexadecimal. -/
def Bytes32.toHexBe (h : Bytes32) : String := Text.hexEncode h.1.reverse

theorem Bytes32.toHexBe_inj {h h' : Bytes32} (heq : h.toHexBe = h'.toHexBe) :
    h = h' :=
  Subtype.ext (List.reverse_injective (Text.hexEncode_inj heq))

/-- The Lotus libraries. -/
structure Suite where
  Header : Type
  Metadata : Type
  Tx : Type
  isLotusAddress : String → Bool
  buildStratumHeader : HeaderArgs → Option (List UInt8)
  deserHeader : List UInt8 → Option Header
  calcHash : Header → Bytes32
  headerMeetsDifficulty : Bytes32 → ℚ → Option Bool
  targetToDifficulty : Bytes32 → Option ℚ
  epochHash : Header → Bytes32
  extendedMetadataHash : Header → Bytes32
  deserBlock : List UInt8 → Option (Header × Metadata × List Tx)
  deserTx : List UInt8 → Option Tx
  serTx : Tx → List UInt8
  updateMerkleRoot : Header → List Tx → Header
  serBlock : Header → Metadata → List Tx → List UInt8
  /-- The hash that the node gives to a block submitted in this text. -/
  submittedHash : String → String
  submittedHash_ser : ∀ h metadata txs,
    submittedHash (Text.hexEncode (serBlock h metadata txs)) =
      (calcHash h).toHexBe

variable (suite : Suite)

/-- The `[u8; 32]` of a hex text, if it is one. -/
def bytes32? (hex : String) : Option Bytes32 :=
  match Text.hexDecode hex with
  | some bs => if h : bs.length = 32 then some ⟨bs, h⟩ else none
  | none => none

/-- `network_target_hex_to_difficulty`. -/
def networkTargetHexToDifficulty (hex : String) : Option ℚ :=
  (bytes32? hex).bind suite.targetToDifficulty

/-! ## Judging a submission -/

/-- The strings of a `mining.submit` request.  A parameter that is missing
or is not a string counts as empty. -/
structure SubmitParams where
  workerName : String
  jobId : String
  extranonce2 : String
  ntimeHex : String
  nonceHex : String
  deriving DecidableEq, Repr

/-- `ValidationResult`. -/
structure ValidationResult where
  accepted : Bool
  rejectReason : Option RejectReason
  lowDiffOk : Bool
  networkTargetOk : Bool
  blockHash : Option String
  deriving DecidableEq, Repr

/-- `ValidationResult::rejected`. -/
def ValidationResult.rejected (reason : RejectReason) : ValidationResult where
  accepted := false
  rejectReason := some reason
  lowDiffOk := false
  networkTargetOk := false
  blockHash := none

/-- `char::is_ascii_hexdigit`. -/
def isAsciiHexdigit (c : Char) : Bool := (Text.hexValue c).isSome

/-- `validate_share_format`.  `str::len` counts bytes; the checks on the
characters make every accepted text ASCII, where that is their number. -/
def validateShareFormat (extranonce2 ntime nonce : String) : Bool :=
  !extranonce2.isEmpty && extranonce2.utf8ByteSize % 2 == 0 &&
    decide (extranonce2.utf8ByteSize ≤ 16) &&
    extranonce2.toList.all isAsciiHexdigit &&
    ntime.utf8ByteSize == 12 && ntime.toList.all isAsciiHexdigit &&
    nonce.utf8ByteSize == 16 && nonce.toList.all isAsciiHexdigit

/-- The arguments that both `validate_share` and `build_submit_block` give
to `build_stratum_header`. -/
def headerArgs (job : MiningJob) (extranonce1 : String) (p : SubmitParams) :
    HeaderArgs where
  coinbase1 := job.coinbase1
  extranonce1 := extranonce1
  extranonce2 := p.extranonce2
  coinbase2 := job.coinbase2
  merkleBranches := job.merkleBranches
  prevhash := job.prevhash
  version := job.version
  nbits := job.nbits
  ntime := p.ntimeHex
  nonce := p.nonceHex
  height := job.height
  epochHash := job.epochHash
  extendedMetadataHash := job.extendedMetadataHash
  blockSize := job.blockSize

/-- The header of a submission. -/
def submissionHeader (job : MiningJob) (extranonce1 : String)
    (p : SubmitParams) : Option suite.Header :=
  (suite.buildStratumHeader (headerArgs job extranonce1 p)).bind
    suite.deserHeader

/-- `U256::from_big_endian`. -/
def ofBigEndian (bs : List UInt8) : Nat :=
  bs.foldl (fun n b => 256 * n + b.toNat) 0

/-- The bytes of a hash from the last to the first. -/
def Bytes32.reverse (h : Bytes32) : Bytes32 :=
  ⟨h.1.reverse, by rw [List.length_reverse, h.2]⟩

/-- The part of `validate_share` that follows the assigned job: the header
against the two targets. -/
def judgeHeader (header : suite.Header) (pDiff : ℚ)
    (networkTargetHex : String) : ValidationResult :=
  let hashBe := (suite.calcHash header).reverse
  match suite.headerMeetsDifficulty hashBe pDiff with
  | some true =>
    match bytes32? networkTargetHex with
    | none => .rejected .invalidSubmitShape
    | some networkTarget =>
      let meetsNetwork :=
        decide (ofBigEndian hashBe.1 ≤ ofBigEndian networkTarget.1)
      { accepted := true, rejectReason := none, lowDiffOk := true,
        networkTargetOk := meetsNetwork,
        blockHash :=
          if meetsNetwork then some (suite.calcHash header).toHexBe else none }
  | _ => .rejected .lowDifficultyShare

/-- `validate_share`. -/
def validateShare (p : SubmitParams) (session : SessionState)
    (job : MiningJob) : ValidationResult :=
  if !session.authorizedWorkers.contains p.workerName then
    .rejected .unauthorizedWorker
  else if !validateShareFormat p.extranonce2 p.ntimeHex p.nonceHex then
    .rejected .invalidSubmitShape
  else
    match session.getAssignedJob p.jobId with
    | none => .rejected .staleJob
    | some assigned =>
      if p.ntimeHex ≠ assigned.ntime then .rejected .ntimeMismatch
      else
        match submissionHeader suite job session.extranonce1 p with
        | none => .rejected .invalidSubmitShape
        | some header =>
          judgeHeader suite header assigned.pDiff job.networkTargetHex

/-! ## Building the block -/

/-- What `build_submit_block` comes to: a block with its hash, an error, or
the panic of its size assertion. -/
inductive BuiltBlock
  | block (blockHex blockHash : String)
  | error
  | panic
  deriving DecidableEq, Repr

/-- `build_submit_block`. -/
def buildSubmitBlock (job : MiningJob) (extranonce1 : String)
    (p : SubmitParams) : BuiltBlock :=
  match suite.deserBlock job.blockBytes,
      submissionHeader suite job extranonce1 p,
      (Text.hexDecode (job.coinbase1 ++ extranonce1 ++ p.extranonce2 ++
        job.coinbase2)).bind suite.deserTx with
  | some (_, metadata, _ :: txs), some header, some coinbaseTx =>
    let header := suite.updateMerkleRoot header (coinbaseTx :: txs)
    let serialized := suite.serBlock header metadata (coinbaseTx :: txs)
    if ((serialized.length : Int) - (job.blockSize : Int)).natAbs ≤ 1 then
      .block (Text.hexEncode serialized) (suite.calcHash header).toHexBe
    else .panic
  | _, _, _ => .error

/-! ## What an accepted submission satisfies -/

/-- An accepted submission comes from an authorized worker, in the right
format, for an assigned job. -/
theorem validateShare_accepted {p : SubmitParams} {session : SessionState}
    {job : MiningJob} (h : (validateShare suite p session job).accepted) :
    p.workerName ∈ session.authorizedWorkers ∧
      validateShareFormat p.extranonce2 p.ntimeHex p.nonceHex ∧
      ∃ assigned header, session.getAssignedJob p.jobId = some assigned ∧
        p.ntimeHex = assigned.ntime ∧
        submissionHeader suite job session.extranonce1 p = some header ∧
        validateShare suite p session job =
          judgeHeader suite header assigned.pDiff job.networkTargetHex := by
  unfold validateShare at h ⊢
  split at h
  · exact absurd h (by simp [ValidationResult.rejected])
  rename_i hauth
  split at h
  · exact absurd h (by simp [ValidationResult.rejected])
  rename_i hformat
  split at h
  · exact absurd h (by simp [ValidationResult.rejected])
  rename_i assigned hassigned
  split at h
  · exact absurd h (by simp [ValidationResult.rejected])
  rename_i hntime
  split at h
  · exact absurd h (by simp [ValidationResult.rejected])
  rename_i header hheader
  refine ⟨by simpa using hauth, by simpa using hformat, assigned, header,
    hassigned, by simpa using hntime, hheader, ?_⟩
  rw [if_neg hauth, if_neg hformat]
  simp only [if_neg hntime]

/-- An accepted header meets the difficulty. -/
theorem judgeHeader_accepted {header : suite.Header} {pDiff : ℚ}
    {target : String} (h : (judgeHeader suite header pDiff target).accepted) :
    suite.headerMeetsDifficulty (suite.calcHash header).reverse pDiff =
      some true := by
  unfold judgeHeader at h
  dsimp only at h
  split at h
  · assumption
  · exact absurd h (by simp [ValidationResult.rejected])

theorem notMem_of_all_isAsciiHexdigit {c : Char} (hc : isAsciiHexdigit c = false)
    {text : String} (h : text.toList.all isAsciiHexdigit = true) :
    c ∉ text.toList := by
  intro hmem
  have hdigit := List.all_eq_true.1 h c hmem
  rw [hc] at hdigit
  cases hdigit

/-- The texts of the right format contain no separator of the dedupe key. -/
theorem validateShareFormat_notMem {extranonce2 ntime nonce : String}
    (h : validateShareFormat extranonce2 ntime nonce = true) :
    ':' ∉ extranonce2.toList ∧ ':' ∉ ntime.toList := by
  have hcolon : isAsciiHexdigit ':' = false := by decide
  simp only [validateShareFormat, Bool.and_eq_true] at h
  obtain ⟨⟨⟨⟨⟨_, hextranonce2⟩, _⟩, hntime⟩, _⟩, _⟩ := h
  exact ⟨notMem_of_all_isAsciiHexdigit hcolon hextranonce2,
    notMem_of_all_isAsciiHexdigit hcolon hntime⟩

/-- An `extranonce2` of the right format stands for bytes. -/
theorem validateShareFormat_hexDecode {extranonce2 ntime nonce : String}
    (h : validateShareFormat extranonce2 ntime nonce = true) :
    ∃ bs, Text.hexDecode extranonce2 = some bs := by
  simp only [validateShareFormat, Bool.and_eq_true, beq_iff_eq] at h
  obtain ⟨⟨⟨⟨⟨⟨⟨_, heven⟩, _⟩, hdigits⟩, _⟩, _⟩, _⟩, _⟩ := h
  have hall : ∀ c ∈ extranonce2.toList, (Text.hexValue c).isSome = true :=
    List.all_eq_true.1 hdigits
  rw [Text.utf8ByteSize_of_all hall] at heven
  exact Text.hexDecodeChars_of_all hall heven

/-- Two accepting judgements of a header are the same: the difficulty only
decides whether it is accepted. -/
theorem judgeHeader_congr {header : suite.Header} {p₁ p₂ : ℚ}
    {target : String} (h₁ : (judgeHeader suite header p₁ target).accepted)
    (h₂ : (judgeHeader suite header p₂ target).accepted) :
    judgeHeader suite header p₁ target = judgeHeader suite header p₂ target := by
  unfold judgeHeader at h₁ h₂ ⊢
  dsimp only at h₁ h₂ ⊢
  split at h₁
  · split at h₂
    · rfl
    · exact absurd h₂ (by simp [ValidationResult.rejected])
  · exact absurd h₁ (by simp [ValidationResult.rejected])

/-- Two accepted submissions of the same texts, for the same extranonce and
template, are judged alike. -/
theorem validateShare_congr {p₁ p₂ : SubmitParams} {s₁ s₂ : SessionState}
    {job₁ job₂ : MiningJob} (hjob : job₁.SameTemplate job₂)
    (hextranonce1 : s₁.extranonce1 = s₂.extranonce1)
    (hextranonce2 : p₁.extranonce2 = p₂.extranonce2)
    (hntime : p₁.ntimeHex = p₂.ntimeHex) (hnonce : p₁.nonceHex = p₂.nonceHex)
    (h₁ : (validateShare suite p₁ s₁ job₁).accepted)
    (h₂ : (validateShare suite p₂ s₂ job₂).accepted) :
    validateShare suite p₁ s₁ job₁ = validateShare suite p₂ s₂ job₂ := by
  obtain ⟨_, _, a₁, header₁, _, _, hheader₁, heq₁⟩ :=
    validateShare_accepted suite h₁
  obtain ⟨_, _, a₂, header₂, _, _, hheader₂, heq₂⟩ :=
    validateShare_accepted suite h₂
  have htarget := congrArg MiningJob.networkTargetHex hjob
  dsimp only at htarget
  have hargs : headerArgs job₁ s₁.extranonce1 p₁ =
      headerArgs job₂ s₂.extranonce1 p₂ := by
    have hsame := congrArg (fun job => headerArgs job s₁.extranonce1 p₁) hjob
    refine Eq.trans hsame ?_
    simp only [headerArgs, hextranonce1, hextranonce2, hntime, hnonce]
  have hheader : header₁ = header₂ := by
    unfold submissionHeader at hheader₁ hheader₂
    rw [hargs, hheader₂] at hheader₁
    exact (Option.some.inj hheader₁).symm
  rw [heq₁, hheader, htarget] at h₁ ⊢
  rw [heq₂] at h₂ ⊢
  exact judgeHeader_congr suite h₁ h₂

/-- A block hash is there exactly when the network target was met, and it is
the hash of the header. -/
theorem judgeHeader_blockHash (header : suite.Header) (pDiff : ℚ)
    (target : String) :
    (judgeHeader suite header pDiff target).networkTargetOk = true ∧
        (judgeHeader suite header pDiff target).blockHash =
          some (suite.calcHash header).toHexBe ∨
      (judgeHeader suite header pDiff target).networkTargetOk = false ∧
        (judgeHeader suite header pDiff target).blockHash = none := by
  unfold judgeHeader
  dsimp only
  split
  · split
    · exact Or.inr ⟨rfl, rfl⟩
    · rename_i networkTarget _
      by_cases h : ofBigEndian (suite.calcHash header).reverse.1 ≤
          ofBigEndian networkTarget.1
      · exact Or.inl ⟨by simp [h], by simp [h]⟩
      · exact Or.inr ⟨by simp [h], by simp [h]⟩
  · exact Or.inr ⟨rfl, rfl⟩

/-- An accepted submission that meets the network target comes with the hash
of its header. -/
theorem validateShare_blockHash {p : SubmitParams} {session : SessionState}
    {job : MiningJob} (haccepted : (validateShare suite p session job).accepted)
    (hnetwork : (validateShare suite p session job).networkTargetOk = true) :
    ∃ header, submissionHeader suite job session.extranonce1 p = some header ∧
      (validateShare suite p session job).blockHash =
        some (suite.calcHash header).toHexBe := by
  obtain ⟨_, _, assigned, header, _, _, hheader, hjudged⟩ :=
    validateShare_accepted suite haccepted
  refine ⟨header, hheader, ?_⟩
  rw [hjudged] at hnetwork ⊢
  rcases judgeHeader_blockHash suite header assigned.pDiff
      job.networkTargetHex with ⟨_, hhash⟩ | ⟨hmissed, _⟩
  · exact hhash
  · rw [hmissed] at hnetwork
    cases hnetwork

/-- The hash that comes with a built block is the one that the node gives to
it. -/
theorem buildSubmitBlock_block {job : MiningJob} {extranonce1 : String}
    {p : SubmitParams} {blockHex blockHash : String}
    (h : buildSubmitBlock suite job extranonce1 p =
      .block blockHex blockHash) :
    suite.submittedHash blockHex = blockHash ∧
      ∃ hash : Bytes32, blockHash = hash.toHexBe := by
  unfold buildSubmitBlock at h
  split at h
  · dsimp only at h
    split at h
    · cases h
      exact ⟨suite.submittedHash_ser _ _ _, _, rfl⟩
    · cases h
  · cases h

end StratumServer
