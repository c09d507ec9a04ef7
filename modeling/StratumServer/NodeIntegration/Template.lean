import StratumServer.ShareProcessing.Validator
import StratumServer.Lib.Codec

/-!
# From a template to a job

`template_to_job` and `compute_block_size_with_extranonce`.  The header of a
block contains the size of the block, and a job is given out before its
coinbase is known.  So the size is worked out from a coinbase with eight zero
bytes in the place of the extranonces.
-/

namespace StratumServer

/-- `EXTRANONCE_1_SIZE`. -/
def extranonce1Size : Nat := 4

/-- `EXTRANONCE_2_SIZE`. -/
def extranonce2Size : Nat := 4

/-- `EXTRANONCE_TOTAL_SIZE`. -/
def extranonceTotalSize : Nat := extranonce1Size + extranonce2Size

/-- What `template_to_job` reads of a `MiningTemplate`. -/
structure MiningTemplate where
  templateId : Nat
  block : List UInt8
  header : List UInt8
  height : Int
  version : Nat
  target : Bytes32
  curtime : Nat
  coinbaseValue : Nat
  coinbase1 : String
  coinbase2 : String
  merkleBranches : List String
  prevHashStratum : String
  nbitsStratum : String
  ntimeStratum : String

/-- The errors of `compute_block_size_with_extranonce`, with the sizes that
their texts mention. -/
inductive TemplateError
  | deserializeBlock (bytes : Nat)
  | noTransactions (bytes : Nat)
  | hexDecodeCoinbase (coinbase1 coinbase2 : Nat)
  | deserializeCoinbase (bytes : Nat)
  deriving DecidableEq, Repr

section Template

variable (suite : Suite)

/-- Zero bytes in the place of the two extranonces. -/
def dummyExtranonce : String :=
  Text.hexEncode (List.replicate extranonceTotalSize 0)

/-- An `i64` read as `u64`: a negative number wraps around. -/
def asU64 (n : Int) : Nat :=
  if 0 ≤ n then n.toNat else (n + 2 ^ 64).toNat

/-- `compute_block_size_with_extranonce`. -/
def computeBlockSizeWithExtranonce (templateBlock : List UInt8)
    (coinbase1 coinbase2 : String) : Except TemplateError Nat :=
  match suite.deserBlock templateBlock with
  | none => .error (.deserializeBlock templateBlock.length)
  | some (_, _, []) => .error (.noTransactions templateBlock.length)
  | some (_, _, tx :: _) =>
    match Text.hexDecode (coinbase1 ++ dummyExtranonce ++ coinbase2) with
    | none => .error
        (.hexDecodeCoinbase coinbase1.utf8ByteSize coinbase2.utf8ByteSize)
    | some sampleBytes =>
      match suite.deserTx sampleBytes with
      | none => .error (.deserializeCoinbase sampleBytes.length)
      | some sampleTx =>
        let delta : Int :=
          (suite.serTx sampleTx).length - (suite.serTx tx).length
        .ok (asU64 (templateBlock.length + delta))

/-- The two hashes that `template_to_job` takes from the header.  They are
empty when the header cannot be read. -/
def headerHashes (header : List UInt8) : String × String :=
  if header.isEmpty then ("", "")
  else
    match suite.deserHeader header with
    | some h =>
      ((suite.epochHash h).toHexBe, (suite.extendedMetadataHash h).toHexBe)
    | none => ("", "")

/-- `template_to_job`. -/
def templateToJob (template : MiningTemplate) (cleanJobs : Bool) :
    Except TemplateError MiningJob :=
  (computeBlockSizeWithExtranonce suite template.block template.coinbase1
    template.coinbase2).map fun blockSize =>
  { templateId := template.templateId
    templateEpoch := template.curtime
    prevhash := template.prevHashStratum
    coinbase1 := template.coinbase1
    coinbase2 := template.coinbase2
    merkleBranches := template.merkleBranches
    version := Text.hexEncode (Codec.le 4 template.version).reverse
    nbits := template.nbitsStratum
    ntime := template.ntimeStratum
    networkTargetHex := template.target.toHexBe
    cleanJobs
    height := template.height
    epochHash := (headerHashes suite template.header).1
    extendedMetadataHash := (headerHashes suite template.header).2
    blockSize
    blockBytes := template.block
    coinbaseValue := template.coinbaseValue }

/-- What a template needs for its block size, and what the size is. -/
theorem computeBlockSize_ok {templateBlock : List UInt8}
    {coinbase1 coinbase2 : String} {size : Nat}
    (h : computeBlockSizeWithExtranonce suite templateBlock coinbase1
      coinbase2 = .ok size) :
    ∃ header metadata tx txs sampleBytes sampleTx,
      suite.deserBlock templateBlock = some (header, metadata, tx :: txs) ∧
      Text.hexDecode (coinbase1 ++ dummyExtranonce ++ coinbase2) =
        some sampleBytes ∧
      suite.deserTx sampleBytes = some sampleTx ∧
      size = asU64 (templateBlock.length +
        (((suite.serTx sampleTx).length : Int) - (suite.serTx tx).length)) := by
  unfold computeBlockSizeWithExtranonce at h
  split at h
  · cases h
  · cases h
  · rename_i header metadata tx txs hblock
    split at h
    · cases h
    · rename_i sampleBytes hbytes
      split at h
      · cases h
      · rename_i sampleTx hsample
        cases h
        exact ⟨header, metadata, tx, txs, sampleBytes, sampleTx, hblock,
          hbytes, hsample, rfl⟩

/-- What a job takes over from its template, and the size that was worked
out for it. -/
structure MiningTemplate.Gives (template : MiningTemplate) (job : MiningJob) :
    Prop where
  jobId : job.jobId = jobIdOf template.templateId template.curtime
  coinbase1 : job.coinbase1 = template.coinbase1
  coinbase2 : job.coinbase2 = template.coinbase2
  merkleBranches : job.merkleBranches = template.merkleBranches
  blockBytes : job.blockBytes = template.block
  blockSize : computeBlockSizeWithExtranonce suite template.block
    template.coinbase1 template.coinbase2 = .ok job.blockSize

theorem templateToJob_ok {template : MiningTemplate} {cleanJobs : Bool}
    {job : MiningJob} (h : templateToJob suite template cleanJobs = .ok job) :
    template.Gives suite job := by
  unfold templateToJob at h
  cases hsize : computeBlockSizeWithExtranonce suite template.block
      template.coinbase1 template.coinbase2 with
  | error e =>
    rw [hsize] at h
    cases h
  | ok size =>
    rw [hsize] at h
    cases h
    exact ⟨rfl, rfl, rfl, rfl, rfl, hsize⟩

end Template

end StratumServer
