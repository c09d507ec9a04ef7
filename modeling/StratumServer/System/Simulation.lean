import StratumServer.Lib.Schedule
import StratumServer.System.Pool

/-!
# Runs of the server that can be computed

`answers` answers the operations of the server, given what the node, the
signer and the disk do in a scenario, and `begins` begins work.  Both only
do what the machine allows, so a schedule over them is a run of the server:
`reach_schedule`.

`sampleSuite` stands for the Lotus libraries in such runs.  It keeps what
the results speak about: a header is a function of the job, the extranonces
and the bytes that the hex texts stand for, and different headers have
different hashes.  The scenes at the end are the parts that the scenarios of
later modules are put together from.
-/

namespace StratumServer

open Tasks

/-! ## Answers -/

/-- What the parties outside the server do in a scenario. -/
structure Replies where
  template : Option MiningJob := none
  submitBlock : Except Error (Option String) := .ok none
  blockCount : Except Error Int := .error .sqlite
  blockHash : Except Error (Option String) := .error .sqlite
  blockKnown : Bool := true
  rawTx : Except Error RawTx := .error .sqlite
  signed : Except Error String := .error .sqlite
  now : ℚ := 0
  dbFails : Bool := false

section Answers

variable (suite : Suite) (data : ChainData) (config : ServerConfig)

/-- The answer to an operation in a scenario. -/
def answers (a : Replies) : (o : Op) → Pool → Option (o.Res × Pool)
  | .db d, s =>
    if a.dbFails then some (.error .sqlite, s)
    else some ((d.run s.db).1, { s with db := (d.run s.db).2 })
  | .jobCacheGet jobId, s => some (s.jobCache.get jobId, s)
  | .jobCacheInsert job, s =>
    some ((), { s with jobCache := s.jobCache.insert job })
  | .getMiningTemplate, s => some (a.template, s)
  | .sendJob job, s => some ((), { s with broadcast := job :: s.broadcast })
  | .updateBlockConnected height, s =>
    let chainTip := ChainTip.updateBlockConnected s.chainTip height
    some ((), { s with chainTip })
  | .chainTipGet, s => some (s.chainTip, s)
  | .send event, s => some ((), { s with channel := s.channel ++ [event] })
  | .submitBlock blockHex, s =>
    let received := suite.submittedHash blockHex :: s.node.received
    some (a.submitBlock, { s with node.received := received })
  | .getBlockCount, s => some (a.blockCount, s)
  | .getBlockHash _, s => some (a.blockHash, s)
  | .getBlock blockHash, s =>
    if a.blockKnown then
      some (.ok (some [.object (some (data.coinbaseTxid blockHash))]), s)
    else some (.error .sqlite, s)
  | .getRawTransaction _, s => some (a.rawTx, s)
  | .signAndSubmit _, s => some (a.signed, s)
  | .instantNow, s => some (a.now, s)
  | .respond i state _, s => some ((), s.setSession i (some state))
  | .closeSession i, s => some ((), s.setSession i none)
  | .spawnHttp, s => some ((), { s with httpUp := true })
  | .spawnConsumer, s => some ((), { s with consumerUp := true })
  | .spawnHandler, s => some ((), { s with handlerUp := true })
  | .spawnStratum, s => some ((), { s with stratumUp := true })

theorem answers_sound {a : Replies} {o : Op} {s s' : Pool} {r : o.Res}
    (h : answers suite data a o s = some (r, s')) :
    Op.sem suite data o s r s' := by
  cases o with
  | db d =>
    simp only [answers] at h
    split at h
    · cases h
      exact Or.inr ⟨⟨_, rfl⟩, rfl⟩
    · cases h
      exact Or.inl rfl
  | submitBlock blockHex =>
    cases h
    exact Or.inl rfl
  | spawnConsumer =>
    cases h
    exact Or.inl rfl
  | getBlock blockHash =>
    simp only [answers] at h
    split at h
    · cases h
      refine ⟨rfl, ?_⟩
      intro txs entry htxs hentry _
      cases htxs
      cases hentry
      rfl
    · cases h
      refine ⟨rfl, ?_⟩
      intro txs entry htxs
      cases htxs
  | jobCacheGet _ | chainTipGet =>
    cases h
    exact ⟨rfl, rfl⟩
  | _ =>
    cases h
    rfl

/-- The work that a task begins, if it may. -/
def begins : Task → Work → Pool → Option (Body Unit × Pool)
  | .session i, .connect now, s =>
    match newSession suite config.vardiff (s.sessionCounter + 1)
        s.jobCache.getLatest now with
    | some st =>
      if s.stratumUp = true ∧ s.sessions i = none then
        some (.ret (),
          { s with sessionCounter := s.sessionCounter + 1 }.setSession i
            (some st))
      else none
    | none => none
  | .session i, .subscribe, s => (s.sessions i).map fun st =>
    (.ret (), s.setSession i (some st.handleSubscribe))
  | .session i, .authorize worker, s => (s.sessions i).map fun st =>
    (.ret (), s.setSession i
      (some (authorizeSession suite st worker s.jobCache.getLatest)))
  | .session i, .newJob job, s =>
    if job ∈ s.broadcast then
      (s.sessions i).map fun st =>
        (.ret (), s.setSession i (some (receiveJob suite st job)))
    else none
  | .session i, .submit p, s => (s.sessions i).map fun st =>
    (handleSubmit suite i st p, s)
  | .session i, .disconnect, s => some (.ret (), s.setSession i none)
  | .consumer, .blockConnected event, s =>
    if s.consumerUp = true ∧
        (event.height = none ∨ event.height = some (s.node.tip + 1)) then
      some (handleBlockConnected config.minConfirmations event,
        { s with node := { s.node with
            chain := event.blockHash :: s.node.chain
            announced := event.blockHash :: s.node.announced } })
    else none
  | .consumer, .blockDisconnected event, s =>
    match s.node.chain with
    | hash :: rest =>
      if s.consumerUp = true ∧ hash = event.blockHash ∧ rest ≠ [] then
        some (handleBlockDisconnected event,
          { s with node := { s.node with chain := rest } })
      else none
    | [] => none
  | .consumer, .miningWorkChanged, s =>
    if s.consumerUp = true then some (onMiningWorkChanged, s) else none
  | .handler, .payoutEvent event settings, s =>
    match s.channel with
    | head :: rest =>
      if s.handlerUp = true ∧ head = event then
        some (handlePayoutEvent suite settings event,
          { s with channel := rest })
      else none
    | [] => none
  | .http _, .triggerPayout blockHash settings, s =>
    if s.httpUp = true then some (triggerPayout suite blockHash settings, s)
    else none
  | _, _, _ => none

theorem begins_sound {t : Task} {w : Work} {s s' : Pool} {p : Body Unit}
    (h : begins suite config t w s = some (p, s')) :
    Start suite config t w s p s' := by
  unfold begins at h
  split at h
  · split at h
    · rename_i st hnew
      split at h
      · rename_i hup
        cases h
        exact .connect hup.1 hup.2 hnew
      · cases h
    · cases h
  · obtain ⟨st, hst, heq⟩ := Option.map_eq_some_iff.1 h
    cases heq
    exact .subscribe hst
  · obtain ⟨st, hst, heq⟩ := Option.map_eq_some_iff.1 h
    cases heq
    exact .authorize hst
  · split at h
    · rename_i hjob
      obtain ⟨st, hst, heq⟩ := Option.map_eq_some_iff.1 h
      cases heq
      exact .newJob hst hjob
    · cases h
  · obtain ⟨st, hst, heq⟩ := Option.map_eq_some_iff.1 h
    cases heq
    exact .submit hst
  · cases h
    exact .disconnect
  · split at h
    · rename_i hup
      cases h
      exact .blockConnected hup.1 hup.2
    · cases h
  · split at h
    · rename_i hash rest hchain
      split at h
      · rename_i hup
        cases h
        exact .blockDisconnected hup.1 (hup.2.1 ▸ hchain) hup.2.2
      · cases h
    · cases h
  · split at h
    · rename_i hup
      cases h
      exact .miningWorkChanged hup
    · cases h
  · split at h
    · rename_i head rest hchannel
      split at h
      · rename_i hup
        cases h
        exact .payoutEvent hup.1 (hup.2 ▸ hchannel)
      · cases h
    · cases h
  · split at h
    · rename_i hup
      cases h
      exact .triggerPayout hup
    · cases h
  · cases h

end Answers

/-! ## Schedules -/

/-- One stretch of a scenario. -/
inductive Scene
  /-- A task performs up to `n` operations. -/
  | run (t : Task) (n : Nat) (a : Replies)
  | begin (t : Task) (w : Work)
  /-- A crash, after which the node has the given chain. -/
  | crash (chain : List String)

section Schedules

variable (suite : Suite) (data : ChainData) (config : ServerConfig)

/-- The move of the machine that a scene stands for. -/
def Scene.move : Scene → Move Task Work Pool Op Op.Res
  | .run t n a => .run t n (answers suite data a)
  | .begin t w => .begin t w (begins suite config t w)
  | .crash chain => .crash fun s =>
    if chain ≠ [] then
      some (bootPool config s.db { s.node with chain := chain })
    else none

theorem Scene.move_sound (x : Scene) :
    (x.move suite data config).Sound (pool suite data config) := by
  cases x with
  | run t n a => exact fun o s r s' h => answers_sound suite data h
  | begin t w => exact fun s p s' h => begins_sound suite config h
  | crash chain =>
    intro s s' h
    simp only at h
    split at h
    · rename_i hne
      cases h
      exact ⟨chain, hne, rfl⟩
    · cases h

/-- The configuration at the first start, with a given chain of the node. -/
def firstStart (chain : List String) : PoolConfig :=
  ⟨⟨bootPool config (initSchema 0) ⟨chain, [], []⟩, []⟩, boot config⟩

/-- A scenario played from the first start. -/
def schedule (check : PoolWorld → PoolEntry → Bool) (chain : List String)
    (scenes : List Scene) : Option PoolConfig :=
  Machine.play (pool suite data config) check
    (scenes.map fun x => x.move suite data config) (firstStart config chain)

theorem scenes_sound (scenes : List Scene) :
    ∀ m ∈ scenes.map fun x => x.move suite data config,
      m.Sound (pool suite data config) := by
  intro m hm
  obtain ⟨x, _, rfl⟩ := List.mem_map.1 hm
  exact x.move_sound suite data config

/-- A scenario is a run of the server. -/
theorem reach_schedule {check : PoolWorld → PoolEntry → Bool}
    {ok : PoolWorld → PoolEntry → Prop}
    (hcheck : ∀ w e, check w e = true → ok w e) {chain : List String}
    (hchain : chain ≠ []) {scenes : List Scene} {c : PoolConfig}
    (h : schedule suite data config check chain scenes = some c) :
    Machine.Reach (pool suite data config) ok c := by
  refine Machine.Reach.play (scenes_sound suite data config scenes) hcheck
    (.init ⟨0, chain, hchain, rfl⟩) h

/-- The end of a scenario of which `P` can be decided. -/
theorem exists_schedule {P : PoolConfig → Prop} [DecidablePred P]
    {check : PoolWorld → PoolEntry → Bool}
    {ok : PoolWorld → PoolEntry → Prop}
    (hcheck : ∀ w e, check w e = true → ok w e) {chain : List String}
    (hchain : chain ≠ []) {scenes : List Scene}
    (h : (schedule suite data config check chain scenes).any
      (fun c => decide (P c)) = true) :
    ∃ c, schedule suite data config check chain scenes = some c ∧
      Machine.Reach (pool suite data config) ok c ∧ P c := by
  obtain ⟨c, hc, hend⟩ := (Option.any_eq_true _ _).1 h
  exact ⟨c, hc, reach_schedule suite data config hcheck hchain hc,
    of_decide_eq_true hend⟩

/-- The tasks that a scenario without a crash names. -/
def Scene.tasks : Scene → List Task
  | .run t _ _ => [t]
  | .begin t _ => [t]
  | .crash _ => []

/-- All tasks are idle after a scenario without a crash when those that it
names are, and `main`. -/
theorem idle_schedule {check : PoolWorld → PoolEntry → Bool}
    {chain : List String} {scenes : List Scene} {c : PoolConfig}
    (h : schedule suite data config check chain scenes = some c)
    (hcrash : ∀ x ∈ scenes, x.tasks ≠ [])
    (hidle : ∀ t ∈ .main :: scenes.flatMap Scene.tasks,
      (c.task t).isRet = true) (t : Task) : c.task t = .ret () := by
  by_cases ht : t ∈ .main :: scenes.flatMap Scene.tasks
  · exact Prog.eq_ret_of_isRet (hidle t ht)
  · have hboot : c.task t = boot config t := by
      refine Machine.play_task ?_ h
      intro m hm
      obtain ⟨x, hx, rfl⟩ := List.mem_map.1 hm
      have hnamed : t ∉ x.tasks := fun htx =>
        ht (List.mem_cons_of_mem _ (List.mem_flatMap.2 ⟨x, hx, htx⟩))
      cases x with
      | run u n a | begin u w =>
        change t ≠ u
        simpa [Scene.tasks] using hnamed
      | crash chain => exact absurd rfl (hcrash _ hx)
    rw [hboot]
    cases t with
    | main => exact absurd List.mem_cons_self ht
    | _ => rfl

/-- A scenario can check what all turns of the runs meet. -/
theorem turns_schedule {check : PoolWorld → PoolEntry → Bool}
    {ok P : PoolWorld → PoolEntry → Prop} [∀ w e, Decidable (P w e)]
    (hP : (pool suite data config).Turns ok P)
    (hcheck : ∀ w e, check w e = true → ok w e) {chain : List String}
    (hchain : chain ≠ []) {scenes : List Scene} {c : PoolConfig}
    (h : schedule suite data config check chain scenes = some c) :
    schedule suite data config (fun w e => check w e && decide (P w e)) chain
      scenes = some c :=
  hP.play (scenes_sound suite data config scenes) hcheck
    (.init ⟨0, chain, hchain, rfl⟩) h

/-- A scenario that gets stuck only when it checks `P` passes through a turn
that does not meet `P`. -/
theorem not_turns {P : PoolWorld → PoolEntry → Prop}
    [∀ w e, Decidable (P w e)] (chain : List String) (hchain : chain ≠ [])
    (scenes : List Scene)
    (hruns : (schedule suite data config (fun _ _ => true) chain
      scenes).isSome = true)
    (hstuck : (schedule suite data config (fun w e => decide (P w e)) chain
      scenes).isSome = false) :
    ¬ (pool suite data config).Turns (fun _ _ => True) P := by
  intro hP
  obtain ⟨c, hc⟩ := Option.isSome_iff_exists.1 hruns
  have hpass := turns_schedule suite data config hP (fun _ _ _ => trivial)
    hchain hc
  simp only [Bool.true_and] at hpass
  rw [hpass] at hstuck
  cases hstuck

end Schedules

/-! ## Libraries to run with -/

/-- Bytes cut or filled up to thirty-two. -/
def pad32 (bs : List UInt8) : Bytes32 :=
  ⟨(bs ++ List.replicate 32 0).take 32, by simp⟩

theorem pad32_val (h : Bytes32) : pad32 h.1 = h := by
  refine Subtype.ext ?_
  change (h.1 ++ List.replicate 32 0).take 32 = h.1
  rw [List.take_append_of_le_length (by rw [h.2])]
  exact List.take_of_length_le (by rw [h.2])

/-- A stand-in for the Lotus libraries.  Its header is the extranonce, the
nonce and the time, all as bytes; every hash meets every target. -/
def sampleSuite : Suite where
  Header := List UInt8
  Metadata := Unit
  Tx := Unit
  isLotusAddress a := a.startsWith "lotus_"
  buildStratumHeader a := Text.hexDecode
    (a.extranonce1 ++ a.extranonce2 ++ a.ntime ++ a.nonce)
  deserHeader := some
  calcHash := pad32
  headerMeetsDifficulty _ _ := some true
  targetToDifficulty _ := some 1
  epochHash := pad32
  extendedMetadataHash := pad32
  deserBlock _ := some ([], (), [()])
  deserTx _ := some ()
  serTx _ := []
  updateMerkleRoot h _ := h
  serBlock h _ _ := (pad32 h).1
  submittedHash hex :=
    match Text.hexDecode hex with
    | some bs => (pad32 bs).toHexBe
    | none => ""
  submittedHash_ser h _ _ := by
    rw [Text.hexDecode_hexEncode]
    exact congrArg Bytes32.toHexBe (pad32_val _)

/-- Sample libraries that weigh the hashes: the difficulty of a target is the
number of hashes that it takes on average. -/
def weighingSuite : Suite :=
  { sampleSuite with
    headerMeetsDifficulty := fun hash d =>
      some (decide ((ofBigEndian hash.1 : ℚ) * d ≤ 2 ^ 256))
    targetToDifficulty := fun target =>
      if ofBigEndian target.1 = 0 then none
      else some (2 ^ 256 / (ofBigEndian target.1 : ℚ)) }

/-! ## A sample pool -/

/-- A target that every hash meets. -/
def easyTarget : String := String.ofList (List.replicate 64 'f')

/-- A target that one hash in 256 meets. -/
def mediumTarget : String :=
  String.ofList ('0' :: '0' :: List.replicate 62 'f')

/-- A target that no hash of a sample run meets. -/
def hardTarget : String := String.ofList (List.replicate 64 '0')

def sampleJob (templateId : Nat) (height : Int) (target : String) :
    MiningJob where
  templateId := templateId
  templateEpoch := 1
  prevhash := ""
  coinbase1 := ""
  coinbase2 := ""
  merkleBranches := []
  version := ""
  nbits := ""
  ntime := "000000000001"
  networkTargetHex := target
  cleanJobs := false
  height := height
  epochHash := ""
  extendedMetadataHash := ""
  blockSize := 32
  blockBytes := [0]
  coinbaseValue := 1000

def sampleConfig : ServerConfig :=
  { minConfirmations := 2, payoutEnabled := true, vardiff := {} }

def sampleData : ChainData := ⟨fun hash => "coinbase-" ++ hash⟩

def sampleSettings : PayoutSettings :=
  { feeBps := 0, feeAddress := none, minPayoutSat := 1, nMultiplier := 2 }

/-- The startup of `main` with a first job. -/
def bootsWith (job : MiningJob) : List Scene :=
  [.run .main 100 { template := some job }]

/-- A miner connects, subscribes and authorizes a worker. -/
def logsIn (i : Nat) (worker : String) : List Scene :=
  [.begin (.session i) (.connect 0), .begin (.session i) .subscribe,
    .begin (.session i) (.authorize worker)]

/-- A `mining.submit` request for a sample job. -/
def sampleSubmit (worker : String) (job : MiningJob) (extranonce2 : String) :
    SubmitParams :=
  ⟨worker, job.jobId, extranonce2, "000000000001", "00000000000000ff"⟩

/-- A miner submits, and the request is handled to its end. -/
def submits (i : Nat) (p : SubmitParams) (a : Replies := {}) : List Scene :=
  [.begin (.session i) (.submit p), .run (.session i) 50 a]

/-- The hash of the block that `sampleSubmit` finds. -/
def sampleHash (extranonce1 extranonce2 : String) : String :=
  match Text.hexDecode
      (extranonce1 ++ extranonce2 ++ "000000000001" ++ "00000000000000ff") with
  | some bs => (pad32 bs).toHexBe
  | none => ""

/-- An operator triggers a payout. -/
def triggers (i : Nat) (blockHash : String) (settings : PayoutSettings) :
    List Scene :=
  [.begin (.http i) (.triggerPayout blockHash settings),
    .run (.http i) 20 {}]

/-- The node announces a block, and the consumer handles it. -/
def connects (blockHash : String) (height : Int) (txids : List String := [])
    (a : Replies := {}) : List Scene :=
  [.begin .consumer (.blockConnected ⟨blockHash, some height, txids⟩),
    .run .consumer 50 a]

/-- The node takes its tip back, and the consumer handles it. -/
def disconnects (blockHash : String) (height : Int) (a : Replies := {}) :
    List Scene :=
  [.begin .consumer (.blockDisconnected ⟨blockHash, some height, []⟩),
    .run .consumer 50 a]

/-- The payout handler takes an event from the channel. -/
def handles (event : PayoutEvent) (a : Replies) : List Scene :=
  [.begin .handler (.payoutEvent event sampleSettings), .run .handler 50 a]

/-- A coinbase transaction with one output to spend. -/
def sampleTx : RawTx :=
  ⟨some [⟨some "pubkeyhash", some "", some 1⟩], some 1⟩

/-- The startup, and a miner whose first share is a block of height 1.  The
request has performed `n` operations: the eighth is the submission of the
block to the node, the tenth records it, and the twelfth closes the round. -/
def findsBlock (n : Nat) : List Scene :=
  let job := sampleJob 7 1 easyTarget
  bootsWith job ++ logsIn 0 "lotus_a.rig" ++
    [.begin (.session 0) (.submit (sampleSubmit "lotus_a.rig" job "0a")),
      .run (.session 0) n {}]

/-- The hash of that block. -/
def firstHash : String := sampleHash "00000001" "0a"

/-- A block is found, and the node announces it and the next one.  The
second event promotes the block. -/
def maturesFirst : List Scene :=
  findsBlock 50 ++ connects firstHash 1 ++ connects "b2" 2

end StratumServer
