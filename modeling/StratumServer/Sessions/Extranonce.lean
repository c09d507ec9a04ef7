import StratumServer.Lib.Calls
import StratumServer.NodeIntegration.Template
import StratumServer.StratumProtocol.Server
import StratumServer.System.Simulation

/-!
# Every session has its own extranonce

The accept loop counts the connections in a `u64` and gives each session the
lowest four bytes of the count, as eight hexadecimal digits.  The counter may
start anywhere, and it may overflow: `2 ^ 32` divides `2 ^ 64`, so the lowest
bytes go on as if it had not.

`extranonces_distinct` is the result: two sessions get the same extranonce
only if `2 ^ 32` connections or more lie between them.
-/

namespace StratumServer

/-! ## The accept loop -/

/-- The bits of the counter that make up an extranonce. -/
def wrapMask : UInt64 := (1 <<< (UInt64.ofNat extranonce1Size * 8)) - 1

/-- The extranonce as `StratumServer::run` formats it. -/
def sessionExtranonce1 (count : UInt64) : String :=
  Text.hexPadded (extranonce1Size * 2) (count &&& wrapMask).toNat

/-- The accept loop: the counter, and the sessions that it has made. -/
structure AcceptLoop where
  counter : UInt64 := 0
  sessions : List SessionState := []
  ended : Bool := false
  deriving DecidableEq, Repr

/-- What `select!` waits for.  A connection comes with the latest job of the
cache and the time of the call. -/
inductive AcceptEvent
  | connection (latest : Option MiningJob) (now : ℚ)
  | failed
  | shutdown
  deriving DecidableEq, Repr

namespace AcceptLoop

variable (suite : Suite) (config : VarDiffConfig)

/-- The session that is made for a connection. -/
def accept (count : UInt64) (latest : Option MiningJob) (now : ℚ) :
    Option SessionState :=
  (newSession suite config count.toNat latest now).map fun s =>
    { s with extranonce1 := sessionExtranonce1 count }

/-- One turn of `StratumServer::run`.  A panic of `VarDiff::new` ends the
loop. -/
def step (loop : AcceptLoop) : AcceptEvent → AcceptLoop
  | .connection latest now =>
    if loop.ended then loop
    else
      let counter := loop.counter + 1
      match accept suite config counter latest now with
      | some session =>
        { loop with counter, sessions := loop.sessions ++ [session] }
      | none => { loop with counter, ended := true }
  | .failed => loop
  | .shutdown => { loop with ended := true }

end AcceptLoop

/-! ## The text of an extranonce -/

theorem toNat_and_wrapMask (count : UInt64) :
    (count &&& wrapMask).toNat = count.toNat % 2 ^ 32 := by
  have hmask : wrapMask.toNat = 2 ^ 32 - 1 := by decide
  rw [UInt64.toNat_and, hmask, Nat.and_two_pow_sub_one_eq_mod]

/-- The format is that of the four lowest bytes. -/
theorem sessionExtranonce1_eq (count : UInt64) :
    sessionExtranonce1 count = extranonce1Of count.toNat := by
  have hlt : count.toNat % 2 ^ 32 / 256 / 256 / 256 < 256 := by omega
  have hbyte : ∀ m n : Nat, m % 256 = n % 256 →
      UInt8.ofNat m = UInt8.ofNat n := by
    intro m n h
    rw [← UInt8.toNat_inj, UInt8.toNat_ofNat', UInt8.toNat_ofNat']
    exact h
  apply String.toList_inj.1
  rw [sessionExtranonce1, toNat_and_wrapMask]
  change (Text.hexPadded (2 * (3 + 1)) _).toList = _
  rw [Text.hexPadded_succ (by decide), Text.hexPadded_succ (by decide),
    Text.hexPadded_succ (by decide), Text.hexPadded_byte hlt, extranonce1Of,
    Text.hexEncode, String.toList_ofList,
    hbyte _ (count.toNat / 2 ^ 24) (by omega),
    hbyte (_ / 256 / 256) (count.toNat / 2 ^ 16) (by omega),
    hbyte (_ / 256) (count.toNat / 2 ^ 8) (by omega),
    hbyte (_ % _) count.toNat (by omega)]
  rfl

/-- The four lowest bytes determine the count up to a multiple of `2 ^ 32`. -/
theorem mod_of_extranonce1Of_eq {m n : Nat}
    (h : extranonce1Of m = extranonce1Of n) : m % 2 ^ 32 = n % 2 ^ 32 := by
  have hbytes := Text.hexEncode_inj h
  simp only [List.cons.injEq, ← UInt8.toNat_inj, UInt8.toNat_ofNat'] at hbytes
  omega

/-! ## The runs of the accept loop -/

/-- The session of a connection is the one for its count. -/
theorem AcceptLoop.accept_eq (suite : Suite) (config : VarDiffConfig)
    (count : UInt64) (latest : Option MiningJob) (now : ℚ) :
    accept suite config count latest now =
      newSession suite config count.toNat latest now := by
  unfold accept newSession
  rw [Option.map_map]
  congr 1
  funext vardiff
  simp only [Function.comp_apply, sessionExtranonce1_eq]

/-- The `i`-th session has the extranonce of the `i`-th count. -/
structure AcceptLoop.Counts (start : UInt64) (loop : AcceptLoop) : Prop where
  extranonces : ∀ i s, loop.sessions[i]? = some s →
    s.extranonce1 = extranonce1Of (start + UInt64.ofNat (i + 1)).toNat
  counter : loop.ended = false →
    loop.counter = start + UInt64.ofNat loop.sessions.length

/-- What one turn keeps. -/
theorem AcceptLoop.Counts.step {suite : Suite} {config : VarDiffConfig}
    {start : UInt64} {loop : AcceptLoop} (h : loop.Counts start)
    (e : AcceptEvent) : (loop.step suite config e).Counts start := by
  cases e with
  | failed => exact h
  | shutdown => exact ⟨h.extranonces, fun hended => by cases hended⟩
  | connection latest now =>
    unfold AcceptLoop.step
    dsimp only
    split
    · exact h
    · rename_i hended
      have hcounter := h.counter (by simpa using hended)
      have hnext : loop.counter + 1 =
          start + UInt64.ofNat (loop.sessions.length + 1) := by
        rw [hcounter, UInt64.ofNat_add, UInt64.add_assoc]
        rfl
      rw [accept_eq, hnext]
      split
      · rename_i session hsession
        refine ⟨fun i s hs => ?_, fun _ => ?_⟩
        · rcases Nat.lt_trichotomy i loop.sessions.length with hold | rfl | hlate
          · rw [List.getElem?_append_left hold] at hs
            exact h.extranonces i s hs
          · rw [List.getElem?_concat_length] at hs
            cases hs
            obtain ⟨vardiff, _, rfl⟩ := Option.map_eq_some_iff.1 hsession
            rfl
          · have hlength : (loop.sessions ++ [session]).length ≤ i := by
              rw [List.length_append]
              exact hlate
            rw [List.getElem?_eq_none hlength] at hs
            cases hs
        · rw [List.length_append, List.length_singleton]
      · exact ⟨h.extranonces, fun hended' => by cases hended'⟩

/-- Two counts that are less than `2 ^ 32` apart. -/
theorem extranonce1Of_ne (start : UInt64) {i j : Nat} (hij : i < j)
    (hnear : j - i < 2 ^ 32) :
    extranonce1Of (start + UInt64.ofNat (i + 1)).toNat ≠
      extranonce1Of (start + UInt64.ofNat (j + 1)).toNat := by
  intro h
  have hmod := mod_of_extranonce1Of_eq h
  rw [UInt64.toNat_add, UInt64.toNat_add, UInt64.toNat_ofNat',
    UInt64.toNat_ofNat'] at hmod
  omega

/-- What the extranonces of a list of sessions are to be: different from each
other, and eight digits for four bytes. -/
structure OwnExtranonces (sessions : List SessionState) : Prop where
  distinct : ∀ i j s s', sessions[i]? = some s → sessions[j]? = some s' →
    i < j → j - i < 2 ^ 32 → s.extranonce1 ≠ s'.extranonce1
  digits : ∀ s ∈ sessions, s.extranonce1.toList.length = 8 ∧
    ∀ c ∈ s.extranonce1.toList, Text.IsHexDigit c
  bytes : ∀ s ∈ sessions, ∃ bs, Text.hexDecode s.extranonce1 = some bs ∧
    bs.length = 4

/-- In every run of the accept loop, wherever the counter starts, the
sessions have extranonces of their own. -/
theorem extranonces_distinct (suite : Suite) (config : VarDiffConfig)
    (start : UInt64) (events : List AcceptEvent) :
    OwnExtranonces (events.foldl (AcceptLoop.step suite config)
      { counter := start }).sessions := by
  have hcounts : (events.foldl (AcceptLoop.step suite config)
      { counter := start }).Counts start := by
    have hfirst : AcceptLoop.Counts start { counter := start } := by
      constructor
      · intro i s hs
        cases hs
      · intro _
        exact (UInt64.add_zero start).symm
    exact Calls.Meets.invariant (fun _ e h _ => h.step e) hfirst
      (Calls.meets_of_forall (fun _ _ => True.intro) _ _)
  have htext : ∀ s ∈ (events.foldl (AcceptLoop.step suite config)
      { counter := start }).sessions, ∃ count,
        s.extranonce1 = extranonce1Of count := by
    intro s hs
    obtain ⟨i, hi⟩ := List.mem_iff_getElem?.1 hs
    exact ⟨_, hcounts.extranonces i s hi⟩
  constructor
  · intro i j s s' hs hs' hij hnear
    rw [hcounts.extranonces i s hs, hcounts.extranonces j s' hs']
    exact extranonce1Of_ne start hij hnear
  · intro s hs
    obtain ⟨count, hcount⟩ := htext s hs
    rw [hcount]
    exact ⟨Text.length_hexEncode _, fun c hc =>
      Text.isHexDigit_of_mem_hexEncode hc⟩
  · intro s hs
    obtain ⟨count, hcount⟩ := htext s hs
    rw [hcount]
    exact ⟨_, Text.hexDecode_hexEncode _, rfl⟩

/-- Two connections, with a failed `accept` in between. -/
def acceptsTwo : List AcceptEvent :=
  [.connection (some (sampleJob 7 1 easyTarget)) 0, .failed,
    .connection none 0]

/-- The counter overflows between them. -/
theorem extranonces_distinct_sample : ∃ s s',
    (acceptsTwo.foldl (AcceptLoop.step sampleSuite {})
      { counter := UInt64.ofNat (2 ^ 64 - 2) }).sessions = [s, s'] ∧
    s.extranonce1 ≠ s'.extranonce1 := by
  have hlength : (acceptsTwo.foldl (AcceptLoop.step sampleSuite {})
      { counter := UInt64.ofNat (2 ^ 64 - 2) }).sessions.length = 2 := by
    decide +kernel
  obtain ⟨s, s', hsessions⟩ := List.length_eq_two.1 hlength
  have hown := extranonces_distinct sampleSuite {} (UInt64.ofNat (2 ^ 64 - 2))
    acceptsTwo
  rw [hsessions] at hown
  exact ⟨s, s', hsessions, hown.distinct 0 1 s s' rfl rfl (by decide) (by decide)⟩

end StratumServer
