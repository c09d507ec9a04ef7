import StratumServer.Lib.Separated
import StratumServer.StratumProtocol.Serving

/-!
# Logins and their log

Which workers a session has authorized is decided by the lines of its own
miner alone.  `Login` is that part of a session as a machine of its own, which
reads lines and writes rows of the authorization log, and knows nothing of
jobs, shares or other connections.

`login_replayed` says that the server refines it: after any interleaving, each
session is in the state that its lines lead to, and the rows with the id of
the session that were added since the start of the process are those of its
lines, in their order.  A row is missing only if the database has failed.

The ids of the sessions start again with each process, and the table stays.
So nothing is said of the rows that earlier processes have left, which may
have the same ids.
-/

namespace StratumServer

open Broadcast (Channels queue)

/-- The part of a session that `mining.subscribe` and `mining.authorize`
change. -/
structure Login where
  subscribed : Bool := false
  workers : List String := []
  /-- The rows that were written. -/
  rows : List AuthorizationEvent := []
  deriving DecidableEq, Repr

/-- The id of a session. -/
def sessionIdOf (count : Nat) : String := s!"sess-{count}"

theorem sessionIdOf_inj {m n : Nat} (h : sessionIdOf m = sessionIdOf n) :
    m = n := by
  have hrepr : m.repr = n.repr := (String.append_right_inj "sess-").1 h
  exact Text.eq_of_repr hrepr

namespace Login

variable {ν : Type} (suite : Suite) (w : Wire ν)

/-- The row for a worker, and whether the worker is authorized. -/
def row (l : Login) (sessionId worker : String) : AuthorizationEvent :=
  let name := parseWorkerName suite.isLotusAddress worker
  let reason :=
    if !l.subscribed then some "not-subscribed"
    else if name.isNone then some "unauthorized-worker"
    else none
  { sessionId, workerName := worker
    payoutAddress := (name.map (·.payoutAddress)).getD worker
    workerSuffix := name.bind (·.workerSuffix)
    authorized := reason.isNone
    reason }

/-- A line of the miner. -/
def read (sessionId : String) (l : Login) (line : String) : Login :=
  match decodeRequestLine w line maxLineLength with
  | .error _ => l
  | .ok req =>
    match req.method with
    | .subscribe => { l with subscribed := true }
    | .authorize =>
      let row := l.row suite sessionId (req.param 0)
      { l with
        workers := if row.authorized then l.workers.insert (req.param 0)
          else l.workers
        rows := l.rows ++ [row] }
    | _ => l

/-- All lines of a miner. -/
def replay (sessionId : String) (lines : List String) : Login :=
  lines.foldl (read suite w sessionId) {}

/-- A line that is no login changes nothing. -/
theorem read_other {sessionId line : String} {l : Login} {req : StratumRequest ν}
    (hdecode : decodeRequestLine w line maxLineLength = .ok req)
    (hmethod : req.method ∉ [.subscribe, .authorize]) :
    l.read suite w sessionId line = l := by
  simp only [List.mem_cons, List.not_mem_nil, or_false, not_or] at hmethod
  unfold read
  rw [hdecode]
  dsimp only
  split
  · rename_i heq
    exact absurd heq hmethod.1
  · rename_i heq
    exact absurd heq hmethod.2
  · rfl

theorem replay_concat (sessionId : String) (lines : List String) (line : String) :
    replay suite w sessionId (lines ++ [line]) =
      (replay suite w sessionId lines).read suite w sessionId line := by
  simp [replay]

end Login

/-! ## One connection -/

/-- The session is in the state of the login. -/
structure LoggedIn (sessionId : String) (l : Login) (s : SessionState) : Prop where
  id : s.sessionId = sessionId
  subscribed : s.isSubscribed = l.subscribed
  workers : s.authorizedWorkers = l.workers
  authorized : s.isAuthorized = true ↔ l.workers ≠ []

section Turns

variable {ν : Type} {suite : Suite} {w : Wire ν} {sessionId : String} {l : Login}
  {s : SessionState}

theorem LoggedIn.congr (h : LoggedIn sessionId l s) {s' : SessionState}
    (hid : s'.sessionId = s.sessionId)
    (hsubscribed : s'.isSubscribed = s.isSubscribed)
    (hworkers : s'.authorizedWorkers = s.authorizedWorkers)
    (hauthorized : s'.isAuthorized = s.isAuthorized) :
    LoggedIn sessionId l s' := by
  refine ⟨hid.trans h.id, hsubscribed.trans h.subscribed,
    hworkers.trans h.workers, ?_⟩
  rw [hauthorized]
  exact h.authorized

/-- The row that the server writes is the row of the login. -/
theorem LoggedIn.row_eq (h : LoggedIn sessionId l s) (worker : String) :
    s.authorizationEvent suite worker = l.row suite sessionId worker := by
  unfold SessionState.authorizationEvent Login.row SessionState.handleAuthorize
  rw [h.id, h.subscribed]
  cases hsubscribed : l.subscribed <;>
    cases hparse : parseWorkerName suite.isLotusAddress worker <;>
      simp [StratumResponse.err, StratumResponse.ok]

/-- `mining.authorize` in a session and in its login. -/
theorem LoggedIn.authorize (h : LoggedIn sessionId l s) (worker : String)
    (latest : Option MiningJob) :
    LoggedIn sessionId
      { l with
        workers := if (l.row suite sessionId worker).authorized then
            l.workers.insert worker else l.workers
        rows := l.rows ++ [l.row suite sessionId worker] }
      (authorizeSession suite s worker latest) := by
  have hsame : ∀ s' : SessionState, (s.handleAuthorize suite worker).2 = s' →
      (authorizeSession suite s worker latest).sessionId = s'.sessionId ∧
      (authorizeSession suite s worker latest).isSubscribed = s'.isSubscribed ∧
      (authorizeSession suite s worker latest).authorizedWorkers =
        s'.authorizedWorkers ∧
      (authorizeSession suite s worker latest).isAuthorized =
        s'.isAuthorized := by
    rintro _ rfl
    unfold authorizeSession
    dsimp only
    split <;> exact ⟨rfl, rfl, rfl, rfl⟩
  rcases handleAuthorize_cases suite s worker with ⟨code, message, heq⟩ |
    ⟨hsubscribed, hparse, heq⟩
  · have hrow : (l.row suite sessionId worker).authorized = false := by
      rw [← h.row_eq]
      simp [SessionState.authorizationEvent, heq, StratumResponse.err]
    obtain ⟨hid, hsub, hworkers, hauth⟩ := hsame s (by rw [heq])
    rw [if_neg (by simp [hrow])]
    have hcongr := h.congr hid hsub hworkers hauth
    exact ⟨hcongr.id, hcongr.subscribed, hcongr.workers, hcongr.authorized⟩
  · have hrow : (l.row suite sessionId worker).authorized = true := by
      rw [← h.row_eq]
      simp [SessionState.authorizationEvent, heq, StratumResponse.ok]
    obtain ⟨hid, hsub, hworkers, hauth⟩ := hsame _ (by rw [heq])
    rw [if_pos hrow]
    refine ⟨hid.trans h.id, hsub.trans h.subscribed, ?_, ?_⟩
    · rw [hworkers, h.workers]
    · rw [hauth]
      exact ⟨fun _ => List.ne_nil_of_mem List.mem_insert_self, fun _ => rfl⟩

theorem LoggedIn.line {around : Surroundings} {line : String} {r : TurnResult ν}
    (h : LoggedIn sessionId l s) (hturn : LineTurn suite w s around line r) :
    LoggedIn sessionId (l.read suite w sessionId line) r.session ∧
      (l.read suite w sessionId line).rows = l.rows ++ r.logged := by
  cases hturn with
  | invalid hdecode =>
    rw [Login.read, hdecode]
    exact ⟨h, (List.append_nil _).symm⟩
  | subscribe hdecode hmethod =>
    rw [Login.read, hdecode]
    dsimp only
    rw [hmethod]
    exact ⟨⟨h.id, rfl, h.workers, h.authorized⟩, (List.append_nil _).symm⟩
  | authorize hdecode hmethod =>
    rw [Login.read, hdecode]
    dsimp only
    rw [hmethod, h.row_eq]
    exact ⟨h.authorize _ _, rfl⟩
  | @submit req _ _ _ hdecode hmethod hturn =>
    rw [Login.read_other suite w hdecode (by simp [hmethod])]
    obtain ⟨vardiff, rfl⟩ := submitTurn_session hturn
    exact ⟨h.congr rfl rfl rfl rfl, (List.append_nil _).symm⟩
  | plain hdecode hmethod =>
    have hother : ∀ m ∈ [Method.subscribe, .authorize],
        m ∈ [Method.subscribe, .authorize, .submit] := by decide
    rw [Login.read_other suite w hdecode fun hmem => hmethod (hother _ hmem)]
    exact ⟨h, (List.append_nil _).symm⟩

theorem LoggedIn.job (h : LoggedIn sessionId l s) (work : WorkJob) :
    LoggedIn sessionId l (s.handleJob suite work : TurnResult ν).session := by
  unfold SessionState.handleJob receiveJob
  dsimp only
  split <;> split <;> exact h.congr rfl rfl rfl rfl

end Turns

/-! ## All connections -/

/-- No row of the event is lost. -/
def ServingEvent.stored : ServingEvent → Bool
  | .line _ _ _ stored => stored
  | _ => true

namespace Serving

variable {B : Channels WorkJob} {ν : Type} {suite : Suite} {w : Wire ν}
  {config : VarDiffConfig}

/-- The lines that were handled on a connection. -/
def linesOf (v : Serving B ν) (i : Nat) : List String :=
  ((v.miners[i]?).map (·.lines)).getD []

/-- The login that the lines of a connection lead to. -/
def loginOf (suite : Suite) (w : Wire ν) (i : Nat) (lines : List String) : Login :=
  Login.replay suite w (sessionIdOf (i + 1)) lines

/-- The rows with the id of a session. -/
def rowsOf (rows : List AuthorizationEvent) (i : Nat) :
    List AuthorizationEvent :=
  rows.filter (·.sessionId = sessionIdOf (i + 1))

variable (suite w) in
/-- Each session is in the state of its login. -/
def EachLoggedIn (v : Serving B ν) : Prop :=
  v.Each fun i m => ∀ s, m.session = some s →
    LoggedIn (sessionIdOf (i + 1)) (loginOf suite w i m.lines) s

theorem eachLoggedIn_run (maxSize : Nat) (initial : WorkJob)
    (log : List AuthorizationEvent) (events : List ServingEvent) :
    ((start maxSize initial log : Serving B ν).run suite w config
      events).EachLoggedIn suite w := by
  refine each_run (P := fun _ i m => ∀ s, m.session = some s →
    LoggedIn (sessionIdOf (i + 1)) (loginOf suite w i m.lines) s)
    ?_ ?_ ?_ ?_ ?_ ?_ maxSize initial log events
  · exact fun _ _ _ _ h => h
  · rintro _ i s latest now hnew _ ⟨⟩
    obtain ⟨vardiff, _, rfl⟩ := Option.map_eq_some_iff.1 hnew
    exact ⟨rfl, rfl, rfl, by simp [loginOf, Login.replay]⟩
  · intro _ i m s around text hs h s' hs'
    cases hresult : s.handleLine suite w around text with
    | none =>
      rw [hresult] at hs'
      cases hs'
    | some r =>
      rw [hresult] at hs'
      cases hs'
      show LoggedIn _ (Login.replay suite w _ (m.lines ++ [text])) r.session
      rw [Login.replay_concat]
      exact ((h s hs).line (handleLine_turn suite w hresult)).1
  · rintro _ i m s work receiver hs _ h _ ⟨⟩
    exact (h s hs).job work
  · exact fun _ _ _ _ h => h
  · rintro _ _ _ _ _ ⟨⟩

theorem linesOf_set {v v' : Serving B ν} {i : Nat} {m m' : Miner B ν}
    (hm : v.miners[i]? = some m) (hminers : v'.miners = v.miners.set i m')
    (j : Nat) : v'.linesOf j = if i = j then m'.lines else v.linesOf j := by
  unfold linesOf
  rw [hminers, List.getElem?_set]
  split
  · rename_i heq
    subst heq
    rw [if_pos (List.getElem?_eq_some_iff.1 hm).1]
    rfl
  · rfl

/-- A turn of a connection that handles no line. -/
theorem linesOf_same {v v' : Serving B ν} {i : Nat} {m m' : Miner B ν}
    (hm : v.miners[i]? = some m) (hminers : v'.miners = v.miners.set i m')
    (hlines : m'.lines = m.lines) : v'.linesOf = v.linesOf := by
  funext j
  rw [linesOf_set hm hminers]
  split
  · rename_i heq
    subst heq
    simp [linesOf, hm, hlines]
  · rfl

theorem linesOf_listen {v v' : Serving B ν} {m : Miner B ν}
    (hminers : v'.miners = v.miners ++ [m]) (hlines : m.lines = []) :
    v'.linesOf = v.linesOf := by
  funext j
  unfold linesOf
  rw [hminers, List.getElem?_append]
  split
  · rfl
  · rename_i hge
    rw [List.getElem?_eq_none (l := v.miners) (not_lt.1 hge)]
    cases hj : j - v.miners.length with
    | zero => simp [hlines]
    | succ k => simp

/-- The rows of a turn carry the id of the session. -/
theorem sessionId_of_logged {s : SessionState} {around : Surroundings}
    {line : String} {r : TurnResult ν} (hturn : LineTurn suite w s around line r) :
    ∀ row ∈ r.logged, row.sessionId = s.sessionId := by
  cases hturn with
  | authorize hdecode hmethod => exact List.forall_mem_singleton.2 rfl
  | _ => exact List.forall_mem_nil _

/-- Rows of one session. -/
theorem rowsOf_eq {rows : List AuthorizationEvent} {i : Nat}
    (h : ∀ row ∈ rows, row.sessionId = sessionIdOf (i + 1)) (j : Nat) :
    rowsOf rows j = if i = j then rows else [] := by
  split
  · rename_i heq
    subst heq
    exact List.filter_eq_self.2 fun row hrow => decide_eq_true (h row hrow)
  · rename_i hne
    refine List.filter_eq_nil_iff.2 fun row hrow => ?_
    rw [h row hrow, decide_eq_true_eq]
    intro heq
    have := sessionIdOf_inj heq
    omega

/-- What an event adds to the log: `new`, whose rows of a session are among
those that the event adds to its login. -/
structure Adds (suite : Suite) (w : Wire ν) (v : Serving B ν) (e : ServingEvent)
    (v' : Serving B ν) (new : List AuthorizationEvent) : Prop where
  events : v'.authorizationEvents = v.authorizationEvents ++ new
  connections : v.miners.length ≤ v'.miners.length
  known : ∀ row ∈ new, ∃ i < v.miners.length, row.sessionId = sessionIdOf (i + 1)
  login : ∀ i, ∃ added, (loginOf suite w i (v'.linesOf i)).rows =
      (loginOf suite w i (v.linesOf i)).rows ++ added ∧
    (rowsOf new i).Sublist added ∧ (e.stored = true → rowsOf new i = added)

/-- An event that is no line adds nothing. -/
theorem Adds.nothing {v v' : Serving B ν} {e : ServingEvent}
    (hevents : v'.authorizationEvents = v.authorizationEvents)
    (hlength : v.miners.length ≤ v'.miners.length)
    (hlines : v'.linesOf = v.linesOf) : Adds suite w v e v' [] where
  events := by rw [hevents, List.append_nil]
  connections := hlength
  known := List.forall_mem_nil _
  login i := by
    refine ⟨[], ?_, List.Sublist.refl _, fun _ => rfl⟩
    rw [hlines, List.append_nil]

/-- What a line adds to the login of a connection. -/
theorem login_line {v : Serving B ν} (hlogged : v.EachLoggedIn suite w)
    {k : Nat} {m : Miner B ν} {s : SessionState} (hm : v.miners[k]? = some m)
    (hs : m.session = some s) {around : Surroundings} {text : String}
    {r : TurnResult ν} (hturn : LineTurn suite w s around text r)
    {v' : Serving B ν}
    (hminers : v'.miners = v.miners.set k (m.afterLine text (some r))) (i : Nat) :
    (loginOf suite w i (v'.linesOf i)).rows =
      (loginOf suite w i (v.linesOf i)).rows ++
        if k = i then r.logged else [] := by
  rw [linesOf_set hm hminers i]
  split
  · rename_i heq
    subst heq
    have hof : v.linesOf k = m.lines := by simp [linesOf, hm]
    rw [hof]
    show (Login.replay suite w _ (m.lines ++ [text])).rows = _
    rw [Login.replay_concat]
    exact ((hlogged k m hm s hs).line hturn).2
  · rw [List.append_nil]

/-- A line adds its rows. -/
theorem adds_line {v : Serving B ν} (hlogged : v.EachLoggedIn suite w) {k : Nat}
    (text : String) (now : ℚ) (stored : Bool) {m : Miner B ν} {s : SessionState}
    (hm : v.miners[k]? = some m) (hs : m.session = some s) :
    ∃ new, Adds suite w v (.line k text now stored)
      { v.setMiner k
          (m.afterLine text (s.handleLine suite w (v.around now) text)) with
        authorizationEvents := v.authorizationEvents ++
          if stored then loggedBy (s.handleLine suite w (v.around now) text)
          else [] } new := by
  cases hresult : s.handleLine suite w (v.around now) text with
  | none =>
    refine ⟨[], .nothing ?_ List.length_set.ge (linesOf_same hm rfl rfl)⟩
    cases stored <;> simp [loggedBy]
  | some r =>
    have hturn := handleLine_turn suite w hresult
    have hrows : ∀ row ∈ r.logged, row.sessionId = sessionIdOf (k + 1) := by
      rw [← (hlogged k m hm s hs).id]
      exact sessionId_of_logged hturn
    refine ⟨if stored then r.logged else [], rfl, List.length_set.ge, ?_, ?_⟩
    · intro row hrow
      refine ⟨k, (List.getElem?_eq_some_iff.1 hm).1, hrows row ?_⟩
      cases stored with
      | true => exact hrow
      | false => cases hrow
    · intro i
      refine ⟨_, login_line hlogged hm hs hturn rfl i, ?_⟩
      rw [← rowsOf_eq hrows]
      cases stored with
      | true => exact ⟨List.Sublist.refl _, fun _ => rfl⟩
      | false =>
        refine ⟨List.nil_sublist _, fun hfalse => ?_⟩
        cases hfalse

theorem adds_moves {v v' : Serving B ν} {e : ServingEvent}
    (hlogged : v.EachLoggedIn suite w) (hmove : Moves suite w config v e v') :
    ∃ new, Adds suite w v e v' new := by
  cases hmove with
  | workChanged work hunsent => exact ⟨[], .nothing rfl (le_refl _) rfl⟩
  | sendJob work hunsent => exact ⟨[], .nothing rfl (le_refl _) rfl⟩
  | accept now s hs => exact ⟨[], .nothing rfl (le_refl _) rfl⟩
  | acceptPanics now => exact ⟨[], .nothing rfl (le_refl _) rfl⟩
  | listen s hs =>
    exact ⟨[], .nothing rfl (by simp) (linesOf_listen rfl rfl)⟩
  | line k text now stored m s hm hs =>
    exact adds_line hlogged text now stored hm hs
  | job k m s work receiver hm hs hrecv =>
    exact ⟨[], .nothing rfl List.length_set.ge (linesOf_same hm rfl rfl)⟩
  | noJob k m hm hrecv =>
    exact ⟨[], .nothing rfl List.length_set.ge (linesOf_same hm rfl rfl)⟩
  | leave k m hm =>
    exact ⟨[], .nothing rfl List.length_set.ge (linesOf_same hm rfl rfl)⟩

/-- The rows `since` the start: they belong to the connections, and those of a
connection are rows of its login, in their order.  If no row is lost, they are
all of them. -/
structure Logged (suite : Suite) (w : Wire ν) (events : List ServingEvent)
    (v : Serving B ν) (since : List AuthorizationEvent) : Prop where
  known : ∀ row ∈ since, ∃ i < v.miners.length,
    row.sessionId = sessionIdOf (i + 1)
  sublist : ∀ i, (rowsOf since i).Sublist
    (loginOf suite w i (v.linesOf i)).rows
  stored : (∀ e ∈ events, e.stored = true) →
    ∀ i, rowsOf since i = (loginOf suite w i (v.linesOf i)).rows

theorem Logged.adds {events : List ServingEvent} {v v' : Serving B ν}
    {since : List AuthorizationEvent} (h : Logged suite w events v since)
    {e : ServingEvent} {new : List AuthorizationEvent}
    (hadds : Adds suite w v e v' new) :
    Logged suite w (events ++ [e]) v' (since ++ new) := by
  have hrows : ∀ i, rowsOf (since ++ new) i = rowsOf since i ++ rowsOf new i :=
    fun i => List.filter_append _ _
  constructor
  · intro row hrow
    obtain ⟨i, hi, hid⟩ := (List.mem_append.1 hrow).elim (h.known row)
      (hadds.known row)
    exact ⟨i, hi.trans_le hadds.connections, hid⟩
  · intro i
    obtain ⟨added, hlogin, hsublist, _⟩ := hadds.login i
    rw [hrows, hlogin]
    exact (h.sublist i).append hsublist
  · intro hstored i
    obtain ⟨added, hlogin, _, hall⟩ := hadds.login i
    rw [hrows, hlogin, hall (hstored e (by simp)),
      h.stored (fun e' he' => hstored e' (List.mem_append_left _ he')) i]

/-- The rows of the sessions against the rows of their logins. -/
theorem logged_run (maxSize : Nat) (initial : WorkJob)
    (log : List AuthorizationEvent) (events : List ServingEvent) :
    ∃ since, ((start maxSize initial log : Serving B ν).run suite w config
        events).authorizationEvents = log ++ since ∧
      Logged suite w events
        ((start maxSize initial log : Serving B ν).run suite w config events)
        since := by
  induction events using List.reverseRecOn with
  | nil =>
    refine ⟨[], (List.append_nil log).symm, List.forall_mem_nil _, ?_, ?_⟩
    · exact fun _ => List.nil_sublist _
    · exact fun _ _ => rfl
  | append_singleton events e ih =>
    have hlogged : ((start maxSize initial log : Serving B ν).run suite w config
        events).EachLoggedIn suite w := eachLoggedIn_run maxSize initial log events
    rw [run_concat]
    generalize (start maxSize initial log : Serving B ν).run suite w config
      events = v at *
    obtain ⟨since, hevents, hsince⟩ := ih
    rcases step_moves suite w config v e with heq | hmove
    · rw [heq]
      refine ⟨since, hevents, hsince.known, hsince.sublist, fun hstored => ?_⟩
      exact hsince.stored fun e' he' => hstored e' (List.mem_append_left _ he')
    · obtain ⟨new, hadds⟩ := adds_moves hlogged hmove
      refine ⟨since ++ new, ?_, hsince.adds hadds⟩
      rw [hadds.events, hevents, List.append_assoc]

end Serving

section Result

variable {B : Channels WorkJob} {ν : Type} {suite : Suite} {w : Wire ν}
  {config : VarDiffConfig}

open Serving

/-- For every interleaving, and whatever earlier processes have left in the
log: a session is in the state that its own lines lead to, and since the start
the log has got the rows of the logins, those of each one in their order and
no others.  None of them is missing unless the database has lost one. -/
theorem login_replayed (maxSize : Nat) (initial : WorkJob)
    (log : List AuthorizationEvent) (events : List ServingEvent) :
    ((start maxSize initial log : Serving B ν).run suite w config
      events).EachLoggedIn suite w ∧
    ∃ since, ((start maxSize initial log : Serving B ν).run suite w config
        events).authorizationEvents = log ++ since ∧
      Logged suite w events
        ((start maxSize initial log : Serving B ν).run suite w config events)
        since :=
  ⟨eachLoggedIn_run maxSize initial log events,
    logged_run maxSize initial log events⟩

/-- Two miners log in at the same time, and the second one forgets to
subscribe. -/
def joinTogether : List ServingEvent :=
  [.accept 0, .listen, .line 0 subscribeLine 0 true, .accept 0, .listen,
    .line 1 authorizeLine 0 true, .line 0 authorizeLine 0 true]

/-- A row that an earlier process has left. -/
def oldRow : AuthorizationEvent :=
  ⟨sessionIdOf 1, "lotus_b", "lotus_b", none, true, none⟩

/-- A server after a restart. -/
def restarted : Serving (queue WorkJob) Int :=
  (start 512 (sampleWork 1) [oldRow]).run sampleSuite sampleWire {} joinTogether

/-- The first session has the id of the old row.  Since the start there is one
row for each login. -/
theorem login_replayed_sample : ∃ since,
    restarted.authorizationEvents = [oldRow] ++ since ∧
    since.map (fun row => (row.sessionId, row.authorized)) =
      [(sessionIdOf 2, false), (sessionIdOf 1, true)] ∧
    ∀ i, rowsOf since i =
      (loginOf sampleSuite sampleWire i (restarted.linesOf i)).rows := by
  obtain ⟨since, hevents, hlogged⟩ : ∃ since,
      restarted.authorizationEvents = [oldRow] ++ since ∧
        Logged sampleSuite sampleWire joinTogether restarted since :=
    (login_replayed 512 (sampleWork 1) [oldRow] joinTogether).2
  have hrun : restarted.authorizationEvents.tail.map
      (fun row => (row.sessionId, row.authorized)) =
        [(sessionIdOf 2, false), (sessionIdOf 1, true)] := by
    decide +kernel
  rw [hevents] at hrun
  exact ⟨since, hevents, hrun, hlogged.stored (by decide)⟩

end Result

end StratumServer
