import StratumServer.Jobs.Delivery
import StratumServer.NodeIntegration.Feed

/-!
# Fresh work

What the node announces reaches the miners.  The announcement goes through the
consumer, the coalescer, the consumer again, the cache and the channel of the
connections; on its way it is `Pending` in one of these places.

`Fresh` says that after an announcement the cache holds the job of the node's
template, or something is pending, or the last attempt has failed.  Its rule
for the consumer is that a template that was answered is the one of the node,
or another announcement is already on its way.

`fresh_work` is the result for the miners, and `feed_drains` says that nothing
stays pending: the two tasks can take only so many steps by themselves
(`Feed.load` counts them), and then they are idle or they block each other.
-/

namespace StratumServer

open Broadcast (Channels queue)

variable {B : Channels WorkJob} {ν : Type} {suite : Suite} {w : Wire ν}
  {config : VarDiffConfig} {maxSize : Nat}

/-! ## The Stratum side -/

variable (suite w config) in
/-- The accept loop and the connections leave the cache as it is. -/
theorem Serving.step_isServer {e : ServingEvent} (he : e.isServer = true)
    (v : Serving B ν) :
    (v.step suite w config e).latest = v.latest ∧
      (v.step suite w config e).unsent = v.unsent := by
  rcases v.step_moves suite w config e with heq | hmove
  · rw [heq]
    exact ⟨rfl, rfl⟩
  · generalize v.step suite w config e = v' at hmove
    cases hmove with
    | workChanged | sendJob => simp [ServingEvent.isServer] at he
    | _ => exact ⟨rfl, rfl⟩

variable (suite w config) in
theorem Serving.Delivers.step (hsize : 0 < maxSize) {v : Serving B ν}
    (h : v.Delivers maxSize) (e : ServingEvent) :
    (v.step suite w config e).Delivers maxSize := by
  rcases v.step_moves suite w config e with heq | hmove
  · rw [heq]
    exact h
  · exact h.moves hsize hmove

theorem refreshedJob_announced {template : MiningTemplate}
    {reason : MiningWorkChangedReason} {work : WorkJob}
    (h : refreshedJob suite template reason = some work) :
    work.announced = work := by
  unfold refreshedJob at h
  split at h
  · rename_i job hjob
    cases h
    unfold templateToJob at hjob
    cases hsize : computeBlockSizeWithExtranonce suite template.block
        template.coinbase1 template.coinbase2 with
    | error e =>
      rw [hsize] at hjob
      cases hjob
    | ok size =>
      rw [hsize] at hjob
      cases hjob
      rfl
  · cases h

namespace Feed

/-! ## What is pending -/

/-- An announcement is on its way to the consumer's request. -/
inductive Pending (s : Feed B ν) : Prop
  | inbox (reason : MiningWorkChangedReason)
      (h : .miningWorkChanged reason ∈ s.inbox)
  | forwarding (reason : MiningWorkChangedReason)
      (h : s.phase = .forwarding reason)
  | queue (h : s.coalescer.queue ≠ [])
  | window (h : s.coalescer.phase ≠ .waiting)
  | outbox (h : s.taken < s.coalescer.sent.length)
  | asking (reason : MiningWorkChangedReason) (h : s.phase = .asking reason)

/-- The tasks wait for the node. -/
structure Idle (s : Feed B ν) : Prop where
  inbox : s.inbox = []
  phase : s.phase = .selecting
  queue : s.coalescer.queue = []
  window : s.coalescer.phase = .waiting
  outbox : s.coalescer.sent.length ≤ s.taken

instance (s : Feed B ν) : Decidable s.Idle :=
  decidable_of_iff (s.inbox = [] ∧ s.phase = .selecting ∧ s.coalescer.queue = [] ∧
      s.coalescer.phase = .waiting ∧ s.coalescer.sent.length ≤ s.taken)
    ⟨fun ⟨h₁, h₂, h₃, h₄, h₅⟩ => ⟨h₁, h₂, h₃, h₄, h₅⟩,
      fun ⟨h₁, h₂, h₃, h₄, h₅⟩ => ⟨h₁, h₂, h₃, h₄, h₅⟩⟩

theorem Idle.not_pending {s : Feed B ν} (h : s.Idle) : ¬ s.Pending := by
  intro hpending
  cases hpending with
  | inbox reason hmem => simp [h.inbox] at hmem
  | forwarding reason hphase => simp [h.phase] at hphase
  | queue hqueue => exact hqueue h.queue
  | window hwindow => exact hwindow h.window
  | outbox htaken => exact absurd h.outbox (by omega)
  | asking reason hphase => simp [h.phase] at hphase

/-- The cache holds the job of the node's template. -/
def Current (suite : Suite) (s : Feed B ν) : Prop :=
  ∃ reason work, refreshedJob suite s.template reason = some work ∧
    s.serving.latest = some work

theorem Current.congr {s s' : Feed B ν} (h : s.Current suite)
    (htemplate : s'.template = s.template)
    (hlatest : s'.serving.latest = s.serving.latest) : s'.Current suite := by
  unfold Current
  rw [htemplate, hlatest]
  exact h

/-- The coalescer runs. -/
structure Listening (c : Coalescer MiningWorkChangedReason) : Prop where
  inputClosed : c.inputClosed = false
  outputClosed : c.outputClosed = false
  phase : c.phase ≠ .ended

/-- A step that leaves the coalescer alone, and in which the consumer does not
leave the two places where it holds an announcement. -/
theorem Pending.keeps {s s' : Feed B ν} (h : s.Pending)
    (hinbox : ∀ reason, .miningWorkChanged reason ∈ s.inbox →
      .miningWorkChanged reason ∈ s'.inbox)
    (hcoalescer : s'.coalescer = s.coalescer) (htaken : s'.taken = s.taken)
    (hforwarding : ∀ reason, s.phase = .forwarding reason →
      s'.phase = .forwarding reason)
    (hasking : ∀ reason, s.phase = .asking reason → s'.phase = .asking reason) :
    s'.Pending := by
  cases h with
  | inbox reason hmem => exact .inbox reason (hinbox reason hmem)
  | forwarding reason hphase => exact .forwarding reason (hforwarding reason hphase)
  | queue hqueue => exact .queue (hcoalescer ▸ hqueue)
  | window hwindow => exact .window (hcoalescer ▸ hwindow)
  | outbox hlt =>
    apply Pending.outbox
    rw [hcoalescer, htaken]
    exact hlt
  | asking reason hphase => exact .asking reason (hasking reason hphase)

/-- After a step of its own the coalescer holds an announcement, or it has just
sent one. -/
theorem Listening.moves {c c' : Coalescer MiningWorkChangedReason}
    {e : CoalesceEvent MiningWorkChangedReason} (h : Listening c)
    (hmove : c.Moves e c') (he : e = .receive ∨ e = .timer ∨ e = .send) :
    Listening c' ∧ (c'.phase ≠ .waiting ∨ c.sent.length < c'.sent.length) := by
  cases hmove with
  | receive | timer =>
    exact ⟨⟨h.inputClosed, h.outputClosed, nofun⟩, Or.inl nofun⟩
  | send =>
    exact ⟨⟨h.inputClosed, h.outputClosed, nofun⟩, Or.inr (by simp)⟩
  | inputEnded hphase hqueue hclosed => simp [h.inputClosed] at hclosed
  | sendFails hclosed => simp [h.outputClosed] at hclosed
  | arrive | closeInput | shutdown | closeOutput | seeShutdown => simp at he

theorem Listening.arrive {c : Coalescer MiningWorkChangedReason}
    (h : Listening c) (reason : MiningWorkChangedReason) :
    Listening (c.step (.arrive reason)) ∧
      (c.step (.arrive reason)).queue = c.queue ++ [reason] ∧
      (c.step (.arrive reason)).sent = c.sent := by
  have hopen : (c.inputClosed || c.phase.isEnded) = false := by
    rw [h.inputClosed, Bool.false_or]
    cases hphase : c.phase with
    | ended => exact absurd hphase h.phase
    | _ => rfl
  have hstep : c.step (.arrive reason) =
      { c with inputs := c.inputs ++ [reason], queue := c.queue ++ [reason] } := by
    simp [Coalescer.step, hopen]
  rw [hstep]
  exact ⟨⟨h.inputClosed, h.outputClosed, h.phase⟩, rfl, rfl⟩

/-! ## The invariant -/

/-- The invariant. -/
structure Fresh (suite : Suite) (maxSize : Nat) (s : Feed B ν) : Prop where
  delivers : s.serving.Delivers maxSize
  unsent : s.phase ≠ .publishing → s.serving.unsent = none
  listening : Listening s.coalescer
  taken_le : s.taken ≤ s.coalescer.sent.length
  answered : ∀ reason template, s.phase = .answered reason template →
    template = s.template ∨ s.Pending
  current : s.announced = true → s.Pending ∨ s.failed = true ∨
    (∃ reason template, s.phase = .answered reason template) ∨ s.Current suite

theorem fresh_start (initial : WorkJob) (log : List AuthorizationEvent)
    (template : MiningTemplate) :
    (start maxSize initial log template : Feed B ν).Fresh suite maxSize where
  delivers := Serving.delivers_start
  unsent _ := rfl
  listening := ⟨rfl, rfl, nofun⟩
  taken_le := le_refl 0
  answered := nofun
  current := nofun

/-- A step that loses no announcement and no job.  In `s` no template is waiting
for the cache. -/
theorem Fresh.current_keeps {s s' : Feed B ν} (h : s.Fresh suite maxSize)
    (hphase : ∀ reason template, s.phase ≠ .answered reason template)
    (hpending : s.Pending → s'.Pending) (hfailed : s'.failed = s.failed)
    (hcurrent : s.Current suite → s'.Current suite) :
    s.announced = true → s'.Pending ∨ s'.failed = true ∨
      (∃ reason template, s'.phase = .answered reason template) ∨
        s'.Current suite := by
  intro hannounced
  rcases h.current hannounced with hp | hf | ⟨_, _, hanswered⟩ | hc
  · exact Or.inl (hpending hp)
  · exact Or.inr (Or.inl (hfailed.trans hf))
  · exact absurd hanswered (hphase _ _)
  · exact Or.inr (Or.inr (Or.inr (hcurrent hc)))

/-- The consumer goes on to another place, and leaves the server and the
coalescer alone. -/
theorem Fresh.turns {s s' : Feed B ν} (h : s.Fresh suite maxSize)
    (hserving : s'.serving = s.serving) (hcoalescer : s'.coalescer = s.coalescer)
    (htaken : s'.taken = s.taken) (hphase : s.phase ≠ .publishing)
    (hphase' : ∀ reason template, s'.phase ≠ .answered reason template)
    (hcurrent : s'.announced = true → s'.Pending ∨ s'.failed = true ∨
      (∃ reason template, s'.phase = .answered reason template) ∨
        s'.Current suite) : s'.Fresh suite maxSize where
  delivers := by
    rw [hserving]
    exact h.delivers
  unsent _ := by
    rw [hserving]
    exact h.unsent hphase
  listening := by
    rw [hcoalescer]
    exact h.listening
  taken_le := by
    rw [htaken, hcoalescer]
    exact h.taken_le
  answered reason template hanswered := absurd hanswered (hphase' reason template)
  current := hcurrent

/-- A step of the coalescer leaves an announcement that is pending. -/
theorem Fresh.coalesce {s : Feed B ν} (h : s.Fresh suite maxSize)
    {c : Coalescer MiningWorkChangedReason}
    {e : CoalesceEvent MiningWorkChangedReason} (hmove : s.coalescer.Moves e c)
    (he : e = .receive ∨ e = .timer ∨ e = .send) :
    { s with coalescer := c }.Fresh suite maxSize := by
  obtain ⟨hlistening, hnext⟩ := h.listening.moves hmove he
  have hsent : s.coalescer.sent.length ≤ c.sent.length := by
    cases hmove <;> simp
  have htaken := h.taken_le
  have hpending : Pending { s with coalescer := c } := by
    rcases hnext with hwindow | hlt
    · exact .window hwindow
    · apply Pending.outbox
      show s.taken < c.sent.length
      omega
  refine ⟨h.delivers, h.unsent, hlistening, ?_, fun _ _ _ => Or.inr hpending,
    fun _ => Or.inl hpending⟩
  show s.taken ≤ c.sent.length
  omega

/-- The template that was answered is put into the cache. -/
theorem Fresh.cache (hsize : 0 < maxSize) {s : Feed B ν}
    (h : s.Fresh suite maxSize) {reason : MiningWorkChangedReason}
    {template : MiningTemplate} {work : WorkJob}
    (hphase : s.phase = .answered reason template)
    (hwork : refreshedJob suite template reason = some work) :
    { s with serving := s.serving.step suite w config (.workChanged work),
             phase := .publishing, failed := false }.Fresh suite maxSize := by
  have hdelivers := h.delivers.step suite w config hsize (.workChanged work)
  have hunsent := h.unsent (by simp [hphase])
  have hlatest : (s.serving.step suite w config (.workChanged work)).latest =
      some work := by
    rw [hdelivers.stocked.latest_eq hsize]
    simp [Serving.step, hunsent, Serving.jobs, refreshedJob_announced hwork]
  refine ⟨hdelivers, fun hne => absurd rfl hne, h.listening, h.taken_le,
    fun _ _ => by simp, ?_⟩
  intro _
  rcases h.answered reason template hphase with rfl | hpending
  · exact Or.inr (Or.inr (Or.inr ⟨reason, work, hwork, hlatest⟩))
  · refine Or.inl (hpending.keeps (fun _ hmem => hmem) rfl rfl ?_ ?_)
    · simp [hphase]
    · simp [hphase]

/-- Every move keeps the invariant. -/
theorem Fresh.moves (hsize : 0 < maxSize) {s s' : Feed B ν} {e : FeedEvent}
    (h : s.Fresh suite maxSize) (hmove : Moves suite w config s e s') :
    s'.Fresh suite maxSize := by
  cases hmove with
  | nodeChanges template reason =>
    have hpending : Pending { s with
        template, inbox := s.inbox ++ [.miningWorkChanged reason],
        announced := true } := .inbox reason (by simp)
    exact ⟨h.delivers, h.unsent, h.listening, h.taken_le,
      fun _ _ _ => Or.inr hpending, fun _ => Or.inl hpending⟩
  | nodePublishes =>
    have hkeeps : s.Pending → Pending { s with inbox := s.inbox ++ [.block] } :=
      fun hpending => hpending.keeps (fun _ hmem => List.mem_append_left _ hmem)
        rfl rfl (fun _ hphase => hphase) (fun _ hphase => hphase)
    exact ⟨h.delivers, h.unsent, h.listening, h.taken_le,
      fun reason template hphase =>
        (h.answered reason template hphase).imp_right hkeeps,
      fun hannounced => (h.current hannounced).imp_left hkeeps⟩
  | receive reason inbox hphase hinbox =>
    exact h.turns rfl rfl rfl (by simp [hphase]) (by simp)
      fun _ => Or.inl (.forwarding reason rfl)
  | receiveBlock inbox hphase hinbox =>
    refine h.turns rfl rfl rfl (by simp [hphase]) (by simp)
      (h.current_keeps (by simp [hphase]) ?_ rfl id)
    intro hpending
    refine hpending.keeps ?_ rfl rfl ?_ ?_ <;> simp [hphase, hinbox]
  | forward reason hphase hroom =>
    obtain ⟨hlistening, hqueue, hsent⟩ := h.listening.arrive reason
    refine ⟨h.delivers, fun _ => h.unsent (by simp [hphase]), hlistening, ?_,
      fun _ _ => by simp, fun _ => Or.inl (.queue ?_)⟩
    · rw [hsent]
      exact h.taken_le
    · rw [hqueue]
      simp
  | handled hphase =>
    refine h.turns rfl rfl rfl (by simp [hphase]) (by simp)
      (h.current_keeps (by simp [hphase]) ?_ rfl id)
    intro hpending
    refine hpending.keeps ?_ rfl rfl ?_ ?_ <;> simp [hphase]
  | take reason hphase hwaits =>
    exact ⟨h.delivers, fun _ => h.unsent (by simp [hphase]), h.listening, hwaits,
      fun _ _ => by simp, fun _ => Or.inl (.asking reason rfl)⟩
  | answer reason hphase =>
    refine ⟨h.delivers, fun _ => h.unsent (by simp [hphase]), h.listening,
      h.taken_le, ?_, fun _ => Or.inr (Or.inr (Or.inl ⟨reason, _, rfl⟩))⟩
    rintro _ _ ⟨⟩
    exact Or.inl rfl
  | answerFails reason hphase =>
    exact h.turns rfl rfl rfl (by simp [hphase]) (by simp)
      fun _ => Or.inr (Or.inl rfl)
  | cache reason template work hphase hwork => exact h.cache hsize hphase hwork
  | cacheFails reason template hphase =>
    exact h.turns rfl rfl rfl (by simp [hphase]) (by simp)
      fun _ => Or.inr (Or.inl rfl)
  | publish hphase =>
    have hstep : (s.serving.step suite w config .sendJob).unsent = none ∧
        (s.serving.step suite w config .sendJob).latest = s.serving.latest := by
      cases hunsent : s.serving.unsent with
      | none => simp [Serving.step, hunsent]
      | some work => simp [Serving.step, hunsent, Serving.latest]
    refine ⟨h.delivers.step suite w config hsize .sendJob, fun _ => hstep.1,
      h.listening, h.taken_le, fun _ _ => by simp, h.current_keeps (by simp [hphase]) ?_ rfl
        fun hcurrent => hcurrent.congr rfl hstep.2⟩
    intro hpending
    refine hpending.keeps ?_ rfl rfl ?_ ?_ <;> simp [hphase]
  | coalesceReceive c hmove => exact h.coalesce hmove (Or.inl rfl)
  | coalesceTimer c hmove => exact h.coalesce hmove (Or.inr (Or.inl rfl))
  | coalesceSend c hmove hroom => exact h.coalesce hmove (Or.inr (Or.inr rfl))
  | serve event hevent =>
    obtain ⟨hlatest, hunsent⟩ := s.serving.step_isServer suite w config hevent
    have hkeeps : s.Pending → Pending { s with
        serving := s.serving.step suite w config event } :=
      fun hpending => hpending.keeps (fun _ hmem => hmem) rfl rfl
        (fun _ hphase => hphase) (fun _ hphase => hphase)
    refine ⟨h.delivers.step suite w config hsize event, fun hne => hunsent.trans (h.unsent hne),
      h.listening, h.taken_le, fun reason template hphase =>
        (h.answered reason template hphase).imp_right hkeeps, fun hannounced => ?_⟩
    rcases h.current hannounced with hpending | hfailed | hanswered | hcurrent
    · exact Or.inl (hkeeps hpending)
    · exact Or.inr (Or.inl hfailed)
    · exact Or.inr (Or.inr (Or.inl hanswered))
    · exact Or.inr (Or.inr (Or.inr (hcurrent.congr rfl hlatest)))

theorem fresh_run (hsize : 0 < maxSize) (initial : WorkJob)
    (log : List AuthorizationEvent) (template : MiningTemplate)
    (events : List FeedEvent) :
    ((start maxSize initial log template : Feed B ν).run suite w config
      events).Fresh suite maxSize :=
  run_invariant (fun _ _ _ h hmove => h.moves hsize hmove)
    (fresh_start initial log template) events

/-! ## The two tasks come to rest -/

/-- The steps that a message of the node may still cause. -/
def messageLoad : NodeMessage → Nat
  | .miningWorkChanged _ => 9
  | .block => 2

/-- The steps of the consumer until it is in its `select!` again. -/
def phaseLoad : ConsumerPhase → Nat
  | .selecting => 0
  | .forwarding _ => 8
  | .handling => 1
  | .asking _ => 3
  | .answered _ _ => 2
  | .publishing => 1

/-- The steps that the event of a window may still cause. -/
def windowLoad : CoalescePhase MiningWorkChangedReason → Nat
  | .window _ => 6
  | .sending _ => 5
  | .waiting | .ended => 0

/-- How many steps the two tasks can take by themselves. -/
def load (s : Feed B ν) : Nat :=
  (s.inbox.map messageLoad).sum + phaseLoad s.phase +
    7 * s.coalescer.queue.length + windowLoad s.coalescer.phase +
    4 * (s.coalescer.sent.length - s.taken)

theorem coalesce_load {c c' : Coalescer MiningWorkChangedReason}
    {e : CoalesceEvent MiningWorkChangedReason} (h : Listening c)
    (hmove : c.Moves e c') (he : e = .receive ∨ e = .timer ∨ e = .send) {n : Nat}
    (hn : n ≤ c.sent.length) :
    7 * c'.queue.length + windowLoad c'.phase + 4 * (c'.sent.length - n) <
      7 * c.queue.length + windowLoad c.phase + 4 * (c.sent.length - n) := by
  cases hmove with
  | receive e queue hqueue =>
    simp only [hqueue, List.length_cons, windowLoad]
    omega
  | timer latest hphase =>
    simp only [hphase, windowLoad]
    omega
  | send latest hphase =>
    simp only [hphase, windowLoad, List.length_append, List.length_singleton]
    omega
  | inputEnded hphase hqueue hclosed => simp [h.inputClosed] at hclosed
  | sendFails hclosed => simp [h.outputClosed] at hclosed
  | arrive | closeInput | shutdown | closeOutput | seeShutdown => simp at he

/-- Every step of the two tasks brings them closer to rest. -/
theorem Fresh.load_lt {s s' : Feed B ν} {e : FeedEvent} (h : s.Fresh suite maxSize)
    (hmove : Moves suite w config s e s') (he : e.isTask = true) :
    s'.load < s.load := by
  have htaken := h.taken_le
  cases hmove with
  | nodeChanges | nodePublishes | serve => simp [FeedEvent.isTask] at he
  | receive reason inbox hphase hinbox =>
    simp only [load, hphase, hinbox, List.map_cons, List.sum_cons, messageLoad,
      phaseLoad]
    omega
  | receiveBlock inbox hphase hinbox =>
    simp only [load, hphase, hinbox, List.map_cons, List.sum_cons, messageLoad,
      phaseLoad]
    omega
  | forward reason hphase hroom =>
    obtain ⟨_, hqueue, hsent⟩ := h.listening.arrive reason
    have hwindow : (s.coalescer.step (.arrive reason)).phase =
        s.coalescer.phase := by
      simp only [Coalescer.step]
      split <;> rfl
    simp only [load, hphase, hqueue, hsent, hwindow, List.length_append,
      List.length_singleton, phaseLoad]
    omega
  | handled hphase =>
    simp only [load, hphase, phaseLoad]
    omega
  | take reason hphase hwaits =>
    simp only [load, hphase, phaseLoad]
    omega
  | answer reason hphase | answerFails reason hphase =>
    simp only [load, hphase, phaseLoad]
    omega
  | cache reason template work hphase | cacheFails reason template hphase =>
    simp only [load, hphase, phaseLoad]
    omega
  | publish hphase =>
    simp only [load, hphase, phaseLoad]
    omega
  | coalesceReceive c hmove =>
    have := coalesce_load h.listening hmove (Or.inl rfl) htaken
    simp only [load]
    omega
  | coalesceTimer c hmove =>
    have := coalesce_load h.listening hmove (Or.inr (Or.inl rfl)) htaken
    simp only [load]
    omega
  | coalesceSend c hmove hroom =>
    have := coalesce_load h.listening hmove (Or.inr (Or.inr rfl)) htaken
    simp only [load]
    omega

/-- The two tasks wait for each other: the consumer for room in the channel to
the coalescer, and the coalescer for room in the channel to the consumer. -/
structure Deadlocked (s : Feed B ν) : Prop where
  forwarding : ∃ reason, s.phase = .forwarding reason
  rawFull : workChannelCapacity ≤ s.coalescer.queue.length
  sending : ∃ reason, s.coalescer.phase = .sending reason
  outboxFull : workChannelCapacity ≤ s.outbox.length

/-- No step of the two tasks changes anything. -/
def Stuck (suite : Suite) (w : Wire ν) (config : VarDiffConfig) (s : Feed B ν) :
    Prop :=
  ∀ e : FeedEvent, e.isTask = true → s.step suite w config e = s

/-- What a listening coalescer that cannot move is waiting for. -/
theorem Stuck.coalescer {s : Feed B ν} (h : s.Stuck suite w config)
    (hlistening : Listening s.coalescer) :
    s.coalescer.phase = .waiting ∧ s.coalescer.queue = [] ∨
      (∃ reason, s.coalescer.phase = .sending reason) ∧
        workChannelCapacity ≤ s.outbox.length := by
  cases hphase : s.coalescer.phase with
  | waiting =>
    refine Or.inl ⟨rfl, ?_⟩
    cases hqueue : s.coalescer.queue with
    | nil => rfl
    | cons reason queue =>
      have hsame := congrArg (·.coalescer.phase) (h .coalesceReceive rfl)
      simp [step, Coalescer.step, Coalescer.receive, hphase, hqueue] at hsame
  | window reason =>
    have hsame := congrArg (·.coalescer.phase) (h .coalesceTimer rfl)
    simp [step, Coalescer.step, hphase] at hsame
  | sending reason =>
    refine Or.inr ⟨⟨reason, rfl⟩, ?_⟩
    by_contra hroom
    have hsame := congrArg (·.coalescer.phase) (h .coalesceSend rfl)
    simp [step, Coalescer.step, Coalescer.send, hphase, hlistening.outputClosed,
      Nat.not_le.1 hroom] at hsame
  | ended => exact absurd hphase hlistening.phase

/-- Two tasks that cannot move are idle, or they wait for each other. -/
theorem Fresh.idle_or_deadlocked {s : Feed B ν} (h : s.Fresh suite maxSize)
    (hstuck : s.Stuck suite w config) : s.Idle ∨ s.Deadlocked := by
  have hcoalescer := hstuck.coalescer h.listening
  cases hphase : s.phase with
  | selecting =>
    have houtbox : s.outbox = [] := by
      cases hwaits : s.outbox with
      | nil => rfl
      | cons reason rest =>
        have hsame := congrArg (·.phase) (hstuck .take rfl)
        simp [step, hphase, hwaits] at hsame
    have hinbox : s.inbox = [] := by
      cases hmessages : s.inbox with
      | nil => rfl
      | cons message inbox =>
        have hsame := congrArg (·.phase) (hstuck .receive rfl)
        cases message <;> simp [step, hphase, hmessages] at hsame
    rcases hcoalescer with ⟨hwindow, hqueue⟩ | ⟨_, hfull⟩
    · refine Or.inl ⟨hinbox, hphase, hqueue, hwindow, ?_⟩
      exact List.drop_eq_nil_iff.1 houtbox
    · simp [houtbox, workChannelCapacity] at hfull
  | forwarding reason =>
    have hfull : workChannelCapacity ≤ s.coalescer.queue.length := by
      by_contra hroom
      have hsame := congrArg (·.phase) (hstuck .forward rfl)
      simp [step, hphase, Nat.not_le.1 hroom] at hsame
    rcases hcoalescer with ⟨_, hqueue⟩ | ⟨hsending, houtbox⟩
    · simp [hqueue, workChannelCapacity] at hfull
    · exact Or.inr ⟨⟨reason, hphase⟩, hfull, hsending, houtbox⟩
  | handling =>
    have hsame := congrArg (·.phase) (hstuck .handled rfl)
    simp [step, hphase] at hsame
  | asking reason =>
    have hsame := congrArg (·.phase) (hstuck (.answer true) rfl)
    simp [step, hphase] at hsame
  | answered reason template =>
    have hsame := congrArg (·.phase) (hstuck .cache rfl)
    cases hwork : refreshedJob suite template reason <;>
      simp [step, hphase, hwork] at hsame
  | publishing =>
    have hsame := congrArg (·.phase) (hstuck .publish rfl)
    simp [step, hphase] at hsame

/-- The tasks can take no step. -/
theorem Deadlocked.stuck {s : Feed B ν} (h : s.Deadlocked) :
    s.Stuck suite w config := by
  obtain ⟨⟨reason, hphase⟩, hraw, ⟨latest, hsending⟩, houtbox⟩ := h
  intro e he
  cases e with
  | nodeChanges | nodePublishes | serve => simp [FeedEvent.isTask] at he
  | coalesceReceive =>
    have hsame : s.coalescer.step .receive = s.coalescer := by
      simp [Coalescer.step, Coalescer.receive, hsending]
    simp only [step, hsame]
  | coalesceTimer =>
    have hsame : s.coalescer.step .timer = s.coalescer := by
      simp [Coalescer.step, hsending]
    simp only [step, hsame]
  | _ => simp [step, hphase, Nat.not_lt.2 hraw, Nat.not_lt.2 houtbox]

variable (suite w config) in
/-- Nothing that happens ends it, and the cache is never filled again. -/
theorem Deadlocked.step {s : Feed B ν} (h : s.Deadlocked) (e : FeedEvent) :
    (s.step suite w config e).Deadlocked ∧
      (s.step suite w config e).serving.latest = s.serving.latest := by
  obtain ⟨hforwarding, hraw, hsending, houtbox⟩ := id h
  cases e with
  | nodeChanges | nodePublishes =>
    exact ⟨⟨hforwarding, hraw, hsending, houtbox⟩, rfl⟩
  | serve event =>
    simp only [Feed.step]
    split
    · rename_i hevent
      exact ⟨⟨hforwarding, hraw, hsending, houtbox⟩,
        (s.serving.step_isServer suite w config hevent).1⟩
    · exact ⟨h, rfl⟩
  | _ =>
    rw [h.stuck _ rfl]
    exact ⟨h, rfl⟩

variable (suite w config) in
theorem Deadlocked.run {s : Feed B ν} (h : s.Deadlocked) (events : List FeedEvent) :
    (s.run suite w config events).Deadlocked ∧
      (s.run suite w config events).serving.latest = s.serving.latest := by
  induction events generalizing s with
  | nil => exact ⟨h, rfl⟩
  | cons e events ih =>
    obtain ⟨hnext, hlatest⟩ := h.step suite w config e
    obtain ⟨hend, hsame⟩ := ih hnext
    exact ⟨hend, hsame.trans hlatest⟩

/-! ### A deadlock -/

/-- The tasks wait for the node, while `n` events of the coalescer are not
taken. -/
structure Backlog (n : Nat) (s : Feed B ν) : Prop where
  inbox : s.inbox = []
  phase : s.phase = .selecting
  inputClosed : s.coalescer.inputClosed = false
  outputClosed : s.coalescer.outputClosed = false
  queue : s.coalescer.queue = []
  window : s.coalescer.phase = .waiting
  outbox : s.coalescer.sent.length = s.taken + n

/-- A change of the template, up to the queue of the coalescer. -/
def reaches (template : MiningTemplate) : List FeedEvent :=
  [.nodeChanges template .newTip, .receive, .forward]

variable (suite w config) in
/-- One more window, with room for its event. -/
theorem Backlog.window_run {s : Feed B ν} {n : Nat} (h : s.Backlog n)
    (hn : n < workChannelCapacity) (template : MiningTemplate) :
    (s.run suite w config (reaches template ++
      [.coalesceReceive, .coalesceTimer, .coalesceSend])).Backlog (n + 1) := by
  have hroom : s.coalescer.sent.length - s.taken < 32 := by
    rw [h.outbox]
    unfold workChannelCapacity at hn
    omega
  constructor <;>
    simp [run, reaches, step, h.inbox, h.phase, h.queue, h.window, h.inputClosed,
      h.outputClosed, Feed.outbox, hroom, Coalescer.step, Coalescer.receive,
      Coalescer.send, CoalescePhase.isEnded, workChannelCapacity]
  rw [h.outbox]
  omega

/-- The coalescer waits for room, while `k` events wait for the coalescer. -/
structure Jammed (k : Nat) (s : Feed B ν) : Prop where
  inbox : s.inbox = []
  phase : s.phase = .selecting
  inputClosed : s.coalescer.inputClosed = false
  queue : s.coalescer.queue.length = k
  sending : ∃ reason, s.coalescer.phase = .sending reason
  outboxFull : workChannelCapacity ≤ s.outbox.length

variable (suite w config) in
/-- The window after the last one that had room. -/
theorem Backlog.jams {s : Feed B ν} (h : s.Backlog workChannelCapacity)
    (template : MiningTemplate) :
    (s.run suite w config (reaches template ++
      [.coalesceReceive, .coalesceTimer])).Jammed 0 := by
  have houtbox := h.outbox
  constructor <;>
    simp [run, reaches, step, h.inbox, h.phase, h.queue, h.window, h.inputClosed,
      Feed.outbox, Coalescer.step, Coalescer.receive, CoalescePhase.isEnded,
      workChannelCapacity]
  unfold workChannelCapacity at houtbox
  omega

variable (suite w config) in
theorem Jammed.queue_run {s : Feed B ν} {k : Nat} (h : s.Jammed k)
    (hk : k < workChannelCapacity) (template : MiningTemplate) :
    (s.run suite w config (reaches template)).Jammed (k + 1) := by
  obtain ⟨reason, hsending⟩ := h.sending
  have hfull := h.outboxFull
  have hroom : s.coalescer.queue.length < 32 := by
    rw [h.queue]
    exact hk
  constructor <;>
    simp [run, reaches, step, h.inbox, h.phase, hsending, hroom, h.inputClosed,
      Coalescer.step, CoalescePhase.isEnded, workChannelCapacity]
  · exact h.queue
  · exact hfull

variable (suite w config) in
theorem Jammed.deadlocks {s : Feed B ν} (h : s.Jammed workChannelCapacity)
    (template : MiningTemplate) :
    (s.run suite w config [.nodeChanges template .newTip, .receive]).Deadlocked := by
  have hfull := h.outboxFull
  have hqueue := h.queue
  constructor <;> simp [run, step, h.inbox, h.phase, h.sending]
  · exact hqueue.ge
  · exact hfull

variable (suite w config) in
/-- A run of one kind, as often as there is room. -/
theorem exists_run_of_steps {I : Nat → Feed B ν → Prop} {events : List FeedEvent}
    {capacity : Nat} (hstep : ∀ n s, n < capacity → I n s →
      I (n + 1) (s.run suite w config events)) {s : Feed B ν} (h : I 0 s) :
    ∃ all, I capacity (s.run suite w config all) := by
  have hall : ∀ n ≤ capacity, ∃ all, I n (s.run suite w config all) := by
    intro n hn
    induction n with
    | zero => exact ⟨[], h⟩
    | succ n ih =>
      obtain ⟨all, hI⟩ := ih (by omega)
      refine ⟨all ++ events, ?_⟩
      rw [← run_run]
      exact hstep n _ (by omega) hI
  exact hall capacity (le_refl _)

/-- There are orders of events that end in a deadlock. -/
theorem exists_deadlocked (suite : Suite) (w : Wire ν) (config : VarDiffConfig)
    (maxSize : Nat) (initial : WorkJob) (log : List AuthorizationEvent)
    (template : MiningTemplate) :
    ∃ events, ((start maxSize initial log template : Feed B ν).run suite w config
      events).Deadlocked := by
  have hstart : (start maxSize initial log template : Feed B ν).Backlog 0 :=
    ⟨rfl, rfl, rfl, rfl, rfl, rfl, rfl⟩
  obtain ⟨windows, hbacklog⟩ := exists_run_of_steps (I := Backlog) suite w config
    (fun _ _ hn hI => Backlog.window_run suite w config hI hn template) hstart
  obtain ⟨queued, hjammed⟩ := exists_run_of_steps (I := Jammed) suite w config
    (fun _ _ hk hI => Jammed.queue_run suite w config hI hk template)
    (hbacklog.jams suite w config template)
  have hdeadlocked := hjammed.deadlocks suite w config template
  rw [run_run, run_run, run_run] at hdeadlocked
  exact ⟨_, hdeadlocked⟩

end Feed

section Results

open Feed

/-- For every interleaving: when the consumer and the coalescer are idle, a
change of the template has been announced and the last attempt to get a job has
not failed, then an authorized connection that has taken all jobs works on the
job of the template that the node has now. -/
theorem fresh_work (hsize : 0 < maxSize) (initial : WorkJob)
    (log : List AuthorizationEvent) (template : MiningTemplate)
    (events : List FeedEvent)
    (hidle : ((start maxSize initial log template : Feed B ν).run suite w config
      events).Idle)
    (hannounced : ((start maxSize initial log template : Feed B ν).run suite w
      config events).announced = true)
    (hfailed : ((start maxSize initial log template : Feed B ν).run suite w
      config events).failed = false) :
    ((start maxSize initial log template : Feed B ν).run suite w config
      events).serving.Each fun _ m => ∀ s, m.session = some s →
        s.isAuthorized = true →
        B.waiting ((start maxSize initial log template : Feed B ν).run suite w
          config events).serving.channel m.receiver = 0 →
        ∃ reason work,
          refreshedJob suite ((start maxSize initial log template : Feed B ν).run
            suite w config events).template reason = some work ∧
          Serving.WorksOn suite ((start maxSize initial log template).run suite w
            config events).serving m s work := by
  have hfresh : ((start maxSize initial log template : Feed B ν).run suite w
      config events).Fresh suite maxSize :=
    fresh_run hsize initial log template events
  generalize (start maxSize initial log template : Feed B ν).run suite w config
    events = f at *
  have hunsent : f.serving.unsent = none := hfresh.unsent (by simp [hidle.phase])
  have hcurrent : f.Current suite := by
    rcases hfresh.current hannounced with hpending | hf | ⟨_, _, hphase⟩ | hcurrent
    · exact absurd hpending hidle.not_pending
    · simp [hfailed] at hf
    · simp [hidle.phase] at hphase
    · exact hcurrent
  obtain ⟨reason, work, hwork, hlatest⟩ := hcurrent
  intro i m hm s hs hauthorized hwaiting
  obtain ⟨work', hworks⟩ : ∃ work, Serving.WorksOn suite f.serving m s work :=
    hfresh.delivers.worksOn hsize hunsent i m hm s hs hauthorized hwaiting
  have hsame : work' = work := Option.some.inj (hworks.latest.symm.trans hlatest)
  exact ⟨reason, work, hwork, hsame ▸ hworks⟩

def sampleTemplate (templateId : Nat) : MiningTemplate where
  templateId := templateId
  block := [0]
  header := []
  height := 100
  version := 1
  target := ⟨List.replicate 32 255, rfl⟩
  curtime := 1
  coinbaseValue := 1000
  coinbase1 := ""
  coinbase2 := ""
  merkleBranches := []
  prevHashStratum := ""
  nbitsStratum := ""
  ntimeStratum := "000000000001"

/-- A miner logs in.  Then the node changes its template, and the change
reaches the queue of the coalescer. -/
def sampleFeed (events : List FeedEvent) : Feed (queue WorkJob) Int :=
  (start 512 (sampleWork 1) [] (sampleTemplate 1)).run sampleSuite sampleWire {}
    ((joins 0).map .serve ++ reaches (sampleTemplate 2) ++ events)

/-- The two tasks go on from the queue of the coalescer. -/
def refreshes : List FeedEvent :=
  [.coalesceReceive, .coalesceTimer, .coalesceSend, .take, .answer true, .cache,
    .publish]

/-- The change goes all the way to the miner. -/
def freshFeed : Feed (queue WorkJob) Int :=
  sampleFeed (refreshes ++ [.serve (.job 0)])

theorem fresh_work_sample :
    freshFeed.Idle ∧ freshFeed.template.templateId = 2 ∧
      ∃ m s reason work, freshFeed.serving.miners[0]? = some m ∧
        m.session = some s ∧
        refreshedJob sampleSuite freshFeed.template reason = some work ∧
        Serving.WorksOn sampleSuite freshFeed.serving m s work := by
  have hrun : freshFeed.Idle ∧ freshFeed.announced = true ∧
      freshFeed.failed = false ∧ freshFeed.template.templateId = 2 ∧
      ∃ m ∈ freshFeed.serving.miners[0]?, ∃ s ∈ m.session,
        s.isAuthorized = true ∧ (queue WorkJob).waiting freshFeed.serving.channel
          m.receiver = 0 := by decide +kernel
  obtain ⟨hidle, hannounced, hfailed, htemplate, m, hm, s, hs, hauthorized,
    hwaiting⟩ := hrun
  obtain ⟨reason, work, hwork, hworks⟩ := fresh_work (show 0 < 512 by decide)
    (sampleWork 1) [] (sampleTemplate 1) _ hidle hannounced hfailed 0 m hm s hs
    hauthorized hwaiting
  exact ⟨hidle, htemplate, m, s, reason, work, hm, hs, hwork, hworks⟩

/-- For every interleaving: by themselves the consumer and the coalescer take
at most `load` steps, and when they cannot take another one, they are idle or
wait for each other.  The second happens in some orders of events; it has no
end, and the miners get no new work. -/
theorem feed_drains (hsize : 0 < maxSize) (initial : WorkJob)
    (log : List AuthorizationEvent) (template : MiningTemplate) :
    (∀ events : List FeedEvent,
      let f : Feed B ν :=
        (start maxSize initial log template).run suite w config events
      (∀ more : List FeedEvent, Calls.Meets (Feed.step suite w config)
          (fun s e => e.isTask = true ∧ s.step suite w config e ≠ s) f more →
        more.length ≤ f.load) ∧
      (f.Stuck suite w config → f.Idle ∨ f.Deadlocked) ∧
      (f.Deadlocked → ∀ more : List FeedEvent,
        (f.run suite w config more).Deadlocked ∧
          (f.run suite w config more).serving.latest = f.serving.latest)) ∧
    ∃ events, ((start maxSize initial log template : Feed B ν).run suite w config
      events).Deadlocked := by
  refine ⟨fun events => ?_, exists_deadlocked suite w config maxSize initial log
    template⟩
  intro f
  refine ⟨?_, ?_, ?_⟩
  · have hfresh : f.Fresh suite maxSize := fresh_run hsize initial log template events
    intro more
    generalize f = s at hfresh
    induction more generalizing s with
    | nil => simp
    | cons e more ih =>
      rintro ⟨⟨htask, hchanges⟩, hrest⟩
      rcases step_moves suite w config s e with heq | hmove
      · exact absurd heq hchanges
      · have hless := hfresh.load_lt hmove htask
        have hlength := ih _ (hfresh.moves hsize hmove) hrest
        rw [List.length_cons]
        omega
  · exact (fresh_run hsize initial log template events).idle_or_deadlocked
  · exact fun h more => h.run suite w config more

/-- The change of the template is in the queue of the coalescer, and the tasks
take all the steps that it may still cause. -/
theorem feed_drains_sample :
    (sampleFeed []).load = 7 ∧ refreshes.length = 7 ∧
    Calls.Meets (Feed.step sampleSuite sampleWire {})
      (fun s e => e.isTask = true ∧ s.step sampleSuite sampleWire {} e ≠ s)
      (sampleFeed []) refreshes ∧
    refreshes.length ≤ (sampleFeed []).load := by
  have hdown : Calls.Meets (Feed.step sampleSuite sampleWire {})
      (fun s e => e.isTask = true ∧
        (s.step sampleSuite sampleWire {} e).load < s.load)
      (sampleFeed []) refreshes := by decide +kernel
  have hmeets : Calls.Meets (Feed.step sampleSuite sampleWire {})
      (fun s e => e.isTask = true ∧ s.step sampleSuite sampleWire {} e ≠ s)
      (sampleFeed []) refreshes :=
    hdown.imp (I := fun _ => True) (fun _ _ _ h =>
      ⟨⟨h.1, fun heq => h.2.ne (congrArg load heq)⟩, trivial⟩) trivial
  exact ⟨by decide +kernel, rfl, hmeets, ((feed_drains (show 0 < 512 by decide)
    (sampleWork 1) [] (sampleTemplate 1)).1 _).1 _ hmeets⟩

end Results

end StratumServer
