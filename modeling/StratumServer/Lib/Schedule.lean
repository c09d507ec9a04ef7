import StratumServer.Lib.Machine

/-!
# Runs that can be computed

A `Move` says which task goes on and how its operations are answered.
`play` carries a list of moves out on a configuration.  A list of moves
whose answers the machine allows gives a run of the machine, which
`Reach.play` states; so a concrete run is found by evaluation.  When all
turns of the runs satisfy a property, a schedule can check it at every turn
and does not get stuck: `Turns.play`.
-/

namespace Tasks

variable {Task Work σ Op : Type} {Res : Op → Type}

/-- One stretch of a schedule. -/
inductive Move (Task Work σ Op : Type) (Res : Op → Type)
  /-- Task `t` performs up to `n` operations, answered by `answer`. -/
  | run (t : Task) (n : Nat) (answer : (o : Op) → σ → Option (Res o × σ))
  /-- Task `t` begins the work `w`. -/
  | begin (t : Task) (w : Work) (go : σ → Option (Prog Op Res Unit × σ))
  | env (f : σ → Option σ)
  | crash (f : σ → Option σ)

/-- The answers of a move are ones that the machine allows. -/
def Move.Sound (M : Machine Task Work σ Op Res) : Move Task Work σ Op Res → Prop
  | .run _ _ answer => ∀ o s r s', answer o s = some (r, s') → M.sem o s r s'
  | .begin t w go => ∀ s p s', go s = some (p, s') → M.start t w s p s'
  | .env f => ∀ s s', f s = some s' → M.env s s'
  | .crash f => ∀ s s', f s = some s' → M.crash s s'

/-- A move that is not one of task `t` and does not restart it. -/
def Move.Leaves (t : Task) : Move Task Work σ Op Res → Prop
  | .run u _ _ => t ≠ u
  | .begin u _ _ => t ≠ u
  | .env _ => True
  | .crash _ => False

namespace Machine

variable [DecidableEq Task]

/-- Task `t` performs up to `n` operations.  Every turn has to pass
`check`. -/
def runTask (check : World Task Work σ Op Res → Entry Task Work Op Res → Bool)
    (answer : (o : Op) → σ → Option (Res o × σ)) (t : Task) :
    Nat → Config Task Work σ Op Res → Option (Config Task Work σ Op Res)
  | 0, c => some c
  | n + 1, c =>
    match c.task t with
    | .ret _ => some c
    | .act o k =>
      match answer o c.world.shared with
      | none => none
      | some (r, s') =>
        if check c.world (.did t o r) then
          runTask check answer t n
            ⟨c.world.after s' (.did t o r), setTask c.task t (k r)⟩
        else none

/-- One move. -/
def playMove (M : Machine Task Work σ Op Res)
    (check : World Task Work σ Op Res → Entry Task Work Op Res → Bool)
    (c : Config Task Work σ Op Res) :
    Move Task Work σ Op Res → Option (Config Task Work σ Op Res)
  | .run t n answer => runTask check answer t n c
  | .begin t w go =>
    match c.task t, go c.world.shared with
    | .ret _, some (p, s') =>
      if check c.world (.began t w) then
        some ⟨c.world.after s' (.began t w), setTask c.task t p⟩
      else none
    | _, _ => none
  | .env f =>
    match f c.world.shared with
    | some s' =>
      if check c.world .env then some ⟨c.world.after s' .env, c.task⟩ else none
    | none => none
  | .crash f =>
    match f c.world.shared with
    | some s' =>
      if check c.world .crashed then
        some ⟨c.world.after s' .crashed, M.boot⟩
      else none
    | none => none

/-- The moves of a schedule, one after the other. -/
def play (M : Machine Task Work σ Op Res)
    (check : World Task Work σ Op Res → Entry Task Work Op Res → Bool) :
    List (Move Task Work σ Op Res) → Config Task Work σ Op Res →
      Option (Config Task Work σ Op Res)
  | [], c => some c
  | m :: ms, c => (playMove M check c m).bind (play M check ms)

/-! ## The tasks that a schedule leaves alone -/

section Leaves

variable {M : Machine Task Work σ Op Res}
  {check : World Task Work σ Op Res → Entry Task Work Op Res → Bool}
  {t : Task}

theorem runTask_task {answer : (o : Op) → σ → Option (Res o × σ)} {u : Task}
    (htu : t ≠ u) {n : Nat} {c c' : Config Task Work σ Op Res}
    (h : runTask check answer u n c = some c') : c'.task t = c.task t := by
  induction n generalizing c with
  | zero =>
    cases h
    rfl
  | succ n ih =>
    unfold runTask at h
    split at h
    · cases h
      rfl
    · split at h
      · cases h
      · split at h
        · rw [ih h]
          exact setTask_of_ne _ _ htu
        · cases h

theorem playMove_task {m : Move Task Work σ Op Res} (hm : m.Leaves t)
    {c c' : Config Task Work σ Op Res} (h : playMove M check c m = some c') :
    c'.task t = c.task t := by
  cases m with
  | run u n answer => exact runTask_task hm h
  | begin u w go =>
    simp only [playMove] at h
    split at h
    · split at h
      · cases h
        exact setTask_of_ne _ _ hm
      · cases h
    · cases h
  | env f =>
    simp only [playMove] at h
    split at h
    · split at h
      · cases h
        rfl
      · cases h
    · cases h
  | crash f => exact hm.elim

theorem play_task {ms : List (Move Task Work σ Op Res)}
    (hms : ∀ m ∈ ms, m.Leaves t) {c c' : Config Task Work σ Op Res}
    (h : play M check ms c = some c') : c'.task t = c.task t := by
  induction ms generalizing c with
  | nil =>
    cases h
    rfl
  | cons m ms ih =>
    obtain ⟨c₁, hm, hrest⟩ := Option.bind_eq_some_iff.1 h
    rw [ih (fun m' hm' => hms m' (List.mem_cons_of_mem _ hm')) hrest]
    exact playMove_task (hms m List.mem_cons_self) hm

end Leaves

/-! ## What a schedule passes through -/

section Passes

variable {M : Machine Task Work σ Op Res}
  {check check' : World Task Work σ Op Res → Entry Task Work Op Res → Bool}
  {I : Config Task Work σ Op Res → Prop}
  (hstep : ∀ {c c' : Config Task Work σ Op Res} {e : Entry Task Work Op Res},
    I c → check c.world e = true → M.Step c e c' →
      check' c.world e = true ∧ I c')

include hstep

theorem runTask_passes {answer : (o : Op) → σ → Option (Res o × σ)} {t : Task}
    (hsound : ∀ o s r s', answer o s = some (r, s') → M.sem o s r s') {n : Nat}
    {c c' : Config Task Work σ Op Res} (hI : I c)
    (hrun : runTask check answer t n c = some c') :
    runTask check' answer t n c = some c' ∧ I c' := by
  induction n generalizing c with
  | zero =>
    cases hrun
    exact ⟨rfl, hI⟩
  | succ n ih =>
    unfold runTask at hrun ⊢
    split at hrun
    · cases hrun
      exact ⟨by simp_all, hI⟩
    · rename_i o k htask
      split at hrun
      · cases hrun
      · rename_i r s' hans
        split at hrun
        · rename_i hcheck
          obtain ⟨hcheck', hI'⟩ :=
            hstep hI hcheck (.exec htask (hsound _ _ _ _ hans))
          simp only [hcheck', if_true]
          exact ih hI' hrun
        · cases hrun

theorem playMove_passes {m : Move Task Work σ Op Res} (hm : m.Sound M)
    {c c' : Config Task Work σ Op Res} (hI : I c)
    (hplay : playMove M check c m = some c') :
    playMove M check' c m = some c' ∧ I c' := by
  cases m with
  | run t n answer => exact runTask_passes hstep hm hI hplay
  | begin t w go =>
    simp only [playMove] at hplay ⊢
    split at hplay
    · rename_i p s' htask hgo
      split at hplay
      · rename_i hcheck
        cases hplay
        obtain ⟨hcheck', hI'⟩ :=
          hstep hI hcheck (.begin htask (hm _ _ _ hgo))
        simp only [hcheck', if_true]
        exact ⟨trivial, hI'⟩
      · cases hplay
    · cases hplay
  | env f =>
    simp only [playMove] at hplay ⊢
    split at hplay
    · rename_i s' hf
      split at hplay
      · rename_i hcheck
        cases hplay
        obtain ⟨hcheck', hI'⟩ := hstep hI hcheck (.env (hm _ _ hf))
        simp only [hcheck', if_true]
        exact ⟨trivial, hI'⟩
      · cases hplay
    · cases hplay
  | crash f =>
    simp only [playMove] at hplay ⊢
    split at hplay
    · rename_i s' hf
      split at hplay
      · rename_i hcheck
        cases hplay
        obtain ⟨hcheck', hI'⟩ := hstep hI hcheck (.crash (hm _ _ hf))
        simp only [hcheck', if_true]
        exact ⟨trivial, hI'⟩
      · cases hplay
    · cases hplay

/-- A schedule that passes one check passes another one that every turn
meets, and ends in the same configuration. -/
theorem play_passes {ms : List (Move Task Work σ Op Res)}
    (hms : ∀ m ∈ ms, m.Sound M) {c c' : Config Task Work σ Op Res} (hI : I c)
    (hplay : play M check ms c = some c') :
    play M check' ms c = some c' ∧ I c' := by
  induction ms generalizing c with
  | nil =>
    cases hplay
    exact ⟨rfl, hI⟩
  | cons m ms ih =>
    simp only [play, Option.bind_eq_some_iff] at hplay ⊢
    obtain ⟨c₁, hm, hrest⟩ := hplay
    obtain ⟨hm', hI₁⟩ :=
      playMove_passes hstep (hms m List.mem_cons_self) hI hm
    obtain ⟨hrest', hI'⟩ :=
      ih (fun m' hm' => hms m' (List.mem_cons_of_mem _ hm')) hI₁ hrest
    exact ⟨⟨c₁, hm', hrest'⟩, hI'⟩

end Passes

variable {M : Machine Task Work σ Op Res}
  {check : World Task Work σ Op Res → Entry Task Work Op Res → Bool}
  {ok P : World Task Work σ Op Res → Entry Task Work Op Res → Prop}

/-- A schedule with allowed answers gives a run. -/
theorem Reach.play {ms : List (Move Task Work σ Op Res)}
    (hms : ∀ m ∈ ms, m.Sound M) (hcheck : ∀ w e, check w e = true → ok w e)
    {c c' : Config Task Work σ Op Res} (h : Reach M ok c)
    (hplay : play M check ms c = some c') : Reach M ok c' := by
  have hpass : Machine.play M check ms c = some c' ∧ Reach M ok c' :=
    play_passes (fun hc hok hstep => ⟨hok, hc.step (hcheck _ _ hok) hstep⟩)
      hms h hplay
  exact hpass.2

theorem Leads.play {ms : List (Move Task Work σ Op Res)}
    (hms : ∀ m ∈ ms, m.Sound M) (hcheck : ∀ w e, check w e = true → ok w e)
    {c c' : Config Task Work σ Op Res}
    (hplay : play M check ms c = some c') : Leads M ok c c' := by
  have hpass : Machine.play M check ms c = some c' ∧ Leads M ok c c' := by
    refine play_passes (fun hc hok hstep => ⟨hok, ?_⟩) hms .refl hplay
    exact Relation.ReflTransGen.tail hc ⟨_, hcheck _ _ hok, hstep⟩
  exact hpass.2

/-- A schedule passes a check that all turns meet. -/
theorem Turns.play [∀ w e, Decidable (P w e)] (hP : M.Turns ok P)
    {ms : List (Move Task Work σ Op Res)} (hms : ∀ m ∈ ms, m.Sound M)
    (hcheck : ∀ w e, check w e = true → ok w e)
    {c c' : Config Task Work σ Op Res} (h : Reach M ok c)
    (hplay : play M check ms c = some c') :
    Machine.play M (fun w e => check w e && decide (P w e)) ms c =
      some c' := by
  refine (play_passes ?_ hms h hplay).1
  intro c c' e hc hok hstep
  refine ⟨?_, hc.step (hcheck _ _ hok) hstep⟩
  simp [hok, hP hc (hcheck _ _ hok) hstep]

end Machine

end Tasks
