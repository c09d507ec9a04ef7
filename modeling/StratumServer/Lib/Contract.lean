import StratumServer.Lib.Machine

/-!
# Rely-guarantee reasoning about machines

A `Contract` names what a proof about the runs of a machine uses: the turns
that count (`ok`), an invariant, what each task may rely on while the others
move, what every operation is shown to satisfy when it is performed
(`guar`), and what holds when a task is idle (`post`).

There are two groups.

* Programs.  `wp C t p Q w` says that task `t` may run `p` from the world
  `w`: whenever it is its turn, after the others have moved as `C.rely`
  allows, its operation meets the guarantee, and in the end `Q` holds.  The
  rules follow the shape of a program.  `Safe J` is for the programs that
  keep the knowledge `J`.
* Machines.  `Valid` collects the obligations, one for each kind of turn.
  The programs only have to meet the guarantee; that a guaranteed operation
  keeps the invariant and is one that the others can rely on is shown once
  for all programs.  `Valid.reach` gives the invariant in every
  configuration of a run, and `Valid.turns` the guarantee at every turn, so
  that another contract can build on it.
-/

namespace Tasks

variable {Task Work σ Op : Type} {Res : Op → Type}

/-- What a proof about the runs of a machine uses. -/
structure Contract (M : Machine Task Work σ Op Res) where
  ok : World Task Work σ Op Res → Entry Task Work Op Res → Prop
  inv : World Task Work σ Op Res → Prop
  rely : Task → World Task Work σ Op Res → World Task Work σ Op Res → Prop
  guar : World Task Work σ Op Res → (t : Task) → (o : Op) → Res o → Prop
  post : Task → World Task Work σ Op Res → Prop

namespace Contract

variable {M : Machine Task Work σ Op Res} (C : Contract M) (t : Task)
  {α β γ δ ε : Type}

/-! ## Running a program -/

/-- Task `t` may run `p` from `w`, and then `Q` holds. -/
def wp : Prog Op Res α → (α → World Task Work σ Op Res → Prop) →
    World Task Work σ Op Res → Prop
  | .ret a, Q, w => ∀ w', C.rely t w w' → C.inv w' → Q a w'
  | .act o k, Q, w => ∀ w', C.rely t w w' → C.inv w' →
    ∀ r s', M.sem o w'.shared r s' → C.ok w' (.did t o r) →
      C.guar w' t o r ∧ wp (k r) Q (w'.after s' (.did t o r))

variable {C t}

theorem wp_mono {p : Prog Op Res α}
    {Q Q' : α → World Task Work σ Op Res → Prop}
    {w : World Task Work σ Op Res} (hQ : ∀ a w, C.inv w → Q a w → Q' a w)
    (h : C.wp t p Q w) : C.wp t p Q' w := by
  induction p generalizing w with
  | ret a => exact fun w' hrely hinv => hQ a w' hinv (h w' hrely hinv)
  | act o k ih =>
    intro w' hrely hinv r s' hsem hok
    obtain ⟨hguar, hk⟩ := h w' hrely hinv r s' hsem hok
    exact ⟨hguar, ih r hk⟩

/-- The others may move before a program starts. -/
theorem wp_of_rely (htrans : ∀ w₁ w₂ w₃, C.rely t w₁ w₂ → C.rely t w₂ w₃ →
      C.rely t w₁ w₃) {p : Prog Op Res α}
    {Q : α → World Task Work σ Op Res → Prop}
    {w w' : World Task Work σ Op Res} (hrely : C.rely t w w')
    (h : C.wp t p Q w) : C.wp t p Q w' := by
  cases p with
  | ret a => exact fun w'' hrely' hinv => h w'' (htrans _ _ _ hrely hrely') hinv
  | act o k =>
    exact fun w'' hrely' hinv => h w'' (htrans _ _ _ hrely hrely') hinv

theorem wp_perform {o : Op} {Q : Res o → World Task Work σ Op Res → Prop}
    {w : World Task Work σ Op Res}
    (h : ∀ w', C.rely t w w' → C.inv w' → ∀ r s', M.sem o w'.shared r s' →
      C.ok w' (.did t o r) → C.guar w' t o r ∧
        ∀ w'', C.rely t (w'.after s' (.did t o r)) w'' → C.inv w'' → Q r w'') :
    C.wp t (Prog.perform o : Prog Op Res (Res o)) Q w :=
  h

section Rules

variable (hrefl : ∀ w, C.rely t w w)

include hrefl

theorem wp_bind {p : Prog Op Res α} {f : α → Prog Op Res β}
    {Q : β → World Task Work σ Op Res → Prop}
    {w : World Task Work σ Op Res}
    (h : C.wp t p (fun a => C.wp t (f a) Q) w) : C.wp t (p >>= f) Q w := by
  induction p generalizing w with
  | ret a =>
    change C.wp t (f a) Q w
    -- The others may move before `f a`, which `h` has allowed for.
    cases hf : f a with
    | ret b =>
      intro w' hrely hinv
      have hret : C.wp t (f a) Q w' := h w' hrely hinv
      rw [hf] at hret
      exact hret w' (hrefl w') hinv
    | act o k =>
      intro w' hrely hinv
      have hact : C.wp t (f a) Q w' := h w' hrely hinv
      rw [hf] at hact
      exact hact w' (hrefl w') hinv
  | act o k ih =>
    intro w' hrely hinv r s' hsem hok
    obtain ⟨hguar, hk⟩ := h w' hrely hinv r s' hsem hok
    exact ⟨hguar, ih r hk⟩

/-! ### Fallible programs -/

theorem wp_exceptBind {p : ExceptT ε (Prog Op Res) α}
    {f : α → ExceptT ε (Prog Op Res) β}
    {Q : Except ε β → World Task Work σ Op Res → Prop}
    {w : World Task Work σ Op Res}
    (h : C.wp t p.run (fun r w' => match r with
      | .ok a => C.wp t (f a).run Q w'
      | .error e => C.wp t (pure (.error e)) Q w') w) :
    C.wp t (p >>= f).run Q w := by
  rw [ExceptT.run_bind]
  refine wp_bind hrefl (wp_mono ?_ h)
  intro r w' _ hr
  cases r with
  | ok a => exact hr
  | error e => exact hr

theorem wp_exceptForM {l : List γ} {f : γ → ExceptT ε (Prog Op Res) PUnit}
    {Q : Except ε PUnit → World Task Work σ Op Res → Prop}
    (J : List γ → World Task Work σ Op Res → Prop)
    (hstable : ∀ {l w w'}, J l w → C.rely t w w' → J l w')
    (hbody : ∀ a l w, J (a :: l) w → C.wp t (f a).run
      (fun r w' => match r with
        | .ok _ => J l w'
        | .error e => C.wp t (pure (.error e)) Q w') w)
    (hend : ∀ w, C.inv w → J [] w → Q (.ok ⟨⟩) w)
    {w : World Task Work σ Op Res} (h : J l w) :
    C.wp t (l.forM f).run Q w := by
  induction l generalizing w with
  | nil => exact fun w' hrely hinv' => hend w' hinv' (hstable h hrely)
  | cons a l ih =>
    refine wp_exceptBind hrefl (wp_mono ?_ (hbody a l w h))
    intro r w' _ hr
    cases r with
    | ok _ => exact ih hr
    | error e => exact hr

end Rules

/-- The rule for a task whose operations meet the guarantee wherever they
stand. -/
theorem wp_of_guar {Q : α → World Task Work σ Op Res → Prop}
    (hop : ∀ {w o r s'}, C.inv w → M.sem o w.shared r s' →
      C.ok w (.did t o r) → C.guar w t o r)
    (hQ : ∀ a w, C.inv w → Q a w) (p : Prog Op Res α)
    (w : World Task Work σ Op Res) : C.wp t p Q w := by
  induction p generalizing w with
  | ret a => exact fun w' _ hinv => hQ a w' hinv
  | act o k ih =>
    intro w' _ hinv r s' hsem hok
    exact ⟨hop hinv hsem hok, ih r _⟩

/-! ### Programs that keep what is known -/

variable (C t)

/-- From any world in which `J` holds, task `t` may run `p`, and then `J`
holds again. -/
def Safe (J : World Task Work σ Op Res → Prop) (p : Prog Op Res α) : Prop :=
  ∀ w, J w → C.wp t p (fun _ => J) w

/-- The other tasks keep `J`. -/
structure Stable (J : World Task Work σ Op Res → Prop) : Prop where
  refl : ∀ w, C.rely t w w
  rely : ∀ {w w'}, C.rely t w w' → C.inv w' → J w → J w'

variable {C t} {J : World Task Work σ Op Res → Prop}

/-- What is known in addition at the start need not be kept. -/
theorem Safe.forget {K : World Task Work σ Op Res → Prop}
    {p : Prog Op Res α} (hp : C.Safe t (fun w => J w ∧ K w) p)
    (w : World Task Work σ Op Res) (hJ : J w) (hK : K w) :
    C.wp t p (fun _ => J) w :=
  wp_mono (fun _ _ _ h => h.1) (hp w ⟨hJ, hK⟩)

section SafeRules

variable (hJ : C.Stable t J)

include hJ

theorem safe_pure (a : α) : C.Safe t J (pure a : Prog Op Res α) :=
  fun _ h _ hrely hinv => hJ.rely hrely hinv h

theorem safe_perform {o : Op} (h : ∀ w r s', J w → C.inv w →
      M.sem o w.shared r s' → C.ok w (.did t o r) →
        C.guar w t o r ∧ J (w.after s' (.did t o r))) :
    C.Safe t J (Prog.perform o : Prog Op Res (Res o)) := by
  intro w hw w' hrely hinv r s' hsem hok
  obtain ⟨hguar, hafter⟩ := h w' r s' (hJ.rely hrely hinv hw) hinv hsem hok
  exact ⟨hguar, fun _ hrely' hinv' => hJ.rely hrely' hinv' hafter⟩

theorem Safe.bind {p : Prog Op Res α} {f : α → Prog Op Res β}
    (hp : C.Safe t J p) (hf : ∀ a, C.Safe t J (f a)) : C.Safe t J (p >>= f) :=
  fun w hw => wp_bind hJ.refl (wp_mono (fun a w' _ => hf a w') (hp w hw))

theorem safe_forM {l : List γ} {f : γ → Prog Op Res PUnit}
    (hf : ∀ a ∈ l, C.Safe t J (f a)) : C.Safe t J (l.forM f) := by
  induction l with
  | nil => exact safe_pure hJ _
  | cons a l ih =>
    exact (hf a List.mem_cons_self).bind hJ fun _ =>
      ih fun b hb => hf b (List.mem_cons_of_mem a hb)

theorem safe_exceptBind {p : ExceptT ε (Prog Op Res) α}
    {f : α → ExceptT ε (Prog Op Res) β} (hp : C.Safe t J p.run)
    (hf : ∀ a, C.Safe t J (f a).run) : C.Safe t J (p >>= f).run := by
  rw [ExceptT.run_bind]
  refine hp.bind hJ fun r => ?_
  cases r with
  | ok a => exact hf a
  | error e => exact safe_pure hJ _

theorem safe_exceptFoldlM {l : List γ} {b : δ}
    {f : δ → γ → ExceptT ε (Prog Op Res) δ}
    (hf : ∀ b a, C.Safe t J (f b a).run) : C.Safe t J (l.foldlM f b).run := by
  induction l generalizing b with
  | nil => exact safe_pure hJ _
  | cons a l ih => exact safe_exceptBind hJ (hf b a) fun _ => ih

end SafeRules

/-! ## Running a machine -/

variable (C)

/-- The obligations of a contract. -/
structure Valid : Prop where
  refl : ∀ t w, C.rely t w w
  trans : ∀ t w₁ w₂ w₃, C.rely t w₁ w₂ → C.rely t w₂ w₃ → C.rely t w₁ w₃
  init : ∀ s, M.init s → C.inv ⟨s, []⟩
  boot : ∀ t w, C.inv w → (w.log = [] ∨ ∃ l, w.log = .crashed :: l) →
    C.wp t (M.boot t) (fun _ => C.post t) w
  /-- A guaranteed operation keeps the invariant. -/
  keeps : ∀ {w t o r s'}, C.inv w → M.sem o w.shared r s' →
    C.ok w (.did t o r) → C.guar w t o r → C.inv (w.after s' (.did t o r))
  /-- A guaranteed operation is one that the other tasks can rely on. -/
  others : ∀ {w t o r s' u}, C.inv w → M.sem o w.shared r s' →
    C.ok w (.did t o r) → C.guar w t o r → u ≠ t →
      C.rely u w (w.after s' (.did t o r))
  began : ∀ {w t k p s'}, C.inv w → C.post t w → M.start t k w.shared p s' →
    C.ok w (.began t k) → C.inv (w.after s' (.began t k)) ∧
      (∀ u, u ≠ t → C.rely u w (w.after s' (.began t k))) ∧
      C.wp t p (fun _ => C.post t) (w.after s' (.began t k))
  env : ∀ {w s'}, C.inv w → M.env w.shared s' → C.ok w .env →
    C.inv (w.after s' .env) ∧ ∀ u, C.rely u w (w.after s' .env)
  crash : ∀ {w s'}, C.inv w → M.crash w.shared s' → C.ok w .crashed →
    C.inv (w.after s' .crashed)

/-- What a configuration of a run satisfies. -/
def Holds (c : Config Task Work σ Op Res) : Prop :=
  C.inv c.world ∧ ∀ t, C.wp t (c.task t) (fun _ => C.post t) c.world

/-- What a turn is known to satisfy: the invariant before it, and the
guarantee if it is an operation. -/
def Known (w : World Task Work σ Op Res) (e : Entry Task Work Op Res) : Prop :=
  C.inv w ∧ match e with
    | .did t o r => C.guar w t o r
    | _ => True

variable {C} [DecidableEq Task] {c c' : Config Task Work σ Op Res}

theorem Valid.known (hC : C.Valid) {e : Entry Task Work Op Res}
    (h : C.Holds c) (hok : C.ok c.world e) (hstep : M.Step c e c') :
    C.Known c.world e := by
  obtain ⟨hinv, hwp⟩ := h
  refine ⟨hinv, ?_⟩
  cases hstep with
  | @exec t o k r s' htask hsem =>
    have hact := hwp t
    rw [htask] at hact
    exact (hact _ (hC.refl _ _) hinv r s' hsem hok).1
  | _ => trivial

theorem Valid.step (hC : C.Valid) {e : Entry Task Work Op Res}
    (h : C.Holds c) (hok : C.ok c.world e) (hstep : M.Step c e c') :
    C.Holds c' := by
  obtain ⟨hinv, hwp⟩ := h
  cases hstep with
  | @exec t o k r s' htask hsem =>
    have hact := hwp t
    rw [htask] at hact
    obtain ⟨hguar, hk⟩ := hact _ (hC.refl _ _) hinv r s' hsem hok
    refine ⟨hC.keeps hinv hsem hok hguar, fun u => ?_⟩
    by_cases hu : u = t
    · subst hu
      simpa using hk
    · simpa [Machine.setTask_of_ne _ _ hu] using
        wp_of_rely (hC.trans u) (hC.others hinv hsem hok hguar hu) (hwp u)
  | @begin t k p s' htask hstart =>
    have hidle := hwp t
    rw [htask] at hidle
    have hpost := hidle _ (hC.refl _ _) hinv
    obtain ⟨hinv', hrely, hp⟩ := hC.began hinv hpost hstart hok
    refine ⟨hinv', fun u => ?_⟩
    by_cases hu : u = t
    · subst hu
      simpa using hp
    · simpa [Machine.setTask_of_ne _ _ hu] using
        wp_of_rely (hC.trans u) (hrely u hu) (hwp u)
  | env henv =>
    obtain ⟨hinv', hrely⟩ := hC.env hinv henv hok
    exact ⟨hinv', fun u => wp_of_rely (hC.trans u) (hrely u) (hwp u)⟩
  | crash hcrash =>
    have hinv' := hC.crash hinv hcrash hok
    exact ⟨hinv', fun u => hC.boot u _ hinv' (Or.inr ⟨_, rfl⟩)⟩

/-- The invariant holds in every configuration of a run, and what is left of
each program can be run. -/
theorem Valid.reach (hC : C.Valid) (h : M.Reach C.ok c) : C.Holds c := by
  induction h with
  | init hs =>
    have hinv := hC.init _ hs
    exact ⟨hinv, fun t => hC.boot t _ hinv (Or.inl rfl)⟩
  | step _ hok hstep ih => exact hC.step ih hok hstep

/-- The turns of a run are known to a valid contract. -/
theorem Valid.turns (hC : C.Valid) : M.Turns C.ok C.Known :=
  fun _ _ _ h hok hstep => hC.known (hC.reach h) hok hstep

end Contract

end Tasks
