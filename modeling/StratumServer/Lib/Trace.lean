import StratumServer.Lib.Machine

/-!
# The paths of a program

`Prog.Paths G E p done` says what `p` does, whatever it is answered, when
`done` is what its task has done before in its current piece of work.  Each
operation meets `G`, which may speak about what was done before it, and at
the end `E` holds.  The shared state does not come in, so neither do the
other tasks.

There are two groups.

* The rules for programs follow their shape.  `Keeps G J` is for the
  programs that meet `G` and keep a property `J` of what was done.  `Only P`
  is for the programs whose operations all satisfy `P`.
* The machine.  When the programs of a machine take such paths, then so does
  every task in every run: `turns_follow`.
-/

namespace Tasks

variable {Op : Type} {Res : Op → Type} {α β γ δ ε : Type}

namespace Prog

/-! ## The rules for programs -/

/-- Whatever it is answered, `p` performs operations that meet `G`, and in
the end `E` holds. -/
def Paths (G : List ((o : Op) × Res o) → Op → Prop)
    (E : α → List ((o : Op) × Res o) → Prop) :
    Prog Op Res α → List ((o : Op) × Res o) → Prop
  | .ret a, done => E a done
  | .act o k, done => G done o ∧ ∀ r, (k r).Paths G E (⟨o, r⟩ :: done)

variable {G : List ((o : Op) × Res o) → Op → Prop}
  {done : List ((o : Op) × Res o)}

theorem paths_mono {E E' : α → List ((o : Op) × Res o) → Prop}
    (hE : ∀ a done, E a done → E' a done) {p : Prog Op Res α}
    (h : p.Paths G E done) : p.Paths G E' done := by
  induction p generalizing done with
  | ret a => exact hE a done h
  | act o k ih => exact ⟨h.1, fun r => ih r (h.2 r)⟩

theorem paths_imp {G' : List ((o : Op) × Res o) → Op → Prop}
    {E : α → List ((o : Op) × Res o) → Prop}
    (hG : ∀ done o, G done o → G' done o) {p : Prog Op Res α}
    (h : p.Paths G E done) : p.Paths G' E done := by
  induction p generalizing done with
  | ret a => exact h
  | act o k ih => exact ⟨hG done o h.1, fun r => ih r (h.2 r)⟩

theorem paths_perform {o : Op} {E : Res o → List ((o : Op) × Res o) → Prop}
    (hG : G done o) (hE : ∀ r, E r (⟨o, r⟩ :: done)) :
    (perform o).Paths G E done :=
  ⟨hG, hE⟩

theorem paths_bind {E : β → List ((o : Op) × Res o) → Prop}
    {p : Prog Op Res α} {f : α → Prog Op Res β}
    (h : p.Paths G (fun a => (f a).Paths G E) done) :
    (p >>= f).Paths G E done := by
  induction p generalizing done with
  | ret a => exact h
  | act o k ih => exact ⟨h.1, fun r => ih r (h.2 r)⟩

/-- Nothing has to be shown when `G` and `E` say nothing. -/
theorem paths_of_forall {E : α → List ((o : Op) × Res o) → Prop}
    (hG : ∀ done o, G done o) (hE : ∀ a done, E a done) (p : Prog Op Res α)
    (done : List ((o : Op) × Res o)) : p.Paths G E done := by
  induction p generalizing done with
  | ret a => exact hE a done
  | act o k ih => exact ⟨hG done o, fun r => ih r _⟩

/-- What was done before stays done. -/
theorem paths_earlier {E : α → List ((o : Op) × Res o) → Prop}
    {p : Prog Op Res α} (h : p.Paths G E done) :
    p.Paths G (fun a later => E a later ∧ ∀ x ∈ done, x ∈ later) done := by
  induction p generalizing done with
  | ret a => exact ⟨h, fun _ hx => hx⟩
  | act o k ih =>
    refine ⟨h.1, fun r => paths_mono ?_ (ih r (h.2 r))⟩
    rintro a later ⟨hE, hmem⟩
    exact ⟨hE, fun x hx => hmem x (List.mem_cons_of_mem _ hx)⟩

theorem paths_exceptBind {E : Except ε β → List ((o : Op) × Res o) → Prop}
    {p : ExceptT ε (Prog Op Res) α} {f : α → ExceptT ε (Prog Op Res) β}
    (h : p.run.Paths G (fun r done => match r with
      | .ok a => (f a).run.Paths G E done
      | .error e => E (.error e) done) done) :
    (p >>= f).run.Paths G E done := by
  rw [ExceptT.run_bind]
  refine paths_bind (paths_mono ?_ h)
  intro r done hr
  cases r with
  | ok a => exact hr
  | error e => exact hr

/-- A loop takes one element after the other from its list. -/
theorem paths_forM {I : List γ → List ((o : Op) × Res o) → Prop}
    {f : γ → Prog Op Res PUnit}
    (hf : ∀ a l done, I (a :: l) done → (f a).Paths G (fun _ => I l) done)
    {l : List γ} (h : I l done) : (l.forM f).Paths G (fun _ => I []) done := by
  induction l generalizing done with
  | nil => exact h
  | cons a l ih =>
    exact paths_bind (paths_mono (fun _ _ hl => ih hl) (hf a l done h))

/-- A loop with an accumulator that may end early. -/
theorem paths_exceptFoldlM {I : δ → List ((o : Op) × Res o) → Prop}
    {E : ε → List ((o : Op) × Res o) → Prop} {l : List γ}
    {f : δ → γ → ExceptT ε (Prog Op Res) δ}
    (hf : ∀ b, ∀ a ∈ l, ∀ done, I b done →
      (f b a).run.Paths G (fun r done => match r with
        | .ok b' => I b' done
        | .error e => E e done) done)
    {b : δ} (h : I b done) :
    (l.foldlM f b).run.Paths G (fun r done => match r with
      | .ok b' => I b' done
      | .error e => E e done) done := by
  induction l generalizing b done with
  | nil => exact h
  | cons a l ih =>
    refine paths_exceptBind (paths_mono ?_ (hf b a List.mem_cons_self done h))
    intro r done hr
    cases r with
    | ok b' => exact ih (fun b x hx => hf b x (List.mem_cons_of_mem a hx)) hr
    | error e => exact hr

/-! ### Paths under an assumption about the answers -/

section Assuming

variable {K : (o : Op) × Res o → Prop}
  {E : α → List ((o : Op) × Res o) → Prop}

/-- Nothing has to be shown after an answer that was not assumed. -/
theorem paths_of_not {x : (o : Op) × Res o} (hx : x ∈ done) (hK : ¬ K x)
    (p : Prog Op Res α) :
    p.Paths (fun done o => (∀ x ∈ done, K x) → G done o)
      (fun a done => (∀ x ∈ done, K x) → E a done) done := by
  induction p generalizing done with
  | ret a => exact fun hall => absurd (hall x hx) hK
  | act o k ih =>
    exact ⟨fun hall => absurd (hall x hx) hK,
      fun r => ih r (List.mem_cons_of_mem _ hx)⟩

/-- One operation, and what is assumed of its answer. -/
theorem paths_assuming {o : Op} {k : Res o → Prog Op Res α}
    (hG : (∀ x ∈ done, K x) → G done o)
    (hk : ∀ r, K ⟨o, r⟩ → (k r).Paths
      (fun done o => (∀ x ∈ done, K x) → G done o)
      (fun a done => (∀ x ∈ done, K x) → E a done) (⟨o, r⟩ :: done)) :
    (act o k).Paths (fun done o => (∀ x ∈ done, K x) → G done o)
      (fun a done => (∀ x ∈ done, K x) → E a done) done := by
  refine ⟨hG, fun r => ?_⟩
  by_cases hr : K ⟨o, r⟩
  · exact hk r hr
  · exact paths_of_not List.mem_cons_self hr (k r)

end Assuming

/-! ### What a program returns -/

/-- What `p` returns when its operations are answered like that, the oldest
answer first; nothing when `p` does not end there. -/
def value [DecidableEq Op] :
    Prog Op Res α → List ((o : Op) × Res o) → Option α
  | .ret a, [] => some a
  | .act o k, ⟨o', r⟩ :: later =>
    if h : o' = o then (k (h ▸ r)).value later else none
  | .ret _, _ :: _ => none
  | .act _ _, [] => none

theorem paths_value [DecidableEq Op] {E : α → List ((o : Op) × Res o) → Prop}
    {p : Prog Op Res α} (h : p.Paths G E done)
    {later : List ((o : Op) × Res o)} {a : α} (ha : p.value later = some a) :
    E a (later.reverse ++ done) := by
  induction p generalizing done later with
  | ret a' =>
    cases later with
    | nil =>
      cases ha
      exact h
    | cons x later => cases ha
  | act o k ih =>
    cases later with
    | nil => cases ha
    | cons x later =>
      obtain ⟨o', r⟩ := x
      simp only [value] at ha
      split at ha
      · rename_i heq
        subst heq
        have htail := ih r (h.2 r) ha
        rw [List.reverse_cons, List.append_assoc]
        exact htail
      · cases ha

/-! ### Programs that keep a property -/

/-- Whatever was done before with the property `J`, `p` meets `G` and keeps
`J`. -/
def Keeps (G : List ((o : Op) × Res o) → Op → Prop)
    (J : List ((o : Op) × Res o) → Prop) (p : Prog Op Res α) : Prop :=
  ∀ done, J done → p.Paths G (fun _ => J) done

variable {J : List ((o : Op) × Res o) → Prop}

theorem keeps_pure (a : α) : Keeps G J (pure a : Prog Op Res α) :=
  fun _ h => h

theorem keeps_perform {o : Op} (h : ∀ done, J done → G done o ∧
    ∀ r, J (⟨o, r⟩ :: done)) : Keeps G J (perform o : Prog Op Res (Res o)) :=
  h

theorem Keeps.bind {p : Prog Op Res α} {f : α → Prog Op Res β}
    (hp : Keeps G J p) (hf : ∀ a, Keeps G J (f a)) : Keeps G J (p >>= f) :=
  fun done h => paths_bind (paths_mono (fun a done => hf a done) (hp done h))

theorem Keeps.exceptBind {p : ExceptT ε (Prog Op Res) α}
    {f : α → ExceptT ε (Prog Op Res) β} (hp : Keeps G J p.run)
    (hf : ∀ a, Keeps G J (f a).run) : Keeps G J (p >>= f).run := by
  rw [ExceptT.run_bind]
  refine hp.bind fun r => ?_
  cases r with
  | ok a => exact hf a
  | error e => exact keeps_pure _

theorem keeps_forM {l : List γ} {f : γ → Prog Op Res PUnit}
    (hf : ∀ a ∈ l, Keeps G J (f a)) : Keeps G J (l.forM f) := by
  induction l with
  | nil => exact keeps_pure _
  | cons a l ih =>
    refine (hf a List.mem_cons_self).bind fun _ => ?_
    exact ih fun b hb => hf b (List.mem_cons_of_mem a hb)

theorem keeps_exceptForM {l : List γ} {f : γ → ExceptT ε (Prog Op Res) PUnit}
    (hf : ∀ a ∈ l, Keeps G J (f a).run) : Keeps G J (l.forM f).run := by
  induction l with
  | nil => exact keeps_pure _
  | cons a l ih =>
    refine (hf a List.mem_cons_self).exceptBind fun _ => ?_
    exact ih fun b hb => hf b (List.mem_cons_of_mem a hb)

/-- What any operation keeps, any program keeps. -/
theorem keeps_of_forall (h : ∀ done o, J done → G done o ∧
    ∀ r, J (⟨o, r⟩ :: done)) (p : Prog Op Res α) : Keeps G J p := by
  induction p with
  | ret a => exact keeps_pure a
  | act o k ih =>
    intro done hdone
    exact ⟨(h done o hdone).1, fun r => ih r _ ((h done o hdone).2 r)⟩

/-! ### What a program performs -/

/-- All the operations of `p` satisfy `P`. -/
def Only (P : Op → Prop) : Prog Op Res α → Prop
  | .ret _ => True
  | .act o k => P o ∧ ∀ r, (k r).Only P

variable {P : Op → Prop}

theorem only_pure (a : α) : (pure a : Prog Op Res α).Only P := trivial

theorem only_perform {o : Op} (h : P o) :
    (perform o : Prog Op Res (Res o)).Only P :=
  ⟨h, fun _ => trivial⟩

theorem Only.bind {p : Prog Op Res α} {f : α → Prog Op Res β}
    (hp : p.Only P) (hf : ∀ a, (f a).Only P) : (p >>= f).Only P := by
  induction p with
  | ret a => exact hf a
  | act o k ih => exact ⟨hp.1, fun r => ih r (hp.2 r)⟩

theorem Only.exceptBind {p : ExceptT ε (Prog Op Res) α}
    {f : α → ExceptT ε (Prog Op Res) β} (hp : p.run.Only P)
    (hf : ∀ a, (f a).run.Only P) : (p >>= f).run.Only P := by
  rw [ExceptT.run_bind]
  refine hp.bind fun r => ?_
  cases r with
  | ok a => exact hf a
  | error e => exact only_pure _

theorem only_forM {l : List γ} {f : γ → Prog Op Res PUnit}
    (hf : ∀ a, (f a).Only P) : (l.forM f).Only P := by
  induction l with
  | nil => exact only_pure _
  | cons a l ih => exact (hf a).bind fun _ => ih

theorem only_exceptFoldlM {l : List γ} {b : δ}
    {f : δ → γ → ExceptT ε (Prog Op Res) δ}
    (hf : ∀ b a, (f b a).run.Only P) : (l.foldlM f b).run.Only P := by
  induction l generalizing b with
  | nil => exact only_pure _
  | cons a l ih => exact (hf b a).exceptBind fun _ => ih

/-- A program that runs alone keeps what its operations keep. -/
theorem Only.exec {σ : Type} {h : (o : Op) → σ → Res o × σ} {I : σ → Prop}
    {p : Prog Op Res α} (hp : p.Only P) (hI : ∀ o s, P o → I s → I (h o s).2)
    {s : σ} (hs : I s) : I (p.exec h s).2 := by
  induction p generalizing s with
  | ret a => exact hs
  | act o k ih => exact ih _ (hp.2 _) (hI o s hp.1 hs)

/-- A program keeps what its operations keep. -/
theorem Only.keeps {p : Prog Op Res α} (hp : p.Only P)
    (h : ∀ o done, P o → J done → G done o ∧ ∀ r, J (⟨o, r⟩ :: done)) :
    Keeps G J p := by
  induction p with
  | ret a => exact keeps_pure a
  | act o k ih =>
    intro done hdone
    obtain ⟨hG, hJ⟩ := h o done hp.1 hdone
    exact ⟨hG, fun r => ih r (hp.2 r) _ (hJ r)⟩

end Prog

/-! ## The machine -/

variable {Task Work σ : Type} [DecidableEq Task]
  (G : Task → Option Work × List ((o : Op) × Res o) → Op → Prop)
  (E : Task → Option Work × List ((o : Op) × Res o) → Prop)

/-- The program of task `t` in a piece of work, after what was done. -/
def Follows (t : Task) (now : Option Work × List ((o : Op) × Res o))
    (p : Prog Op Res Unit) : Prop :=
  p.Paths (fun done => G t (now.1, done)) (fun _ done => E t (now.1, done))
    now.2

omit [DecidableEq Task] in
/-- When `G` and `E` speak about some of the tasks only, the others need not
be looked at. -/
theorem follows_guard {guard : Task → Bool} {t : Task}
    {now : Option Work × List ((o : Op) × Res o)} {p : Prog Op Res Unit}
    (h : guard t = true → Follows G E t now p) :
    Follows (fun t now o => guard t = true → G t now o)
      (fun t now => guard t = true → E t now) t now p := by
  by_cases ht : guard t = true
  · have hpaths := h ht
    unfold Follows at hpaths ⊢
    simpa only [ht, forall_const] using hpaths
  · exact Prog.paths_of_forall (fun _ _ hguard => absurd hguard ht)
      (fun _ _ hguard => absurd hguard ht) p now.2

/-- An operation meets `G`, and `E` holds of a task that begins new work. -/
def Follow (w : World Task Work σ Op Res) : Entry Task Work Op Res → Prop
  | .did t o _ => G t (current t w.log) o
  | .began t _ => E t (current t w.log)
  | _ => True

variable {G E} {M : Machine Task Work σ Op Res}
  {ok : World Task Work σ Op Res → Entry Task Work Op Res → Prop}
  {c : Config Task Work σ Op Res}

namespace Machine

section Follows

variable (hboot : ∀ t, Follows G E t (none, []) (M.boot t))
  (hstart : ∀ {t k s p s'}, M.start t k s p s' →
    Follows G E t (some k, []) p)

include hboot hstart

theorem Reach.follows (h : Reach M ok c) (t : Task) :
    Follows G E t (current t c.world.log) (c.task t) := by
  induction h with
  | init _ => exact hboot t
  | @step c c' e _ _ hstep ih =>
    cases hstep with
    | @exec u o k r s' htask _ =>
      by_cases htu : t = u
      · subst htu
        unfold Follows at ih
        rw [htask] at ih
        simpa [Follows] using ih.2 r
      · simpa [setTask_of_ne _ _ htu, current_did_of_ne htu] using ih
    | @begin u k p s' _ hs =>
      by_cases htu : t = u
      · subst htu
        simpa using hstart hs
      · simpa [setTask_of_ne _ _ htu, current_began_of_ne htu] using ih
    | env _ => exact ih
    | crash _ => exact hboot t

/-- In every run, the tasks take the paths of their programs. -/
theorem turns_follow : M.Turns ok (Follow G E) := by
  intro c c' e h _ hstep
  cases hstep with
  | @exec t o k r s' htask _ =>
    have hpaths := h.follows hboot hstart t
    rw [htask] at hpaths
    exact hpaths.1
  | @begin t k p s' htask _ =>
    have hpaths := h.follows hboot hstart t
    rw [htask] at hpaths
    exact hpaths
  | _ => trivial

/-- What an idle task has done. -/
theorem Reach.follows_idle (h : Reach M ok c) {t : Task}
    (htask : c.task t = .ret ()) : E t (current t c.world.log) := by
  have hpaths := h.follows hboot hstart t
  rw [htask] at hpaths
  exact hpaths

end Follows

/-- Every operation of a run satisfies what the operations of all programs
satisfy. -/
theorem turns_only {P : Op → Prop} (hboot : ∀ t, (M.boot t).Only P)
    (hstart : ∀ {t k s p s'}, M.start t k s p s' → p.Only P) :
    M.Turns ok fun _ e => ∀ t o r, e = .did t o r → P o := by
  have hpaths : ∀ {p : Prog Op Res Unit}, p.Only P → ∀ t now,
      Follows (fun (_ : Task) (_ : Option Work × List ((o : Op) × Res o)) o =>
        P o) (fun _ _ => True) t now p := by
    intro p hp t now
    exact hp.keeps (fun o _ ho _ => ⟨ho, fun _ => trivial⟩) now.2 trivial
  refine (turns_follow (fun t => hpaths (hboot t) t _)
    (fun hs => hpaths (hstart hs) _ _)).imp ?_
  rintro w _ hfollow t o r rfl
  exact hfollow

end Machine

/-- What a task has done in its current work is in the log. -/
theorem mem_of_current {t : Task} {log : List (Entry Task Work Op Res)}
    {x : (o : Op) × Res o} (h : x ∈ (current t log).2) :
    .did t x.1 x.2 ∈ log := by
  induction log with
  | nil => cases h
  | cons e log ih =>
    cases e with
    | crashed => cases h
    | env => exact List.mem_cons_of_mem _ (ih h)
    | began u w =>
      by_cases hu : t = u
      · subst hu
        simp at h
      · rw [current_began_of_ne hu] at h
        exact List.mem_cons_of_mem _ (ih h)
    | did u o r =>
      by_cases hu : t = u
      · subst hu
        rw [current_did] at h
        rcases List.mem_cons.1 h with rfl | hold
        · exact List.mem_cons_self
        · exact List.mem_cons_of_mem _ (ih hold)
      · rw [current_did_of_ne hu] at h
        exact List.mem_cons_of_mem _ (ih h)

end Tasks
