import StratumServer.Lib.Prog
import Mathlib.Logic.Relation

/-!
# Machines of interleaved tasks

A `Machine` is a set of tasks over one shared state.  Each task runs a
`Prog`; the tasks take turns operation by operation, in any order.  A task
that has come to the end of its program may begin a new piece of work.  The
environment may change the shared state, and a crash puts every task back to
its boot program.

A configuration keeps the log of the run, newest entry first, so that a
property of the history is a property of the configuration.

There are two groups.

* The runs.  `Step` is one turn, and `Reach ok c` says that a run leads to
  `c` in which every turn meets `ok`.  `Reach.invariant` is the rule for
  properties that every turn keeps.  `Turns ok P` says that every turn of
  such a run satisfies `P`; what is known of the turns that way can be added
  to `ok`.
  `Leads ok c c'` says that a run goes on from `c` to `c'`.
* The log.  `current t log` is what task `t` has done in its current piece
  of work.
-/

namespace Tasks

/-- One entry of the log of a run. -/
inductive Entry (Task Work Op : Type) (Res : Op → Type)
  /-- Task `t` performed `o` and got the answer `r`. -/
  | did (t : Task) (o : Op) (r : Res o)
  /-- Task `t` began the piece of work `w`. -/
  | began (t : Task) (w : Work)
  | env
  | crashed

/-- What the tasks share, and what has happened so far. -/
structure World (Task Work σ Op : Type) (Res : Op → Type) where
  shared : σ
  log : List (Entry Task Work Op Res)

namespace World

variable {Task Work σ Op : Type} {Res : Op → Type}

/-- The world after the turn `e`, which leaves the shared state `s`. -/
def after (w : World Task Work σ Op Res) (s : σ)
    (e : Entry Task Work Op Res) : World Task Work σ Op Res :=
  ⟨s, e :: w.log⟩

@[simp] theorem after_shared (w : World Task Work σ Op Res) (s : σ)
    (e : Entry Task Work Op Res) : (w.after s e).shared = s := rfl

@[simp] theorem after_log (w : World Task Work σ Op Res) (s : σ)
    (e : Entry Task Work Op Res) : (w.after s e).log = e :: w.log := rfl

end World

/-- A machine of tasks.  `sem o s r s'` says that the operation `o` may
answer `r` in the state `s` and leave `s'`; `start t w s p s'` that an idle
task `t` may begin the work `w`, whose program is `p`. -/
structure Machine (Task Work σ Op : Type) (Res : Op → Type) where
  init : σ → Prop
  sem : (o : Op) → σ → Res o → σ → Prop
  start : Task → Work → σ → Prog Op Res Unit → σ → Prop
  env : σ → σ → Prop
  crash : σ → σ → Prop
  boot : Task → Prog Op Res Unit

/-- A configuration: the world, and what is left of the program of each
task. -/
structure Config (Task Work σ Op : Type) (Res : Op → Type) where
  world : World Task Work σ Op Res
  task : Task → Prog Op Res Unit

namespace Machine

variable {Task Work σ Op : Type} {Res : Op → Type} [DecidableEq Task]

/-- The programs of the tasks after task `t` has got to `p`. -/
def setTask (f : Task → Prog Op Res Unit) (t : Task) (p : Prog Op Res Unit) :
    Task → Prog Op Res Unit :=
  fun u => if u = t then p else f u

@[simp] theorem setTask_self (f : Task → Prog Op Res Unit) (t : Task)
    (p : Prog Op Res Unit) : setTask f t p t = p := by
  simp [setTask]

theorem setTask_of_ne (f : Task → Prog Op Res Unit) {t u : Task}
    (p : Prog Op Res Unit) (h : u ≠ t) : setTask f t p u = f u := by
  simp [setTask, h]

/-! ## The runs -/

/-- One turn of the machine. -/
inductive Step (M : Machine Task Work σ Op Res) :
    Config Task Work σ Op Res → Entry Task Work Op Res →
      Config Task Work σ Op Res → Prop
  | exec {c : Config Task Work σ Op Res} {t : Task} {o : Op}
      {k : Res o → Prog Op Res Unit} {r : Res o} {s' : σ}
      (htask : c.task t = .act o k) (hsem : M.sem o c.world.shared r s') :
      Step M c (.did t o r)
        ⟨c.world.after s' (.did t o r), setTask c.task t (k r)⟩
  | begin {c : Config Task Work σ Op Res} {t : Task} {w : Work}
      {p : Prog Op Res Unit} {s' : σ}
      (htask : c.task t = .ret ()) (hstart : M.start t w c.world.shared p s') :
      Step M c (.began t w) ⟨c.world.after s' (.began t w), setTask c.task t p⟩
  | env {c : Config Task Work σ Op Res} {s' : σ}
      (henv : M.env c.world.shared s') :
      Step M c .env ⟨c.world.after s' .env, c.task⟩
  | crash {c : Config Task Work σ Op Res} {s' : σ}
      (hcrash : M.crash c.world.shared s') :
      Step M c .crashed ⟨c.world.after s' .crashed, M.boot⟩

/-- The configurations of the runs in which every turn meets `ok`. -/
inductive Reach (M : Machine Task Work σ Op Res)
    (ok : World Task Work σ Op Res → Entry Task Work Op Res → Prop) :
    Config Task Work σ Op Res → Prop
  | init {s : σ} (h : M.init s) : Reach M ok ⟨⟨s, []⟩, M.boot⟩
  | step {c c' : Config Task Work σ Op Res} {e : Entry Task Work Op Res}
      (hc : Reach M ok c) (hok : ok c.world e) (hstep : Step M c e c') :
      Reach M ok c'

variable {M : Machine Task Work σ Op Res}
  {ok ok' : World Task Work σ Op Res → Entry Task Work Op Res → Prop}
  {c : Config Task Work σ Op Res}

theorem Reach.mono (hok : ∀ w e, ok w e → ok' w e) (h : Reach M ok c) :
    Reach M ok' c := by
  induction h with
  | init hs => exact .init hs
  | step _ hoke hstep ih => exact .step ih (hok _ _ hoke) hstep

/-- Every turn of the runs that meet `ok` satisfies `P`. -/
def Turns (M : Machine Task Work σ Op Res)
    (ok P : World Task Work σ Op Res → Entry Task Work Op Res → Prop) : Prop :=
  ∀ ⦃c c' : Config Task Work σ Op Res⦄ ⦃e : Entry Task Work Op Res⦄,
    Reach M ok c → ok c.world e → Step M c e c' → P c.world e

section Turns

variable {P Q : World Task Work σ Op Res → Entry Task Work Op Res → Prop}

theorem Turns.mono (hok : ∀ w e, ok' w e → ok w e) (hP : M.Turns ok P) :
    M.Turns ok' P :=
  fun _ _ _ h hturn hstep => hP (h.mono hok) (hok _ _ hturn) hstep

theorem Turns.imp (hPQ : ∀ w e, P w e → Q w e) (hP : M.Turns ok P) :
    M.Turns ok Q :=
  fun _ _ _ h hok hstep => hPQ _ _ (hP h hok hstep)

/-- What is known of the turns can be added to what they meet. -/
theorem Turns.reach (hP : M.Turns ok P) (h : Reach M ok c) :
    Reach M (fun w e => ok w e ∧ P w e) c := by
  induction h with
  | init hs => exact .init hs
  | step hc hok hstep ih => exact .step ih ⟨hok, hP hc hok hstep⟩ hstep

theorem Turns.trans (hP : M.Turns ok P)
    (hQ : M.Turns (fun w e => ok w e ∧ P w e) Q) : M.Turns ok Q :=
  fun _ _ _ h hok hstep => hQ (hP.reach h) ⟨hok, hP h hok hstep⟩ hstep

end Turns

/-- A property that the initial states have and every turn keeps holds in
every configuration. -/
theorem Reach.invariant {I : World Task Work σ Op Res → Prop}
    (hinit : ∀ s, M.init s → I ⟨s, []⟩)
    (hdid : ∀ {w t o r s'}, I w → M.sem o w.shared r s' →
      ok w (.did t o r) → I (w.after s' (.did t o r)))
    (hbegan : ∀ {w t k p s'}, I w → M.start t k w.shared p s' →
      ok w (.began t k) → I (w.after s' (.began t k)))
    (henv : ∀ {w s'}, I w → M.env w.shared s' → ok w .env →
      I (w.after s' .env))
    (hcrash : ∀ {w s'}, I w → M.crash w.shared s' → ok w .crashed →
      I (w.after s' .crashed))
    (h : Reach M ok c) : I c.world := by
  induction h with
  | init hs => exact hinit _ hs
  | step _ hok hstep ih =>
    cases hstep with
    | exec _ hsem => exact hdid ih hsem hok
    | begin _ hstart => exact hbegan ih hstart hok
    | env hs => exact henv ih hs hok
    | crash hs => exact hcrash ih hs hok

/-! ### From one configuration to another -/

/-- A run leads from one configuration to another, and every turn on the way
meets `ok`. -/
def Leads (M : Machine Task Work σ Op Res)
    (ok : World Task Work σ Op Res → Entry Task Work Op Res → Prop) :
    Config Task Work σ Op Res → Config Task Work σ Op Res → Prop :=
  Relation.ReflTransGen fun c c' => ∃ e, ok c.world e ∧ Step M c e c'

theorem Reach.leads {c' : Config Task Work σ Op Res} (h : Reach M ok c)
    (hleads : Leads M ok c c') : Reach M ok c' := by
  induction hleads with
  | refl => exact h
  | tail _ hstep ih =>
    obtain ⟨e, hok, hstep⟩ := hstep
    exact ih.step hok hstep

/-- The log only grows. -/
theorem Leads.log {c' : Config Task Work σ Op Res} (h : Leads M ok c c') :
    ∃ later, c'.world.log = later ++ c.world.log := by
  induction h with
  | refl => exact ⟨[], rfl⟩
  | tail _ hstep ih =>
    obtain ⟨later, hlog⟩ := ih
    obtain ⟨e, _, hstep⟩ := hstep
    refine ⟨e :: later, ?_⟩
    cases hstep <;> exact congrArg (_ :: ·) hlog

end Machine

/-! ## The log -/

section Log

variable {Task Work Op : Type} {Res : Op → Type} [DecidableEq Task]

/-- The current piece of work of task `t`, and the operations that it has
performed in it with their answers, newest first.  There is no work in the
program that `t` runs at boot. -/
def current (t : Task) :
    List (Entry Task Work Op Res) → Option Work × List ((o : Op) × Res o)
  | [] => (none, [])
  | .crashed :: _ => (none, [])
  | .env :: log => current t log
  | .began u w :: log => if u = t then (some w, []) else current t log
  | .did u o r :: log =>
    if u = t then ((current t log).1, ⟨o, r⟩ :: (current t log).2)
    else current t log

variable {t u : Task} {log : List (Entry Task Work Op Res)}

@[simp] theorem current_env : current t (.env :: log) = current t log := rfl

@[simp] theorem current_began (w : Work) :
    current t (.began t w :: log) = (some w, []) := by
  simp [current]

@[simp] theorem current_did (o : Op) (r : Res o) :
    current t (.did t o r :: log) =
      ((current t log).1, ⟨o, r⟩ :: (current t log).2) := by
  simp [current]

theorem current_began_of_ne (h : t ≠ u) (w : Work) :
    current t (.began u w :: log) = current t log := by
  simp [current, h.symm]

theorem current_did_of_ne (h : t ≠ u) (o : Op) (r : Res o) :
    current t (.did u o r :: log) = current t log := by
  simp [current, h.symm]

/-- What a task has done in a piece of work does not depend on what was
before it. -/
theorem current_append {later : List (Entry Task Work Op Res)} {w : Work}
    (h : (current t later).1 = some w) (log : List (Entry Task Work Op Res)) :
    current t (later ++ log) = current t later := by
  induction later with
  | nil => cases h
  | cons e later ih =>
    cases e with
    | crashed => cases h
    | env => exact ih h
    | began u w' =>
      by_cases hu : t = u
      · subst hu
        rw [List.cons_append, current_began, current_began]
      · rw [current_began_of_ne hu] at h
        rw [List.cons_append, current_began_of_ne hu, current_began_of_ne hu, ih h]
    | did u o r =>
      by_cases hu : t = u
      · subst hu
        rw [current_did] at h
        rw [List.cons_append, current_did, current_did, ih h]
      · rw [current_did_of_ne hu] at h
        rw [List.cons_append, current_did_of_ne hu, current_did_of_ne hu, ih h]

end Log

end Tasks
