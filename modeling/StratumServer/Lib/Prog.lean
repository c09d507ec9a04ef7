import Mathlib.Control.Basic

/-!
# Programs over atomic operations

A `Prog Op Res α` is the body of a task: it returns a value, or it performs
one operation `o : Op` and goes on with the answer, a value of `Res o`.
Between two operations anything else may happen, so an operation is what the
task does in one piece: a section under a lock, one message on a channel,
one remote call.

Programs form a lawful monad.  A fallible body is an
`ExceptT ε (Prog Op Res)`, and the loops of a body are `List.forM` and
`List.foldlM`.

`exec` runs a program alone, on a state that nothing else changes.
-/

namespace Tasks

/-- The body of a task. -/
inductive Prog (Op : Type) (Res : Op → Type) (α : Type) : Type
  | ret (a : α)
  | act (o : Op) (k : Res o → Prog Op Res α)

namespace Prog

variable {Op : Type} {Res : Op → Type} {α β : Type}

/-- Run `p`, then `f` on the value of `p`. -/
def bind : Prog Op Res α → (α → Prog Op Res β) → Prog Op Res β
  | .ret a, f => f a
  | .act o k, f => .act o fun r => (k r).bind f

instance : Monad (Prog Op Res) where
  pure := .ret
  bind := bind

/-- The program of one operation. -/
def perform (o : Op) : Prog Op Res (Res o) := .act o .ret

/-- The program has come to its end. -/
def isRet : Prog Op Res α → Bool
  | .ret _ => true
  | .act _ _ => false

theorem eq_ret_of_isRet {p : Prog Op Res Unit} (h : p.isRet = true) :
    p = .ret () := by
  cases p with
  | ret a => rfl
  | act o k => cases h

@[simp] theorem ret_bind (a : α) (f : α → Prog Op Res β) :
    (Prog.ret a >>= f) = f a := rfl

@[simp] theorem act_bind (o : Op) (k : Res o → Prog Op Res α)
    (f : α → Prog Op Res β) :
    (Prog.act o k >>= f) = .act o fun r => k r >>= f := rfl

theorem map_id (p : Prog Op Res α) : id <$> p = p := by
  induction p with
  | ret a => rfl
  | act o k ih => exact congrArg (Prog.act o) (funext ih)

theorem bind_assoc {γ : Type} (p : Prog Op Res α) (f : α → Prog Op Res β)
    (g : β → Prog Op Res γ) : p >>= f >>= g = p >>= fun a => f a >>= g := by
  induction p with
  | ret a => rfl
  | act o k ih => exact congrArg (Prog.act o) (funext ih)

instance : LawfulMonad (Prog Op Res) :=
  LawfulMonad.mk' _ map_id (fun _ _ => rfl) bind_assoc

/-! ## Running a program alone -/

section Exec

variable {σ ε : Type} (h : (o : Op) → σ → Res o × σ)

/-- The value of a program and the state that it leaves, when `h` is what its
operations do. -/
def exec : Prog Op Res α → σ → α × σ
  | .ret a, s => (a, s)
  | .act o k, s => (k (h o s).1).exec (h o s).2

@[simp] theorem exec_pure (a : α) (s : σ) :
    (pure a : Prog Op Res α).exec h s = (a, s) := rfl

@[simp] theorem exec_perform (o : Op) (s : σ) :
    (perform o : Prog Op Res (Res o)).exec h s = h o s := rfl

theorem exec_bind (p : Prog Op Res α) (f : α → Prog Op Res β) (s : σ) :
    (p >>= f).exec h s = (f (p.exec h s).1).exec h (p.exec h s).2 := by
  induction p generalizing s with
  | ret a => rfl
  | act o k ih => exact ih _ _

variable {h}

theorem exec_exceptBind_ok {p : ExceptT ε (Prog Op Res) α}
    {f : α → ExceptT ε (Prog Op Res) β} {s s' : σ} {a : α}
    (hp : p.run.exec h s = (.ok a, s')) :
    (p >>= f).run.exec h s = (f a).run.exec h s' := by
  rw [ExceptT.run_bind, exec_bind, hp]

theorem exec_exceptBind_error {p : ExceptT ε (Prog Op Res) α}
    {f : α → ExceptT ε (Prog Op Res) β} {s s' : σ} {e : ε}
    (hp : p.run.exec h s = (.error e, s')) :
    (p >>= f).run.exec h s = (.error e, s') := by
  rw [ExceptT.run_bind, exec_bind, hp]
  rfl

/-- A program that succeeds has succeeded in its first part. -/
theorem exec_exceptBind_eq_ok {p : ExceptT ε (Prog Op Res) α}
    {f : α → ExceptT ε (Prog Op Res) β} {s s' : σ} {b : β}
    (hpf : (p >>= f).run.exec h s = (.ok b, s')) :
    ∃ a s₁, p.run.exec h s = (.ok a, s₁) ∧
      (f a).run.exec h s₁ = (.ok b, s') := by
  cases hp : p.run.exec h s with
  | mk r s₁ =>
    cases r with
    | ok a =>
      rw [exec_exceptBind_ok hp] at hpf
      exact ⟨a, s₁, rfl, hpf⟩
    | error e =>
      rw [exec_exceptBind_error hp] at hpf
      cases hpf

end Exec

end Prog

end Tasks
