import StratumServer.Lib.Prog
import Mathlib.Data.List.Basic

/-!
# Statements that may fail

A program sends commands to the connection of a database: the statements
that read and write the data, and `BEGIN`, `COMMIT` and `ROLLBACK`.  Every
command may fail.  A `Trial` says in advance which ones do, and keeps a log of
the commands with what happened to them.

Of the engine it is assumed that

* a `BEGIN` inside a transaction fails, and so does a `COMMIT` or a
  `ROLLBACK` outside of one;
* a statement or a `COMMIT` that fails either leaves the transaction open or
  takes it back as a whole;
* a `ROLLBACK` inside a transaction succeeds.

`transaction` is the usual frame around the statements of a transaction.  Its
`COMMIT` may be the command that fails, and then there is no `ROLLBACK`.

`Script.eval` is what a program means when nothing is made to fail: a
function on the data.  `Steady p` is for the inside of a transaction, where
`p` stops at the first failure.  `Atomic p` is for the outside.  Either `p`
has done what it means, or it has failed and nothing has changed, or a failed
`COMMIT` has left the transaction open.  `Steady.transaction` leads from the
one to the other.
-/

namespace Sql

open Tasks

/-! ## The connection -/

/-- A connection: the data as the next statement finds it, and while a
transaction is open also the data that a `ROLLBACK` brings back. -/
structure Conn (D : Type) where
  data : D
  saved : Option D
  deriving DecidableEq

theorem Conn.eq_of_closed {D : Type} {c : Conn D} (h : c.saved = none) :
    c = ⟨c.data, none⟩ := by
  obtain ⟨d, saved⟩ := c
  cases h
  rfl

/-- What happens to a command: it is carried out, or it fails, or it fails and
takes back the open transaction. -/
inductive Fate
  | succeeds
  | fails
  | undone
  deriving DecidableEq

/-- What a program sends to a connection. -/
inductive Command (S : Type)
  | begin
  | commit
  | rollback
  | run (s : S)
  deriving DecidableEq

variable {D S ε : Type} {R : S → Type}

/-- What a command answers. -/
@[reducible] def Command.Res (ε : Type) (R : S → Type) : Command S → Type
  | .begin | .commit | .rollback => Except ε Unit
  | .run s => Except ε (R s)

/-- The connection after its transaction has been taken back. -/
def Conn.back (c : Conn D) : Conn D :=
  match c.saved with
  | some d => ⟨d, none⟩
  | none => c

/-- An engine: what a statement does to the data, and the error of a command
that fails for other reasons than the data. -/
structure Engine (D S ε : Type) (R : S → Type) where
  exec : (s : S) → D → Except ε (R s × D)
  failure : ε

/-- What a command with the given fate answers and leaves. -/
def Engine.answer (E : Engine D S ε R) :
    (o : Command S) → Fate → Conn D → o.Res ε R × Conn D
  | .begin, .succeeds, ⟨d, none⟩ => (.ok (), ⟨d, some d⟩)
  | .begin, _, c => (.error E.failure, c)
  | .commit, .succeeds, ⟨d, some _⟩ => (.ok (), ⟨d, none⟩)
  | .commit, .undone, c => (.error E.failure, c.back)
  | .commit, _, c => (.error E.failure, c)
  | .rollback, _, ⟨_, some d⟩ => (.ok (), ⟨d, none⟩)
  | .rollback, _, c => (.error E.failure, c)
  | .run s, .succeeds, c =>
    match E.exec s c.data with
    | .ok (a, data) => (.ok a, { c with data })
    | .error e => (.error e, c)
  | .run _, .fails, c => (.error E.failure, c)
  | .run _, .undone, c => (.error E.failure, c.back)

/-- Outside of a transaction, and only there, the next one can begin. -/
theorem Engine.begin_ok_iff (E : Engine D S ε R) (c : Conn D) :
    (E.answer .begin .succeeds c).1 = .ok () ↔ c.saved = none := by
  obtain ⟨d, _ | d'⟩ := c
  · exact ⟨fun _ => rfl, fun _ => rfl⟩
  · exact ⟨nofun, nofun⟩

/-- A connection, the fates of the next commands, and the commands so far,
newest first. -/
structure Trial (D S : Type) where
  conn : Conn D
  fates : Nat → Fate
  log : List (Command S × Fate)

/-- The trial after the command `o`, which has left the connection `c`. -/
def Trial.after (t : Trial D S) (o : Command S) (c : Conn D) : Trial D S where
  conn := c
  fates n := t.fates (n + 1)
  log := (o, t.fates 0) :: t.log

/-- One command. -/
def Engine.step (E : Engine D S ε R) (o : Command S) (t : Trial D S) :
    o.Res ε R × Trial D S :=
  ((E.answer o (t.fates 0) t.conn).1,
    t.after o (E.answer o (t.fates 0) t.conn).2)

/-! ## Programs -/

/-- A fallible program that sends commands. -/
abbrev Script (S ε : Type) (R : S → Type) (α : Type) :=
  ExceptT ε (Prog (Command S) (Command.Res ε R)) α

/-- One statement. -/
def statement (s : S) : Script S ε R (R s) :=
  ExceptT.mk (Prog.perform (Command.run s))

/-- The statements of `body` in one transaction. -/
def transaction {α : Type} (body : Script S ε R α) : Script S ε R α := do
  ExceptT.mk (Prog.perform Command.begin)
  match ← ExceptT.lift body.run with
  | .ok val =>
    ExceptT.mk (Prog.perform Command.commit)
    return val
  | .error e =>
    ExceptT.mk (Prog.perform Command.rollback)
    throw e

/-! ## What a program means -/

variable {α β γ : Type}

/-- What a command does when nothing is made to fail.  The frame of a
transaction does not show. -/
def Engine.plain (E : Engine D S ε R) : (o : Command S) → D → o.Res ε R × D
  | .begin, d | .commit, d | .rollback, d => (.ok (), d)
  | .run s, d =>
    match E.exec s d with
    | .ok (a, d') => (.ok a, d')
    | .error e => (.error e, d)

/-- The meaning of a program: its result with the new data, or its error. -/
def Script.eval (E : Engine D S ε R) (p : Script S ε R α) (d : D) :
    Except ε (α × D) :=
  match p.run.exec E.plain d with
  | (.ok a, d') => .ok (a, d')
  | (.error e, _) => .error e

section Eval

variable (E : Engine D S ε R)

@[simp] theorem eval_pure (a : α) (d : D) :
    Script.eval E (pure a) d = .ok (a, d) := rfl

@[simp] theorem eval_throw (e : ε) (d : D) :
    Script.eval E (throw e : Script S ε R α) d = .error e := rfl

@[simp] theorem eval_statement (s : S) (d : D) :
    Script.eval E (statement s) d = E.exec s d := by
  have hexec : (statement s : Script S ε R (R s)).run.exec E.plain d =
      match E.exec s d with
      | .ok (a, d') => (.ok a, d')
      | .error e => (.error e, d) := rfl
  unfold Script.eval
  rw [hexec]
  cases E.exec s d with
  | ok x => rfl
  | error e => rfl

@[simp] theorem eval_bind (p : Script S ε R α) (q : α → Script S ε R β)
    (d : D) :
    Script.eval E (p >>= q) d =
      (p.eval E d).bind fun x => (q x.1).eval E x.2 := by
  unfold Script.eval
  cases hp : p.run.exec E.plain d with
  | mk r d' =>
    cases r with
    | ok a =>
      rw [Prog.exec_exceptBind_ok hp]
      rfl
    | error e =>
      rw [Prog.exec_exceptBind_error hp]
      rfl

@[simp] theorem eval_transaction (body : Script S ε R α) (d : D) :
    Script.eval E (transaction body) d = body.eval E d := by
  have hbegin : Script.eval E (ExceptT.mk (Prog.perform Command.begin) :
    Script S ε R Unit) d = .ok ((), d) := rfl
  have hlift : (ExceptT.lift body.run : Script S ε R (Except ε α)).run.exec
      E.plain d = (.ok (body.run.exec E.plain d).1, (body.run.exec E.plain d).2) :=
    Prog.exec_bind E.plain body.run (fun r => pure (Except.ok r)) d
  unfold transaction
  rw [eval_bind, hbegin]
  unfold Script.eval
  dsimp only [Except.bind]
  rw [Prog.exec_exceptBind_ok hlift]
  cases body.run.exec E.plain d with
  | mk r d' =>
    cases r with
    | ok a => rfl
    | error e => rfl

end Eval

/-! ## Inside a transaction -/

/-- No command of the log was made to fail. -/
def Calm (log : List (Command S × Fate)) : Prop :=
  ∀ x ∈ log, x.2 = .succeeds

theorem calm_append {l l' : List (Command S × Fate)} (h : Calm (l ++ l')) :
    Calm l ∧ Calm l' :=
  List.forall_mem_append.1 h

/-- What becomes of a program with the given meaning, inside a transaction
that began with `sv`. -/
inductive Inside (meaning : Except ε (α × D)) (sv : D)
    (new : List (Command S × Fate)) : Except ε α → Conn D → Prop
  | done {a : α} {d : D} (h : meaning = .ok (a, d)) :
    Inside meaning sv new (.ok a) ⟨d, some sv⟩
  | failed {e : ε} {d : D} (h : Calm new → meaning = .error e) :
    Inside meaning sv new (.error e) ⟨d, some sv⟩
  | undone {e : ε} (hnew : ¬ Calm new) :
    Inside meaning sv new (.error e) ⟨sv, none⟩

/-- Inside a transaction, the program `p` does what it means or stops at a
failure.  Its commands are statements, and they satisfy `A`. -/
def Steady (E : Engine D S ε R) (A : Command S → Prop) (p : Script S ε R α) :
    Prop :=
  ∀ (t : Trial D S) (d sv : D), t.conn = ⟨d, some sv⟩ →
    ∃ new r t', p.run.exec E.step t = (r, t') ∧ t'.log = new ++ t.log ∧
      (∀ x ∈ new, A x.1 ∧ ∃ s, x.1 = .run s) ∧
      Inside (p.eval E d) sv new r t'.conn

namespace Steady

variable {E : Engine D S ε R} {A : Command S → Prop}

theorem pure (a : α) : Steady E A (pure a) := by
  intro t d sv ht
  exact ⟨[], .ok a, t, rfl, rfl, List.forall_mem_nil _, ht ▸ .done rfl⟩

theorem statement {s : S} (hs : A (.run s)) : Steady E A (statement s) := by
  intro t d sv ht
  refine ⟨[(.run s, t.fates 0)], _, _, rfl, rfl, ?_, ?_⟩
  · intro x hx
    rw [List.mem_singleton.1 hx]
    exact ⟨hs, s, rfl⟩
  · have hcalm : Calm [(Command.run s, t.fates 0)] → t.fates 0 = .succeeds :=
      fun h => h _ (List.mem_singleton.2 rfl)
    change Inside _ _ _ (E.answer (.run s) (t.fates 0) t.conn).1
      (E.answer (.run s) (t.fates 0) t.conn).2
    rw [ht, eval_statement]
    generalize t.fates 0 = fate at hcalm
    cases fate with
    | succeeds =>
      dsimp only [Engine.answer]
      cases E.exec s d with
      | ok x => exact .done rfl
      | error e => exact .failed fun _ => rfl
    | fails => exact .failed fun h => nomatch hcalm h
    | undone => exact .undone fun h => nomatch hcalm h

theorem bind {p : Script S ε R α} {q : α → Script S ε R β}
    (hp : Steady E A p) (hq : ∀ a, Steady E A (q a)) :
    Steady E A (p >>= q) := by
  intro t d sv ht
  obtain ⟨new, r, t₁, hrun, hlog, hA, hin⟩ := hp t d sv ht
  rw [eval_bind]
  generalize hc : t₁.conn = c at hin
  cases hin with
  | @done a d' hd =>
    obtain ⟨new', r', t₂, hrun', hlog', hA', hin'⟩ := hq a t₁ d' sv hc
    refine ⟨new' ++ new, r', t₂, ?_, ?_, List.forall_mem_append.2 ⟨hA', hA⟩, ?_⟩
    · rw [Prog.exec_exceptBind_ok hrun, hrun']
    · rw [hlog', hlog, List.append_assoc]
    · rw [hd]
      change Inside ((q a).eval E d') _ _ _ _
      generalize t₂.conn = c' at hin'
      cases hin' with
      | done h => exact .done h
      | failed h => exact .failed fun hcalm => h (calm_append hcalm).1
      | undone hnew => exact .undone fun hcalm => hnew (calm_append hcalm).1
  | @failed e d' he =>
    refine ⟨new, .error e, t₁, Prog.exec_exceptBind_error hrun, hlog, hA, ?_⟩
    rw [hc]
    exact .failed fun hcalm => by rw [he hcalm]; rfl
  | @undone e hnew =>
    refine ⟨new, .error e, t₁, Prog.exec_exceptBind_error hrun, hlog, hA, ?_⟩
    rw [hc]
    exact .undone hnew

theorem forM {l : List γ} {q : γ → Script S ε R PUnit}
    (hq : ∀ c, Steady E A (q c)) : Steady E A (l.forM q) := by
  induction l with
  | nil => exact pure _
  | cons c l ih => exact (hq c).bind fun _ => ih

end Steady

/-! ## Outside of a transaction -/

/-- What becomes of a program with the given meaning that finds the data
`d`. -/
inductive Outcome (meaning : Except ε (α × D)) (d : D)
    (new : List (Command S × Fate)) : Except ε α → Conn D → Prop
  | done {a : α} {d' : D} (h : meaning = .ok (a, d'))
    (hnew : (.commit, .fails) ∉ new) : Outcome meaning d new (.ok a) ⟨d', none⟩
  | failed {e : ε} (h : Calm new → meaning = .error e)
    (hnew : (.commit, .fails) ∉ new) : Outcome meaning d new (.error e) ⟨d, none⟩
  | stuck {e : ε} {d' : D} (hnew : (.commit, .fails) ∈ new) :
    Outcome meaning d new (.error e) ⟨d', some d⟩

/-- The program `p` does what it means in one piece or not at all, unless a
`COMMIT` fails and leaves the transaction open.  Its commands satisfy `A`. -/
def Atomic (E : Engine D S ε R) (A : Command S → Prop) (p : Script S ε R α) :
    Prop :=
  ∀ (t : Trial D S) (d : D), t.conn = ⟨d, none⟩ →
    ∃ new r t', p.run.exec E.step t = (r, t') ∧ t'.log = new ++ t.log ∧
      (∀ x ∈ new, A x.1) ∧ Outcome (p.eval E d) d new r t'.conn

namespace Atomic

variable {E : Engine D S ε R} {A : Command S → Prop}

theorem pure (a : α) : Atomic E A (pure a) := by
  intro t d ht
  exact ⟨[], .ok a, t, rfl, rfl, List.forall_mem_nil _,
    ht ▸ .done rfl List.not_mem_nil⟩

theorem throw (e : ε) : Atomic E A (throw e : Script S ε R α) := by
  intro t d ht
  exact ⟨[], .error e, t, rfl, rfl, List.forall_mem_nil _,
    ht ▸ .failed (fun _ => rfl) List.not_mem_nil⟩

theorem statement {s : S} (hs : A (.run s)) : Atomic E A (statement s) := by
  intro t d ht
  have hcommit : (.commit, .fails) ∉ [(Command.run s, t.fates 0)] := by
    intro h
    cases List.mem_singleton.1 h
  refine ⟨[(.run s, t.fates 0)], _, _, rfl, rfl, ?_, ?_⟩
  · intro x hx
    rw [List.mem_singleton.1 hx]
    exact hs
  · have hcalm : Calm [(Command.run s, t.fates 0)] → t.fates 0 = .succeeds :=
      fun h => h _ (List.mem_singleton.2 rfl)
    change Outcome _ _ _ (E.answer (.run s) (t.fates 0) t.conn).1
      (E.answer (.run s) (t.fates 0) t.conn).2
    rw [ht, eval_statement]
    generalize t.fates 0 = fate at hcommit hcalm
    cases fate with
    | succeeds =>
      dsimp only [Engine.answer]
      cases E.exec s d with
      | ok x => exact .done rfl hcommit
      | error e => exact .failed (fun _ => rfl) hcommit
    | fails => exact .failed (fun h => nomatch hcalm h) hcommit
    | undone => exact .failed (fun h => nomatch hcalm h) hcommit

/-- A program in front that leaves the data as they are. -/
theorem bind {p : Script S ε R α} {q : α → Script S ε R β}
    (hp : Atomic E A p) (hread : ∀ d a d', p.eval E d = .ok (a, d') → d' = d)
    (hq : ∀ a, Atomic E A (q a)) : Atomic E A (p >>= q) := by
  intro t d ht
  obtain ⟨new, r, t₁, hrun, hlog, hA, hout⟩ := hp t d ht
  rw [eval_bind]
  generalize hc : t₁.conn = c at hout
  cases hout with
  | @done a d' hd hnew =>
    obtain rfl := hread d a d' hd
    obtain ⟨new', r', t₂, hrun', hlog', hA', hout'⟩ := hq a t₁ d' hc
    refine ⟨new' ++ new, r', t₂, ?_, ?_, List.forall_mem_append.2 ⟨hA', hA⟩, ?_⟩
    · rw [Prog.exec_exceptBind_ok hrun, hrun']
    · rw [hlog', hlog, List.append_assoc]
    · rw [hd]
      change Outcome ((q a).eval E d') _ _ _ _
      have hcommit : (.commit, .fails) ∉ new' →
          (.commit, .fails) ∉ new' ++ new :=
        fun hnew' h => (List.mem_append.1 h).elim hnew' hnew
      generalize t₂.conn = c' at hout'
      cases hout' with
      | done h hnew' => exact .done h (hcommit hnew')
      | failed h hnew' =>
        exact .failed (fun hcalm => h (calm_append hcalm).1) (hcommit hnew')
      | stuck hnew' => exact .stuck (List.mem_append_left _ hnew')
  | @failed e he hnew =>
    refine ⟨new, .error e, t₁, Prog.exec_exceptBind_error hrun, hlog, hA, ?_⟩
    rw [hc]
    exact .failed (fun hcalm => by rw [he hcalm]; rfl) hnew
  | @stuck e d' hnew =>
    refine ⟨new, .error e, t₁, Prog.exec_exceptBind_error hrun, hlog, hA, ?_⟩
    rw [hc]
    exact .stuck hnew

/-- A change of the result at the end. -/
theorem map {p : Script S ε R α} (hp : Atomic E A p) (F : α → β) :
    Atomic E A (p >>= fun a => Pure.pure (F a)) := by
  intro t d ht
  obtain ⟨new, r, t₁, hrun, hlog, hA, hout⟩ := hp t d ht
  rw [eval_bind]
  generalize hc : t₁.conn = c at hout
  cases hout with
  | @done a d' hd hnew =>
    refine ⟨new, .ok (F a), t₁, Prog.exec_exceptBind_ok hrun, hlog, hA, ?_⟩
    rw [hc]
    exact .done (by rw [hd]; rfl) hnew
  | @failed e he hnew =>
    refine ⟨new, .error e, t₁, Prog.exec_exceptBind_error hrun, hlog, hA, ?_⟩
    rw [hc]
    exact .failed (fun hcalm => by rw [he hcalm]; rfl) hnew
  | @stuck e d' hnew =>
    refine ⟨new, .error e, t₁, Prog.exec_exceptBind_error hrun, hlog, hA, ?_⟩
    rw [hc]
    exact .stuck hnew

end Atomic

/-! ## A transaction -/

section Transaction

variable {E : Engine D S ε R} {body : Script S ε R α} {t t₁ t₂ : Trial D S}

theorem exec_transaction_begin {e : ε}
    (hbegin : E.step .begin t = (.error e, t₁)) :
    (transaction body).run.exec E.step t = (.error e, t₁) :=
  Prog.exec_exceptBind_error hbegin

theorem exec_transaction_body (hbegin : E.step .begin t = (.ok (), t₁)) :
    (transaction body).run.exec E.step t =
      (match (body.run.exec E.step t₁).1 with
        | .ok val => ExceptT.mk (Prog.perform Command.commit) >>= fun _ => pure val
        | .error e => ExceptT.mk (Prog.perform Command.rollback) >>=
            fun _ => throw e : Script S ε R α).run.exec E.step
        (body.run.exec E.step t₁).2 := by
  have hexec : (ExceptT.mk (Prog.perform Command.begin) :
    Script S ε R Unit).run.exec E.step t = (.ok (), t₁) := hbegin
  have hlift : (ExceptT.lift body.run : Script S ε R (Except ε α)).run.exec
      E.step t₁ =
      (.ok (body.run.exec E.step t₁).1, (body.run.exec E.step t₁).2) :=
    Prog.exec_bind E.step body.run (fun r => pure (Except.ok r)) t₁
  unfold transaction
  rw [Prog.exec_exceptBind_ok hexec, Prog.exec_exceptBind_ok hlift]

theorem exec_transaction_commit {val : α}
    (hbegin : E.step .begin t = (.ok (), t₁))
    (hbody : body.run.exec E.step t₁ = (.ok val, t₂)) :
    (transaction body).run.exec E.step t =
      ((E.step .commit t₂).1.map fun _ => val, (E.step .commit t₂).2) := by
  rw [exec_transaction_body hbegin, hbody]
  change Prog.exec E.step (ExceptT.bindCont (fun _ => pure val)
    (E.step .commit t₂).1) (E.step .commit t₂).2 = _
  cases (E.step .commit t₂).1 with
  | ok b => rfl
  | error e => rfl

theorem exec_transaction_rollback {e : ε}
    (hbegin : E.step .begin t = (.ok (), t₁))
    (hbody : body.run.exec E.step t₁ = (.error e, t₂)) :
    (transaction body).run.exec E.step t =
      ((E.step .rollback t₂).1.bind fun _ => .error e,
        (E.step .rollback t₂).2) := by
  rw [exec_transaction_body hbegin, hbody]
  change Prog.exec E.step (ExceptT.bindCont (fun _ => throw e)
    (E.step .rollback t₂).1) (E.step .rollback t₂).2 = _
  cases (E.step .rollback t₂).1 with
  | ok b => rfl
  | error e => rfl

/-- The log of a transaction with the statements `new`: `begun` is the fate of
its `BEGIN`, and `last` is its last command. -/
def frame (last : Command S × Fate) (new : List (Command S × Fate))
    (begun : Fate) : List (Command S × Fate) :=
  last :: (new ++ [(.begin, begun)])

variable {A : Command S → Prop} {last : Command S × Fate}
  {new : List (Command S × Fate)} {begun : Fate}

theorem forall_mem_frame (hbegin : A .begin) (hlast : A last.1)
    (hnew : ∀ x ∈ new, A x.1 ∧ ∃ s, x.1 = .run s) :
    ∀ x ∈ frame last new begun, A x.1 := by
  refine List.forall_mem_cons.2 ⟨hlast, List.forall_mem_append.2
    ⟨fun x hx => (hnew x hx).1, fun x hx => ?_⟩⟩
  rw [List.mem_singleton.1 hx]
  exact hbegin

theorem calm_frame (h : Calm (frame last new begun)) :
    last.2 = .succeeds ∧ Calm new := by
  obtain ⟨hlast, h⟩ := List.forall_mem_cons.1 h
  exact ⟨hlast, (calm_append h).1⟩

theorem commit_mem_frame (hnew : ∀ x ∈ new, A x.1 ∧ ∃ s, x.1 = .run s)
    (h : (.commit, .fails) ∈ frame last new begun) :
    last = (.commit, .fails) := by
  rcases List.mem_cons.1 h with h | h
  · exact h.symm
  · rcases List.mem_append.1 h with h | h
    · obtain ⟨_, s, hs⟩ := hnew _ h
      cases hs
    · cases List.mem_singleton.1 h

/-- A transaction that has begun does what its statements mean, or nothing,
unless its `COMMIT` fails and leaves it open. -/
theorem Steady.exec_transaction (hbody : Steady E A body)
    (hA : A .begin ∧ A .commit ∧ A .rollback) {d : D}
    (hbegin : E.step .begin t = (.ok (), t.after .begin ⟨d, some d⟩)) :
    ∃ new r t', (transaction body).run.exec E.step t = (r, t') ∧
      t'.log = new ++ t.log ∧ (∀ x ∈ new, A x.1) ∧
      Outcome (Script.eval E body d) d new r t'.conn := by
  obtain ⟨new, r, t₂, hrun, hlog, hnew, hin⟩ :=
    hbody (t.after .begin ⟨d, some d⟩) d d rfl
  have hlogs : ∀ (o : Command S) (c : Conn D), (t₂.after o c).log =
      frame (o, t₂.fates 0) new (t.fates 0) ++ t.log := by
    intro o c
    change (o, t₂.fates 0) :: t₂.log = _
    rw [hlog]
    change _ = (o, t₂.fates 0) :: (new ++ [(.begin, t.fates 0)]) ++ t.log
    rw [List.cons_append, List.append_assoc]
    rfl
  generalize hc : t₂.conn = c at hin
  cases hin with
  | @done a d' hd =>
    refine ⟨_, _, _, exec_transaction_commit hbegin hrun, hlogs _ _,
      forall_mem_frame hA.1 hA.2.1 hnew, ?_⟩
    change Outcome _ _ _ ((E.answer .commit (t₂.fates 0) t₂.conn).1.map
      fun _ => a) (E.answer .commit (t₂.fates 0) t₂.conn).2
    rw [hc]
    cases t₂.fates 0 with
    | succeeds => exact .done hd fun h => nomatch commit_mem_frame hnew h
    | fails => exact .stuck List.mem_cons_self
    | undone =>
      exact .failed (fun h => nomatch (calm_frame h).1) fun h =>
        nomatch commit_mem_frame hnew h
  | @failed e d' he =>
    refine ⟨_, _, _, exec_transaction_rollback hbegin hrun, hlogs _ _,
      forall_mem_frame hA.1 hA.2.2 hnew, ?_⟩
    change Outcome _ _ _ ((E.answer .rollback (t₂.fates 0) t₂.conn).1.bind
      fun _ => .error e) (E.answer .rollback (t₂.fates 0) t₂.conn).2
    rw [hc]
    exact .failed (fun h => he (calm_frame h).2) fun h =>
      nomatch commit_mem_frame hnew h
  | @undone e hfault =>
    refine ⟨_, _, _, exec_transaction_rollback hbegin hrun, hlogs _ _,
      forall_mem_frame hA.1 hA.2.2 hnew, ?_⟩
    change Outcome _ _ _ ((E.answer .rollback (t₂.fates 0) t₂.conn).1.bind
      fun _ => .error e) (E.answer .rollback (t₂.fates 0) t₂.conn).2
    rw [hc]
    exact .failed (fun h => (hfault (calm_frame h).2).elim) fun h =>
      nomatch commit_mem_frame hnew h

theorem Steady.transaction (hbody : Steady E A body)
    (hA : A .begin ∧ A .commit ∧ A .rollback) :
    Atomic E A (transaction body) := by
  intro t d ht
  rw [eval_transaction]
  by_cases hbegin : t.fates 0 = .succeeds
  · refine hbody.exec_transaction hA ?_
    unfold Engine.step
    rw [hbegin, ht]
    rfl
  · -- There is no transaction then.
    have hstep : E.step .begin t =
        (.error E.failure, t.after .begin ⟨d, none⟩) := by
      unfold Engine.step
      rw [ht]
      cases hfate : t.fates 0 with
      | succeeds => exact absurd hfate hbegin
      | fails => rfl
      | undone => rfl
    refine ⟨[(.begin, t.fates 0)], _, _, exec_transaction_begin hstep, rfl,
      ?_, .failed ?_ ?_⟩
    · intro x hx
      rw [List.mem_singleton.1 hx]
      exact hA.1
    · intro h
      exact absurd (h _ (List.mem_singleton.2 rfl)) hbegin
    · intro h
      cases List.mem_singleton.1 h

end Transaction

end Sql
