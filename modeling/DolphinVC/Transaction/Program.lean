import Mathlib.Logic.Basic

/-!
# Programs over a transactional store

A program is the tree of statements that one session issues: it reads the store,
stages writes in memory, flushes or commits them, and calls the outside world.
Reads, flushes, commits and calls can raise, so their continuations receive an
`Except`. The tree says nothing about what other sessions do in between; that is
the business of the semantics in `Transaction.Session` and `Transaction.World`.

`Tx` adds the exceptions of the programming language on top, so source code with
`raise`, `try` and early `return` can be written down as it stands.

`σ` is the store, `ω` a single write, `ε` an exception, `μ` an external call.
-/

namespace Transaction

inductive Program (σ ω ε μ α : Type) : Type where
  | done (result : α)
  | query (next : Except ε σ → Program σ ω ε μ α)
  | stage (w : ω) (next : Program σ ω ε μ α)
  | flush (next : Except ε Unit → Program σ ω ε μ α)
  | commit (next : Except ε Unit → Program σ ω ε μ α)
  | call (m : μ) (next : Except ε Unit → Program σ ω ε μ α)

namespace Program

variable {σ ω ε μ α β γ : Type}

def bind (f : α → Program σ ω ε μ β) : Program σ ω ε μ α → Program σ ω ε μ β
  | .done a => f a
  | .query k => .query fun r => bind f (k r)
  | .stage w k => .stage w (bind f k)
  | .flush k => .flush fun r => bind f (k r)
  | .commit k => .commit fun r => bind f (k r)
  | .call m k => .call m fun r => bind f (k r)

instance : Monad (Program σ ω ε μ) where
  pure := .done
  bind p f := p.bind f

@[simp] theorem pure_eq (a : α) : (pure a : Program σ ω ε μ α) = .done a := rfl

@[simp] theorem bind_eq (p : Program σ ω ε μ α) (f : α → Program σ ω ε μ β) :
    p >>= f = p.bind f := rfl

@[simp] theorem done_bind (a : α) (f : α → Program σ ω ε μ β) :
    (Program.done a).bind f = f a := rfl

@[simp] theorem query_bind (k : Except ε σ → Program σ ω ε μ α) (f : α → Program σ ω ε μ β) :
    (Program.query k).bind f = .query fun r => (k r).bind f := rfl

@[simp] theorem stage_bind (w : ω) (k : Program σ ω ε μ α) (f : α → Program σ ω ε μ β) :
    (Program.stage w k).bind f = .stage w (k.bind f) := rfl

@[simp] theorem flush_bind (k : Except ε Unit → Program σ ω ε μ α)
    (f : α → Program σ ω ε μ β) :
    (Program.flush k).bind f = .flush fun r => (k r).bind f := rfl

@[simp] theorem commit_bind (k : Except ε Unit → Program σ ω ε μ α)
    (f : α → Program σ ω ε μ β) :
    (Program.commit k).bind f = .commit fun r => (k r).bind f := rfl

@[simp] theorem call_bind (m : μ) (k : Except ε Unit → Program σ ω ε μ α)
    (f : α → Program σ ω ε μ β) :
    (Program.call m k).bind f = .call m fun r => (k r).bind f := rfl

theorem bind_done (p : Program σ ω ε μ α) : p.bind .done = p := by
  induction p with
  | done a => rfl
  | query k ih => exact congrArg Program.query (funext ih)
  | stage w k ih => exact congrArg (Program.stage w) ih
  | flush k ih => exact congrArg Program.flush (funext ih)
  | commit k ih => exact congrArg Program.commit (funext ih)
  | call m k ih => exact congrArg (Program.call m) (funext ih)

theorem bind_assoc (p : Program σ ω ε μ α) (f : α → Program σ ω ε μ β)
    (g : β → Program σ ω ε μ γ) : (p.bind f).bind g = p.bind fun a => (f a).bind g := by
  induction p with
  | done a => rfl
  | query k ih => exact congrArg Program.query (funext ih)
  | stage w k ih => exact congrArg (Program.stage w) ih
  | flush k ih => exact congrArg Program.flush (funext ih)
  | commit k ih => exact congrArg Program.commit (funext ih)
  | call m k ih => exact congrArg (Program.call m) (funext ih)

theorem lawfulMonad : LawfulMonad (Program σ ω ε μ) :=
  LawfulMonad.mk' _ (fun p => bind_done p) (fun _ _ => rfl) (fun p f g => bind_assoc p f g)

end Program

/-- A program that returns a value or raises. -/
abbrev Tx (σ ω ε μ : Type) := ExceptT ε (Program σ ω ε μ)

namespace Tx

variable {σ ω ε μ α β : Type}

/-- Read something off the session's view of the store. -/
def query (f : σ → α) : Tx σ ω ε μ α :=
  ExceptT.mk (.query fun r => .done (r.map f))

/-- Add a write to the session without sending it. -/
def stage (w : ω) : Tx σ ω ε μ Unit :=
  ExceptT.mk (.stage w (.done (.ok ())))

/-- Send the staged writes inside the open transaction. -/
def flush : Tx σ ω ε μ Unit :=
  ExceptT.mk (.flush .done)

/-- Flush and end the transaction; the writes become visible to everyone. -/
def commit : Tx σ ω ε μ Unit :=
  ExceptT.mk (.commit .done)

/-- Call something outside the store that may raise. -/
def call (m : μ) : Tx σ ω ε μ Unit :=
  ExceptT.mk (.call m .done)

/-- Run the body for what it does. -/
def void (body : Tx σ ω ε μ α) : Tx σ ω ε μ Unit := do
  let _ ← body
  return ()

/-- Run the body and hand on how it ended. -/
def attempt (body : Tx σ ω ε μ α) : Tx σ ω ε μ (Except ε α) :=
  ExceptT.mk (body.run.bind fun r => .done (.ok r))

/-- Run the body and, whether it raises or not, the finalizer; an exception of
the finalizer replaces the body's. -/
def finally' (body : Tx σ ω ε μ α) (finalizer : Tx σ ω ε μ Unit) : Tx σ ω ε μ α :=
  ExceptT.mk (body.run.bind fun r => finalizer.run.bind fun
    | .ok () => .done r
    | .error e => .done (.error e))

end Tx
end Transaction
