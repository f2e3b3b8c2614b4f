import DolphinVC.Transaction.Program
import Mathlib.Data.List.Basic

/-!
# Sessions and the execution of one program

A session keeps the writes it has flushed inside its open transaction and those it
has only staged. It reads the committed store with its flushed writes on top, so
it sees what others have committed meanwhile (read committed) and not its own
unflushed changes. A flush or commit that fails leaves the session dead: every
later statement of it raises until a rollback, and no program here rolls back
before its session is closed. `committed` is the history of the write sets the
session has committed; nothing reads it but statements about runs.

A fault is an exception the environment raises at a statement. `Program.exec`
runs a whole program with nobody else around; it takes one fault (or none) per
statement that can raise.
-/

namespace Transaction

/-- What a write does to the store, or the constraint it violates. `dead` is the
exception of a statement issued on a dead session. -/
structure Backend (σ ω ε : Type) where
  apply : σ → ω → Except ε σ
  dead : ε

structure Session (ω : Type) where
  flushed : List ω := []
  dirty : List ω := []
  failed : Bool := false
  committed : List (List ω) := []

/-- What a session has committed, set by set, and what its next commit would add. -/
structure Journal (ω : Type) where
  committed : List (List ω) := []
  pending : List ω := []

namespace Journal

variable {ω : Type}

def stage (j : Journal ω) (w : ω) : Journal ω := { j with pending := j.pending ++ [w] }

def commit (j : Journal ω) : Journal ω := { committed := j.committed ++ [j.pending] }

@[simp] theorem pending_stage (j : Journal ω) (w : ω) :
    (j.stage w).pending = j.pending ++ [w] := rfl

@[simp] theorem committed_stage (j : Journal ω) (w : ω) :
    (j.stage w).committed = j.committed := rfl

@[simp] theorem pending_commit (j : Journal ω) : j.commit.pending = [] := rfl

@[simp] theorem committed_commit (j : Journal ω) :
    j.commit.committed = j.committed ++ [j.pending] := rfl

end Journal

variable {σ ω ε μ α β : Type}

namespace Backend

/-- Apply a write set in order; the first violated constraint wins. -/
def applyAll (B : Backend σ ω ε) : σ → List ω → Except ε σ
  | db, [] => .ok db
  | db, w :: ws => match B.apply db w with
    | .ok db' => B.applyAll db' ws
    | .error e => .error e

variable {B : Backend σ ω ε} {db db' : σ} {ws vs : List ω} {w : ω}

@[simp] theorem applyAll_nil : B.applyAll db [] = .ok db := rfl

theorem applyAll_cons_eq_ok :
    B.applyAll db (w :: ws) = .ok db' ↔
      ∃ mid, B.apply db w = .ok mid ∧ B.applyAll mid ws = .ok db' := by
  simp only [applyAll]
  cases B.apply db w with
  | ok mid => simp
  | error e => simp

theorem applyAll_append_eq_ok :
    B.applyAll db (ws ++ vs) = .ok db' ↔
      ∃ mid, B.applyAll db ws = .ok mid ∧ B.applyAll mid vs = .ok db' := by
  induction ws generalizing db with
  | nil => simp
  | cons w ws ih =>
      simp only [List.cons_append, applyAll_cons_eq_ok, ih]
      constructor
      · rintro ⟨a, ha, b, hb, hc⟩
        exact ⟨b, ⟨a, ha, hb⟩, hc⟩
      · rintro ⟨b, ⟨a, ha, hb⟩, hc⟩
        exact ⟨a, ha, b, hb, hc⟩

@[simp] theorem applyAll_singleton : B.applyAll db [w] = B.apply db w := by
  simp only [applyAll]
  cases B.apply db w with
  | ok mid => rfl
  | error e => rfl

/-- A property that every write of the set keeps survives the set. -/
theorem applyAll_inv {P : σ → Prop} {Φ : ω → Prop}
    (keep : ∀ db w db', Φ w → P db → B.apply db w = .ok db' → P db')
    (hws : ∀ w ∈ ws, Φ w) (hp : P db) (h : B.applyAll db ws = .ok db') : P db' := by
  induction ws generalizing db with
  | nil =>
      cases h
      exact hp
  | cons w ws ih =>
      obtain ⟨mid, hw, hrest⟩ := applyAll_cons_eq_ok.mp h
      exact ih (fun v hv => hws v (List.mem_cons_of_mem w hv))
        (keep db w mid (hws w List.mem_cons_self) hp hw) hrest

end Backend

namespace Session

variable (B : Backend σ ω ε) (db : σ) (fault : Option ε) (s : Session ω)

/-- The writes a commit would make visible, in order. -/
def pending : List ω := s.flushed ++ s.dirty

def journal : Journal ω := { committed := s.committed, pending := s.pending }

def stage (w : ω) : Session ω := { s with dirty := s.dirty ++ [w] }

/-- Read the store as this session sees it. -/
def query : Except ε σ :=
  if s.failed then .error B.dead
  else match fault with
    | some e => .error e
    | none => B.applyAll db s.flushed

/-- The outcome of sending the pending writes: the store with them applied. -/
def send : Except ε σ :=
  if s.failed then .error B.dead
  else match fault with
    | some e => .error e
    | none => B.applyAll db s.pending

def flush : Except ε Unit × Session ω :=
  match s.send B db fault with
  | .ok _ => (.ok (), { s with flushed := s.pending, dirty := [] })
  | .error e => (.error e, { s with failed := true })

def commit : Except ε Unit × Session ω × σ :=
  match s.send B db fault with
  | .ok db' => (.ok (), { committed := s.committed ++ [s.pending] }, db')
  | .error e => (.error e, { s with failed := true }, db)

/-- An external call raises exactly when the environment says so. -/
def call (fault : Option ε) : Except ε Unit :=
  match fault with
  | some e => .error e
  | none => .ok ()

@[simp] theorem pending_stage (w : ω) : (s.stage w).pending = s.pending ++ [w] := by
  simp [pending, stage]

@[simp] theorem journal_stage (w : ω) : (s.stage w).journal = s.journal.stage w := by
  simp [journal, pending, Journal.stage, stage]

@[simp] theorem journal_empty : ({} : Session ω).journal = {} := rfl

@[simp] theorem failed_stage (w : ω) : (s.stage w).failed = s.failed := rfl

variable {B db fault s}

theorem send_eq_ok_iff {db' : σ} :
    s.send B db fault = .ok db' ↔
      s.failed = false ∧ fault = none ∧ B.applyAll db s.pending = .ok db' := by
  unfold send
  cases hf : s.failed with
  | true => simp
  | false => cases fault with
    | none => simp
    | some e => simp

end Session

/-- What is left when a program has run. -/
structure Outcome (σ ω ε α : Type) where
  result : α
  db : σ
  session : Session ω
  faults : List (Option ε)

/-- Run a program alone, from the given store and session. -/
def Program.exec (B : Backend σ ω ε) :
    Program σ ω ε μ α → List (Option ε) → σ → Session ω → Outcome σ ω ε α
  | .done a, fs, db, s => ⟨a, db, s, fs⟩
  | .query k, fs, db, s => exec B (k (s.query B db fs.head?.join)) fs.tail db s
  | .stage w k, fs, db, s => exec B k fs db (s.stage w)
  | .flush k, fs, db, s =>
      exec B (k (s.flush B db fs.head?.join).1) fs.tail db (s.flush B db fs.head?.join).2
  | .commit k, fs, db, s =>
      exec B (k (s.commit B db fs.head?.join).1) fs.tail
        (s.commit B db fs.head?.join).2.2 (s.commit B db fs.head?.join).2.1
  | .call _ k, fs, db, s => exec B (k (Session.call fs.head?.join)) fs.tail db s

theorem Program.exec_bind (B : Backend σ ω ε) (p : Program σ ω ε μ α)
    (f : α → Program σ ω ε μ β) (fs : List (Option ε)) (db : σ) (s : Session ω) :
    (p.bind f).exec B fs db s =
      (f (p.exec B fs db s).result).exec B (p.exec B fs db s).faults
        (p.exec B fs db s).db (p.exec B fs db s).session := by
  induction p generalizing fs db s with
  | done a => rfl
  | query k ih => exact ih _ _ _ _
  | stage w k ih => exact ih _ _ _
  | flush k ih => exact ih _ _ _ _
  | commit k ih => exact ih _ _ _ _
  | call m k ih => exact ih _ _ _ _

/-- One request served alone without faults: its answer and the committed store.
What it left uncommitted is discarded with its session. -/
def Tx.atomically (B : Backend σ ω ε) (p : Tx σ ω ε μ α) (db : σ) : Except ε α × σ :=
  ((p.run.exec B [] db {}).result, (p.run.exec B [] db {}).db)

end Transaction
