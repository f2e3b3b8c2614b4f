import DolphinVC.Transaction.Commits

/-!
# The traces of a program

A trace lists what a program asked of its environment and how it was answered, in order.
`Program.Traces` lets the environment answer anything, so a statement about every trace of
a program holds in whatever world the program runs; `exec_traces` says so of a program that
runs alone. What a read returned is left out: a trace shows which statements went through
and what was written and called.

`Calls` bounds the external calls of a program without following its traces.
-/

namespace Transaction

variable {σ ω ε μ α β : Type}

/-- One statement and its answer. -/
inductive Event (ω ε μ : Type) where
  | queried (r : Except ε Unit)
  | staged (w : ω)
  | flushed (r : Except ε Unit)
  | committed (r : Except ε Unit)
  | called (m : μ) (r : Except ε Unit)

namespace Program

def Traces : Program σ ω ε μ α → List (Event ω ε μ) → α → Prop
  | .done a, t, b => t = [] ∧ a = b
  | .query k, t, b => ∃ r rest, t = .queried (r.map fun _ => ()) :: rest ∧ Traces (k r) rest b
  | .stage w k, t, b => ∃ rest, t = .staged w :: rest ∧ Traces k rest b
  | .flush k, t, b => ∃ r rest, t = .flushed r :: rest ∧ Traces (k r) rest b
  | .commit k, t, b => ∃ r rest, t = .committed r :: rest ∧ Traces (k r) rest b
  | .call m k, t, b => ∃ r rest, t = .called m r :: rest ∧ Traces (k r) rest b

variable {t : List (Event ω ε μ)}

/-- A trace of a sequence is cut where the first part ended. -/
theorem Traces.split {p : Program σ ω ε μ α} {f : α → Program σ ω ε μ β} {b : β}
    (h : (p.bind f).Traces t b) :
    ∃ t₁ a t₂, t = t₁ ++ t₂ ∧ p.Traces t₁ a ∧ (f a).Traces t₂ b := by
  induction p generalizing t with
  | done a => exact ⟨[], a, t, rfl, ⟨rfl, rfl⟩, h⟩
  | stage w k ih =>
      obtain ⟨rest, rfl, h⟩ := h
      obtain ⟨t₁, a, t₂, rfl, h₁, h₂⟩ := ih h
      exact ⟨_ :: t₁, a, t₂, rfl, ⟨t₁, rfl, h₁⟩, h₂⟩
  | query k ih | flush k ih | commit k ih | call m k ih =>
      obtain ⟨r, rest, rfl, h⟩ := h
      obtain ⟨t₁, a, t₂, rfl, h₁, h₂⟩ := ih r h
      exact ⟨_ :: t₁, a, t₂, rfl, ⟨r, t₁, rfl, h₁⟩, h₂⟩

theorem Traces.bind {p : Program σ ω ε μ α} {f : α → Program σ ω ε μ β} {a : α} {b : β}
    {t₁ t₂ : List (Event ω ε μ)} (h₁ : p.Traces t₁ a) (h₂ : (f a).Traces t₂ b) :
    (p.bind f).Traces (t₁ ++ t₂) b := by
  induction p generalizing t₁ with
  | done c =>
      obtain ⟨rfl, rfl⟩ := h₁
      exact h₂
  | stage w k ih =>
      obtain ⟨rest, rfl, h₁⟩ := h₁
      exact ⟨rest ++ t₂, rfl, ih h₁⟩
  | query k ih | flush k ih | commit k ih | call m k ih =>
      obtain ⟨r, rest, rfl, h₁⟩ := h₁
      exact ⟨r, rest ++ t₂, rfl, ih r h₁⟩

/-- A run alone is one of the traces. -/
theorem exec_traces (B : Backend σ ω ε) (p : Program σ ω ε μ α) (fs : List (Option ε)) (db : σ)
    (s : Session ω) : ∃ t, p.Traces t (p.exec B fs db s).result := by
  induction p generalizing fs db s with
  | done a => exact ⟨[], rfl, rfl⟩
  | query k ih =>
      obtain ⟨t, h⟩ := ih (s.query B db fs.head?.join) fs.tail db s
      exact ⟨_, _, t, rfl, h⟩
  | stage w k ih =>
      obtain ⟨t, h⟩ := ih fs db (s.stage w)
      exact ⟨_, t, rfl, h⟩
  | flush k ih =>
      obtain ⟨t, h⟩ := ih (s.flush B db fs.head?.join).1 fs.tail db (s.flush B db fs.head?.join).2
      exact ⟨_, _, t, rfl, h⟩
  | commit k ih =>
      obtain ⟨t, h⟩ := ih (s.commit B db fs.head?.join).1 fs.tail
        (s.commit B db fs.head?.join).2.2 (s.commit B db fs.head?.join).2.1
      exact ⟨_, _, t, rfl, h⟩
  | call m k ih =>
      obtain ⟨t, h⟩ := ih (Session.call fs.head?.join) fs.tail db s
      exact ⟨_, _, t, rfl, h⟩

/-- Every external call of the program has the property. -/
def Calls (M : μ → Prop) : Program σ ω ε μ α → Prop
  | .done _ => True
  | .query k => ∀ r, Calls M (k r)
  | .stage _ k => Calls M k
  | .flush k => ∀ r, Calls M (k r)
  | .commit k => ∀ r, Calls M (k r)
  | .call m k => M m ∧ ∀ r, Calls M (k r)

variable {M : μ → Prop}

theorem Calls.bind {p : Program σ ω ε μ α} {f : α → Program σ ω ε μ β} (hp : p.Calls M)
    (hf : ∀ a, (f a).Calls M) : (p.bind f).Calls M := by
  induction p with
  | done a => exact hf a
  | query k ih | flush k ih | commit k ih => exact fun r => ih r (hp r)
  | stage w k ih => exact ih hp
  | call m k ih => exact ⟨hp.1, fun r => ih r (hp.2 r)⟩

theorem Calls.traces {p : Program σ ω ε μ α} {a : α} (h : p.Calls M) (ht : p.Traces t a) {m : μ}
    {r : Except ε Unit} (hm : .called m r ∈ t) : M m := by
  induction p generalizing t with
  | done b =>
      obtain ⟨rfl, -⟩ := ht
      cases hm
  | stage w k ih =>
      obtain ⟨rest, rfl, ht⟩ := ht
      cases hm with
      | tail _ hm => exact ih h ht hm
  | query k ih | flush k ih | commit k ih =>
      obtain ⟨r, rest, rfl, ht⟩ := ht
      cases hm with
      | tail _ hm => exact ih r (h r) ht hm
  | call n k ih =>
      obtain ⟨r, rest, rfl, ht⟩ := ht
      cases hm with
      | head => exact h.1
      | tail _ hm => exact ih r (h.2 r) ht hm

end Program

namespace Tx

/-- `Program.Traces` for a program that may raise. -/
def Traces (p : Tx σ ω ε μ α) (t : List (Event ω ε μ)) (r : Except ε α) : Prop :=
  p.run.Traces t r

variable {t : List (Event ω ε μ)}

@[simp] theorem traces_pure {a : α} {r : Except ε α} :
    Traces (pure a : Tx σ ω ε μ α) t r ↔ t = [] ∧ .ok a = r := Iff.rfl

@[simp] theorem traces_throw {e : ε} {r : Except ε α} :
    Traces (throw e : Tx σ ω ε μ α) t r ↔ t = [] ∧ .error e = r := Iff.rfl

theorem Traces.query {f : σ → α} {r : Except ε α} (h : Traces (query f : Tx σ ω ε μ α) t r) :
    ∃ answer : Except ε σ, t = [.queried (answer.map fun _ => ())] ∧ answer.map f = r := by
  obtain ⟨answer, rest, rfl, rfl, h⟩ := h
  exact ⟨answer, rfl, h⟩

@[simp] theorem traces_stage {w : ω} {r : Except ε Unit} :
    Traces (stage w : Tx σ ω ε μ Unit) t r ↔ t = [.staged w] ∧ .ok () = r := by
  constructor
  · rintro ⟨rest, rfl, rfl, h⟩
    exact ⟨rfl, h⟩
  · rintro ⟨rfl, h⟩
    exact ⟨[], rfl, rfl, h⟩

@[simp] theorem traces_flush {r : Except ε Unit} :
    Traces (flush : Tx σ ω ε μ Unit) t r ↔ t = [.flushed r] := by
  constructor
  · rintro ⟨r, rest, rfl, rfl, rfl⟩
    rfl
  · rintro rfl
    exact ⟨r, [], rfl, rfl, rfl⟩

@[simp] theorem traces_commit {r : Except ε Unit} :
    Traces (commit : Tx σ ω ε μ Unit) t r ↔ t = [.committed r] := by
  constructor
  · rintro ⟨r, rest, rfl, rfl, rfl⟩
    rfl
  · rintro rfl
    exact ⟨r, [], rfl, rfl, rfl⟩

@[simp] theorem traces_call {m : μ} {r : Except ε Unit} :
    Traces (call m : Tx σ ω ε μ Unit) t r ↔ t = [.called m r] := by
  constructor
  · rintro ⟨r, rest, rfl, rfl, rfl⟩
    rfl
  · rintro rfl
    exact ⟨r, [], rfl, rfl, rfl⟩

theorem Traces.split {p : Tx σ ω ε μ α} {f : α → Tx σ ω ε μ β} {r : Except ε β}
    (h : Traces (p >>= f) t r) :
    (∃ e, Traces p t (.error e) ∧ .error e = r) ∨
      ∃ t₁ a t₂, t = t₁ ++ t₂ ∧ Traces p t₁ (.ok a) ∧ Traces (f a) t₂ r := by
  obtain ⟨t₁, a, t₂, rfl, h₁, h₂⟩ := Program.Traces.split h
  cases a with
  | error e =>
      obtain ⟨rfl, h₂⟩ := h₂
      exact .inl ⟨e, by rwa [List.append_nil], h₂⟩
  | ok a => exact .inr ⟨t₁, a, t₂, rfl, h₁, h₂⟩

theorem Traces.bind {p : Tx σ ω ε μ α} {f : α → Tx σ ω ε μ β} {a : α} {r : Except ε β}
    {t₁ t₂ : List (Event ω ε μ)} (h₁ : Traces p t₁ (.ok a)) (h₂ : Traces (f a) t₂ r) :
    Traces (p >>= f) (t₁ ++ t₂) r := Program.Traces.bind h₁ h₂

/-- A staged write always goes through. -/
theorem Traces.stage_split {w : ω} {f : Unit → Tx σ ω ε μ β} {r : Except ε β}
    (h : Traces (stage w >>= f) t r) : ∃ rest, t = .staged w :: rest ∧ Traces (f ()) rest r := by
  obtain ⟨e, he, -⟩ | ⟨t₁, a, t₂, rfl, h₁, h₂⟩ := h.split
  · cases (traces_stage.mp he).2
  · obtain ⟨rfl, -⟩ := traces_stage.mp h₁
    exact ⟨t₂, rfl, h₂⟩

/-- After an attempt the program goes on with how it ended. -/
theorem Traces.attempt_split {p : Tx σ ω ε μ α} {f : Except ε α → Tx σ ω ε μ β} {r : Except ε β}
    (h : Traces (attempt p >>= f) t r) :
    ∃ t₁ ended t₂, t = t₁ ++ t₂ ∧ Traces p t₁ ended ∧ Traces (f ended) t₂ r := by
  obtain ⟨t₁, a, t₂, rfl, h₁, h₂⟩ := Program.Traces.split h
  obtain ⟨t₁, ended, t₃, rfl, hp, rfl, rfl⟩ := Program.Traces.split h₁
  exact ⟨t₁, ended, t₂, by rw [List.append_nil], hp, h₂⟩

/-- The finalizer runs after either end of the body. -/
theorem Traces.finally' {p : Tx σ ω ε μ α} {finalizer : Tx σ ω ε μ Unit} {r : Except ε α}
    (h : Traces (finally' p finalizer) t r) :
    ∃ t₁ ended t₂ closed, t = t₁ ++ t₂ ∧ Traces p t₁ ended ∧ Traces finalizer t₂ closed ∧
      ((∃ e, closed = .error e ∧ .error e = r) ∨ closed = .ok () ∧ ended = r) := by
  obtain ⟨t₁, ended, t₂, rfl, h₁, h₂⟩ := Program.Traces.split h
  obtain ⟨t₂, closed, t₃, rfl, hclosed, h₃⟩ := Program.Traces.split h₂
  cases closed with
  | error e =>
      obtain ⟨rfl, h₃⟩ := h₃
      exact ⟨t₁, ended, t₂, _, by rw [List.append_nil], h₁, hclosed, .inl ⟨e, rfl, h₃⟩⟩
  | ok u =>
      obtain ⟨rfl, h₃⟩ := h₃
      exact ⟨t₁, ended, t₂, _, by rw [List.append_nil], h₁, hclosed, .inr ⟨rfl, h₃⟩⟩

/-- `Program.Calls` for a program that may raise. -/
def Calls (M : μ → Prop) (p : Tx σ ω ε μ α) : Prop := p.run.Calls M

variable {M : μ → Prop}

theorem Calls.traces {p : Tx σ ω ε μ α} {r : Except ε α} (h : Calls M p) (ht : Traces p t r)
    {m : μ} {answer : Except ε Unit} (hm : .called m answer ∈ t) : M m :=
  Program.Calls.traces h ht hm

theorem Calls.pure (a : α) : Calls M (pure a : Tx σ ω ε μ α) := trivial

theorem Calls.throw (e : ε) : Calls M (throw e : Tx σ ω ε μ α) := trivial

theorem Calls.query (f : σ → α) : Calls M (Tx.query f : Tx σ ω ε μ α) := fun _ => trivial

theorem Calls.stage (w : ω) : Calls M (Tx.stage w : Tx σ ω ε μ Unit) := trivial

theorem Calls.flush : Calls M (Tx.flush : Tx σ ω ε μ Unit) := fun _ => trivial

theorem Calls.commit : Calls M (Tx.commit : Tx σ ω ε μ Unit) := fun _ => trivial

theorem Calls.call {m : μ} (hm : M m) : Calls M (Tx.call m : Tx σ ω ε μ Unit) :=
  ⟨hm, fun _ => trivial⟩

theorem Calls.bind {p : Tx σ ω ε μ α} {f : α → Tx σ ω ε μ β} (hp : Calls M p)
    (hf : ∀ a, Calls M (f a)) : Calls M (p >>= f) := by
  refine Program.Calls.bind hp ?_
  rintro (e | a)
  · trivial
  · exact hf a

theorem Calls.attempt {p : Tx σ ω ε μ α} (hp : Calls M p) : Calls M (attempt p) :=
  Program.Calls.bind hp fun _ => trivial

theorem Calls.ite {c : Prop} [Decidable c] {p q : Tx σ ω ε μ α} (hp : c → Calls M p)
    (hq : ¬c → Calls M q) : Calls M (if c then p else q) := by
  by_cases h : c
  · rw [if_pos h]
    exact hp h
  · rw [if_neg h]
    exact hq h

end Tx
end Transaction
