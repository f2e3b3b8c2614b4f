import DolphinVC.Transaction.Segment

/-!
# Assertions about the store as a session leaves it

Between two commits of a thread nothing interferes, so an assertion about the store with the
session's pending writes on top holds until the next statement. `Session.Foresees` is such an
assertion, under the proviso that the store itself keeps the invariant `I`; `Session.Sees` adds
that nothing waits to be flushed, so that the next look-up is answered from there.

`Tx.Foresight` is the triple over them: what may be committed or left behind by an exception
keeps `I`, and between two statements that cannot raise `I` may be broken.
-/

namespace Transaction

variable {σ ω ε μ α β γ : Type}

/-- The write set keeps the invariant. -/
def Backend.Preserved (B : Backend σ ω ε) (I : σ → Prop) (db : σ) (ws : List ω) : Prop :=
  ∀ db', B.applyAll db ws = .ok db' → I db → I db'

namespace Session

variable (B : Backend σ ω ε) (I F : σ → Prop) (db : σ) (s : Session ω)

def Foresees : Prop := s.Holds fun ws => ∀ view, B.applyAll db ws = .ok view → I db → F view

def Sees : Prop := s.Foresees B I F db ∧ (s.failed = true ∨ s.dirty = [])

variable {B I F db s} {G : σ → Prop}

theorem Foresees.mono (h : s.Foresees B I F db) (weaken : ∀ view, F view → G view) :
    s.Foresees B I G db :=
  Holds.mono h fun _ h' view happly hI => weaken view (h' view happly hI)

theorem Sees.mono (h : s.Sees B I F db) (weaken : ∀ view, F view → G view) : s.Sees B I G db :=
  ⟨h.1.mono weaken, h.2⟩

theorem foresees_of_failed (h : s.failed = true) : s.Foresees B I F db := Or.inl h

/-- A look-up of a session with nothing to flush is answered from what it foresees. -/
theorem Sees.and_eq {view : σ} (h : s.Sees B I F db) (hf : s.failed = false)
    (hview : B.applyAll db s.flushed = .ok view) (g : σ → γ) :
    s.Sees B I (fun v => F v ∧ g v = g view) db := by
  refine ⟨Or.inr fun v happly hI => ⟨?_, ?_⟩, h.2⟩
  · exact (h.1.resolve_left (by simp [hf])) v happly hI
  · have hpending : s.pending = s.flushed := by
      simp [pending, h.2.resolve_left (by simp [hf])]
    rw [hpending, hview] at happly
    rw [Except.ok.inj happly]

end Session

theorem preserved_invariant {B : Backend σ ω ε} {I : σ → Prop} {N : ω → Prop}
    (neutral : ∀ db w db', N w → I db → B.apply db w = .ok db' → I db') :
    SessionInvariant B (B.Preserved I) N fun db s => s.Foresees B I I db :=
  SessionInvariant.ofPending
    (fun db view happly hI => by
      cases happly
      exact hI)
    (fun db ws w hw h view happly hI => by
      obtain ⟨mid, hmid, hlast⟩ := Backend.applyAll_append_eq_ok.mp happly
      exact neutral mid w view hw (h mid hmid hI) (Backend.applyAll_singleton.symm.trans hlast))
    fun _ _ h => h

namespace Tx

variable (B : Backend σ ω ε) (I : σ → Prop)

/-- Started under `J`, the part ends under `K`; an exception leaves the invariant. -/
def Foresight (J : σ → Session ω → Prop) (p : Tx σ ω ε μ α) (K : α → σ → Session ω → Prop) :
    Prop :=
  Triple B (B.Preserved I) (fun db s => s.Foresees B I I db) J p K

variable {B I} {F G : σ → Prop} {J J' : σ → Session ω → Prop} {K K' : α → σ → Session ω → Prop}

theorem Foresight.consequence {p : Tx σ ω ε μ α} (h : Foresight B I J p K)
    (pre : ∀ db s, J' db s → J db s) (post : ∀ a db s, K a db s → K' a db s) :
    Foresight B I J' p K' := by
  intro db s hj
  refine (h db s (pre db s hj)).mono ?_
  rintro (e | a) db s h
  · exact h
  · exact post a db s h

theorem Foresight.bind {p : Tx σ ω ε μ α} {f : α → Tx σ ω ε μ β}
    {L : β → σ → Session ω → Prop} (hp : Foresight B I J p K)
    (hf : ∀ a, Foresight B I (K a) (f a) L) : Foresight B I J (p >>= f) L := Triple.bind hp hf

theorem Foresight.pure {a : α} (h : ∀ db s, J db s → K a db s) :
    Foresight B I J (pure a : Tx σ ω ε μ α) K := h

theorem Foresight.call {m : μ} (hI : ∀ db s, J db s → s.Foresees B I I db) :
    Foresight B I J (Tx.call m : Tx σ ω ε μ Unit) fun _ => J := by
  intro db s h r
  cases r with
  | error e => exact hI db s h
  | ok u => exact h

theorem Foresight.stage {w : ω} (hw : ∀ v v', F v → B.apply v w = .ok v' → G v') :
    Foresight B I (fun db s => s.Foresees B I F db) (Tx.stage w : Tx σ ω ε μ Unit)
      fun _ db s => s.Foresees B I G db := by
  intro db s h
  have hstage : (s.stage w).Foresees B I G db := by
    refine Session.Holds.stage h fun ws hws view happly hI => ?_
    obtain ⟨mid, hmid, hlast⟩ := Backend.applyAll_append_eq_ok.mp happly
    exact hw mid view (hws mid hmid hI) (Backend.applyAll_singleton.symm.trans hlast)
  exact hstage

theorem Foresight.flush :
    Foresight B I (fun db s => s.Foresees B I F db) (Tx.flush : Tx σ ω ε μ Unit)
      fun _ db s => s.Sees B I F db := by
  intro db s h fault
  simp only [Session.flush]
  split
  · refine ⟨?_, Or.inr rfl⟩
    exact h.imp_right fun hws => by simpa [Session.pending] using hws
  · exact Session.foresees_of_failed rfl

/-- What a look-up of a session with nothing to flush finds is foreseen from then on. -/
theorem Foresight.query (hF : ∀ v, F v → I v) (g : σ → γ) :
    Foresight B I (fun db s => s.Sees B I F db) (Tx.query g : Tx σ ω ε μ γ)
      fun a db s => s.Sees B I (fun v => F v ∧ g v = a) db := by
  intro db s h fault
  simp only [Session.query]
  cases hf : s.failed with
  | true => exact Session.foresees_of_failed hf
  | false =>
      cases fault with
      | some e => exact h.1.mono hF
      | none =>
          cases hv : B.applyAll db s.flushed with
          | error e => exact h.1.mono hF
          | ok view => exact h.and_eq hf hv g

/-- Statements that keep the assertion may be mixed with look-ups whose answers are not used. -/
theorem Stages.foresight {Φ : ω → Prop} {p : Tx σ ω ε μ α} (h : Stages Φ p)
    (hF : ∀ v, F v → I v) (keep : ∀ v w v', Φ w → F v → B.apply v w = .ok v' → F v') :
    Foresight B I (fun db s => s.Foresees B I F db) p fun _ db s => s.Foresees B I F db :=
  Stages.triple h
    (fun db ws w hw hws view happly hI => by
      obtain ⟨mid, hmid, hlast⟩ := Backend.applyAll_append_eq_ok.mp happly
      exact keep mid w view hw (hws mid hmid hI) (Backend.applyAll_singleton.symm.trans hlast))
    (fun db ws hws s hs => Or.inr fun view happly hI => by
      rw [hs] at happly
      exact hF view (hws view happly hI))
    fun _ _ hf => Or.inl hf

/-- A part that only reads leaves the session as it is. -/
theorem Reads.foresight {p : Tx σ ω ε μ α} (h : Reads p)
    (hI : ∀ db s, J db s → s.Foresees B I I db) : Foresight B I J p fun _ => J := by
  intro db s hj
  unfold Reads at h
  generalize p.run = prog at h
  induction prog with
  | done r =>
      cases r with
      | error e => exact hI db s hj
      | ok a => exact hj
  | query k ih => exact fun fault => ih _ (h _)
  | call m k ih => exact fun r => ih _ (h _)
  | stage w k => exact h.elim
  | flush k => exact h.elim
  | commit k => exact h.elim

theorem Foresight.keeps {p : Tx σ ω ε μ α}
    (h : Foresight B I (fun db s => s.Foresees B I I db) p fun _ db s => s.Foresees B I I db) :
    Keeps B (B.Preserved I) (fun db s => s.Foresees B I I db) p := Triple.keeps h

end Tx

end Transaction
