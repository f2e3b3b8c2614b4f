import DolphinVC.Transaction.Atomic

/-!
# Requests whose statements raise

`Tx.Always B Q p db s` says that running `p` alone from store `db` and session `s` ends in `Q`,
whichever of its statements raise. The rules go through a program as those of `Tx.WP` do, with one
more case at every statement.

A session that died commits nothing any more. So what a handler can still commit depends on whether
the body has raised with its session alive, which a body that only stages and commits never does
(`Tx.RaisesDead`).
-/

namespace Transaction

variable {σ ω ε μ α β : Type} {B : Backend σ ω ε} {fs : List (Option ε)} {db : σ} {s : Session ω}

namespace Tx

def Always (B : Backend σ ω ε) (Q : Except ε α → σ → Session ω → Prop) (p : Tx σ ω ε μ α)
    (db : σ) (s : Session ω) : Prop :=
  ∀ fs, Q (p.run.exec B fs db s).result (p.run.exec B fs db s).db (p.run.exec B fs db s).session

variable {Q Q' : Except ε α → σ → Session ω → Prop}

theorem Always.mono {p : Tx σ ω ε μ α} (h : Always B Q p db s)
    (weaken : ∀ r db' s', Q r db' s' → Q' r db' s') : Always B Q' p db s :=
  fun fs => weaken _ _ _ (h fs)

theorem exec_bind {p : Tx σ ω ε μ α} {f : α → Tx σ ω ε μ β} :
    (p >>= f).run.exec B fs db s = match (p.run.exec B fs db s).result with
      | .ok a => (f a).run.exec B (p.run.exec B fs db s).faults (p.run.exec B fs db s).db
          (p.run.exec B fs db s).session
      | .error e => { p.run.exec B fs db s with result := .error e } := by
  rw [ExceptT.run_bind, Program.bind_eq, Program.exec_bind]
  cases (p.run.exec B fs db s).result with
  | ok a => rfl
  | error e => rfl

theorem exec_tryCatch (p : Tx σ ω ε μ α) (handler : ε → Tx σ ω ε μ α) :
    (tryCatch p handler).run.exec B fs db s = match (p.run.exec B fs db s).result with
      | .ok a => { p.run.exec B fs db s with result := .ok a }
      | .error e => (handler e).run.exec B (p.run.exec B fs db s).faults (p.run.exec B fs db s).db
          (p.run.exec B fs db s).session := by
  obtain ⟨f, hrun, hok, herror⟩ : ∃ f : Except ε α → Program σ ω ε μ (Except ε α),
      (tryCatch p handler).run = p.run.bind f ∧ (∀ a, f (.ok a) = .done (.ok a)) ∧
        ∀ e, f (.error e) = (handler e).run := ⟨_, rfl, fun _ => rfl, fun _ => rfl⟩
  rw [hrun, Program.exec_bind]
  cases (p.run.exec B fs db s).result with
  | ok a => rw [hok]; rfl
  | error e => rw [herror]

theorem Reads.exec_bind {p : Tx σ ω ε μ α} {f : α → Tx σ ω ε μ β} (h : Reads p) :
    (p >>= f).run.exec B fs db s = match (p.run.exec B fs db s).result with
      | .ok a => (f a).run.exec B (p.run.exec B fs db s).faults db s
      | .error e => { result := .error e, db, session := s
                      faults := (p.run.exec B fs db s).faults } := by
  obtain ⟨hdb, hs⟩ := Program.Reads.exec h B fs db s
  rw [Tx.exec_bind]
  cases hr : (p.run.exec B fs db s).result with
  | ok a => rw [hdb, hs]
  | error e =>
      dsimp only
      rw [hdb, hs]

/-- A live session that has flushed nothing sees the store, or its look-up raises. -/
theorem exec_query_bind {γ : Type} {g : σ → γ} {k : γ → Tx σ ω ε μ α} (hlive : s.failed = false)
    (hflushed : s.flushed = []) :
    (Tx.query g >>= k).run.exec B fs db s = match fs.head?.join with
      | none => (k (g db)).run.exec B fs.tail db s
      | some e => { result := .error e, db, session := s, faults := fs.tail } := by
  obtain ⟨f, hrun, hok, herror⟩ : ∃ f : Except ε σ → Program σ ω ε μ (Except ε α),
      (Tx.query g >>= k : Tx σ ω ε μ α).run = .query f ∧
        (∀ view, f (.ok view) = (k (g view)).run) ∧ ∀ e, f (.error e) = .done (.error e) :=
    ⟨_, rfl, fun _ => rfl, fun _ => rfl⟩
  rw [hrun]
  cases hf : fs.head?.join with
  | none =>
      have hview : s.query B db none = .ok db := by simp [Session.query, hlive, hflushed]
      simp only [Program.exec, hf, hview, hok]
  | some e =>
      have hview : s.query B db (some e) = .error e := by simp [Session.query, hlive]
      simp only [Program.exec, hf, hview, herror]

theorem exec_stage_bind (w : ω) (k : Unit → Tx σ ω ε μ α) (fs : List (Option ε)) (db : σ)
    (s : Session ω) :
    (Tx.stage w >>= k).run.exec B fs db s = (k ()).run.exec B fs db (s.stage w) := rfl

/-- What a live session sends is applied, or the request goes no further and the store stays. -/
theorem exec_commit_bind (k : Unit → Tx σ ω ε μ α) (fs : List (Option ε)) (db : σ)
    (s : Session ω) :
    (∃ mid, s.failed = false ∧ fs.head?.join = none ∧ B.applyAll db s.pending = .ok mid ∧
      (Tx.commit >>= k).run.exec B fs db s = (k ()).run.exec B fs.tail mid
        { committed := s.committed ++ [s.pending] }) ∨
    ∃ e, (s.failed = false → fs.head?.join = none → B.applyAll db s.pending = .error e) ∧
      (Tx.commit >>= k).run.exec B fs db s =
        { result := .error e, db, session := { s with failed := true }, faults := fs.tail } := by
  obtain ⟨f, hrun, hok, herror⟩ : ∃ f : Except ε Unit → Program σ ω ε μ (Except ε α),
      (Tx.commit >>= k : Tx σ ω ε μ α).run = .commit f ∧ f (.ok ()) = (k ()).run ∧
        ∀ e, f (.error e) = .done (.error e) := ⟨_, rfl, rfl, fun _ => rfl⟩
  rw [hrun]
  cases hsent : s.send B db fs.head?.join with
  | ok mid =>
      obtain ⟨hlive, hfault, happly⟩ := Session.send_eq_ok_iff.mp hsent
      refine Or.inl ⟨mid, hlive, hfault, happly, ?_⟩
      simp only [Program.exec, Session.commit, hsent, hok]
  | error e =>
      refine Or.inr ⟨e, fun hlive hfault => ?_, ?_⟩
      · simpa [Session.send, hlive, hfault] using hsent
      · simp only [Program.exec, Session.commit, hsent, herror]

theorem Always.bind {p : Tx σ ω ε μ α} {f : α → Tx σ ω ε μ β}
    {P : Except ε β → σ → Session ω → Prop}
    (h : Always B (fun r db' s' => match r with
      | .ok a => Always B P (f a) db' s'
      | .error e => P (.error e) db' s') p db s) : Always B P (p >>= f) db s := by
  intro fs
  have hfs := h fs
  rw [exec_bind]
  cases hr : (p.run.exec B fs db s).result with
  | ok a =>
      rw [hr] at hfs
      exact hfs _
  | error e =>
      rw [hr] at hfs
      exact hfs

/-- A part of which only the kind of its writes matters keeps what they keep, wherever it
raises. -/
theorem EmitsTo.always {Φ : ω → Prop} {P : α → Prop} {I : σ → Prop} {p : Tx σ ω ε μ α}
    (h : EmitsTo Φ P p) (keep : ∀ db w db', Φ w → I db → B.apply db w = .ok db' → I db')
    (hs : s.Holds fun ws => ∀ w ∈ ws, Φ w) (hI : I db) :
    Always B (fun r db' s' => (∀ a, r = .ok a → P a) ∧ I db' ∧ s'.Holds fun ws => ∀ w ∈ ws, Φ w)
      p db s := fun fs => h.exec keep hs hI fs

/-- Go on after such a part. -/
theorem EmitsTo.always_bind {Φ : ω → Prop} {P : α → Prop} {I : σ → Prop} {p : Tx σ ω ε μ α}
    {f : α → Tx σ ω ε μ β} {R : Except ε β → σ → Session ω → Prop} (h : EmitsTo Φ P p)
    (keep : ∀ db w db', Φ w → I db → B.apply db w = .ok db' → I db')
    (hs : s.Holds fun ws => ∀ w ∈ ws, Φ w) (hI : I db)
    (herr : ∀ e db' s', I db' → (s'.Holds fun ws => ∀ w ∈ ws, Φ w) → R (.error e) db' s')
    (hok : ∀ a db' s', P a → I db' → (s'.Holds fun ws => ∀ w ∈ ws, Φ w) →
      Always B R (f a) db' s') : Always B R (p >>= f) db s := by
  refine Always.bind ((h.always keep hs hI).mono ?_)
  rintro (e | a) db' s' ⟨hP, hI', hs'⟩
  · exact herr e db' s' hI' hs'
  · exact hok a db' s' (hP a rfl) hI' hs'

/-- The program raises only by a statement that its session dies of. -/
def RaisesDead (B : Backend σ ω ε) (p : Tx σ ω ε μ α) : Prop :=
  ∀ fs db s e, (p.run.exec B fs db s).result = .error e →
    (p.run.exec B fs db s).session.failed = true

theorem RaisesDead.pure (a : α) : RaisesDead B (pure a : Tx σ ω ε μ α) :=
  fun _ _ _ _ h => nomatch h

theorem RaisesDead.stage (w : ω) : RaisesDead B (stage w : Tx σ ω ε μ Unit) :=
  fun _ _ _ _ h => nomatch h

theorem RaisesDead.commit : RaisesDead B (commit : Tx σ ω ε μ Unit) := by
  intro fs db s e h
  change (s.commit B db fs.head?.join).1 = .error e at h
  change (s.commit B db fs.head?.join).2.1.failed = true
  unfold Session.commit at h ⊢
  cases hsend : s.send B db fs.head?.join with
  | ok db' =>
      rw [hsend] at h
      cases h
  | error e' => rfl

theorem RaisesDead.bind {p : Tx σ ω ε μ α} {f : α → Tx σ ω ε μ β} (hp : RaisesDead B p)
    (hf : ∀ a, RaisesDead B (f a)) : RaisesDead B (p >>= f) := by
  intro fs db s e h
  rw [exec_bind] at h ⊢
  cases hr : (p.run.exec B fs db s).result with
  | ok a =>
      rw [hr] at h
      exact hf a _ _ _ e h
  | error e' => exact hp fs db s e' hr

theorem RaisesDead.ite {c : Prop} [Decidable c] {p q : Tx σ ω ε μ α} (hp : RaisesDead B p)
    (hq : RaisesDead B q) : RaisesDead B (if c then p else q) := by
  split
  · exact hp
  · exact hq

end Tx
end Transaction
