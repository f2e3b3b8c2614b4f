import DolphinVC.Transaction.Segment

/-!
# Serving a request alone

`Tx.WP B Q p db s` says that running `p` without faults and without interference,
from store `db` and session `s`, ends with a result, a committed store and a session
related by `Q`. The rules below compute it statement by statement, so a request is
executed symbolically by rewriting; `atomically_iff` brings the answer back.
`Reads.wp` skips what only reads, and `Commits.wp` brings in what is known about the
write sets of a part.
-/

namespace Transaction

variable {σ ω ε μ α β : Type}

theorem Program.exec_nil_faults (B : Backend σ ω ε) (p : Program σ ω ε μ α) (db : σ)
    (s : Session ω) : (p.exec B [] db s).faults = [] := by
  induction p generalizing db s with
  | done a => rfl
  | query k ih => exact ih _ _ _
  | stage w k ih => exact ih _ _
  | flush k ih => exact ih _ _ _
  | commit k ih => exact ih _ _ _
  | call m k ih => exact ih _ _ _

namespace Tx

def WP (B : Backend σ ω ε) (Q : Except ε α → σ → Session ω → Prop) (p : Tx σ ω ε μ α)
    (db : σ) (s : Session ω) : Prop :=
  Q (p.run.exec B [] db s).result (p.run.exec B [] db s).db (p.run.exec B [] db s).session

variable {B : Backend σ ω ε} {Q Q' : Except ε α → σ → Session ω → Prop}
variable {db : σ} {s : Session ω}

/-- The answer and the committed store of a request satisfy what its WP promises. -/
theorem atomically_iff {P : Except ε α → σ → Prop} {p : Tx σ ω ε μ α} :
    P (p.atomically B db).1 (p.atomically B db).2 ↔ WP B (fun r db' _ => P r db') p db {} :=
  Iff.rfl

/-- Mapping the answer of a request leaves what it did. -/
theorem atomically_map {p : Tx σ ω ε μ α} (g : α → β) :
    (p >>= fun a => Pure.pure (g a)).atomically B db =
      ((p.atomically B db).1.map g, (p.atomically B db).2) := by
  unfold atomically
  rw [ExceptT.run_bind, Program.bind_eq, Program.exec_bind]
  cases (p.run.exec B [] db {}).result with
  | ok a => rfl
  | error e => rfl

@[simp] theorem atomically_pure (a : α) :
    (Pure.pure a : Tx σ ω ε μ α).atomically B db = (.ok a, db) := rfl

@[simp] theorem atomically_throw (e : ε) :
    (throw e : Tx σ ω ε μ α).atomically B db = (.error e, db) := rfl

/-- A request that starts with a read goes on with what is stored. -/
@[simp] theorem atomically_query_bind {γ : Type} (g : σ → γ) (k : γ → Tx σ ω ε μ α) :
    (query g >>= k).atomically B db = (k (g db)).atomically B db := rfl

@[simp] theorem atomically_ite {c : Prop} [Decidable c] (p q : Tx σ ω ε μ α) :
    (if c then p else q).atomically B db =
      if c then p.atomically B db else q.atomically B db := by
  split <;> rfl

/-- What a request does is the same when nobody looks at its answer. -/
theorem atomically_void {p : Tx σ ω ε μ α} : ((void p).atomically B db).2 = (p.atomically B db).2 :=
  congrArg Prod.snd (atomically_map fun _ => ())

theorem WP.mono {p : Tx σ ω ε μ α} (h : WP B Q p db s)
    (weaken : ∀ r db' s', Q r db' s' → Q' r db' s') : WP B Q' p db s := weaken _ _ _ h

theorem Reads.wp {p : Tx σ ω ε μ α} (h : Reads p) :
    WP B Q p db s ↔ Q (p.run.exec B [] db s).result db s := by
  obtain ⟨hdb, hs⟩ := Program.Reads.exec h B [] db s
  unfold WP
  rw [hdb, hs]

theorem Commits.wp {R : Journal ω → Prop} {P : Except ε α → Journal ω → Prop}
    {p : Tx σ ω ε μ α} {base : σ} (h : Commits R P p s.journal)
    (start : B.applyAll base s.committed.flatten = .ok db) :
    WP B (fun r db' s' => P r s'.journal ∧ B.applyAll base s'.committed.flatten = .ok db')
      p db s :=
  ⟨(Program.Commits.exec (I := fun _ => True) h (fun _ _ _ _ _ _ => trivial) trivial).2,
    Program.exec_committed B p.run [] db s start⟩

theorem wp_bind {p : Tx σ ω ε μ α} {f : α → Tx σ ω ε μ β}
    {P : Except ε β → σ → Session ω → Prop} :
    WP B P (p >>= f) db s ↔ WP B (fun r db' s' => match r with
      | .ok a => WP B P (f a) db' s'
      | .error e => P (.error e) db' s') p db s := by
  unfold WP
  rw [ExceptT.run_bind, Program.bind_eq, Program.exec_bind, Program.exec_nil_faults]
  cases (p.run.exec B [] db s).result with
  | ok a => rfl
  | error e => rfl

/-- Go on after a part whose answer is known. -/
theorem wp_bind_of_result {p : Tx σ ω ε μ α} {f : α → Tx σ ω ε μ β} {a : α}
    {P : Except ε β → σ → Session ω → Prop} (h : (p.run.exec B [] db s).result = .ok a) :
    WP B P (p >>= f) db s ↔
      WP B P (f a) (p.run.exec B [] db s).db (p.run.exec B [] db s).session := by
  rw [wp_bind]
  unfold WP
  rw [h]

theorem Reads.wp_bind {p : Tx σ ω ε μ α} {f : α → Tx σ ω ε μ β}
    {P : Except ε β → σ → Session ω → Prop} (h : Reads p) (herr : ∀ e, P (.error e) db s)
    (hok : ∀ a, (p.run.exec B [] db s).result = .ok a → WP B P (f a) db s) :
    WP B P (p >>= f) db s := by
  rw [Tx.wp_bind, h.wp]
  cases hr : (p.run.exec B [] db s).result with
  | ok a => exact hok a hr
  | error e => exact herr e

/-- What a request reads first, it reads off the committed store. -/
theorem wp_query_first {γ : Type} {g : σ → γ} {k : γ → Tx σ ω ε μ α} {f : α → Tx σ ω ε μ β}
    {P : Except ε β → σ → Session ω → Prop} :
    WP B P ((query g >>= k) >>= f) db {} ↔ WP B P (k (g db) >>= f) db {} := by
  rw [wp_bind, wp_bind (p := query g), wp_bind]
  rfl

/-- A part that a part of its own begins. -/
theorem wp_assoc {γ : Type} {p : Tx σ ω ε μ γ} {g : γ → Tx σ ω ε μ β} {f : β → Tx σ ω ε μ α} :
    WP B Q ((p >>= g) >>= f) db s ↔ WP B Q (p >>= fun c => g c >>= f) db s := by
  rw [wp_bind, wp_bind, wp_bind]
  constructor
  · intro h
    refine h.mono fun r db' s' h' => ?_
    cases r with
    | ok c => exact wp_bind.mpr h'
    | error e => exact h'
  · intro h
    refine h.mono fun r db' s' h' => ?_
    cases r with
    | ok c => exact wp_bind.mp h'
    | error e => exact h'

@[simp] theorem wp_pure {a : α} : WP B Q (pure a : Tx σ ω ε μ α) db s ↔ Q (.ok a) db s := Iff.rfl

@[simp] theorem wp_throw {e : ε} : WP B Q (throw e : Tx σ ω ε μ α) db s ↔ Q (.error e) db s :=
  Iff.rfl

@[simp] theorem wp_ite {c : Prop} [Decidable c] {p q : Tx σ ω ε μ α} :
    WP B Q (if c then p else q) db s ↔ if c then WP B Q p db s else WP B Q q db s := by
  split <;> rfl

@[simp] theorem wp_query {f : σ → α} :
    WP B Q (query f : Tx σ ω ε μ α) db s ↔ Q ((s.query B db none).map f) db s := Iff.rfl

@[simp] theorem wp_stage {w : ω} {Q : Except ε Unit → σ → Session ω → Prop} :
    WP B Q (stage w : Tx σ ω ε μ Unit) db s ↔ Q (.ok ()) db (s.stage w) := Iff.rfl

@[simp] theorem wp_flush {Q : Except ε Unit → σ → Session ω → Prop} :
    WP B Q (flush : Tx σ ω ε μ Unit) db s ↔
      Q (s.flush B db none).1 db (s.flush B db none).2 := Iff.rfl

@[simp] theorem wp_commit {Q : Except ε Unit → σ → Session ω → Prop} :
    WP B Q (commit : Tx σ ω ε μ Unit) db s ↔
      Q (s.commit B db none).1 (s.commit B db none).2.2 (s.commit B db none).2.1 := Iff.rfl

@[simp] theorem wp_call {m : μ} {Q : Except ε Unit → σ → Session ω → Prop} :
    WP B Q (call m : Tx σ ω ε μ Unit) db s ↔ Q (.ok ()) db s := Iff.rfl

/-- A commit makes the pending writes visible or raises. -/
theorem wp_commit_cases {Q : Except ε Unit → σ → Session ω → Prop}
    (hok : ∀ db', B.applyAll db s.pending = .ok db' →
      Q (.ok ()) db' { committed := s.committed ++ [s.pending] })
    (herr : ∀ e, Q (.error e) db { s with failed := true }) :
    WP B Q (commit : Tx σ ω ε μ Unit) db s := by
  rw [wp_commit]
  unfold Session.commit
  split
  · rename_i db' hs
    exact hok db' (Session.send_eq_ok_iff.mp hs).2.2
  · exact herr _

/-- A live session's commit is decided by its pending writes. -/
theorem wp_commit_live {Q : Except ε Unit → σ → Session ω → Prop} (live : s.failed = false) :
    WP B Q (commit : Tx σ ω ε μ Unit) db s ↔ match B.applyAll db s.pending with
      | .ok db' => Q (.ok ()) db' { committed := s.committed ++ [s.pending] }
      | .error e => Q (.error e) db { s with failed := true } := by
  rw [wp_commit]
  unfold Session.commit Session.send
  rw [live]
  simp only [Bool.false_eq_true, if_false]
  cases B.applyAll db s.pending with
  | ok db' => rfl
  | error e => rfl

theorem wp_flush_live {Q : Except ε Unit → σ → Session ω → Prop} (live : s.failed = false) :
    WP B Q (flush : Tx σ ω ε μ Unit) db s ↔ match B.applyAll db s.pending with
      | .ok _ => Q (.ok ()) db { s with flushed := s.pending, dirty := [] }
      | .error e => Q (.error e) db { s with failed := true } := by
  rw [wp_flush]
  unfold Session.flush Session.send
  rw [live]
  simp only [Bool.false_eq_true, if_false]
  cases B.applyAll db s.pending with
  | ok db' => rfl
  | error e => rfl

/-- A flush sends the pending writes or raises; a live session's store has them on top. -/
theorem wp_flush_cases {Q : Except ε Unit → σ → Session ω → Prop}
    (hok : Q (.ok ()) db { s with flushed := s.pending, dirty := [] })
    (herr : ∀ e, Q (.error e) db { s with failed := true }) :
    WP B Q (flush : Tx σ ω ε μ Unit) db s := by
  rw [wp_flush]
  unfold Session.flush
  split
  · exact hok
  · exact herr _

theorem wp_tryCatch {p : Tx σ ω ε μ α} {handler : ε → Tx σ ω ε μ α} :
    WP B Q (tryCatch p handler) db s ↔ WP B (fun r db' s' => match r with
      | .ok a => Q (.ok a) db' s'
      | .error e => WP B Q (handler e) db' s') p db s := by
  have hrun : (tryCatch p handler).run = p.run.bind fun r => match r with
      | .ok a => .done (.ok a)
      | .error e => (handler e).run := by
    change Program.bind _ p.run = _
    congr 1
  unfold WP
  rw [hrun, Program.exec_bind, Program.exec_nil_faults]
  cases (p.run.exec B [] db s).result with
  | ok a => rfl
  | error e => rfl

theorem wp_attempt {p : Tx σ ω ε μ α} {P : Except ε (Except ε α) → σ → Session ω → Prop} :
    WP B P (attempt p) db s ↔ WP B (fun r db' s' => P (.ok r) db' s') p db s := by
  have hrun : (attempt p).run = p.run.bind fun r => .done (.ok r) := rfl
  unfold WP
  rw [hrun, Program.exec_bind]
  rfl

theorem wp_finally' {p : Tx σ ω ε μ α} {finalizer : Tx σ ω ε μ Unit} :
    WP B Q (finally' p finalizer) db s ↔ WP B (fun r db' s' => WP B (fun f db'' s'' => match f with
      | .ok () => Q r db'' s''
      | .error e => Q (.error e) db'' s'') finalizer db' s') p db s := by
  have hrun : (finally' p finalizer).run = p.run.bind fun r => finalizer.run.bind fun
      | .ok () => .done r
      | .error e => .done (.error e) := rfl
  unfold WP
  rw [hrun, Program.exec_bind, Program.exec_bind, Program.exec_nil_faults]
  beta_reduce
  cases (finalizer.run.exec B [] (p.run.exec B [] db s).db
    (p.run.exec B [] db s).session).result with
  | ok u => rfl
  | error e => rfl

/-- A part that commits nothing leaves the store, and its session has more pending. -/
theorem Stages.wp {Φ : ω → Prop} {p : Tx σ ω ε μ α} (h : Stages Φ p) :
    WP B (fun _ db' s' => db' = db ∧ Session.Grows Φ s s') p db s := by
  unfold Stages at h
  unfold WP
  generalize p.run = prog at h
  induction prog generalizing s with
  | done r => exact ⟨rfl, .refl s⟩
  | query k ih => exact ih _ (h _)
  | stage w k ih => exact (ih h.2).imp_right (Session.Grows.stage h.1).trans
  | flush k ih => exact (ih _ (h _)).imp_right Session.Grows.flush.trans
  | commit k ih => exact h.elim
  | call m k ih => exact ih _ (h _)

/-- A read of the session's view, or the exception that it raises. -/
theorem wp_query_cases {f : σ → α}
    (hok : ∀ view, B.applyAll db s.flushed = .ok view → Q (.ok (f view)) db s)
    (herr : ∀ e, Q (.error e) db s) : WP B Q (query f : Tx σ ω ε μ α) db s := by
  rw [wp_query]
  cases h : s.query B db none with
  | error e => exact herr e
  | ok view =>
      refine hok view ?_
      unfold Session.query at h
      split at h
      · cases h
      · exact h

/-- A part of which only the kind of its writes matters keeps what they keep, whatever its
statements raise. -/
theorem EmitsTo.exec {Φ : ω → Prop} {P : α → Prop} {I : σ → Prop} {p : Tx σ ω ε μ α}
    (h : EmitsTo Φ P p) (keep : ∀ db w db', Φ w → I db → B.apply db w = .ok db' → I db')
    (hs : s.Holds fun ws => ∀ w ∈ ws, Φ w) (hI : I db) (fs : List (Option ε)) :
    (∀ a, (p.run.exec B fs db s).result = .ok a → P a) ∧ I (p.run.exec B fs db s).db ∧
      (p.run.exec B fs db s).session.Holds fun ws => ∀ w ∈ ws, Φ w := by
  unfold EmitsTo at h
  generalize p.run = prog at h
  induction prog generalizing fs db s with
  | done r => exact ⟨h, hI, hs⟩
  | query k ih => exact ih _ hs hI _ (h _)
  | stage w k ih =>
      refine ih (hs.stage fun ws hws v hv => ?_) hI _ h.2
      obtain hv | hv := List.mem_append.mp hv
      · exact hws v hv
      · exact List.mem_singleton.mp hv ▸ h.1
  | flush k ih =>
      exact ih _ (hs.grows (Session.Grows.flush (Φ := Φ)) fun ws w hw hws v hv =>
        (List.mem_append.mp hv).elim (hws v) fun hv => List.mem_singleton.mp hv ▸ hw) hI _ (h _)
  | commit k ih =>
      simp only [Program.exec, Session.commit]
      split
      · rename_i db' hsend
        obtain ⟨hf, -, happly⟩ := Session.send_eq_ok_iff.mp hsend
        have hws := hs.resolve_left (by simp [hf])
        exact ih _ (Or.inr fun _ hw => absurd hw List.not_mem_nil)
          (Backend.applyAll_inv (fun db w db' hw => keep db w db' hw) hws hI happly) _ (h _)
      · exact ih _ (Or.inl rfl) hI _ (h _)
  | call m k ih => exact ih _ hs hI _ (h _)

theorem EmitsTo.wp {Φ : ω → Prop} {P : α → Prop} {I : σ → Prop} {p : Tx σ ω ε μ α}
    (h : EmitsTo Φ P p) (keep : ∀ db w db', Φ w → I db → B.apply db w = .ok db' → I db')
    (hs : s.Holds fun ws => ∀ w ∈ ws, Φ w) (hI : I db) :
    WP B (fun r db' s' => (∀ a, r = .ok a → P a) ∧ I db' ∧ s'.Holds fun ws => ∀ w ∈ ws, Φ w)
      p db s := h.exec keep hs hI []

/-- What holds of every answer holds of the one that a request served alone gets. -/
theorem EmitsTo.answer {Φ : ω → Prop} {P : α → Prop} {p : Tx σ ω ε μ α} {a : α}
    (h : EmitsTo Φ P p) (answered : (p.atomically B db).1 = .ok a) : P a := by
  have fresh : Session.Holds (fun ws => ∀ w ∈ ws, Φ w) {} :=
    Or.inr fun _ hw => absurd hw List.not_mem_nil
  have answers : ∀ a, (p.atomically B db).1 = .ok a → P a :=
    (atomically_iff (P := fun r _ => ∀ a, r = .ok a → P a)).mpr
      ((h.wp (I := fun _ => True) (fun _ _ _ _ _ _ => trivial) fresh trivial).mono
        fun _ _ _ h' => h'.1)
  exact answers a answered

/-- Go on after such a part. -/
theorem EmitsTo.wp_bind {Φ : ω → Prop} {P : α → Prop} {I : σ → Prop} {p : Tx σ ω ε μ α}
    {f : α → Tx σ ω ε μ β} {Q : Except ε β → σ → Session ω → Prop} (h : EmitsTo Φ P p)
    (keep : ∀ db w db', Φ w → I db → B.apply db w = .ok db' → I db')
    (hs : s.Holds fun ws => ∀ w ∈ ws, Φ w) (hI : I db)
    (herr : ∀ e db' s', I db' → (s'.Holds fun ws => ∀ w ∈ ws, Φ w) → Q (.error e) db' s')
    (hok : ∀ a db' s', P a → I db' → (s'.Holds fun ws => ∀ w ∈ ws, Φ w) → WP B Q (f a) db' s') :
    WP B Q (p >>= f) db s := by
  refine Tx.wp_bind.mpr ((h.wp keep hs hI).mono ?_)
  rintro (e | a) db' s' ⟨hP, hI', hs'⟩
  · exact herr e db' s' hI' hs'
  · exact hok a db' s' (hP a rfl) hI' hs'

/-- The program keeps the relation between the store and its session, whether it raises or not. -/
def Preserves (B : Backend σ ω ε) (J : σ → Session ω → Prop) (p : Tx σ ω ε μ α) : Prop :=
  ∀ db s, J db s → WP B (fun _ db' s' => J db' s') p db s

section Preserves

variable {J : σ → Session ω → Prop} {p : Tx σ ω ε μ α}

theorem Preserves.pure (a : α) : Preserves B J (pure a : Tx σ ω ε μ α) := fun _ _ h => h

theorem Preserves.bind {f : α → Tx σ ω ε μ β} (hp : Preserves B J p)
    (hf : ∀ a, Preserves B J (f a)) : Preserves B J (p >>= f) := by
  refine fun db s h => wp_bind.mpr ((hp db s h).mono ?_)
  rintro (e | a) db' s' h'
  · exact h'
  · exact hf a db' s' h'

theorem Preserves.attempt (hp : Preserves B J p) : Preserves B J (attempt p) :=
  fun db s h => wp_attempt.mpr (hp db s h)

theorem Preserves.finally' {finalizer : Tx σ ω ε μ Unit} (hp : Preserves B J p)
    (hf : Preserves B J finalizer) : Preserves B J (finally' p finalizer) := by
  refine fun db s h => wp_finally'.mpr ((hp db s h).mono fun _ db' s' h' => ?_)
  refine (hf db' s' h').mono ?_
  rintro (e | u) db'' s'' h''
  · exact h''
  · exact h''

theorem Preserves.tryCatch {handler : ε → Tx σ ω ε μ α} (hp : Preserves B J p)
    (hh : ∀ e, Preserves B J (handler e)) : Preserves B J (tryCatch p handler) := by
  refine fun db s h => wp_tryCatch.mpr ((hp db s h).mono ?_)
  rintro (e | a) db' s' h'
  · exact hh e db' s' h'
  · exact h'

/-- The answer of a query may be used in what follows it. -/
theorem preserves_query_bind {γ : Type} {g : σ → γ} {f : γ → Tx σ ω ε μ α}
    (hf : ∀ db s view, J db s → B.applyAll db s.flushed = .ok view →
      WP B (fun _ db' s' => J db' s') (f (g view)) db s) : Preserves B J (query g >>= f) :=
  fun db s h => wp_bind.mpr (wp_query_cases (fun view hview => hf db s view h hview) fun _ => h)

theorem Emits.preserves {Φ : ω → Prop} {I : σ → Prop} (h : Emits Φ p)
    (keep : ∀ db w db', Φ w → I db → B.apply db w = .ok db' → I db') :
    Preserves B (fun db s => I db ∧ s.Holds fun ws => ∀ w ∈ ws, Φ w) p :=
  fun _ _ hJ => (h.to.wp keep hJ.2 hJ.1).mono fun _ _ _ h' => h'.2

end Preserves

/-- After a part that only reads, a request goes on from where it started. -/
theorem Reads.atomically_bind {p : Tx σ ω ε μ α} {f : α → Tx σ ω ε μ β} {a : α} (h : Reads p)
    (ha : (p.atomically B db).1 = .ok a) :
    (p >>= f).atomically B db = (f a).atomically B db := by
  obtain ⟨hdb, hs⟩ := Program.Reads.exec h B [] db {}
  unfold atomically at ha ⊢
  rw [ExceptT.run_bind, Program.bind_eq, Program.exec_bind, Program.exec_nil_faults, hdb, hs]
  simp only at ha
  rw [ha]

theorem Reads.atomically_bind_error {p : Tx σ ω ε μ α} {f : α → Tx σ ω ε μ β} {e : ε}
    (h : Reads p) (he : (p.atomically B db).1 = .error e) :
    (p >>= f).atomically B db = (.error e, db) := by
  obtain ⟨hdb, hs⟩ := Program.Reads.exec h B [] db {}
  unfold atomically at he ⊢
  rw [ExceptT.run_bind, Program.bind_eq, Program.exec_bind, Program.exec_nil_faults, hdb, hs]
  simp only at he
  rw [he]
  rfl

theorem Reads.atomically_bind_eq_ok {p : Tx σ ω ε μ α} {f : α → Tx σ ω ε μ β} {b : β}
    (h : Reads p) : ((p >>= f).atomically B db).1 = .ok b ↔
      ∃ a, (p.atomically B db).1 = .ok a ∧ ((f a).atomically B db).1 = .ok b := by
  cases ha : (p.atomically B db).1 with
  | ok a => simp [h.atomically_bind ha]
  | error e =>
      have herr : ((p >>= f).atomically B db).1 = .error e := by
        unfold atomically at ha ⊢
        rw [ExceptT.run_bind, Program.bind_eq, Program.exec_bind]
        simp only at ha
        rw [ha]
        rfl
      simp [herr]

end Tx

namespace Session

variable {B : Backend σ ω ε} {db : σ}

/-- A session that has flushed nothing reads the committed store. -/
@[simp] theorem query_unflushed (dirty : List ω) (committed : List (List ω)) :
    Session.query B db none { flushed := [], dirty, committed } = .ok db := rfl

end Session
end Transaction
