import DolphinVC.Transaction.Segment

/-!
# Programs under interference

Other sessions may commit between any two statements of a program. What it has learnt
from a read is then still true only if no write makes it false, and this is the one
thing `Program.Relies` assumes about the others: the store moves on by writes. The
judgment says that each commit of the program happens on a live session with a write set
related by `C` to the store at that moment, and that it ends as `Q` says.

Assertions are about the store and the session. `Stable` ones survive what others do;
an assertion has to be stable only where a statement looks at the store.
-/

namespace Transaction

variable {σ ω ε μ α β ρ : Type}

namespace Backend

variable {B : Backend σ ω ε} {db db' db'' : σ}

/-- Writes lead from one store to the other. -/
def Reaches (B : Backend σ ω ε) (db db' : σ) : Prop := ∃ ws, B.applyAll db ws = .ok db'

theorem Reaches.refl (db : σ) : B.Reaches db db := ⟨[], rfl⟩

theorem Reaches.trans (h : B.Reaches db db') (h' : B.Reaches db' db'') : B.Reaches db db'' := by
  obtain ⟨ws, hws⟩ := h
  obtain ⟨vs, hvs⟩ := h'
  exact ⟨ws ++ vs, applyAll_append_eq_ok.mpr ⟨db', hws, hvs⟩⟩

theorem Reaches.keeps {P : σ → Prop} (h : B.Reaches db db')
    (keep : ∀ db w db', P db → B.apply db w = .ok db' → P db') (hp : P db) : P db' := by
  obtain ⟨ws, hws⟩ := h
  exact applyAll_inv (Φ := fun _ => True) (fun db w db' _ => keep db w db') (fun _ _ => trivial)
    hp hws

end Backend

/-- No write of another session makes the assertion false. -/
def Stable (B : Backend σ ω ε) (J : σ → Session ω → Prop) : Prop :=
  ∀ db db' s, B.Reaches db db' → J db s → J db' s

theorem stable_of_write {B : Backend σ ω ε} {J : σ → Session ω → Prop}
    (keep : ∀ s db w db', J db s → B.apply db w = .ok db' → J db' s) : Stable B J :=
  fun _ _ s hr hj => hr.keeps (P := fun db => J db s) (keep s) hj

theorem stable_session {B : Backend σ ω ε} (R : Session ω → Prop) : Stable B fun _ s => R s :=
  fun _ _ _ _ h => h

/-- An assertion about the pending writes, for a relation that no write breaks. -/
theorem stable_holds {B : Backend σ ω ε} {R : σ → List ω → Prop}
    (keep : ∀ ws db w db', R db ws → B.apply db w = .ok db' → R db' ws) :
    Stable B fun db s => s.Holds (R db) :=
  stable_of_write fun _ db w db' h happly => h.mono fun ws hr => keep ws db w db' hr happly

theorem Stable.or {B : Backend σ ω ε} {J J' : σ → Session ω → Prop} (h : Stable B J)
    (h' : Stable B J') : Stable B fun db s => J db s ∨ J' db s :=
  fun db db' s hr hj => hj.imp (h db db' s hr) (h' db db' s hr)

theorem Stable.and {B : Backend σ ω ε} {J J' : σ → Session ω → Prop} (h : Stable B J)
    (h' : Stable B J') : Stable B fun db s => J db s ∧ J' db s :=
  fun db db' s hr hj => ⟨h db db' s hr hj.1, h' db db' s hr hj.2⟩

namespace Program

def Relies (B : Backend σ ω ε) (C : σ → List ω → Prop) (Q : α → σ → Session ω → Prop) :
    Program σ ω ε μ α → σ → Session ω → Prop
  | .done a, db, s => Q a db s
  | .query k, db, s =>
      ∀ db', B.Reaches db db' → ∀ fault, Relies B C Q (k (s.query B db' fault)) db' s
  | .stage w k, db, s => Relies B C Q k db (s.stage w)
  | .flush k, db, s => ∀ db', B.Reaches db db' → ∀ fault,
      Relies B C Q (k (s.flush B db' fault).1) db' (s.flush B db' fault).2
  | .commit k, db, s => ∀ db', B.Reaches db db' →
      (s.failed = false → C db' s.pending) ∧
      ∀ fault, Relies B C Q (k (s.commit B db' fault).1) (s.commit B db' fault).2.2
        (s.commit B db' fault).2.1
  | .call _ k, db, s => ∀ r, Relies B C Q (k r) db s

variable {B : Backend σ ω ε} {C : σ → List ω → Prop} {Q Q' : α → σ → Session ω → Prop}
variable {db db' : σ} {s : Session ω}

theorem Relies.mono {p : Program σ ω ε μ α} (h : p.Relies B C Q db s)
    (weaken : ∀ a db s, Q a db s → Q' a db s) : p.Relies B C Q' db s := by
  induction p generalizing db s with
  | done a => exact weaken a db s h
  | query k ih => exact fun db' hr fault => ih _ (h db' hr fault)
  | stage w k ih => exact ih h
  | flush k ih => exact fun db' hr fault => ih _ (h db' hr fault)
  | commit k ih => exact fun db' hr => ⟨(h db' hr).1, fun fault => ih _ ((h db' hr).2 fault)⟩
  | call m k ih => exact fun r => ih _ (h r)

theorem Relies.weaken {C' : σ → List ω → Prop} {p : Program σ ω ε μ α} (h : p.Relies B C Q db s)
    (weaken : ∀ db ws, C db ws → C' db ws) : p.Relies B C' Q db s := by
  induction p generalizing db s with
  | done a => exact h
  | query k ih => exact fun db' hr fault => ih _ (h db' hr fault)
  | stage w k ih => exact ih h
  | flush k ih => exact fun db' hr fault => ih _ (h db' hr fault)
  | commit k ih =>
      exact fun db' hr => ⟨fun hf => weaken _ _ ((h db' hr).1 hf),
        fun fault => ih _ ((h db' hr).2 fault)⟩
  | call m k ih => exact fun r => ih _ (h r)

/-- What holds of the store and stays may be assumed at every commit. -/
theorem Relies.holding {S : σ → Prop} {p : Program σ ω ε μ α} (h : p.Relies B C Q db s)
    (stays : ∀ db w db', B.apply db w = .ok db' → S db → S db') (hS : S db) :
    p.Relies B (fun db ws => S db ∧ C db ws) Q db s := by
  have reached {db db' : σ} (hr : B.Reaches db db') (hS : S db) : S db' := by
    obtain ⟨ws, ha⟩ := hr
    exact Backend.applyAll_inv (Φ := fun _ => True) (fun db w db' _ hS ha => stays db w db' ha hS)
      (fun _ _ => trivial) hS ha
  induction p generalizing db s with
  | done a => exact h
  | query k ih => exact fun db' hr fault => ih _ (h db' hr fault) (reached hr hS)
  | stage w k ih => exact ih h hS
  | flush k ih => exact fun db' hr fault => ih _ (h db' hr fault) (reached hr hS)
  | commit k ih =>
      intro db' hr
      have hS' := reached hr hS
      refine ⟨fun hf => ⟨hS', (h db' hr).1 hf⟩, fun fault => ih _ ((h db' hr).2 fault) ?_⟩
      simp only [Session.commit]
      split
      · rename_i db'' hs
        exact reached ⟨s.pending, (Session.send_eq_ok_iff.mp hs).2.2⟩ hS'
      · exact hS'
  | call m k ih => exact fun r => ih _ (h r) hS

theorem relies_bind {p : Program σ ω ε μ α} {f : α → Program σ ω ε μ β}
    {P : β → σ → Session ω → Prop} :
    (p.bind f).Relies B C P db s ↔ p.Relies B C (fun a db s => (f a).Relies B C P db s) db s := by
  induction p generalizing db s with
  | done a => rfl
  | query k ih => exact forall_congr' fun db' => forall_congr' fun _ => forall_congr' fun _ => ih _
  | stage w k ih => exact ih
  | flush k ih => exact forall_congr' fun db' => forall_congr' fun _ => forall_congr' fun _ => ih _
  | commit k ih =>
      exact forall_congr' fun db' => forall_congr' fun _ =>
        and_congr Iff.rfl (forall_congr' fun _ => ih _)
  | call m k ih => exact forall_congr' fun r => ih _

/-- What is known about the result whatever the answers are. -/
theorem Relies.returns {p : Program σ ω ε μ α} {Φ : ω → Prop} {R : α → Prop}
    (h : p.Relies B C Q db s) (he : p.Emits Φ R) :
    p.Relies B C (fun a db s => Q a db s ∧ R a) db s := by
  induction p generalizing db s with
  | done a => exact ⟨h, he⟩
  | query k ih => exact fun db' hr fault => ih _ (h db' hr fault) (he _)
  | stage w k ih => exact ih h he.2
  | flush k ih => exact fun db' hr fault => ih _ (h db' hr fault) (he _)
  | commit k ih =>
      exact fun db' hr => ⟨(h db' hr).1, fun fault => ih _ ((h db' hr).2 fault) (he _)⟩
  | call m k ih => exact fun r => ih _ (h r) (he r)

/-- What others commit before the next statement changes nothing. -/
theorem Relies.reaches {p : Program σ ω ε μ α} (h : p.Relies B C Q db s)
    (stable : ∀ a, Stable B (Q a)) (hr : B.Reaches db db') : p.Relies B C Q db' s := by
  induction p generalizing s with
  | done a => exact stable a db db' s hr h
  | query k ih => exact fun db'' hr' => h db'' (hr.trans hr')
  | stage w k ih => exact ih h
  | flush k ih => exact fun db'' hr' => h db'' (hr.trans hr')
  | commit k ih => exact fun db'' hr' => h db'' (hr.trans hr')
  | call m k ih => exact fun r => ih _ (h r)

/-- Stopping at the next commit is something the others cannot tell from a slow program. -/
theorem Relies.pause {p : Program σ ω ε μ α} (h : p.Relies B C Q db s) (fs : List (Option ε)) :
    (p.pause B db fs s).1.prog.Relies B C Q db (p.pause B db fs s).1.session := by
  induction p generalizing fs s with
  | done a => exact h
  | query k ih => exact ih _ (h db (.refl db) _) _
  | stage w k ih => exact ih h _
  | flush k ih => exact ih _ (h db (.refl db) _) _
  | commit k ih => exact h
  | call m k ih => exact ih _ (h _) _

/-- Served alone, the program keeps what its commits keep. -/
theorem Relies.exec {I : σ → Prop} {p : Program σ ω ε μ α} {fs : List (Option ε)}
    (h : p.Relies B C Q db s)
    (keep : ∀ db ws db', C db ws → I db → B.applyAll db ws = .ok db' → I db') (hI : I db) :
    I (p.exec B fs db s).db := by
  induction p generalizing fs db s with
  | done a => exact hI
  | query k ih => exact ih _ (h db (.refl db) _) hI
  | stage w k ih => exact ih h hI
  | flush k ih => exact ih _ (h db (.refl db) _) hI
  | commit k ih =>
      obtain ⟨hC, hrest⟩ := h db (.refl db)
      refine ih _ (hrest _) ?_
      simp only [Session.commit]
      split
      · rename_i db' hs
        obtain ⟨hf, -, ha⟩ := Session.send_eq_ok_iff.mp hs
        exact keep db _ db' (hC hf) hI ha
      · exact hI
  | call m k ih => exact ih _ (h _) hI

/-- Served alone, the program ends as it does among others. -/
theorem Relies.result {p : Program σ ω ε μ α} (h : p.Relies B C Q db s) (fs : List (Option ε)) :
    Q (p.exec B fs db s).result (p.exec B fs db s).db (p.exec B fs db s).session := by
  induction p generalizing fs db s with
  | done a => exact h
  | query k ih => exact ih _ (h db (.refl db) _) _
  | stage w k ih => exact ih h _
  | flush k ih => exact ih _ (h db (.refl db) _) _
  | commit k ih => exact ih _ ((h db (.refl db)).2 _) _
  | call m k ih => exact ih _ (h _) _

end Program

namespace Thread

variable {B : Backend σ ω ε} {C : σ → List ω → Prop} {Q : ρ → σ → Session ω → Prop}
variable {db : σ} {fault : Option ε} {t : Thread σ ω ε μ ρ}

def Relies (B : Backend σ ω ε) (C : σ → List ω → Prop) (Q : ρ → σ → Session ω → Prop) (db : σ)
    (t : Thread σ ω ε μ ρ) : Prop := t.prog.Relies B C Q db t.session

theorem Relies.ready {ws : List ω} (h : t.Relies B C Q db) (hr : t.ready = some ws) : C db ws := by
  obtain ⟨prog, s⟩ := t
  unfold Thread.Relies at h
  unfold Thread.ready at hr
  cases prog with
  | commit k =>
      cases hf : s.failed with
      | true => simp [hf] at hr
      | false =>
          simp only [hf, Bool.false_eq_true, if_false, Option.some.injEq] at hr
          exact hr ▸ (h db (.refl db)).1 hf
  | _ => cases hr

theorem Relies.done {result : ρ} (h : t.Relies B C Q db) (hd : t.prog = .done result) :
    Q result db t.session := by
  unfold Thread.Relies at h
  rw [hd] at h
  exact h

theorem Relies.advance (h : t.Relies B C Q db) :
    (t.advance B db fault).2.1.Relies B C Q (t.advance B db fault).1 := by
  obtain ⟨prog, s⟩ := t
  cases prog with
  | done a => exact h
  | query k => exact h db (.refl db) fault
  | stage w k => exact h
  | flush k => exact h db (.refl db) fault
  | commit k => exact (h db (.refl db)).2 fault
  | call m k => exact h _

theorem Relies.due {ws : List ω} {fs : List (Option ε)} (h : t.Relies B C Q db)
    (hw : t.due B db fs = some ws) : C db ws :=
  Relies.ready (t := (t.prog.pause B db fs t.session).1) (Program.Relies.pause h fs) hw

theorem Relies.toCommit {fs : List (Option ε)} (h : t.Relies B C Q db) :
    (t.toCommit B db fs).2.Relies B C Q (t.toCommit B db fs).1 :=
  Relies.advance (t := (t.prog.pause B db fs t.session).1) (Program.Relies.pause h fs)

theorem reaches_toCommit (B : Backend σ ω ε) (db : σ) (fs : List (Option ε))
    (t : Thread σ ω ε μ ρ) : B.Reaches db (t.toCommit B db fs).1 := by
  obtain h | ⟨ws, -, ha⟩ := toCommit_cases B db fs t
  · rw [h]
    exact .refl db
  · exact ⟨ws, ha⟩

theorem reaches_advance (B : Backend σ ω ε) (db : σ) (fault : Option ε) (t : Thread σ ω ε μ ρ) :
    B.Reaches db (t.advance B db fault).1 := by
  obtain ⟨h, -⟩ | ⟨ws, -, -, ha, -⟩ := advance_cases B db fault t
  · rw [h]
    exact .refl db
  · exact ⟨ws, ha⟩

end Thread

namespace World

variable {B : Backend σ ω ε} {C : σ → List ω → Prop} {Q : ρ → σ → Session ω → Prop}
variable {w : World σ ω ε μ ρ} {a : Act σ ω ε μ ρ}

/-- All programs in flight rely on nothing but stable facts. -/
def Relies (B : Backend σ ω ε) (C : σ → List ω → Prop) (Q : ρ → σ → Session ω → Prop)
    (w : World σ ω ε μ ρ) : Prop := ∀ t ∈ w.threads, t.Relies B C Q w.db

theorem Relies.act (h : w.Relies B C Q) (stable : ∀ r, Stable B (Q r))
    (spawned : ∀ p, a = .spawn p → p.Relies B C Q w.db {}) : (w.act B a).Relies B C Q := by
  cases a with
  | spawn p =>
      intro t ht
      obtain ht | ht := List.mem_append.mp ht
      · exact h t ht
      · rw [List.mem_singleton] at ht
        subst ht
        exact spawned p rfl
  | step i fault =>
      simp only [World.act]
      split
      · exact h
      · rename_i t hi
        intro u hu
        obtain hu | rfl := List.mem_or_eq_of_mem_set hu
        · exact (h u hu).reaches stable (t.reaches_advance B w.db fault)
        · exact (h t (List.mem_of_getElem? hi)).advance

theorem Relies.writeSet {ws : List ω} (h : w.Relies B C Q) (hw : w.writeSet a = some ws) :
    C w.db ws := by
  cases a with
  | spawn p => simp [World.writeSet] at hw
  | step i fault =>
      simp only [World.writeSet] at hw
      split at hw
      · obtain ⟨t, hi, ht⟩ := Option.bind_eq_some_iff.mp hw
        exact (h t (List.mem_of_getElem? hi)).ready ht
      · cases hw

end World

namespace Tx

variable {B : Backend σ ω ε} {C : σ → List ω → Prop} {E J J' : σ → Session ω → Prop}
variable {K : α → σ → Session ω → Prop}

/-- Started under `J`, the program commits as `C` asks, whatever others do meanwhile, and
ends under `K`, or under `E` when it raises. -/
def Contract (B : Backend σ ω ε) (C : σ → List ω → Prop) (E J : σ → Session ω → Prop)
    (p : Tx σ ω ε μ α) (K : α → σ → Session ω → Prop) : Prop :=
  ∀ db s, J db s → p.run.Relies B C (fun r db s => match r with
    | .ok a => K a db s
    | .error _ => E db s) db s

theorem Contract.consequence {p : Tx σ ω ε μ α} {E' : σ → Session ω → Prop}
    {K' : α → σ → Session ω → Prop} (h : Contract B C E J p K)
    (pre : ∀ db s, J' db s → J db s) (err : ∀ db s, E db s → E' db s)
    (post : ∀ a db s, K a db s → K' a db s) : Contract B C E' J' p K' := by
  intro db s hj
  refine (h db s (pre db s hj)).mono ?_
  rintro (e | a) db s hr
  · exact err db s hr
  · exact post a db s hr

/-- A request served alone adds its write sets to the store. -/
theorem reaches_atomically (B : Backend σ ω ε) (p : Tx σ ω ε μ α) (db : σ) :
    B.Reaches db (p.atomically B db).2 :=
  ⟨_, Program.exec_committed B p.run [] db {} rfl⟩

/-- What a contract says about the store holds of it when a request served alone answers. -/
theorem Contract.answer {p : Tx σ ω ε μ α} {P : α → σ → Prop} {db : σ} {a : α}
    (h : Contract B C E J p fun a db _ => P a db) (hJ : J db {})
    (answered : (p.atomically B db).1 = .ok a) : P a (p.atomically B db).2 := by
  have hresult := (h db {} hJ).result []
  have answered : (p.run.exec B [] db {}).result = .ok a := answered
  rw [answered] at hresult
  exact hresult

theorem Contract.pure {a : α} (h : ∀ db s, J db s → K a db s) :
    Contract B C E J (pure a : Tx σ ω ε μ α) K := h

theorem Contract.throw {e : ε} (h : ∀ db s, J db s → E db s) :
    Contract B C E J (throw e : Tx σ ω ε μ α) K := h

theorem Contract.attempt {p : Tx σ ω ε μ α} {E' : σ → Session ω → Prop}
    (hp : Contract B C E' J p K) : Contract B C E J (attempt p) fun r db s => match r with
      | .ok a => K a db s
      | .error _ => E' db s :=
  fun db s hj => Program.relies_bind.mpr ((hp db s hj).mono fun _ _ _ h => h)

theorem Contract.tryCatch {p : Tx σ ω ε μ α} {handler : ε → Tx σ ω ε μ α}
    {E' : σ → Session ω → Prop} (hp : Contract B C E' J p K)
    (hh : ∀ e, Contract B C E E' (handler e) K) : Contract B C E J (tryCatch p handler) K := by
  intro db s hj
  refine Program.relies_bind.mpr ((hp db s hj).mono ?_)
  rintro (e | a) db s h
  · exact hh e db s h
  · exact h

theorem Contract.ite {c : Prop} [Decidable c] {p q : Tx σ ω ε μ α} (hp : c → Contract B C E J p K)
    (hq : ¬c → Contract B C E J q K) : Contract B C E J (if c then p else q) K := by
  by_cases h : c
  · rw [if_pos h]
    exact hp h
  · rw [if_neg h]
    exact hq h

theorem Contract.bind {p : Tx σ ω ε μ α} {f : α → Tx σ ω ε μ β} {K' : β → σ → Session ω → Prop}
    (hp : Contract B C E J p K) (hf : ∀ a, Contract B C E (K a) (f a) K') :
    Contract B C E J (p >>= f) K' := by
  intro db s hj
  refine Program.relies_bind.mpr ((hp db s hj).mono ?_)
  rintro (e | a) db s h
  · exact h
  · exact hf a db s h

/-- A read: the session's writes on top of what everybody has committed by now. -/
theorem Contract.query {f : σ → α} (stable : Stable B J) (herr : ∀ db s, J db s → E db s)
    (h : ∀ db s view, J db s → s.failed = false → B.applyAll db s.flushed = .ok view →
      K (f view) db s) :
    Contract B C E J (Tx.query f : Tx σ ω ε μ α) K := by
  intro db s hj db' hr fault
  have hj' := stable db db' s hr hj
  simp only [Session.query]
  cases hf : s.failed with
  | true => exact herr db' s hj'
  | false =>
      cases fault with
      | some e => exact herr db' s hj'
      | none =>
          cases hv : B.applyAll db' s.flushed with
          | error e => exact herr db' s hj'
          | ok view => exact h db' s view hj' hf hv

/-- The same for one store and session: the read fails, or finds a view. -/
theorem relies_query_bind {γ : Type} {f : σ → γ} {k : γ → Tx σ ω ε μ α}
    {Q : Except ε α → σ → Session ω → Prop} {db : σ} {s : Session ω}
    (herr : ∀ e db', Q (.error e) db' s)
    (hok : ∀ db' view, B.Reaches db db' → s.failed = false → B.applyAll db' s.flushed = .ok view →
      (k (f view)).run.Relies B C Q db' s) :
    (Tx.query f >>= k).run.Relies B C Q db s := by
  intro db' hr fault
  simp only [Session.query]
  cases hf : s.failed with
  | true => exact herr _ _
  | false =>
      cases fault with
      | some e => exact herr e _
      | none =>
          cases hv : B.applyAll db' s.flushed with
          | error e => exact herr e _
          | ok view => exact hok db' view hr hf hv

theorem Contract.stage {w : ω} {K : Unit → σ → Session ω → Prop}
    (h : ∀ db s, J db s → K () db (s.stage w)) :
    Contract B C E J (Tx.stage w : Tx σ ω ε μ Unit) K := h

theorem Contract.call {m : μ} (herr : ∀ db s, J db s → E db s) :
    Contract B C E J (Tx.call m : Tx σ ω ε μ Unit) fun _ => J := by
  rintro db s hj (e | u)
  · exact herr db s hj
  · exact hj

/-- A commit of what `C` admits; afterwards nothing is pending. -/
theorem Contract.commit {K : Unit → σ → Session ω → Prop} (stable : Stable B J)
    (failed : ∀ db s, s.failed = true → E db s)
    (hC : ∀ db s, J db s → s.failed = false → C db s.pending)
    (h : ∀ db s db', J db s → s.failed = false → B.applyAll db s.pending = .ok db' →
      K () db' { committed := s.committed ++ [s.pending] }) :
    Contract B C E J (Tx.commit : Tx σ ω ε μ Unit) K := by
  intro db s hj db' hr
  have hj' := stable db db' s hr hj
  refine ⟨hC db' s hj', fun fault => ?_⟩
  simp only [Session.commit]
  split
  · rename_i db'' hs
    obtain ⟨hf, -, ha⟩ := Session.send_eq_ok_iff.mp hs
    exact h db' s db'' hj' hf ha
  · exact failed db' _ rfl

/-- A program that commits nothing keeps a stable assertion that its writes keep. -/
theorem Stages.contract {Φ : ω → Prop} {p : Tx σ ω ε μ α} (h : Stages Φ p) (stable : Stable B J)
    (grows : ∀ db s s', J db s → s.Grows Φ s' → J db s') :
    Contract B C J J p fun _ => J := by
  intro db s hj
  unfold Stages at h
  generalize p.run = prog at h
  induction prog generalizing db s with
  | done r =>
      cases r with
      | error e => exact hj
      | ok a => exact hj
  | query k ih => exact fun db' hr fault => ih _ db' s (stable db db' s hr hj) (h _)
  | stage w k ih => exact ih db _ (grows db s _ hj (.stage h.1)) h.2
  | flush k ih =>
      exact fun db' hr fault => ih _ db' _ (grows db' s _ (stable db db' s hr hj) .flush) (h _)
  | commit k ih => exact h.elim
  | call m k ih => exact fun r => ih _ db s hj (h r)

theorem Contract.flush {R : σ → List ω → Prop} (stable : Stable B fun db s => s.Holds (R db))
    (herr : ∀ db (s : Session ω), s.Holds (R db) → E db s) :
    Contract B C E (fun db s => s.Holds (R db)) (Tx.flush : Tx σ ω ε μ Unit)
      fun _ db s => s.Holds (R db) :=
  (Stages.contract (Φ := fun _ => False) Stages.flush stable fun _ _ _ h hg =>
    h.grows hg fun _ _ hw => hw.elim).consequence (fun _ _ h => h) herr fun _ _ _ h => h

end Tx
end Transaction
