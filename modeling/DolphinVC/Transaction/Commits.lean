import DolphinVC.Transaction.Session

/-!
# The write sets a program can commit

`Program.Commits R Q p j` is a weakest precondition over the journal of a session:
whatever the environment answers, every commit of `p` happens at a journal
satisfying `R`, and `p` ends with a result and a journal related by `Q`. Nothing is
assumed about what the program reads, so the judgment survives every interleaving
with other sessions; `Transaction.World` uses it that way.

The rules follow the statements. `stage` grows the pending writes, a successful
`commit` moves them into the history, and a failed one leaves them for whoever
catches it. `Emits` is the common case of one property of single writes; its rules need
no assertion between statements.
-/

namespace Transaction

variable {σ ω ε μ α β : Type}

/-- Every write of the journal has the property. -/
def Journal.All (Φ : ω → Prop) (j : Journal ω) : Prop :=
  (∀ w ∈ j.committed.flatten, Φ w) ∧ ∀ w ∈ j.pending, Φ w

namespace Journal

variable {Φ : ω → Prop} {j : Journal ω} {w : ω}

@[simp] theorem all_stage : (j.stage w).All Φ ↔ j.All Φ ∧ Φ w := by
  simp only [All, committed_stage, pending_stage, List.forall_mem_append, List.forall_mem_singleton,
    and_assoc]

@[simp] theorem all_commit : j.commit.All Φ ↔ j.All Φ := by
  simp only [All, committed_commit, pending_commit, List.flatten_append, List.flatten_singleton,
    List.forall_mem_append, List.not_mem_nil, false_imp_iff, implies_true, and_true]

@[simp] theorem all_empty : ({} : Journal ω).All Φ := by
  simp [All]

end Journal

namespace Program

def Commits (R : Journal ω → Prop) (Q : α → Journal ω → Prop) :
    Program σ ω ε μ α → Journal ω → Prop
  | .done a, j => Q a j
  | .query k, j => ∀ r, Commits R Q (k r) j
  | .stage w k, j => Commits R Q k (j.stage w)
  | .flush k, j => ∀ r, Commits R Q (k r) j
  | .commit k, j => R j ∧ Commits R Q (k (.ok ())) j.commit ∧ ∀ e, Commits R Q (k (.error e)) j
  | .call _ k, j => ∀ r, Commits R Q (k r) j

variable {R R' : Journal ω → Prop} {Q Q' : α → Journal ω → Prop} {j : Journal ω}

theorem Commits.weaken {p : Program σ ω ε μ α} (h : p.Commits R Q j)
    (hR : ∀ j, R j → R' j) (hQ : ∀ a j, Q a j → Q' a j) : p.Commits R' Q' j := by
  induction p generalizing j with
  | done a => exact hQ a j h
  | query k ih => exact fun r => ih r (h r)
  | stage w k ih => exact ih h
  | flush k ih => exact fun r => ih r (h r)
  | commit k ih => exact ⟨hR j h.1, ih _ h.2.1, fun e => ih _ (h.2.2 e)⟩
  | call m k ih => exact fun r => ih r (h r)

theorem Commits.mono {p : Program σ ω ε μ α} (h : p.Commits R Q j)
    (weaken : ∀ a j, Q a j → Q' a j) : p.Commits R Q' j :=
  h.weaken (fun _ hR => hR) weaken

/-- Nothing is promised about a program that may do anything. -/
theorem commits_of_forall (p : Program σ ω ε μ α) (hR : ∀ j, R j) (hQ : ∀ a j, Q a j) :
    p.Commits R Q j := by
  induction p generalizing j with
  | done a => exact hQ a j
  | query k ih => exact fun r => ih r
  | stage w k ih => exact ih
  | flush k ih => exact fun r => ih r
  | commit k ih => exact ⟨hR j, ih _, fun e => ih _⟩
  | call m k ih => exact fun r => ih r

theorem commits_bind {p : Program σ ω ε μ α} {f : α → Program σ ω ε μ β}
    {P : β → Journal ω → Prop} :
    (p.bind f).Commits R P j ↔ p.Commits R (fun a j => (f a).Commits R P j) j := by
  induction p generalizing j with
  | done a => rfl
  | query k ih => exact forall_congr' fun r => ih r
  | stage w k ih => exact ih
  | flush k ih => exact forall_congr' fun r => ih r
  | commit k ih => exact and_congr Iff.rfl (and_congr (ih _) (forall_congr' fun e => ih _))
  | call m k ih => exact forall_congr' fun r => ih r

/-- Served alone, a program keeps whatever its commits keep and ends as promised. -/
theorem Commits.exec {B : Backend σ ω ε} {I : σ → Prop} {p : Program σ ω ε μ α}
    {fs : List (Option ε)} {db : σ} {s : Session ω} (h : p.Commits R Q s.journal)
    (keep : ∀ j db db', R j → I db → B.applyAll db j.pending = .ok db' → I db') (hI : I db) :
    I (p.exec B fs db s).db ∧ Q (p.exec B fs db s).result (p.exec B fs db s).session.journal := by
  induction p generalizing fs db s with
  | done a => exact ⟨hI, h⟩
  | query k ih => exact ih _ (h _) hI
  | stage w k ih => exact ih (by rw [Session.journal_stage]; exact h) hI
  | flush k ih =>
      simp only [Program.exec, Session.flush]
      split
      · exact ih _ (by simpa [Session.journal, Session.pending] using h (.ok ())) hI
      · exact ih _ (h _) hI
  | commit k ih =>
      simp only [Program.exec, Session.commit]
      split
      · rename_i db' hs
        exact ih _ h.2.1 (keep _ db db' h.1 hI (Session.send_eq_ok_iff.mp hs).2.2)
      · exact ih _ (h.2.2 _) hI
  | call m k ih => exact ih _ (h _) hI

/-- Whatever the program stages has the property, and so has its result. -/
def Emits (Φ : ω → Prop) (P : α → Prop) : Program σ ω ε μ α → Prop
  | .done a => P a
  | .query k => ∀ r, Emits Φ P (k r)
  | .stage w k => Φ w ∧ Emits Φ P k
  | .flush k => ∀ r, Emits Φ P (k r)
  | .commit k => ∀ r, Emits Φ P (k r)
  | .call _ k => ∀ r, Emits Φ P (k r)

section Emits

variable {Φ Ψ : ω → Prop} {P P' : α → Prop}

theorem Emits.weaken {p : Program σ ω ε μ α} (h : p.Emits Φ P) (hΦ : ∀ w, Φ w → Ψ w)
    (hP : ∀ a, P a → P' a) : p.Emits Ψ P' := by
  induction p with
  | done a => exact hP a h
  | query k ih => exact fun r => ih r (h r)
  | stage w k ih => exact ⟨hΦ w h.1, ih h.2⟩
  | flush k ih => exact fun r => ih r (h r)
  | commit k ih => exact fun r => ih r (h r)
  | call m k ih => exact fun r => ih r (h r)

theorem Emits.and {p : Program σ ω ε μ α} (h : p.Emits Φ P) (h' : p.Emits Ψ P') :
    p.Emits (fun w => Φ w ∧ Ψ w) fun a => P a ∧ P' a := by
  induction p with
  | done a => exact ⟨h, h'⟩
  | query k ih => exact fun r => ih r (h r) (h' r)
  | stage w k ih => exact ⟨⟨h.1, h'.1⟩, ih h.2 h'.2⟩
  | flush k ih => exact fun r => ih r (h r) (h' r)
  | commit k ih => exact fun r => ih r (h r) (h' r)
  | call m k ih => exact fun r => ih r (h r) (h' r)

theorem Emits.forall {ι : Type} [Nonempty ι] {Θ : ι → ω → Prop} {p : Program σ ω ε μ α}
    (h : ∀ i, p.Emits (Θ i) P) : p.Emits (fun w => ∀ i, Θ i w) P := by
  induction p with
  | done a => exact h (Classical.arbitrary ι)
  | query k ih => exact fun r => ih r fun i => h i r
  | stage w k ih => exact ⟨fun i => (h i).1, ih fun i => (h i).2⟩
  | flush k ih => exact fun r => ih r fun i => h i r
  | commit k ih => exact fun r => ih r fun i => h i r
  | call m k ih => exact fun r => ih r fun i => h i r

theorem emits_bind {p : Program σ ω ε μ α} {f : α → Program σ ω ε μ β} {P : β → Prop} :
    (p.bind f).Emits Φ P ↔ p.Emits Φ fun a => (f a).Emits Φ P := by
  induction p with
  | done a => rfl
  | query k ih => exact forall_congr' fun r => ih r
  | stage w k ih => exact and_congr Iff.rfl ih
  | flush k ih => exact forall_congr' fun r => ih r
  | commit k ih => exact forall_congr' fun r => ih r
  | call m k ih => exact forall_congr' fun r => ih r

theorem Emits.commits {p : Program σ ω ε μ α} (h : p.Emits Φ P) (hj : j.All Φ) :
    p.Commits (Journal.All Φ) (fun a j => P a ∧ j.All Φ) j := by
  induction p generalizing j with
  | done a => exact ⟨h, hj⟩
  | query k ih => exact fun r => ih r (h r) hj
  | stage w k ih => exact ih h.2 (Journal.all_stage.mpr ⟨hj, h.1⟩)
  | flush k ih => exact fun r => ih r (h r) hj
  | commit k ih =>
      exact ⟨hj, ih _ (h (.ok ())) (Journal.all_commit.mpr hj), fun e => ih _ (h (.error e)) hj⟩
  | call m k ih => exact fun r => ih r (h r) hj

end Emits

/-- The program commits nothing, and whatever it stages has the property. -/
def Stages (Φ : ω → Prop) : Program σ ω ε μ α → Prop
  | .done _ => True
  | .query k => ∀ r, Stages Φ (k r)
  | .stage w k => Φ w ∧ Stages Φ k
  | .flush k => ∀ r, Stages Φ (k r)
  | .commit _ => False
  | .call _ k => ∀ r, Stages Φ (k r)

section Stages

variable {Φ : ω → Prop}

theorem Stages.bind {p : Program σ ω ε μ α} {f : α → Program σ ω ε μ β} (hp : p.Stages Φ)
    (hf : ∀ a, (f a).Stages Φ) : (p.bind f).Stages Φ := by
  induction p with
  | done a => exact hf a
  | query k ih => exact fun r => ih r (hp r)
  | stage w k ih => exact ⟨hp.1, ih hp.2⟩
  | flush k ih => exact fun r => ih r (hp r)
  | commit k ih => exact hp.elim
  | call m k ih => exact fun r => ih r (hp r)

theorem Stages.weaken {Ψ : ω → Prop} {p : Program σ ω ε μ α} (h : p.Stages Φ)
    (weaken : ∀ w, Φ w → Ψ w) : p.Stages Ψ := by
  induction p with
  | done a => trivial
  | query k ih => exact fun r => ih r (h r)
  | stage w k ih => exact ⟨weaken w h.1, ih h.2⟩
  | flush k ih => exact fun r => ih r (h r)
  | commit k ih => exact h.elim
  | call m k ih => exact fun r => ih r (h r)

theorem Stages.emits {p : Program σ ω ε μ α} (h : p.Stages Φ) : p.Emits Φ fun _ => True := by
  induction p with
  | done a => trivial
  | query k ih => exact fun r => ih r (h r)
  | stage w k ih => exact ⟨h.1, ih h.2⟩
  | flush k ih => exact fun r => ih r (h r)
  | commit k ih => exact h.elim
  | call m k ih => exact fun r => ih r (h r)

end Stages

/-- The program stages, flushes and commits nothing. -/
def Reads : Program σ ω ε μ α → Prop
  | .done _ => True
  | .query k => ∀ r, (k r).Reads
  | .stage _ _ => False
  | .flush _ => False
  | .commit _ => False
  | .call _ k => ∀ r, (k r).Reads

theorem Reads.bind {p : Program σ ω ε μ α} {f : α → Program σ ω ε μ β} (hp : p.Reads)
    (hf : ∀ a, (f a).Reads) : (p.bind f).Reads := by
  induction p with
  | done a => exact hf a
  | query k ih => exact fun r => ih r (hp r)
  | stage w k ih => exact hp.elim
  | flush k ih => exact hp.elim
  | commit k ih => exact hp.elim
  | call m k ih => exact fun r => ih r (hp r)

theorem Reads.commits {p : Program σ ω ε μ α} (h : p.Reads) (hQ : ∀ a, Q a j) :
    p.Commits R Q j := by
  induction p with
  | done a => exact hQ a
  | query k ih => exact fun r => ih r (h r)
  | stage w k ih => exact h.elim
  | flush k ih => exact h.elim
  | commit k ih => exact h.elim
  | call m k ih => exact fun r => ih r (h r)

theorem Reads.stages {Φ : ω → Prop} {p : Program σ ω ε μ α} (h : p.Reads) : p.Stages Φ := by
  induction p with
  | done a => trivial
  | query k ih => exact fun r => ih r (h r)
  | stage w k ih => exact h.elim
  | flush k ih => exact h.elim
  | commit k ih => exact h.elim
  | call m k ih => exact fun r => ih r (h r)

/-- Reading changes neither the store nor the session. -/
theorem Reads.exec {p : Program σ ω ε μ α} (h : p.Reads) (B : Backend σ ω ε)
    (fs : List (Option ε)) (db : σ) (s : Session ω) :
    (p.exec B fs db s).db = db ∧ (p.exec B fs db s).session = s := by
  induction p generalizing fs with
  | done a => exact ⟨rfl, rfl⟩
  | query k ih => exact ih _ (h _) _
  | stage w k ih => exact h.elim
  | flush k ih => exact h.elim
  | commit k ih => exact h.elim
  | call m k ih => exact ih _ (h _) _

/-- The store a program leaves is the one it found with its committed write sets. -/
theorem exec_committed (B : Backend σ ω ε) (p : Program σ ω ε μ α) (fs : List (Option ε))
    (db : σ) (s : Session ω) {base : σ} (start : B.applyAll base s.committed.flatten = .ok db) :
    B.applyAll base (p.exec B fs db s).session.committed.flatten =
      .ok (p.exec B fs db s).db := by
  induction p generalizing fs db s with
  | done a => exact start
  | query k ih => exact ih _ _ _ _ start
  | stage w k ih => exact ih _ _ _ start
  | flush k ih =>
      simp only [exec, Session.flush]
      split
      · exact ih _ _ _ _ start
      · exact ih _ _ _ _ start
  | commit k ih =>
      simp only [exec, Session.commit]
      split
      · rename_i db' hs
        refine ih _ _ _ _ ?_
        rw [List.flatten_append, List.flatten_singleton, Backend.applyAll_append_eq_ok]
        exact ⟨db, start, (Session.send_eq_ok_iff.mp hs).2.2⟩
      · exact ih _ _ _ _ start
  | call m k ih => exact ih _ _ _ _ start

end Program

namespace Tx

/-- `Program.Commits` for a program that may raise. -/
def Commits (R : Journal ω → Prop) (Q : Except ε α → Journal ω → Prop) (p : Tx σ ω ε μ α)
    (j : Journal ω) : Prop := p.run.Commits R Q j

variable {R : Journal ω → Prop} {Q : Except ε α → Journal ω → Prop} {j : Journal ω}

theorem commits_bind {p : Tx σ ω ε μ α} {f : α → Tx σ ω ε μ β}
    {P : Except ε β → Journal ω → Prop} :
    Commits R P (p >>= f) j ↔ Commits R (fun r j => match r with
      | .ok a => Commits R P (f a) j
      | .error e => P (.error e) j) p j := by
  unfold Commits
  rw [ExceptT.run_bind, Program.bind_eq, Program.commits_bind]
  constructor
  · intro h
    refine h.mono ?_
    rintro (e | a) j hr
    · exact hr
    · exact hr
  · intro h
    refine h.mono ?_
    rintro (e | a) j hr
    · exact hr
    · exact hr

@[simp] theorem commits_pure {a : α} : Commits R Q (pure a : Tx σ ω ε μ α) j ↔ Q (.ok a) j :=
  Iff.rfl

@[simp] theorem commits_throw {e : ε} :
    Commits R Q (throw e : Tx σ ω ε μ α) j ↔ Q (.error e) j := Iff.rfl

@[simp] theorem commits_query {f : σ → α} :
    Commits R Q (query f : Tx σ ω ε μ α) j ↔ (∀ s, Q (.ok (f s)) j) ∧ ∀ e, Q (.error e) j := by
  constructor
  · intro h
    exact ⟨fun s => h (.ok s), fun e => h (.error e)⟩
  · rintro ⟨hok, herr⟩ (e | s)
    · exact herr e
    · exact hok s

@[simp] theorem commits_stage {w : ω} {Q : Except ε Unit → Journal ω → Prop} :
    Commits R Q (stage w : Tx σ ω ε μ Unit) j ↔ Q (.ok ()) (j.stage w) := Iff.rfl

theorem commits_forM_stage {f : β → ω} {xs : List β} {Q : Except ε PUnit → Journal ω → Prop} :
    Commits R Q (xs.forM fun x => (stage (f x) : Tx σ ω ε μ PUnit)) j ↔
      Q (.ok ()) { j with pending := j.pending ++ xs.map f } := by
  induction xs generalizing j with
  | nil =>
      rw [List.map_nil, List.append_nil]
      rfl
  | cons x xs ih =>
      refine commits_bind.trans (commits_stage.trans (ih.trans ?_))
      simp only [Journal.stage, List.map_cons, List.append_assoc, List.singleton_append]

@[simp] theorem commits_flush {Q : Except ε Unit → Journal ω → Prop} :
    Commits R Q (flush : Tx σ ω ε μ Unit) j ↔ Q (.ok ()) j ∧ ∀ e, Q (.error e) j := by
  constructor
  · intro h
    exact ⟨h (.ok ()), fun e => h (.error e)⟩
  · rintro ⟨hok, herr⟩ (e | _)
    · exact herr e
    · exact hok

@[simp] theorem commits_commit {Q : Except ε Unit → Journal ω → Prop} :
    Commits R Q (commit : Tx σ ω ε μ Unit) j ↔
      R j ∧ Q (.ok ()) j.commit ∧ ∀ e, Q (.error e) j := Iff.rfl

@[simp] theorem commits_call {m : μ} {Q : Except ε Unit → Journal ω → Prop} :
    Commits R Q (call m : Tx σ ω ε μ Unit) j ↔ Q (.ok ()) j ∧ ∀ e, Q (.error e) j := by
  constructor
  · intro h
    exact ⟨h (.ok ()), fun e => h (.error e)⟩
  · rintro ⟨hok, herr⟩ (e | _)
    · exact herr e
    · exact hok

end Tx

namespace Tx

/-- A request served alone keeps what each write it can commit keeps. -/
theorem Commits.atomically {B : Backend σ ω ε} {I : σ → Prop} {Φ : ω → Prop}
    {Q : Except ε α → Journal ω → Prop} {p : Tx σ ω ε μ α} {db : σ}
    (h : Commits (Journal.All Φ) Q p {})
    (keep : ∀ db w db', Φ w → I db → B.apply db w = .ok db' → I db') (hI : I db) :
    I (p.atomically B db).2 :=
  (Program.Commits.exec (s := {}) h
    (fun _ _ _ hj hdb happly => Backend.applyAll_inv keep hj.2 hdb happly) hI).1

/-- A request served alone leaves the store with the write sets it committed, and its
answer is related to them as promised. -/
theorem Commits.served {B : Backend σ ω ε} {R : Journal ω → Prop}
    {Q : Except ε α → Journal ω → Prop} {p : Tx σ ω ε μ α} (h : Commits R Q p {}) (db : σ) :
    ∃ j, Q (p.atomically B db).1 j ∧
      B.applyAll db j.committed.flatten = .ok (p.atomically B db).2 :=
  ⟨_, (Program.Commits.exec (s := {}) (I := fun _ => True) h (fun _ _ _ _ _ _ => trivial)
    trivial).2, Program.exec_committed B p.run [] db {} rfl⟩

/-- `Program.Emits` for a program that may raise; `P` speaks about the value returned. -/
def EmitsTo (Φ : ω → Prop) (P : α → Prop) (p : Tx σ ω ε μ α) : Prop :=
  p.run.Emits Φ fun r => ∀ a, r = .ok a → P a

/-- Whatever the program stages has the property. -/
def Emits (Φ : ω → Prop) (p : Tx σ ω ε μ α) : Prop := p.run.Emits Φ fun _ => True

variable {Φ : ω → Prop} {P : α → Prop} {P' : β → Prop}

theorem Emits.weaken {Ψ : ω → Prop} {p : Tx σ ω ε μ α} (h : Emits Φ p)
    (weaken : ∀ w, Φ w → Ψ w) : Emits Ψ p :=
  Program.Emits.weaken h weaken fun _ _ => trivial

theorem Emits.and {Ψ : ω → Prop} {p : Tx σ ω ε μ α} (h : Emits Φ p) (h' : Emits Ψ p) :
    Emits (fun w => Φ w ∧ Ψ w) p :=
  (Program.Emits.and h h').weaken (fun _ hw => hw) fun _ _ => trivial

theorem Emits.any {p : Tx σ ω ε μ α} : Emits (fun _ => True) p := by
  unfold Emits
  generalize p.run = prog
  induction prog with
  | done a => trivial
  | query k ih => exact fun r => ih r
  | stage w k ih => exact ⟨trivial, ih⟩
  | flush k ih => exact fun r => ih r
  | commit k ih => exact fun r => ih r
  | call m k ih => exact fun r => ih r

/-- What a program writes however a parameter of the property is chosen. -/
theorem Emits.forall {ι : Type} [Nonempty ι] {Θ : ι → ω → Prop} {p : Tx σ ω ε μ α}
    (h : ∀ i, Emits (Θ i) p) : Emits (fun w => ∀ i, Θ i w) p := Program.Emits.forall h

theorem Emits.commits {p : Tx σ ω ε μ α} (h : Emits Φ p) {j : Journal ω} (hj : j.All Φ) :
    Commits (Journal.All Φ) (fun _ j => j.All Φ) p j :=
  (Program.Emits.commits h hj).mono fun _ _ => And.right

theorem EmitsTo.emits {p : Tx σ ω ε μ α} (h : EmitsTo Φ P p) : Emits Φ p :=
  Program.Emits.weaken h (fun _ hw => hw) fun _ _ => trivial

theorem Emits.to {p : Tx σ ω ε μ α} (h : Emits Φ p) : EmitsTo Φ (fun _ => True) p :=
  Program.Emits.weaken h (fun _ hw => hw) fun _ _ _ _ => trivial

theorem EmitsTo.pure {a : α} (ha : P a) : EmitsTo Φ P (pure a : Tx σ ω ε μ α) :=
  fun _ h => Except.ok.inj h ▸ ha

theorem EmitsTo.throw (e : ε) : EmitsTo Φ P (throw e : Tx σ ω ε μ α) := fun _ h => nomatch h

theorem EmitsTo.query {f : σ → α} (h : ∀ s, P (f s)) :
    EmitsTo Φ P (Tx.query f : Tx σ ω ε μ α) := by
  rintro (e | s) a ha
  · cases ha
  · cases ha
    exact h s

theorem EmitsTo.bind {p : Tx σ ω ε μ α} {f : α → Tx σ ω ε μ β} (hp : EmitsTo Φ P p)
    (hf : ∀ a, P a → EmitsTo Φ P' (f a)) : EmitsTo Φ P' (p >>= f) := by
  refine Program.emits_bind.mpr (Program.Emits.weaken hp (fun _ hw => hw) ?_)
  rintro (e | a) ha
  · exact fun _ h => nomatch h
  · exact hf a (ha a rfl)

/-- Go on after a part with what is known about its value. -/
theorem EmitsTo.andThen {p : Tx σ ω ε μ α} {f : α → Tx σ ω ε μ β} (hp : EmitsTo Φ P p)
    (hf : ∀ a, P a → Emits Φ (f a)) : Emits Φ (p >>= f) :=
  (hp.bind fun a ha => (hf a ha).to).emits

theorem Emits.pure (a : α) : Emits Φ (pure a : Tx σ ω ε μ α) := trivial

theorem Emits.throw (e : ε) : Emits Φ (throw e : Tx σ ω ε μ α) := trivial

theorem Emits.ofExcept (r : Except ε α) : Emits Φ (ofExcept r : Tx σ ω ε μ α) := by
  cases r with
  | ok a => exact Emits.pure a
  | error e => exact Emits.throw e

theorem Emits.query (f : σ → α) : Emits Φ (Tx.query f : Tx σ ω ε μ α) := fun _ => trivial

theorem Emits.stage {w : ω} (hw : Φ w) : Emits Φ (Tx.stage w : Tx σ ω ε μ Unit) := ⟨hw, trivial⟩

theorem Emits.flush : Emits Φ (Tx.flush : Tx σ ω ε μ Unit) := fun _ => trivial

theorem Emits.commit : Emits Φ (Tx.commit : Tx σ ω ε μ Unit) := fun _ => trivial

theorem Emits.call (m : μ) : Emits Φ (Tx.call m : Tx σ ω ε μ Unit) := fun _ => trivial

theorem Emits.bind {p : Tx σ ω ε μ α} {f : α → Tx σ ω ε μ β} (hp : Emits Φ p)
    (hf : ∀ a, Emits Φ (f a)) : Emits Φ (p >>= f) := hp.to.andThen fun a _ => hf a

theorem Emits.void {p : Tx σ ω ε μ α} (hp : Emits Φ p) : Emits Φ (void p) :=
  hp.bind fun _ => Emits.pure ()

theorem Emits.tryCatch {p : Tx σ ω ε μ α} {handler : ε → Tx σ ω ε μ α} (hp : Emits Φ p)
    (hh : ∀ e, Emits Φ (handler e)) : Emits Φ (tryCatch p handler) := by
  refine Program.emits_bind.mpr (Program.Emits.weaken hp (fun _ hw => hw) ?_)
  rintro (e | a) -
  · exact hh e
  · trivial

theorem Emits.attempt {p : Tx σ ω ε μ α} (hp : Emits Φ p) : Emits Φ (attempt p) :=
  Program.emits_bind.mpr hp

theorem Emits.finally' {p : Tx σ ω ε μ α} {finalizer : Tx σ ω ε μ Unit} (hp : Emits Φ p)
    (hf : Emits Φ finalizer) : Emits Φ (finally' p finalizer) := by
  refine Program.emits_bind.mpr (Program.Emits.weaken hp (fun _ hw => hw) fun r _ => ?_)
  refine Program.emits_bind.mpr (Program.Emits.weaken hf (fun _ hw => hw) ?_)
  rintro (e | u) -
  · trivial
  · trivial

theorem Emits.ite {c : Prop} [Decidable c] {p q : Tx σ ω ε μ α} (hp : c → Emits Φ p)
    (hq : ¬c → Emits Φ q) : Emits Φ (if c then p else q) := by
  by_cases h : c
  · rw [if_pos h]
    exact hp h
  · rw [if_neg h]
    exact hq h

/-- `Program.Reads` for a program that may raise. -/
def Reads (p : Tx σ ω ε μ α) : Prop := p.run.Reads

theorem Reads.pure (a : α) : Reads (pure a : Tx σ ω ε μ α) := trivial

theorem Reads.throw (e : ε) : Reads (throw e : Tx σ ω ε μ α) := trivial

theorem Reads.query (f : σ → α) : Reads (Tx.query f : Tx σ ω ε μ α) := fun _ => trivial

theorem Reads.bind {p : Tx σ ω ε μ α} {f : α → Tx σ ω ε μ β} (hp : Reads p)
    (hf : ∀ a, Reads (f a)) : Reads (p >>= f) := by
  refine Program.Reads.bind hp ?_
  rintro (e | a)
  · exact Reads.throw e
  · exact hf a

theorem Reads.void {p : Tx σ ω ε μ α} (hp : Reads p) : Reads (void p) :=
  hp.bind fun _ => Reads.pure ()

theorem Reads.ite {c : Prop} [Decidable c] {p q : Tx σ ω ε μ α} (hp : c → Reads p)
    (hq : ¬c → Reads q) : Reads (if c then p else q) := by
  by_cases h : c
  · rw [if_pos h]
    exact hp h
  · rw [if_neg h]
    exact hq h

theorem Reads.commits {p : Tx σ ω ε μ α} (h : Reads p) {R : Journal ω → Prop}
    {Q : Except ε α → Journal ω → Prop} {j : Journal ω} (hQ : ∀ r, Q r j) : Commits R Q p j :=
  Program.Reads.commits h hQ

/-- `Program.Stages` for a program that may raise. -/
def Stages (Φ : ω → Prop) (p : Tx σ ω ε μ α) : Prop := p.run.Stages Φ

theorem Stages.emits {p : Tx σ ω ε μ α} (h : Stages Φ p) : Emits Φ p := Program.Stages.emits h

theorem Stages.weaken {Ψ : ω → Prop} {p : Tx σ ω ε μ α} (h : Stages Φ p)
    (weaken : ∀ w, Φ w → Ψ w) : Stages Ψ p := Program.Stages.weaken h weaken

theorem Stages.pure (a : α) : Stages Φ (pure a : Tx σ ω ε μ α) := trivial

theorem Stages.query (f : σ → α) : Stages Φ (Tx.query f : Tx σ ω ε μ α) := fun _ => trivial

theorem Stages.stage {w : ω} (hw : Φ w) : Stages Φ (Tx.stage w : Tx σ ω ε μ Unit) :=
  ⟨hw, trivial⟩

theorem Stages.flush : Stages Φ (Tx.flush : Tx σ ω ε μ Unit) := fun _ => trivial

theorem Stages.call (m : μ) : Stages Φ (Tx.call m : Tx σ ω ε μ Unit) := fun _ => trivial

theorem Stages.bind {p : Tx σ ω ε μ α} {f : α → Tx σ ω ε μ β} (hp : Stages Φ p)
    (hf : ∀ a, Stages Φ (f a)) : Stages Φ (p >>= f) := by
  refine Program.Stages.bind hp ?_
  rintro (e | a)
  · trivial
  · exact hf a

theorem Stages.attempt {p : Tx σ ω ε μ α} (hp : Stages Φ p) : Stages Φ (attempt p) :=
  Program.Stages.bind hp fun _ => trivial

theorem Stages.ite {c : Prop} [Decidable c] {p q : Tx σ ω ε μ α} (hp : c → Stages Φ p)
    (hq : ¬c → Stages Φ q) : Stages Φ (if c then p else q) := by
  by_cases h : c
  · rw [if_pos h]
    exact hp h
  · rw [if_neg h]
    exact hq h

theorem Reads.stages {p : Tx σ ω ε μ α} (h : Reads p) : Stages Φ p := Program.Reads.stages h

theorem Reads.emits {p : Tx σ ω ε μ α} (h : Reads p) {Φ : ω → Prop} : Emits Φ p :=
  h.stages.emits

end Tx
end Transaction
