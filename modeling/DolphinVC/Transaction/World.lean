import DolphinVC.Transaction.Commits

/-!
# Interleaved sessions

A world is the committed store, the programs in flight with their sessions, and
the external calls that went through. A step runs one statement of one program;
nothing orders the programs among each other, so a run is any schedule.

`Thread.ready` is the write set a thread would make visible by its next step. It
is a function of the state before the step, which is how side conditions on
schedules are phrased. `World.act_cases` says all there is to say about the store: it
changes only by such a write set, and `World.Obeys.act` keeps track of what
write sets the programs in flight can still produce.
-/

namespace Transaction

variable {σ ω ε μ ρ : Type}

structure Thread (σ ω ε μ ρ : Type) where
  prog : Program σ ω ε μ ρ
  session : Session ω := {}

namespace Thread

/-- Run the next statement. The third component is the external call it made. -/
def advance (B : Backend σ ω ε) (db : σ) (fault : Option ε) (t : Thread σ ω ε μ ρ) :
    σ × Thread σ ω ε μ ρ × Option μ :=
  match t.prog with
  | .done a => (db, ⟨.done a, t.session⟩, none)
  | .query k => (db, ⟨k (t.session.query B db fault), t.session⟩, none)
  | .stage w k => (db, ⟨k, t.session.stage w⟩, none)
  | .flush k => (db, ⟨k (t.session.flush B db fault).1, (t.session.flush B db fault).2⟩, none)
  | .commit k =>
      ((t.session.commit B db fault).2.2,
        ⟨k (t.session.commit B db fault).1, (t.session.commit B db fault).2.1⟩, none)
  | .call m k => (db, ⟨k (Session.call fault), t.session⟩, if fault.isNone then some m else none)

/-- The write set that the next step makes visible if nothing goes wrong. -/
def ready (t : Thread σ ω ε μ ρ) : Option (List ω) :=
  match t.prog with
  | .commit _ => if t.session.failed then none else some t.session.pending
  | _ => none

/-- Every commit the thread can still make happens at a journal satisfying `R`, and
its result will be related to its journal by `Q`. -/
def Obeys (R : Journal ω → Prop) (Q : ρ → Journal ω → Prop) (t : Thread σ ω ε μ ρ) : Prop :=
  t.prog.Commits R Q t.session.journal

variable {B : Backend σ ω ε} {db : σ} {fault : Option ε} {t : Thread σ ω ε μ ρ}
variable {R : Journal ω → Prop} {Q : ρ → Journal ω → Prop} {ws : List ω}

theorem Obeys.ready (h : t.Obeys R Q) (hr : t.ready = some ws) :
    t.session.pending = ws ∧ R t.session.journal := by
  unfold Obeys at h
  unfold Thread.ready at hr
  cases hp : t.prog with
  | commit k =>
      rw [hp] at h hr
      cases hf : t.session.failed with
      | true => simp [hf] at hr
      | false =>
          simp only [hf, Bool.false_eq_true, if_false, Option.some.injEq] at hr
          exact ⟨hr, h.1⟩
  | done a => simp [hp] at hr
  | query k => simp [hp] at hr
  | stage w k => simp [hp] at hr
  | flush k => simp [hp] at hr
  | call m k => simp [hp] at hr

/-- A finished thread ended as its postcondition says. -/
theorem Obeys.done {result : ρ} (h : t.Obeys R Q) (hd : t.prog = .done result) :
    Q result t.session.journal := by
  unfold Obeys at h
  rw [hd] at h
  exact h

theorem Obeys.advance (h : t.Obeys R Q) : (t.advance B db fault).2.1.Obeys R Q := by
  obtain ⟨prog, s⟩ := t
  unfold Obeys at h ⊢
  cases prog with
  | done a => exact h
  | query k => exact h _
  | stage w k =>
      change k.Commits R Q (s.stage w).journal
      rw [Session.journal_stage]
      exact h
  | flush k =>
      simp only [Thread.advance, Session.flush]
      split
      · simpa [Session.journal, Session.pending] using h (.ok ())
      · exact h _
  | commit k =>
      simp only [Thread.advance, Session.commit]
      split
      · exact h.2.1
      · exact h.2.2 _
  | call m k => exact h _

/-- A step leaves store and history alone or makes the ready write set visible. -/
theorem advance_cases (B : Backend σ ω ε) (db : σ) (fault : Option ε)
    (t : Thread σ ω ε μ ρ) : ((t.advance B db fault).1 = db ∧
      (t.advance B db fault).2.1.session.committed = t.session.committed) ∨
    ∃ ws, t.ready = some ws ∧ fault = none ∧ B.applyAll db ws = .ok (t.advance B db fault).1 ∧
      (t.advance B db fault).2.1.session.committed = t.session.committed ++ [ws] := by
  obtain ⟨prog, s⟩ := t
  cases prog with
  | commit k =>
      cases hs : s.send B db fault with
      | ok db' =>
          obtain ⟨hf, rfl, ha⟩ := Session.send_eq_ok_iff.mp hs
          refine Or.inr ⟨s.pending, by simp [Thread.ready, hf], rfl, ?_, ?_⟩
          · simpa [Thread.advance, Session.commit, hs] using ha
          · simp [Thread.advance, Session.commit, hs]
      | error e => exact Or.inl (by simp [Thread.advance, Session.commit, hs])
  | flush k =>
      refine Or.inl ⟨rfl, ?_⟩
      simp only [Thread.advance, Session.flush]
      split
      · rfl
      · rfl
  | done a => exact Or.inl ⟨rfl, rfl⟩
  | query k => exact Or.inl ⟨rfl, rfl⟩
  | stage w k => exact Or.inl ⟨rfl, rfl⟩
  | call m k => exact Or.inl ⟨rfl, rfl⟩

theorem db_advance_of_ready {db' : σ} (hr : t.ready = some ws)
    (ha : B.applyAll db ws = .ok db') : (t.advance B db none).1 = db' := by
  obtain ⟨prog, s⟩ := t
  cases prog with
  | commit k =>
      simp only [Thread.ready] at hr
      cases hf : s.failed with
      | true => simp [hf] at hr
      | false =>
          simp only [hf, Bool.false_eq_true, if_false, Option.some.injEq] at hr
          subst hr
          have hs : s.send B db none = .ok db' := Session.send_eq_ok_iff.mpr ⟨hf, rfl, ha⟩
          simp [Thread.advance, Session.commit, hs]
  | done a => simp [Thread.ready] at hr
  | query k => simp [Thread.ready] at hr
  | stage w k => simp [Thread.ready] at hr
  | flush k => simp [Thread.ready] at hr
  | call m k => simp [Thread.ready] at hr

end Thread

structure World (σ ω ε μ ρ : Type) where
  db : σ
  threads : List (Thread σ ω ε μ ρ) := []
  sent : List μ := []

inductive Act (σ ω ε μ ρ : Type) where
  | spawn (p : Program σ ω ε μ ρ)
  | step (i : Nat) (fault : Option ε)

namespace World

variable (B : Backend σ ω ε)

def act (w : World σ ω ε μ ρ) : Act σ ω ε μ ρ → World σ ω ε μ ρ
  | .spawn p => { w with threads := w.threads ++ [⟨p, {}⟩] }
  | .step i fault => match w.threads[i]? with
    | none => w
    | some t =>
        { db := (t.advance B w.db fault).1
          threads := w.threads.set i (t.advance B w.db fault).2.1
          sent := w.sent ++ (t.advance B w.db fault).2.2.toList }

/-- All programs in flight commit at journals satisfying `R` and end as `Q` says. -/
def Obeys (R : Journal ω → Prop) (Q : ρ → Journal ω → Prop) (w : World σ ω ε μ ρ) : Prop :=
  ∀ t ∈ w.threads, t.Obeys R Q

/-- The write sets that thread `i` has committed so far. -/
def committed (w : World σ ω ε μ ρ) (i : Nat) : List (List ω) :=
  match w.threads[i]? with
  | some t => t.session.committed
  | none => []

/-- The write set an action is about to make visible. -/
def writeSet (w : World σ ω ε μ ρ) : Act σ ω ε μ ρ → Option (List ω)
  | .spawn _ => none
  | .step i fault => if fault.isNone then w.threads[i]?.bind Thread.ready else none

/-- What thread `i` has ended with. -/
def result? (w : World σ ω ε μ ρ) (i : Nat) : Option ρ :=
  w.threads[i]?.bind fun t => match t.prog with
    | .done result => some result
    | _ => none

variable {B} {w : World σ ω ε μ ρ} {a : Act σ ω ε μ ρ} {ws : List ω}

theorem result?_eq_some {i : Nat} {result : ρ} : w.result? i = some result ↔
    ∃ t, w.threads[i]? = some t ∧ t.prog = .done result := by
  rw [result?, Option.bind_eq_some_iff]
  refine exists_congr fun t => and_congr Iff.rfl ?_
  cases t.prog with
  | _ => simp

variable {R : Journal ω → Prop} {Q : ρ → Journal ω → Prop}

theorem Obeys.act (h : w.Obeys R Q)
    (spawned : ∀ p, a = .spawn p → p.Commits R Q {}) : (w.act B a).Obeys R Q := by
  cases a with
  | spawn p =>
      intro t ht
      obtain ht | ht := List.mem_append.mp ht
      · exact h t ht
      · rw [List.mem_singleton] at ht
        subst ht
        exact spawned p rfl
  | step i fault =>
      simp only [World.act]
      split
      · exact h
      · rename_i t hi
        intro u hu
        obtain hu | rfl := List.mem_or_eq_of_mem_set hu
        · exact h u hu
        · exact (h t (List.mem_of_getElem? hi)).advance

theorem Obeys.writeSet (h : w.Obeys R Q) (hw : w.writeSet a = some ws) :
    ∃ j : Journal ω, j.pending = ws ∧ R j := by
  cases a with
  | spawn p => simp [World.writeSet] at hw
  | step i fault =>
      simp only [World.writeSet] at hw
      split at hw
      · obtain ⟨t, hi, ht⟩ := Option.bind_eq_some_iff.mp hw
        obtain ⟨hp, hR⟩ := (h t (List.mem_of_getElem? hi)).ready ht
        exact ⟨t.session.journal, hp, hR⟩
      · cases hw

/-- An action leaves store and histories alone, or one thread makes its write set
visible and remembers it. -/
theorem act_cases :
    ((w.act B a).db = w.db ∧ ∀ i, (w.act B a).committed i = w.committed i) ∨
    ∃ i ws, w.writeSet a = some ws ∧ B.applyAll w.db ws = .ok (w.act B a).db ∧
      (w.act B a).committed i = w.committed i ++ [ws] ∧
      ∀ j, j ≠ i → (w.act B a).committed j = w.committed j := by
  cases a with
  | spawn p =>
      refine Or.inl ⟨rfl, fun i => ?_⟩
      simp only [act, committed]
      by_cases hi : i < w.threads.length
      · rw [List.getElem?_append_left hi]
      · have hi : w.threads.length ≤ i := Nat.le_of_not_lt hi
        rw [List.getElem?_append_right hi, List.getElem?_eq_none hi]
        cases i - w.threads.length with
        | zero => rfl
        | succ n => rfl
  | step i fault =>
      cases hi : w.threads[i]? with
      | none => exact Or.inl (by simp only [act, hi, true_and, implies_true])
      | some t =>
          obtain ⟨hlt, -⟩ := List.getElem?_eq_some_iff.mp hi
          have own : (w.act B (.step i fault)).committed i =
              (t.advance B w.db fault).2.1.session.committed := by
            simp only [act, hi, committed, List.getElem?_set_self hlt]
          have others (j : Nat) (hj : j ≠ i) :
              (w.act B (.step i fault)).committed j = w.committed j := by
            simp only [act, hi, committed, List.getElem?_set_ne hj.symm]
          have before : w.committed i = t.session.committed := by
            simp only [committed, hi]
          have hdb : (w.act B (.step i fault)).db = (t.advance B w.db fault).1 := by
            simp only [act, hi]
          rcases t.advance_cases B w.db fault with
            ⟨hsame, hhist⟩ | ⟨ws, hr, rfl, ha, hhist⟩
          · refine Or.inl ⟨hdb.trans hsame, fun j => ?_⟩
            by_cases hj : j = i
            · rw [hj, own, hhist, before]
            · exact others j hj
          · refine Or.inr ⟨i, ws, by simp [World.writeSet, hi, hr], ?_, ?_, others⟩
            · rw [hdb, ha]
            · rw [own, hhist, before]

/-- The store changes only by the write set of the action. -/
theorem db_act : (w.act B a).db = w.db ∨
    ∃ ws, w.writeSet a = some ws ∧ B.applyAll w.db ws = .ok (w.act B a).db := by
  obtain ⟨h, -⟩ | ⟨_, ws, hw, ha, -⟩ := act_cases (B := B) (w := w) (a := a)
  · exact Or.inl h
  · exact Or.inr ⟨ws, hw, ha⟩

theorem db_act_of_writeSet {db' : σ} (hw : w.writeSet a = some ws)
    (ha : B.applyAll w.db ws = .ok db') : (w.act B a).db = db' := by
  cases a with
  | spawn p => simp [World.writeSet] at hw
  | step i fault =>
      simp only [World.writeSet] at hw
      cases fault with
      | some e => simp at hw
      | none =>
          simp only [Option.isNone_none, if_true] at hw
          obtain ⟨t, hi, ht⟩ := Option.bind_eq_some_iff.mp hw
          simp only [act, hi]
          exact Thread.db_advance_of_ready ht ha

/-- Nothing is ever taken out of a thread's history. -/
theorem committed_prefix {as : List (Act σ ω ε μ ρ)} (i : Nat) :
    w.committed i <+: (as.foldl (act B) w).committed i := by
  induction as generalizing w with
  | nil => exact List.prefix_rfl
  | cons a as ih =>
      refine List.IsPrefix.trans ?_ ih
      obtain ⟨-, hsame⟩ | ⟨k, ws, -, -, hown, hothers⟩ := act_cases (B := B) (w := w) (a := a)
      · exact hsame i ▸ List.prefix_rfl
      · by_cases hk : i = k
        · subst hk
          exact hown ▸ List.prefix_append _ _
        · exact hothers i hk ▸ List.prefix_rfl

/-- The one commit of a thread happened at some action, at which no other thread commits. -/
theorem exists_commit {as : List (Act σ ω ε μ ρ)} {i : Nat} (start : w.committed i = [])
    (h : (as.foldl (act B) w).committed i = [ws]) :
    ∃ earlier a later, as = earlier ++ a :: later ∧
      (earlier.foldl (act B) w).writeSet a = some ws ∧
      B.applyAll (earlier.foldl (act B) w).db ws = .ok ((earlier.foldl (act B) w).act B a).db ∧
      ((earlier.foldl (act B) w).act B a).committed i ≠ (earlier.foldl (act B) w).committed i ∧
      ∀ j, j ≠ i → ((earlier.foldl (act B) w).act B a).committed j =
        (earlier.foldl (act B) w).committed j := by
  induction as generalizing w with
  | nil =>
      rw [List.foldl_nil, start] at h
      cases h
  | cons a as ih =>
      have later (hidle : (w.act B a).committed i = []) := ih hidle h
      rcases act_cases (B := B) (w := w) (a := a) with
        ⟨-, hsame⟩ | ⟨k, vs, hw, happly, hown, hothers⟩
      · obtain ⟨earlier, b, rest, rfl, hrest⟩ := later ((hsame i).trans start)
        exact ⟨a :: earlier, b, rest, rfl, hrest⟩
      · by_cases hk : i = k
        · subst hk
          rw [start, List.nil_append] at hown
          have hprefix : [vs] <+: [ws] := by
            rw [← hown, ← h]
            exact committed_prefix i
          obtain rfl : vs = ws := by simpa using hprefix
          refine ⟨[], a, as, rfl, hw, happly, ?_, hothers⟩
          rw [List.foldl_nil, hown, start]
          exact List.cons_ne_nil vs []
        · obtain ⟨earlier, b, rest, rfl, hrest⟩ := later ((hothers i hk).trans start)
          exact ⟨a :: earlier, b, rest, rfl, hrest⟩

end World
end Transaction
