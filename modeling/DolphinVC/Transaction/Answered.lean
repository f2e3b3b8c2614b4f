import DolphinVC.Transaction.Rely
import DolphinVC.Transition.Run

/-!
# Programs whose reads are answered

`Program.Relies` lets every read fail by itself and the program go on with its open
transaction. A database that aborts the transaction of a failed statement does not leave a
program that choice. `Program.Assured` is the same judgment where a live session always gets
the answer to a read; a session that has failed still gets none. `World.Answered` says of an
action that it lets no read fail.
-/

namespace Transaction

open Transition

variable {σ ω ε μ α β ρ : Type}

namespace Program

def Assured (B : Backend σ ω ε) (C : σ → List ω → Prop) (Q : α → σ → Session ω → Prop) :
    Program σ ω ε μ α → σ → Session ω → Prop
  | .done a, db, s => Q a db s
  | .query k, db, s => ∀ db', B.Reaches db db' → Assured B C Q (k (s.query B db' none)) db' s
  | .stage w k, db, s => Assured B C Q k db (s.stage w)
  | .flush k, db, s => ∀ db', B.Reaches db db' → ∀ fault,
      Assured B C Q (k (s.flush B db' fault).1) db' (s.flush B db' fault).2
  | .commit k, db, s => ∀ db', B.Reaches db db' →
      (s.failed = false → C db' s.pending) ∧
      ∀ fault, Assured B C Q (k (s.commit B db' fault).1) (s.commit B db' fault).2.2
        (s.commit B db' fault).2.1
  | .call _ k, db, s => ∀ r, Assured B C Q (k r) db s

variable {B : Backend σ ω ε} {C : σ → List ω → Prop} {Q Q' : α → σ → Session ω → Prop}
variable {db db' : σ} {s : Session ω}

theorem Relies.assured {p : Program σ ω ε μ α} (h : p.Relies B C Q db s) :
    p.Assured B C Q db s := by
  induction p generalizing db s with
  | done a => exact h
  | query k ih => exact fun db' hr => ih _ (h db' hr none)
  | stage w k ih => exact ih h
  | flush k ih => exact fun db' hr fault => ih _ (h db' hr fault)
  | commit k ih => exact fun db' hr => ⟨(h db' hr).1, fun fault => ih _ ((h db' hr).2 fault)⟩
  | call m k ih => exact fun r => ih _ (h r)

theorem Assured.mono {p : Program σ ω ε μ α} (h : p.Assured B C Q db s)
    (weaken : ∀ a db s, Q a db s → Q' a db s) : p.Assured B C Q' db s := by
  induction p generalizing db s with
  | done a => exact weaken a db s h
  | query k ih => exact fun db' hr => ih _ (h db' hr)
  | stage w k ih => exact ih h
  | flush k ih => exact fun db' hr fault => ih _ (h db' hr fault)
  | commit k ih => exact fun db' hr => ⟨(h db' hr).1, fun fault => ih _ ((h db' hr).2 fault)⟩
  | call m k ih => exact fun r => ih _ (h r)

theorem assured_bind {p : Program σ ω ε μ α} {f : α → Program σ ω ε μ β}
    {P : β → σ → Session ω → Prop} : (p.bind f).Assured B C P db s ↔
      p.Assured B C (fun a db s => (f a).Assured B C P db s) db s := by
  induction p generalizing db s with
  | done a => rfl
  | query k ih => exact forall_congr' fun db' => forall_congr' fun _ => ih _
  | stage w k ih => exact ih
  | flush k ih => exact forall_congr' fun db' => forall_congr' fun _ => forall_congr' fun _ => ih _
  | commit k ih =>
      exact forall_congr' fun db' => forall_congr' fun _ =>
        and_congr Iff.rfl (forall_congr' fun _ => ih _)
  | call m k ih => exact forall_congr' fun r => ih _

theorem Assured.reaches {p : Program σ ω ε μ α} (h : p.Assured B C Q db s)
    (stable : ∀ a, Stable B (Q a)) (hr : B.Reaches db db') : p.Assured B C Q db' s := by
  induction p generalizing s with
  | done a => exact stable a db db' s hr h
  | query k ih => exact fun db'' hr' => h db'' (hr.trans hr')
  | stage w k ih => exact ih h
  | flush k ih => exact fun db'' hr' => h db'' (hr.trans hr')
  | commit k ih => exact fun db'' hr' => h db'' (hr.trans hr')
  | call m k ih => exact fun r => ih _ (h r)

end Program

namespace World

variable {B : Backend σ ω ε} {C : σ → List ω → Prop} {Q : ρ → σ → Session ω → Prop}
variable {w : World σ ω ε μ ρ} {a : Act σ ω ε μ ρ}

/-- The action is no read that fails. -/
def Answered (w : World σ ω ε μ ρ) (a : Act σ ω ε μ ρ) : Prop :=
  ∀ i e t k, a = .step i (some e) → w.threads[i]? = some t → t.prog ≠ .query k

def Assured (B : Backend σ ω ε) (C : σ → List ω → Prop) (Q : ρ → σ → Session ω → Prop)
    (w : World σ ω ε μ ρ) : Prop := ∀ t ∈ w.threads, t.prog.Assured B C Q w.db t.session

theorem Assured.act (h : w.Assured B C Q) (stable : ∀ r, Stable B (Q r)) (answered : Answered w a)
    (spawned : ∀ p, a = .spawn p → p.Assured B C Q w.db {}) : (w.act B a).Assured B C Q := by
  cases a with
  | spawn p =>
      intro t ht
      obtain ht | ht := List.mem_append.mp ht
      · exact h t ht
      · rw [List.mem_singleton] at ht
        subst ht
        exact spawned p rfl
  | step i fault =>
      simp only [World.act]
      split
      · exact h
      · rename_i t hi
        intro u hu
        obtain hu | rfl := List.mem_or_eq_of_mem_set hu
        · exact (h u hu).reaches stable (t.reaches_advance B w.db fault)
        · have ht := h t (List.mem_of_getElem? hi)
          obtain ⟨prog, s⟩ := t
          cases prog with
          | done a => exact ht
          | query k =>
              cases fault with
              | none => exact ht w.db (.refl w.db)
              | some e => exact absurd rfl (answered i e ⟨.query k, s⟩ k rfl hi)
          | stage w' k => exact ht
          | flush k => exact ht w.db (.refl w.db) fault
          | commit k => exact (ht w.db (.refl w.db)).2 fault
          | call m k => exact ht _

theorem Assured.writeSet {ws : List ω} (h : w.Assured B C Q) (hw : w.writeSet a = some ws) :
    C w.db ws := by
  cases a with
  | spawn p => simp [World.writeSet] at hw
  | step i fault =>
      simp only [World.writeSet] at hw
      split at hw
      · obtain ⟨⟨prog, s⟩, hi, ht⟩ := Option.bind_eq_some_iff.mp hw
        have hprog := h _ (List.mem_of_getElem? hi)
        unfold Thread.ready at ht
        cases prog with
        | commit k =>
            cases hf : s.failed with
            | true => simp [hf] at ht
            | false =>
                simp only [hf, Bool.false_eq_true, if_false, Option.some.injEq] at ht
                exact ht ▸ (hprog w.db (.refl w.db)).1 hf
        | _ => cases ht
      · cases hw

end World

namespace Tx

variable {B : Backend σ ω ε} {C : σ → List ω → Prop} {E J J' : σ → Session ω → Prop}
variable {K : α → σ → Session ω → Prop}

/-- `Contract` with reads that are answered. -/
def Assures (B : Backend σ ω ε) (C : σ → List ω → Prop) (E J : σ → Session ω → Prop)
    (p : Tx σ ω ε μ α) (K : α → σ → Session ω → Prop) : Prop :=
  ∀ db s, J db s → p.run.Assured B C (fun r db s => match r with
    | .ok a => K a db s
    | .error _ => E db s) db s

theorem Contract.assures {p : Tx σ ω ε μ α} (h : Contract B C E J p K) : Assures B C E J p K :=
  fun db s hj => (h db s hj).assured

theorem Assures.consequence {p : Tx σ ω ε μ α} {E' : σ → Session ω → Prop}
    {K' : α → σ → Session ω → Prop} (h : Assures B C E J p K)
    (pre : ∀ db s, J' db s → J db s) (err : ∀ db s, E db s → E' db s)
    (post : ∀ a db s, K a db s → K' a db s) : Assures B C E' J' p K' := by
  intro db s hj
  refine (h db s (pre db s hj)).mono ?_
  rintro (e | a) db s hr
  · exact err db s hr
  · exact post a db s hr

theorem Assures.bind {p : Tx σ ω ε μ α} {f : α → Tx σ ω ε μ β} {K' : β → σ → Session ω → Prop}
    (hp : Assures B C E J p K) (hf : ∀ a, Assures B C E (K a) (f a) K') :
    Assures B C E J (p >>= f) K' := by
  intro db s hj
  refine Program.assured_bind.mpr ((hp db s hj).mono ?_)
  rintro (e | a) db s h
  · exact h
  · exact hf a db s h

theorem Assures.tryCatch {p : Tx σ ω ε μ α} {handler : ε → Tx σ ω ε μ α}
    {E' : σ → Session ω → Prop} (hp : Assures B C E' J p K)
    (hh : ∀ e, Assures B C E E' (handler e) K) : Assures B C E J (tryCatch p handler) K := by
  intro db s hj
  refine Program.assured_bind.mpr ((hp db s hj).mono ?_)
  rintro (e | a) db s h
  · exact hh e db s h
  · exact h

theorem Assures.ite {c : Prop} [Decidable c] {p q : Tx σ ω ε μ α} (hp : c → Assures B C E J p K)
    (hq : ¬c → Assures B C E J q K) : Assures B C E J (if c then p else q) K := by
  by_cases h : c
  · rw [if_pos h]
    exact hp h
  · rw [if_neg h]
    exact hq h

/-- A read on a session with nothing flushed: it is answered by what everybody has committed,
or the session has failed. -/
theorem Assures.query {f : σ → α} (stable : Stable B J)
    (unflushed : ∀ db s, J db s → s.failed = false → s.flushed = [])
    (failed : ∀ db s, J db s → s.failed = true → E db s)
    (h : ∀ db s, J db s → s.failed = false → K (f db) db s) :
    Assures B C E J (Tx.query f : Tx σ ω ε μ α) K := by
  intro db s hj db' hr
  have hj' := stable db db' s hr hj
  simp only [Session.query]
  cases hf : s.failed with
  | true => exact failed db' s hj' hf
  | false =>
      rw [unflushed db' s hj' hf]
      exact h db' s hj' hf

theorem Assures.flush {K : Unit → σ → Session ω → Prop} (stable : Stable B J)
    (failed : ∀ db s, s.failed = true → E db s)
    (h : ∀ db s, J db s → s.failed = false → K () db { s with flushed := s.pending, dirty := [] }) :
    Assures B C E J (Tx.flush : Tx σ ω ε μ Unit) K := by
  intro db s hj db' hr fault
  have hj' := stable db db' s hr hj
  simp only [Session.flush]
  split
  · rename_i hs
    exact h db' s hj' (Session.send_eq_ok_iff.mp hs).1
  · exact failed db' _ rfl

/-- A program whose writes all have a property keeps it for what is pending. -/
theorem Emits.assures {Φ : ω → Prop} {p : Tx σ ω ε μ α} (h : Emits Φ p)
    (hC : ∀ db ws, (∀ w ∈ ws, Φ w) → C db ws) :
    Assures B C (fun _ s => s.Holds fun ws => ∀ w ∈ ws, Φ w)
      (fun _ s => s.Holds fun ws => ∀ w ∈ ws, Φ w) p
      fun _ _ s => s.Holds fun ws => ∀ w ∈ ws, Φ w := by
  intro db s hj
  unfold Emits at h
  generalize p.run = prog at h
  induction prog generalizing db s with
  | done r =>
      cases r with
      | error e => exact hj
      | ok a => exact hj
  | query k ih => exact fun db' _ => ih _ db' s hj (h _)
  | stage w k ih =>
      refine ih db _ (Session.Holds.stage hj fun ws hws v hv => ?_) h.2
      obtain hv | hv := List.mem_append.mp hv
      · exact hws v hv
      · rw [List.mem_singleton.mp hv]
        exact h.1
  | flush k ih =>
      intro db' _ fault
      refine ih _ db' _ ?_ (h _)
      simp only [Session.flush]
      split
      · simpa [Session.Holds, Session.pending] using hj
      · exact Or.inl rfl
  | commit k ih =>
      refine fun db' _ => ⟨fun hf => hC db' _ (hj.resolve_left (by simp [hf])), fun fault =>
        ih _ _ _ ?_ (h _)⟩
      simp only [Session.commit]
      split
      · exact Or.inr fun w hw => by cases hw
      · exact Or.inl rfl
  | call m k ih => exact fun r => ih _ db s hj (h r)

end Tx
end Transaction
