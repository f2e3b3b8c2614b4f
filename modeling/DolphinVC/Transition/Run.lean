import Mathlib.Data.List.Basic

/-!
# Runs of a deterministic transition function

Every choice a system makes (which party moves, what its environment answers) is
part of the label, so a run is a left fold over labels and a reachable state is
the fold of some list. `Along` speaks about every state a run visits, `Meets`
about every step it takes, seen from the state before that step.

`along_of_meets` is the invariant rule with a side condition on the steps.
`along_iff_meets` is its exact form: when a condition decides, step by step,
whether the property survives, it also decides it for whole runs.
-/

namespace Transition

variable {σ α : Type*} (step : σ → α → σ)

/-- The property holds in every state of the run, first and last included. -/
def Along (P : σ → Prop) : σ → List α → Prop
  | s, [] => P s
  | s, a :: as => P s ∧ Along P (step s a) as

/-- Every step of the run meets the condition at the state it is taken in. -/
def Meets (C : σ → α → Prop) : σ → List α → Prop
  | _, [] => True
  | s, a :: as => C s a ∧ Meets C (step s a) as

instance Meets.decidable (C : σ → α → Prop) [∀ s a, Decidable (C s a)] :
    ∀ s as, Decidable (Meets step C s as)
  | _, [] => .isTrue trivial
  | s, a :: as =>
      have := Meets.decidable C (step s a) as
      inferInstanceAs (Decidable (C s a ∧ Meets step C (step s a) as))

variable {step} {P Q I : σ → Prop} {C D : σ → α → Prop} {s : σ} {as : List α}

theorem Along.head (h : Along step P s as) : P s := by
  cases as with
  | nil => exact h
  | cons a as => exact h.1

theorem Along.mono (h : Along step P s as) (weaken : ∀ t, P t → Q t) : Along step Q s as := by
  induction as generalizing s with
  | nil => exact weaken s h
  | cons a as ih => exact ⟨weaken s h.1, ih h.2⟩

theorem Along.and (hp : Along step P s as) (hq : Along step Q s as) :
    Along step (fun t => P t ∧ Q t) s as := by
  induction as generalizing s with
  | nil => exact ⟨hp, hq⟩
  | cons a as ih => exact ⟨⟨hp.1, hq.1⟩, ih hp.2 hq.2⟩

/-- `Along` is what it says: every prefix of the labels leads to a state with the property. -/
theorem along_iff_prefix :
    Along step P s as ↔ ∀ pre, pre <+: as → P (pre.foldl step s) := by
  induction as generalizing s with
  | nil =>
      constructor
      · intro h pre hpre
        rw [List.prefix_nil.mp hpre]
        exact h
      · intro h
        exact h [] List.nil_prefix
  | cons a as ih =>
      constructor
      · rintro ⟨hs, hrest⟩ pre hpre
        cases pre with
        | nil => exact hs
        | cons b bs =>
            obtain ⟨rfl, hbs⟩ := List.cons_prefix_cons.mp hpre
            exact ih.mp hrest bs hbs
      · intro h
        refine ⟨h [] List.nil_prefix, ih.mpr ?_⟩
        intro pre hpre
        exact h (a :: pre) (List.cons_prefix_cons.mpr ⟨rfl, hpre⟩)

theorem Along.last (h : Along step P s as) : P (as.foldl step s) :=
  along_iff_prefix.mp h as List.prefix_rfl

theorem Meets.mono (h : Meets step C s as) (weaken : ∀ t a, C t a → D t a) :
    Meets step D s as := by
  induction as generalizing s with
  | nil => trivial
  | cons a as ih => exact ⟨weaken s a h.1, ih h.2⟩

theorem Meets.and (hc : Meets step C s as) (hd : Meets step D s as) :
    Meets step (fun t a => C t a ∧ D t a) s as := by
  induction as generalizing s with
  | nil => trivial
  | cons a as ih => exact ⟨⟨hc.1, hd.1⟩, ih hc.2 hd.2⟩

/-- A condition on labels alone. -/
theorem meets_of_mem {A : α → Prop} (h : ∀ a ∈ as, A a) : Meets step (fun _ a => A a) s as := by
  induction as generalizing s with
  | nil => trivial
  | cons a as ih =>
      exact ⟨h a List.mem_cons_self, ih fun b hb => h b (List.mem_cons_of_mem a hb)⟩

theorem meets_of_forall (h : ∀ t a, C t a) : Meets step C s as := by
  induction as generalizing s with
  | nil => trivial
  | cons a as ih => exact ⟨h s a, ih⟩

theorem meets_append {bs : List α} :
    Meets step C s (as ++ bs) ↔ Meets step C s as ∧ Meets step C (as.foldl step s) bs := by
  induction as generalizing s with
  | nil => exact ⟨fun h => ⟨trivial, h⟩, And.right⟩
  | cons a as ih =>
      rw [List.cons_append]
      exact (and_congr Iff.rfl ih).trans and_assoc.symm

/-- The invariant rule: a property that every step meeting the condition keeps
holds in every state of a run whose steps all meet it. -/
theorem along_of_meets (keep : ∀ t a, P t → C t a → P (step t a)) (start : P s)
    (run : Meets step C s as) : Along step P s as := by
  induction as generalizing s with
  | nil => exact start
  | cons a as ih => exact ⟨start, ih (keep s a start run.1) run.2⟩

/-- What holds at the states of a run decides about its steps. -/
theorem meets_of_along (run : Along step P s as) (h : ∀ t a, P t → C t a) : Meets step C s as := by
  induction as generalizing s with
  | nil => trivial
  | cons a as ih => exact ⟨h s a run.1, ih run.2⟩

/-- The invariant rule without a side condition. -/
theorem along_of_step (keep : ∀ t a, P t → P (step t a)) (start : P s) : Along step P s as :=
  along_of_meets (C := fun _ _ => True) (fun t a h _ => keep t a h) start
    (meets_of_forall fun _ _ => trivial)

/-- The exact invariant rule. `I` collects what every step keeps anyway, `A` the
labels under consideration; on these `C` decides whether one step keeps `P`. -/
theorem along_iff_meets {A : α → Prop} (inv : ∀ t a, A a → I t → I (step t a))
    (decides : ∀ t a, A a → I t → P t → (P (step t a) ↔ C t a))
    (allowed : ∀ a ∈ as, A a) (hI : I s) (start : P s) :
    Along step P s as ↔ Meets step C s as := by
  induction as generalizing s with
  | nil => exact ⟨fun _ => trivial, fun _ => start⟩
  | cons a as ih =>
      have ha : A a := allowed a List.mem_cons_self
      have rest : ∀ b ∈ as, A b := fun b hb => allowed b (List.mem_cons_of_mem a hb)
      have hd := decides s a ha hI start
      constructor
      · rintro ⟨-, hrest⟩
        have hp : P (step s a) := hrest.head
        exact ⟨hd.mp hp, (ih rest (inv s a ha hI) hp).mp hrest⟩
      · rintro ⟨hc, hrest⟩
        have hp : P (step s a) := hd.mpr hc
        exact ⟨start, (ih rest (inv s a ha hI) hp).mpr hrest⟩

end Transition
