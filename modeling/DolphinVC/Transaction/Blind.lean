import DolphinVC.Transaction.Atomic

/-!
# Parts that do not see a difference between stores

`Blind B v p` says that `p` only reads, and nothing that `v` takes away. Where two stores are the
same without that, such a part answers the same from both, so two requests that begin with it
differ only in what comes after.
-/

namespace Transaction
namespace Tx

variable {σ ω ε μ α β : Type}

def Blind (B : Backend σ ω ε) (v : σ → σ) (p : Tx σ ω ε μ α) : Prop :=
  Reads p ∧ ∀ db, (p.atomically B (v db)).1 = (p.atomically B db).1

variable {B : Backend σ ω ε} {v : σ → σ} {db₁ db₂ : σ}

theorem Blind.pure (a : α) : Blind B v (pure a : Tx σ ω ε μ α) := ⟨Reads.pure a, fun _ => rfl⟩

theorem Blind.throw (e : ε) : Blind B v (throw e : Tx σ ω ε μ α) := ⟨Reads.throw e, fun _ => rfl⟩

theorem Blind.query {g : σ → α} (h : ∀ db, g (v db) = g db) :
    Blind B v (query g : Tx σ ω ε μ α) :=
  ⟨Reads.query g, fun db => congrArg Except.ok (h db)⟩

theorem Blind.ite {c : Prop} [Decidable c] {p q : Tx σ ω ε μ α} (hp : c → Blind B v p)
    (hq : ¬ c → Blind B v q) : Blind B v (if c then p else q) := by
  split
  · exact hp ‹_›
  · exact hq ‹_›

theorem Blind.bind {p : Tx σ ω ε μ α} {f : α → Tx σ ω ε μ β} (hp : Blind B v p)
    (hf : ∀ a, Blind B v (f a)) : Blind B v (p >>= f) := by
  refine ⟨Reads.bind hp.1 fun a => (hf a).1, fun db => ?_⟩
  cases ha : (p.atomically B db).1 with
  | ok a =>
      rw [hp.1.atomically_bind ((hp.2 db).trans ha), hp.1.atomically_bind ha]
      exact (hf a).2 db
  | error e =>
      rw [hp.1.atomically_bind_error ((hp.2 db).trans ha), hp.1.atomically_bind_error ha]

theorem Blind.congr {p : Tx σ ω ε μ α} (h : Blind B v p) (hv : v db₁ = v db₂) :
    (p.atomically B db₁).1 = (p.atomically B db₂).1 := by
  rw [← h.2 db₁, hv, h.2 db₂]

/-- After a part that does not see the difference, the answers are alike if the rest's are. -/
theorem Blind.bind_congr_iff {p : Tx σ ω ε μ α} {f : α → Tx σ ω ε μ β} (h : Blind B v p)
    (hv : v db₁ = v db₂) :
    ((p >>= f).atomically B db₁).1 = ((p >>= f).atomically B db₂).1 ↔
      ∀ a, (p.atomically B db₁).1 = .ok a →
        ((f a).atomically B db₁).1 = ((f a).atomically B db₂).1 := by
  cases ha : (p.atomically B db₁).1 with
  | ok a =>
      rw [h.1.atomically_bind ha, h.1.atomically_bind ((h.congr hv).symm.trans ha)]
      constructor
      · rintro heq a' ⟨⟩
        exact heq
      · exact fun hall => hall a rfl
  | error e =>
      rw [h.1.atomically_bind_error ha, h.1.atomically_bind_error ((h.congr hv).symm.trans ha)]
      exact iff_of_true rfl nofun

end Tx
end Transaction
