import DolphinVC.Transaction.Atomic

/-!
# Requests that commit once

A request that reads, sends its writes and commits leaves the store with all of them, or as
it was when one of them violates a constraint: `Backend.outcome`. `Leaves` composes this
statement by statement, so that what such a request does to the store is an equation.
-/

namespace Transaction

variable {σ ω ε μ α β : Type}

/-- The store after a transaction with these writes. -/
def Backend.outcome (B : Backend σ ω ε) (db : σ) (ws : List ω) : σ :=
  match B.applyAll db ws with
  | .ok db' => db'
  | .error _ => db

section Outcome

variable {B : Backend σ ω ε} {db db' : σ} {ws vs : List ω} {w : ω} {e : ε}

@[simp] theorem outcome_nil : B.outcome db [] = db := rfl

theorem outcome_of_ok (h : B.applyAll db ws = .ok db') : B.outcome db ws = db' := by
  unfold Backend.outcome
  rw [h]

theorem outcome_of_error (h : B.applyAll db ws = .error e) : B.outcome db ws = db := by
  unfold Backend.outcome
  rw [h]

theorem applyAll_append_of_error (h : B.applyAll db ws = .error e) (vs : List ω) :
    ∃ e', B.applyAll db (ws ++ vs) = .error e' := by
  cases hall : B.applyAll db (ws ++ vs) with
  | error e' => exact ⟨e', rfl⟩
  | ok db' =>
      obtain ⟨mid, hmid, -⟩ := Backend.applyAll_append_eq_ok.mp hall
      rw [h] at hmid
      cases hmid

theorem outcome_cons_of_ok (h : B.apply db w = .ok db') (vs : List ω)
    (all : ∃ after, B.applyAll db' vs = .ok after) :
    B.outcome db (w :: vs) = B.outcome db' vs := by
  obtain ⟨after, hafter⟩ := all
  rw [outcome_of_ok hafter]
  exact outcome_of_ok (Backend.applyAll_cons_eq_ok.mpr ⟨db', h, hafter⟩)

/-- The writes all take effect, or none does. -/
theorem outcome_cases (B : Backend σ ω ε) (db : σ) (ws : List ω) :
    B.applyAll db ws = .ok (B.outcome db ws) ∨ B.outcome db ws = db := by
  cases h : B.applyAll db ws with
  | ok db' => exact Or.inl (by rw [outcome_of_ok h])
  | error e => exact Or.inr (outcome_of_error h)

end Outcome

namespace Tx

variable {B : Backend σ ω ε} {ws : List ω}

/-- From a live session the part leaves what its pending writes and `ws` come to. -/
def Leaves (B : Backend σ ω ε) (ws : List ω) (p : Tx σ ω ε μ α) : Prop :=
  ∀ db s, s.failed = false → WP B (fun _ db' _ => db' = B.outcome db (s.pending ++ ws)) p db s

theorem Leaves.atomically {p : Tx σ ω ε μ α} (h : Leaves B ws p) (db : σ) :
    (p.atomically B db).2 = B.outcome db ws :=
  h db {} rfl

/-- Commit and answer from reads. -/
theorem leaves_commit {k : Unit → Tx σ ω ε μ α} (hk : Reads (k ())) :
    Leaves B [] (commit >>= k) := by
  intro db s live
  rw [wp_bind, wp_commit_live live, List.append_nil]
  cases happly : B.applyAll db s.pending with
  | ok db' => exact hk.wp.mpr (outcome_of_ok happly).symm
  | error e => exact (outcome_of_error happly).symm

theorem leaves_commit_last : Leaves B [] (commit : Tx σ ω ε μ Unit) := by
  intro db s live
  rw [wp_commit_live live, List.append_nil]
  cases happly : B.applyAll db s.pending with
  | ok db' => exact (outcome_of_ok happly).symm
  | error e => exact (outcome_of_error happly).symm

/-- The part of a request that a part of its own begins. -/
theorem leaves_assoc {γ : Type} {p : Tx σ ω ε μ γ} {g : γ → Tx σ ω ε μ β} {f : β → Tx σ ω ε μ α}
    (h : Leaves B ws (p >>= fun c => g c >>= f)) : Leaves B ws ((p >>= g) >>= f) := by
  intro db s live
  rw [wp_bind, wp_bind]
  refine (wp_bind.mp (h db s live)).mono fun r db' s' h' => ?_
  cases r with
  | ok c => exact wp_bind.mp h'
  | error e => exact h'

theorem leaves_stage {w : ω} {k : Unit → Tx σ ω ε μ α} (hk : Leaves B ws (k ())) :
    Leaves B (w :: ws) (stage w >>= k) := by
  intro db s live
  refine wp_bind.mpr (wp_stage.mpr ((hk db (s.stage w) live).mono fun r db' s' h => ?_))
  rw [h, Session.pending_stage, List.append_assoc, List.singleton_append]

/-- A flush raises when the pending writes cannot be committed with any others either. -/
theorem leaves_flush {k : Unit → Tx σ ω ε μ α} (hk : Leaves B ws (k ())) :
    Leaves B ws (flush >>= k) := by
  intro db s live
  rw [wp_bind, wp_flush]
  unfold Session.flush Session.send
  rw [live]
  simp only [Bool.false_eq_true, if_false]
  cases happly : B.applyAll db s.pending with
  | ok mid =>
      refine (hk db { flushed := s.pending, committed := s.committed } rfl).mono
        fun r db' s' h => ?_
      rw [h]
      simp [Session.pending]
  | error e =>
      obtain ⟨e', herr⟩ := applyAll_append_of_error happly ws
      exact (outcome_of_error herr).symm

/-- A statement sent at once, as a bulk UPDATE is. -/
theorem leaves_send {w : ω} {k : Unit → Tx σ ω ε μ α} (hk : Leaves B ws (k ())) :
    Leaves B (w :: ws) ((stage w >>= fun _ => flush) >>= k) := by
  intro db s live
  rw [wp_bind, wp_bind, wp_stage, ← wp_bind]
  refine (leaves_flush hk db (s.stage w) live).mono fun r db' s' h => ?_
  rw [h, Session.pending_stage, List.append_assoc, List.singleton_append]

theorem leaves_forM {γ : Type} {f : γ → ω} {l : List γ} {k : Unit → Tx σ ω ε μ α}
    (hk : Leaves B ws (k ())) :
    Leaves B (l.map f ++ ws) ((l.forM fun c => stage (f c)) >>= k) := by
  induction l with
  | nil => exact hk
  | cons c l ih =>
      intro db s live
      show WP B _ ((stage (f c) >>= fun _ => l.forM fun c => stage (f c)) >>= k) db s
      rw [wp_bind, wp_bind, wp_stage, ← wp_bind]
      refine (ih db (s.stage (f c)) live).mono fun r db' s' h => ?_
      rw [h, Session.pending_stage, List.append_assoc]
      rfl

/-- A request that sends one statement, commits it and answers. -/
theorem atomically_stage_commit {w : ω} {a : α} {db db' : σ} (h : B.apply db w = .ok db') :
    (do
      stage w
      commit
      pure a : Tx σ ω ε μ α).atomically B db = (.ok a, db') := by
  refine (atomically_iff (P := fun r after => (r, after) = (.ok a, db'))).mpr ?_
  refine wp_bind.mpr (wp_stage.mpr (wp_bind.mpr ((wp_commit_live rfl).mpr ?_)))
  rw [show (({} : Session ω).stage w).pending = [w] from rfl, Backend.applyAll_singleton, h]
  rfl

end Tx
end Transaction
