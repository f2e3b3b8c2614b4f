import Mathlib.Algebra.Order.Group.Basic
import Mathlib.Data.List.TakeWhile

/-!
# Logs of a sliding window

A log keeps the times of what was let in, oldest first. Before an arrival the times that a
whole window has passed since leave it, and a full log turns the arrival away.

`Logged` relates such a log to everything let in so far. It stays true while time passes, so
it need not be re-established between two arrivals, and it bounds every set of admissions
that lie less than a window apart, whichever end of the interval is open.
-/

namespace SlidingLog

variable {T : Type*} [AddCommGroup T] [LinearOrder T]

/-- What is left of the log at `now`. -/
def current (window now : T) (log : List T) : List T :=
  log.dropWhile fun t => decide (t ≤ now - window)

/-- Every two of the times with the property lie less than a window apart. -/
def Within (window : T) (P : T → Bool) : Prop := ∀ s t, P s → P t → t - window < s

structure Logged (limit : Nat) (window now : T) (admitted log : List T) : Prop where
  ordered : admitted.Pairwise (· ≤ ·)
  past : ∀ t ∈ admitted, t ≤ now
  /-- What left the log is a window old. -/
  kept : ∃ old, admitted = old ++ log ∧ ∀ t ∈ old, t ≤ now - window
  bounded : ∀ P, Within window P → admitted.countP P ≤ limit

variable {limit : Nat} {window now later : T} {admitted log : List T}

theorem Logged.nil : Logged limit window now [] [] where
  ordered := List.Pairwise.nil
  past := by simp
  kept := ⟨[], rfl, by simp⟩
  bounded := by simp

theorem Logged.log_ordered (h : Logged limit window now admitted log) : log.Pairwise (· ≤ ·) := by
  obtain ⟨old, rfl, -⟩ := h.kept
  exact (List.pairwise_append.mp h.ordered).2.1

/-- The times that leave an ordered log are the first ones, and all that are old. -/
theorem current_spec (window now : T) (hlog : log.Pairwise (· ≤ ·)) :
    ∃ old, log = old ++ current window now log ∧ (∀ t ∈ old, t ≤ now - window) ∧
      ∀ t ∈ current window now log, now - window < t := by
  induction log with
  | nil => exact ⟨[], rfl, by simp, by simp [current]⟩
  | cons a log ih =>
      obtain ⟨ha, hrest⟩ := List.pairwise_cons.mp hlog
      by_cases hold : a ≤ now - window
      · obtain ⟨old, heq, hle, hlt⟩ := ih hrest
        have hcons : current window now (a :: log) = current window now log := by
          simp [current, hold]
        refine ⟨a :: old, ?_, ?_, ?_⟩
        · rw [hcons, List.cons_append, ← heq]
        · intro t ht
          cases ht with
          | head => exact hold
          | tail _ ht => exact hle t ht
        · rw [hcons]
          exact hlt
      · have hcons : current window now (a :: log) = a :: log := by simp [current, hold]
        rw [hcons]
        refine ⟨[], rfl, by simp, ?_⟩
        intro t ht
        have hlt : now - window < a := not_le.mp hold
        cases ht with
        | head => exact hlt
        | tail _ ht => exact hlt.trans_le (ha t ht)

theorem Logged.current (h : Logged limit window now admitted log) :
    Logged limit window now admitted (current window now log) where
  ordered := h.ordered
  past := h.past
  kept := by
    obtain ⟨before, rfl, hbefore⟩ := h.kept
    obtain ⟨old, heq, hold, -⟩ := current_spec window now h.log_ordered
    refine ⟨before ++ old, ?_, ?_⟩
    · rw [List.append_assoc, ← heq]
    · intro t ht
      exact (List.mem_append.mp ht).elim (hbefore t) (hold t)
  bounded := h.bounded

/-- After the old times have left, the log is what was let in within the last window. -/
theorem Logged.current_eq (h : Logged limit window now admitted log) :
    SlidingLog.current window now log =
      admitted.filter fun t => decide (now - window < t ∧ t ≤ now) := by
  obtain ⟨-, -, -, hlt⟩ := current_spec window now h.log_ordered
  obtain ⟨old, heq, hold⟩ := h.current.kept
  have hout : old.filter (fun t => decide (now - window < t ∧ t ≤ now)) = [] := by
    apply List.filter_eq_nil_iff.mpr
    intro t ht
    simp [not_lt.mpr (hold t ht)]
  have hin : (SlidingLog.current window now log).filter
      (fun t => decide (now - window < t ∧ t ≤ now)) = SlidingLog.current window now log := by
    apply List.filter_eq_self.mpr
    intro t ht
    have hpast : t ≤ now := h.past t (by rw [heq]; exact List.mem_append_right _ ht)
    simp [hlt t ht, hpast]
  rw [heq, List.filter_append, hout, hin, List.nil_append]

theorem Logged.length_current (h : Logged limit window now admitted log) :
    (SlidingLog.current window now log).length =
      admitted.countP fun t => decide (now - window < t ∧ t ≤ now) := by
  rw [h.current_eq, List.countP_eq_length_filter]

/-- A log with room takes the arrival in. Of a set less than a window apart that contains
`now`, all the earlier ones are still in the log. -/
theorem Logged.push (h : Logged limit window now admitted log) (room : log.length < limit) :
    Logged limit window now (admitted ++ [now]) (log ++ [now]) where
  ordered := by
    refine List.pairwise_append.mpr ⟨h.ordered, List.pairwise_singleton _ _, ?_⟩
    intro t ht s hs
    rw [List.mem_singleton.mp hs]
    exact h.past t ht
  past := by
    intro t ht
    cases List.mem_append.mp ht with
    | inl ht => exact h.past t ht
    | inr ht => exact (List.mem_singleton.mp ht).le
  kept := by
    obtain ⟨old, rfl, hold⟩ := h.kept
    exact ⟨old, List.append_assoc _ _ _, hold⟩
  bounded := by
    intro P hP
    rw [List.countP_append, List.countP_singleton]
    by_cases hnow : P now = true
    · obtain ⟨old, rfl, hold⟩ := h.kept
      have hout : old.countP P = 0 := by
        apply List.countP_eq_zero.mpr
        intro t ht hPt
        exact (hold t ht).not_gt (hP t now hPt hnow)
      have hin : log.countP P ≤ log.length := List.countP_le_length
      rw [List.countP_append, hout, if_pos hnow]
      omega
    · rw [if_neg hnow, Nat.add_zero]
      exact h.bounded P hP

/-- A full log has room again as soon as its oldest time is a window old. -/
theorem length_current_lt_iff {a : T} :
    (current window later (a :: log)).length < (a :: log).length ↔ a ≤ later - window := by
  by_cases hold : a ≤ later - window
  · have hle : (current window later log).length ≤ log.length :=
      (List.dropWhile_sublist _).length_le
    have hcons : current window later (a :: log) = current window later log := by
      simp [current, hold]
    rw [hcons, List.length_cons]
    exact ⟨fun _ => hold, fun _ => by omega⟩
  · have hcons : current window later (a :: log) = a :: log := by simp [current, hold]
    rw [hcons]
    exact ⟨fun h => absurd h (lt_irrefl _), fun h => absurd h hold⟩

variable [IsOrderedAddMonoid T]

theorem within_after (window now : T) :
    Within window fun t => decide (now - window < t ∧ t ≤ now) := by
  intro s t hs ht
  simp only [decide_eq_true_eq] at hs ht
  exact (sub_le_sub_right ht.2 window).trans_lt hs.1

theorem within_Ioc (start window : T) :
    Within window fun t => decide (start < t ∧ t ≤ start + window) := by
  intro s t hs ht
  simp only [decide_eq_true_eq] at hs ht
  exact (sub_le_iff_le_add.mpr ht.2).trans_lt hs.1

theorem within_Ico (start window : T) :
    Within window fun t => decide (start ≤ t ∧ t < start + window) := by
  intro s t hs ht
  simp only [decide_eq_true_eq] at hs ht
  exact (sub_lt_iff_lt_add.mpr ht.2).trans_le hs.1

theorem Logged.advance (h : Logged limit window now admitted log) (hle : now ≤ later) :
    Logged limit window later admitted log where
  ordered := h.ordered
  past := fun t ht => (h.past t ht).trans hle
  kept := by
    obtain ⟨old, heq, hold⟩ := h.kept
    exact ⟨old, heq, fun t ht => (hold t ht).trans (sub_le_sub_right hle window)⟩
  bounded := h.bounded

theorem Logged.length_current_le (h : Logged limit window now admitted log) :
    (SlidingLog.current window now log).length ≤ limit := by
  rw [h.length_current]
  exact h.bounded _ (within_after window now)

/-- Dropping at two times drops what the later one drops. -/
theorem current_current (hlog : log.Pairwise (· ≤ ·)) (hle : now ≤ later) :
    current window later (current window now log) = current window later log := by
  induction log with
  | nil => rfl
  | cons a log ih =>
      by_cases hold : a ≤ now - window
      · have hlate : a ≤ later - window := hold.trans (sub_le_sub_right hle window)
        have hnow : current window now (a :: log) = current window now log := by
          simp [current, hold]
        have hlater : current window later (a :: log) = current window later log := by
          simp [current, hlate]
        rw [hnow, hlater, ih hlog.of_cons]
      · have hnow : current window now (a :: log) = a :: log := by simp [current, hold]
        rw [hnow]

end SlidingLog
