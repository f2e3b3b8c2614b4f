import Mathlib.Algebra.BigOperators.Ring.List
import Mathlib.Algebra.Order.BigOperators.Group.List
import Mathlib.Algebra.Order.Field.Basic
import Mathlib.Tactic.FieldSimp
import Mathlib.Tactic.Linarith
import Mathlib.Tactic.Ring

/-!
# Weighted means and shrinkage

Facts about a mean with weights that are not negative, and about its shrinkage towards a
prior: `shrink k μ W M` is the mean of the prior `μ` with weight `k` and of `M` with weight
`W`. It moves with `M`, stays between the two, and when both `M` and `W` change it moves by
the sign of one expression.
-/

namespace WeightedMean

variable {K : Type*} [Field K]

section Shrink

variable {k μ W M : K}

def shrink (k μ W M : K) : K := (k * μ + W * M) / (k + W)

/-- A mean at the prior is not moved, whatever its weight. -/
theorem shrink_self (hk : k + W ≠ 0) : shrink k μ W μ = μ := by
  rw [shrink, ← add_mul, mul_div_cancel_left₀ μ hk]

end Shrink

variable [LinearOrder K] [IsStrictOrderedRing K]

section Sum

variable {α : Type*} {value value' weight : α → K} {lo hi : K} {xs : List α}

theorem sum_weight_nonneg (hw : ∀ x ∈ xs, 0 ≤ weight x) : 0 ≤ (xs.map weight).sum :=
  List.sum_nonneg (by simpa using hw)

/-- The weighted sum grows with the values. -/
theorem sum_mono (hw : ∀ x ∈ xs, 0 ≤ weight x) (hv : ∀ x ∈ xs, value x ≤ value' x) :
    (xs.map fun x => value x * weight x).sum ≤ (xs.map fun x => value' x * weight x).sum :=
  List.sum_le_sum fun x hx => mul_le_mul_of_nonneg_right (hv x hx) (hw x hx)

theorem le_sum (hw : ∀ x ∈ xs, 0 ≤ weight x) (hv : ∀ x ∈ xs, lo ≤ value x) :
    lo * (xs.map weight).sum ≤ (xs.map fun x => value x * weight x).sum := by
  rw [← List.sum_map_mul_left]
  exact sum_mono hw hv

theorem sum_le (hw : ∀ x ∈ xs, 0 ≤ weight x) (hv : ∀ x ∈ xs, value x ≤ hi) :
    (xs.map fun x => value x * weight x).sum ≤ hi * (xs.map weight).sum := by
  rw [← List.sum_map_mul_left]
  exact sum_mono hw hv

end Sum

section Move

variable {k μ W W' M M' : K}

theorem shrink_mono (hk : 0 < k) (hW : 0 ≤ W) (hM : M ≤ M') :
    shrink k μ W M ≤ shrink k μ W M' := by
  have hpos : 0 < k + W := by linarith
  have hmul : W * M ≤ W * M' := mul_le_mul_of_nonneg_left hM hW
  exact div_le_div_of_nonneg_right (by linarith) hpos.le

/-- When the mean and its weight both change, the new mean may move it up by more or less than
the new weight draws it to the mean. -/
theorem shrink_le_shrink_iff (hk : 0 < k) (hW : 0 ≤ W) (hW' : 0 ≤ W') :
    shrink k μ W M ≤ shrink k μ W' M' ↔
      k * (W' - W) * (μ - M) ≤ W' * (k + W) * (M' - M) := by
  have hpos : 0 < k + W := by linarith
  have hpos' : 0 < k + W' := by linarith
  rw [shrink, shrink, div_le_div_iff₀ hpos hpos']
  constructor
  · intro h
    linarith
  · intro h
    linarith

end Move

section Join

variable {n d v w : K}

/-- An observation that is not below the mean of the others does not lower it. -/
theorem div_le_join (hd : 0 < d) (hw : 0 ≤ w) (hv : n / d ≤ v) :
    n / d ≤ (n + v * w) / (d + w) := by
  have hdw : 0 < d + w := by linarith
  have hn : n ≤ v * d := (div_le_iff₀ hd).mp hv
  rw [div_le_div_iff₀ hd hdw]
  have := mul_le_mul_of_nonneg_right hn hw
  linarith

end Join

end WeightedMean
