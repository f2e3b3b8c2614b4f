import Mathlib.Data.Nat.Log
import Mathlib.Algebra.Order.Field.Rat
import Mathlib.Tactic.Linarith

/-!
# Decimal numbers in a context

A decimal number is a coefficient with some places after the point. A context rounds the result
of an operation to a number of significant digits, halves to even, and signals an overflow
beyond its largest exponent; the smallest exponent bounds the places. A result that fits is
exact.
-/

structure Decimal where
  coefficient : Nat
  places : Nat

namespace Decimal

def value (x : Decimal) : Rat := (x.coefficient : Rat) / (10 ^ x.places : Nat)

/-- `c` to a multiple of `10 ^ drop`, a half to the even one. -/
def roundOff (drop c : Nat) : Nat :=
  let unit := 10 ^ drop
  let below := c / unit
  let rest := c % unit
  if 2 * rest < unit ∨ 2 * rest = unit ∧ below % 2 = 0 then below * unit else (below + 1) * unit

structure Context where
  precision : Nat
  maxExponent : Nat

variable (ctx : Context) (x : Decimal)

/-- How many digits of the coefficient are rounded off. -/
def Context.drop : Nat :=
  max (Nat.log 10 x.coefficient + 1 - ctx.precision)
    (x.places + 1 - (ctx.maxExponent + ctx.precision))

/-- `none` stands for an overflow. -/
def Context.round : Option Decimal :=
  let c := roundOff (ctx.drop x) x.coefficient
  if ctx.maxExponent + x.places < Nat.log 10 c then none else some { x with coefficient := c }

/-- The product with a whole number. -/
def times (m : Nat) : Option Decimal := ctx.round { x with coefficient := x.coefficient * m }

/-- The significant digits and the exponent are within the limits of the context. -/
def Context.Fits : Prop :=
  ∃ s t, x.coefficient = s * 10 ^ t ∧ s < 10 ^ ctx.precision ∧
    x.places + 1 ≤ ctx.maxExponent + ctx.precision + t ∧
      x.coefficient < 10 ^ (ctx.maxExponent + x.places + 1)

theorem dvd_roundOff (drop c : Nat) : 10 ^ drop ∣ roundOff drop c := by
  simp only [roundOff]
  split
  · exact Nat.dvd_mul_left _ _
  · exact Nat.dvd_mul_left _ _

theorem roundOff_eq_self_iff {drop c : Nat} : roundOff drop c = c ↔ 10 ^ drop ∣ c := by
  constructor
  · intro h
    rw [← h]
    exact dvd_roundOff drop c
  · intro h
    have hrest : c % 10 ^ drop = 0 := Nat.mod_eq_zero_of_dvd h
    simp only [roundOff, hrest, Nat.mul_zero, Nat.pow_pos (Nat.succ_pos 9), true_or, if_true]
    exact Nat.div_mul_cancel h

/-- Rounding moves by half a unit at most. -/
theorem le_roundOff (drop c : Nat) : 2 * c ≤ 2 * roundOff drop c + 10 ^ drop := by
  have hdiv := Nat.div_add_mod c (10 ^ drop)
  have hlt := Nat.mod_lt c (Nat.pow_pos (n := drop) (Nat.succ_pos 9))
  simp only [roundOff]
  generalize 10 ^ drop = unit at *
  rw [Nat.mul_comm] at hdiv
  split
  · omega
  · rw [Nat.add_mul]
    omega

theorem roundOff_le (drop c : Nat) : roundOff drop c ≤ 2 * c := by
  have hdiv := Nat.div_add_mod c (10 ^ drop)
  simp only [roundOff]
  generalize 10 ^ drop = unit at *
  rw [Nat.mul_comm] at hdiv
  split
  · omega
  · rw [Nat.add_mul]
    omega

/-- A multiple of a positive number is not rounded to the number. -/
theorem eq_zero_of_roundOff {drop c m : Nat} (hm : 2 ≤ m) (h : roundOff drop (c * m) = c) :
    c = 0 := by
  by_contra hc
  have hunit : 10 ^ drop ≤ c :=
    Nat.le_of_dvd (Nat.pos_of_ne_zero hc) (h ▸ dvd_roundOff drop (c * m))
  have hle := le_roundOff drop (c * m)
  rw [h] at hle
  have htwice : c * 2 ≤ c * m := Nat.mul_le_mul_left c hm
  omega

theorem Context.round_eq_self_iff : ctx.round x = some x ↔ ctx.Fits x := by
  have hlog : x.coefficient < 10 ^ (Nat.log 10 x.coefficient + 1) :=
    Nat.lt_pow_succ_log_self (by omega) _
  constructor
  · intro h
    simp only [Context.round] at h
    split at h
    · cases h
    · rename_i hfits
      have hself : roundOff (ctx.drop x) x.coefficient = x.coefficient :=
        congrArg Decimal.coefficient (Option.some.inj h)
      rw [hself] at hfits
      obtain ⟨s, hs⟩ := roundOff_eq_self_iff.mp hself
      refine ⟨s, ctx.drop x, hs.trans (Nat.mul_comm _ _), ?_, ?_, ?_⟩
      · have hdigits : Nat.log 10 x.coefficient + 1 ≤ ctx.drop x + ctx.precision := by
          unfold Context.drop
          omega
        have hbound := hlog.trans_le (Nat.pow_le_pow_right (Nat.succ_pos 9) hdigits)
        rw [Nat.pow_add, hs] at hbound
        exact Nat.lt_of_mul_lt_mul_left hbound
      · unfold Context.drop
        omega
      · exact hlog.trans_le (Nat.pow_le_pow_right (Nat.succ_pos 9) (by omega))
  · rintro ⟨s, t, hc, hs, hplaces, hmax⟩
    have hself : roundOff (ctx.drop x) x.coefficient = x.coefficient := by
      rw [roundOff_eq_self_iff]
      by_cases hzero : x.coefficient = 0
      · rw [hzero]
        exact Nat.dvd_zero _
      · have hlt : x.coefficient < 10 ^ (ctx.precision + t) := by
          rw [hc, Nat.pow_add]
          exact Nat.mul_lt_mul_of_pos_right hs (Nat.pow_pos (Nat.succ_pos 9))
        have hdigits := (Nat.log_lt_iff_lt_pow (by omega) hzero).mpr hlt
        have hdrop : ctx.drop x ≤ t := by
          unfold Context.drop
          omega
        rw [hc]
        exact (Nat.pow_dvd_pow 10 hdrop).mul_left s
    have hlow : ¬ ctx.maxExponent + x.places < Nat.log 10 x.coefficient := by
      by_cases hzero : x.coefficient = 0
      · rw [hzero]
        simp
      · have := (Nat.log_lt_iff_lt_pow (by omega) hzero).mpr hmax
        omega
    simp only [Context.round, hself, if_neg hlow]

theorem value_inj {x y : Decimal} (hplaces : x.places = y.places) (h : x.value = y.value) :
    x = y := by
  obtain ⟨c, p⟩ := x
  obtain ⟨d, q⟩ := y
  obtain rfl : p = q := hplaces
  have hpos : ((10 ^ p : Nat) : Rat) ≠ 0 := by
    exact_mod_cast (Nat.pow_pos (n := p) (Nat.succ_pos 9)).ne'
  have hcast : (c : Rat) = d := (div_left_inj' hpos).mp h
  rw [Nat.cast_inj.mp hcast]

theorem Context.places_of_round {y : Decimal} (h : ctx.round x = some y) : y.places = x.places := by
  simp only [Context.round] at h
  split at h
  · cases h
  · cases h
    rfl

/-- The rounded number is the number only where it fits. -/
theorem Context.round_value_iff : (ctx.round x).map value = some x.value ↔ ctx.Fits x := by
  rw [← ctx.round_eq_self_iff, Option.map_eq_some_iff]
  constructor
  · rintro ⟨y, hy, hvalue⟩
    rw [hy, value_inj (ctx.places_of_round x hy) hvalue]
  · intro h
    exact ⟨x, h, rfl⟩

/-- Zero fits, whatever its places are. -/
theorem Context.fits_of_zero (h : x.coefficient = 0) : ctx.Fits x := by
  have hpos (k : Nat) : 0 < 10 ^ k := Nat.pow_pos (Nat.succ_pos 9)
  refine ⟨0, x.places + 1, ?_, hpos _, ?_, ?_⟩
  · rw [h, Nat.zero_mul]
  · omega
  · rw [h]
    exact hpos _

/-- A number with few digits fits. -/
theorem Context.fits_of_lt (hdigits : x.coefficient < 10 ^ ctx.precision)
    (hpos : 0 < ctx.precision) (hprecision : ctx.precision ≤ ctx.maxExponent)
    (hplaces : x.places ≤ ctx.maxExponent) : ctx.Fits x := by
  refine ⟨x.coefficient, 0, (Nat.mul_one _).symm, hdigits, by omega, ?_⟩
  exact hdigits.trans_le (Nat.pow_le_pow_right (Nat.succ_pos 9) (by omega))

theorem times_one_value_iff : (x.times ctx 1).map value = some x.value ↔ ctx.Fits x := by
  unfold times
  rw [Nat.mul_one]
  exact ctx.round_value_iff x

/-- A multiple does not have the value of the number unless that is 0. -/
theorem times_value_iff {m : Nat} (hm : 2 ≤ m) :
    (x.times ctx m).map value = some x.value ↔ x.coefficient = 0 := by
  rw [Option.map_eq_some_iff]
  constructor
  · rintro ⟨y, hy, hvalue⟩
    have hround : ctx.round { x with coefficient := x.coefficient * m } = some y := hy
    have hplaces : y.places = x.places :=
      ctx.places_of_round { x with coefficient := x.coefficient * m } hround
    rw [value_inj hplaces hvalue] at hround
    simp only [Context.round] at hround
    split at hround
    · cases hround
    · exact eq_zero_of_roundOff hm (congrArg Decimal.coefficient (Option.some.inj hround))
  · intro h
    have hround : roundOff (ctx.drop { x with coefficient := 0 }) 0 = 0 :=
      roundOff_eq_self_iff.mpr (Nat.dvd_zero _)
    refine ⟨x, ?_, rfl⟩
    simp only [times, h, Nat.zero_mul, Context.round, hround, Nat.log_zero_right, Nat.not_lt_zero,
      if_false]
    rw [← h]

theorem value_mul (m : Nat) :
    ({ x with coefficient := x.coefficient * m } : Decimal).value = x.value * m := by
  simp only [value, Nat.cast_mul]
  exact mul_div_right_comm _ _ _

theorem times_mul_value_iff (m : Nat) :
    (x.times ctx m).map value = some (x.value * m) ↔
      ctx.Fits { x with coefficient := x.coefficient * m } := by
  rw [← value_mul]
  exact ctx.round_value_iff _

/-- The number itself, rounded, is not a multiple of the number unless that is 0. -/
theorem times_one_value_mul_iff {m : Nat} (hm : 3 ≤ m) :
    (x.times ctx 1).map value = some (x.value * m) ↔ x.coefficient = 0 := by
  unfold times
  rw [Nat.mul_one, ← value_mul, Option.map_eq_some_iff]
  constructor
  · rintro ⟨y, hy, hvalue⟩
    have hplaces : y.places = x.places := ctx.places_of_round x hy
    rw [value_inj (y := { x with coefficient := x.coefficient * m }) hplaces hvalue] at hy
    simp only [Context.round] at hy
    split at hy
    · cases hy
    · have hround : roundOff (ctx.drop x) x.coefficient = x.coefficient * m :=
        congrArg Decimal.coefficient (Option.some.inj hy)
      have hle := roundOff_le (ctx.drop x) x.coefficient
      have hthrice : x.coefficient * 3 ≤ x.coefficient * m := Nat.mul_le_mul_left _ hm
      omega
  · intro h
    have hzero : { x with coefficient := x.coefficient * m } = x := by
      rw [h, Nat.zero_mul, ← h]
    exact ⟨x, (ctx.round_eq_self_iff x).mpr (ctx.fits_of_zero x h), by rw [hzero]⟩

end Decimal
