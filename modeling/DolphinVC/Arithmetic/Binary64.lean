import DolphinVC.Arithmetic.Rounding
import Mathlib.Algebra.Order.Field.Power
import Mathlib.Data.Int.Log
import Mathlib.Data.Rat.Floor
import Mathlib.Tactic.NormNum

/-!
# Doubles

A double is a fraction `n * 2 ^ e` with fewer than 54 bits in `n`. `double` rounds a fraction to
the nearest one, a tie to the one with an even `n`, which is what one operation of the machine
does with its exact result. No number here is large enough to become infinite.

Rounding is monotone and keeps a double, so it does not cross one. What a comparison with a
double means for the exact number is `le_double_iff`.
-/

namespace Binary64

open Rounding

/-- The exponent of the last bit of a double as large as `x`. -/
def lastBit (x : Rat) : Int := max (Int.log 2 |x| - 52) (-1074)

def double (x : Rat) : Rat := roundHalfEven (x / 2 ^ lastBit x) * 2 ^ lastBit x

section LastBit

theorem two_zpow_pos (e : Int) : (0 : Rat) < 2 ^ e := zpow_pos (by norm_num) e

theorem zpow_bits (n : Nat) (e : Int) : (2 : Rat) ^ (e + n) = 2 ^ n * 2 ^ e := by
  rw [zpow_add₀ (by norm_num), zpow_natCast, mul_comm]

@[simp] theorem lastBit_neg (x : Rat) : lastBit (-x) = lastBit x := by
  simp [lastBit]

theorem lastBit_mono {x y : Rat} (hx : 0 < x) (h : x ≤ y) : lastBit x ≤ lastBit y := by
  have hlog : Int.log 2 |x| ≤ Int.log 2 |y| := by
    rw [abs_of_pos hx, abs_of_pos (hx.trans_le h)]
    exact Int.log_mono_right hx h
  simp only [lastBit]
  omega

/-- A number has fewer than 54 bits up to its last one. -/
theorem lt_lastBit {x : Rat} (hx : 0 < x) : x < 2 ^ 53 * 2 ^ lastBit x := by
  have hlog : x < 2 ^ (Int.log 2 x + 1) := by
    exact_mod_cast Int.lt_zpow_succ_log_self (b := 2) (by omega) x
  have hbit : Int.log 2 x + 1 ≤ lastBit x + (53 : Nat) := by
    simp only [lastBit, abs_of_pos hx]
    omega
  calc x < 2 ^ (Int.log 2 x + 1) := hlog
    _ ≤ 2 ^ (lastBit x + (53 : Nat)) := zpow_le_zpow_right₀ (by norm_num) hbit
    _ = 2 ^ 53 * 2 ^ lastBit x := zpow_bits 53 _

/-- Above the smallest exponent the first of the 53 bits is set. -/
theorem lastBit_le {x : Rat} (hx : 0 < x) (h : -1074 < lastBit x) :
    2 ^ 52 * 2 ^ lastBit x ≤ x := by
  have hlog : (2 : Rat) ^ Int.log 2 x ≤ x := by
    exact_mod_cast Int.zpow_log_le_self (b := 2) (by omega) hx
  have hbit : lastBit x + (52 : Nat) = Int.log 2 x := by
    simp only [lastBit, abs_of_pos hx] at h ⊢
    omega
  rw [← zpow_bits 52, hbit]
  exact hlog

/-- A number below `2 ^ 53` units has its last bit no later than the unit. -/
theorem lastBit_le_of_lt {x : Rat} {e : Int} (hx : 0 < x) (he : -1074 ≤ e)
    (h : x < 2 ^ 53 * 2 ^ e) : lastBit x ≤ e := by
  by_contra hgt
  have hlt : e < lastBit x := by omega
  have hstep : (2 : Rat) ^ 53 * 2 ^ e ≤ 2 ^ 52 * 2 ^ lastBit x := by
    rw [← zpow_bits 53, ← zpow_bits 52]
    exact zpow_le_zpow_right₀ (by norm_num) (by omega)
  have hfirst : 2 ^ 52 * 2 ^ lastBit x ≤ x := lastBit_le hx (by omega)
  linarith

theorem le_lastBit_of_le {x : Rat} {e : Int} (h : 2 ^ 52 * 2 ^ e ≤ x) : e ≤ lastBit x := by
  have hx : 0 < x := lt_of_lt_of_le (mul_pos (by norm_num) (two_zpow_pos e)) h
  by_contra hlt
  have hbelow : x < 2 ^ 53 * 2 ^ lastBit x := lt_lastBit hx
  have hstep : (2 : Rat) ^ 53 * 2 ^ lastBit x ≤ 2 ^ 52 * 2 ^ e := by
    rw [← zpow_bits 53, ← zpow_bits 52]
    exact zpow_le_zpow_right₀ (by norm_num) (by omega)
  linarith

/-- On the grid of 53-bit numbers the last bit is the unit. -/
theorem lastBit_eq {q : Rat} {e : Int} (he : -1074 ≤ e) (hlow : 2 ^ 52 ≤ q) (hhigh : q < 2 ^ 53) :
    lastBit (q * 2 ^ e) = e := by
  have hunit : (0 : Rat) < 2 ^ e := two_zpow_pos e
  have hpos : 0 < q := lt_of_lt_of_le (by norm_num) hlow
  exact le_antisymm
    (lastBit_le_of_lt (mul_pos hpos hunit) he (mul_lt_mul_of_pos_right hhigh hunit))
    (le_lastBit_of_le (mul_le_mul_of_nonneg_right hlow hunit.le))

end LastBit

section Rounded

@[simp] theorem double_zero : double 0 = 0 := by
  have hwhole : roundHalfEven (0 : Rat) = 0 := by exact_mod_cast roundHalfEven_whole (K := Rat) 0
  simp [double, hwhole]

@[simp] theorem double_neg (x : Rat) : double (-x) = -double x := by
  simp only [double, lastBit_neg, neg_div, roundHalfEven_neg]
  push_cast
  ring

/-- What a positive number rounds to, in units of a last bit. -/
theorem double_units {x : Rat} {e : Int} (h : lastBit x = e) (q : Rat) (hq : x = q * 2 ^ e) :
    double x = roundHalfEven q * 2 ^ e := by
  rw [double, h, hq, mul_div_cancel_right₀ _ (two_zpow_pos e).ne']

/-- A fraction with fewer than 54 bits is a double. -/
theorem double_grid {n e : Int} (hn : |n| < 2 ^ 53) (he : -1074 ≤ e) :
    double (n * 2 ^ e) = n * 2 ^ e := by
  have positive : ∀ m : Int, 0 < m → m < 2 ^ 53 → double (m * 2 ^ e) = m * 2 ^ e := by
    intro m hm hlt
    have hm' : (0 : Rat) < m := by exact_mod_cast hm
    have hlt' : (m : Rat) < 2 ^ 53 := by exact_mod_cast hlt
    have hx : (0 : Rat) < m * 2 ^ e := mul_pos hm' (two_zpow_pos e)
    have hbit : lastBit (m * 2 ^ e) ≤ e :=
      lastBit_le_of_lt hx he (mul_lt_mul_of_pos_right hlt' (two_zpow_pos e))
    obtain ⟨k, hk⟩ : ∃ k : Nat, e = lastBit (m * 2 ^ e) + k :=
      ⟨(e - lastBit (m * 2 ^ e)).toNat, by omega⟩
    -- on the finer grid the number is whole as well
    have hfine : (m : Rat) * 2 ^ e = (m * 2 ^ k : Int) * 2 ^ lastBit (m * 2 ^ e) := by
      conv_lhs => rw [hk, zpow_bits]
      push_cast
      ring
    rw [double_units rfl _ hfine, roundHalfEven_whole, ← hfine]
  obtain hneg | rfl | hpos := lt_trichotomy n 0
  · have hmirror : double ((-n : Int) * 2 ^ e) = (-n : Int) * 2 ^ e := by
      rw [abs_of_neg hneg] at hn
      exact positive (-n) (by omega) hn
    push_cast at hmirror
    rw [neg_mul, double_neg] at hmirror
    exact neg_inj.mp hmirror
  · simp
  · rw [abs_of_pos hpos] at hn
    exact positive n hpos hn

theorem double_nonneg {x : Rat} (hx : 0 ≤ x) : 0 ≤ double x := by
  have hwhole : (0 : Int) ≤ roundHalfEven (x / 2 ^ lastBit x) :=
    le_roundHalfEven (by exact_mod_cast div_nonneg hx (two_zpow_pos _).le)
  exact mul_nonneg (by exact_mod_cast hwhole) (two_zpow_pos _).le

/-- Of two positive numbers either both have one last bit, or a power of two lies between. -/
theorem double_mono_pos {x y : Rat} (hx : 0 < x) (h : x ≤ y) : double x ≤ double y := by
  obtain heq | hlt := (lastBit_mono hx h).eq_or_lt
  · have hunits : x / 2 ^ lastBit x ≤ y / 2 ^ lastBit x :=
      div_le_div_of_nonneg_right h (two_zpow_pos _).le
    rw [double, double, ← heq]
    exact mul_le_mul_of_nonneg_right (by exact_mod_cast roundHalfEven_mono hunits)
      (two_zpow_pos _).le
  · have hbelow : roundHalfEven (x / 2 ^ lastBit x) ≤ 2 ^ 53 := by
      refine roundHalfEven_le ?_
      rw [div_le_iff₀ (two_zpow_pos _)]
      exact_mod_cast (lt_lastBit hx).le
    have habove : 2 ^ 52 ≤ roundHalfEven (y / 2 ^ lastBit y) := by
      refine le_roundHalfEven ?_
      rw [le_div_iff₀ (two_zpow_pos _)]
      exact_mod_cast lastBit_le (hx.trans_le h) (by
        have hleast : -1074 ≤ lastBit x := le_max_right _ _
        omega)
    calc double x ≤ 2 ^ 53 * 2 ^ lastBit x :=
          mul_le_mul_of_nonneg_right (by exact_mod_cast hbelow) (two_zpow_pos _).le
      _ = 2 ^ (lastBit x + (53 : Nat)) := (zpow_bits 53 _).symm
      _ ≤ 2 ^ (lastBit y + (52 : Nat)) := zpow_le_zpow_right₀ (by norm_num) (by omega)
      _ = 2 ^ 52 * 2 ^ lastBit y := zpow_bits 52 _
      _ ≤ double y := mul_le_mul_of_nonneg_right (by exact_mod_cast habove) (two_zpow_pos _).le

theorem double_mono {x y : Rat} (h : x ≤ y) : double x ≤ double y := by
  obtain hx | hx := lt_or_ge 0 x
  · exact double_mono_pos hx h
  · obtain hy | hy := lt_or_ge y 0
    · have hmirror : double (-y) ≤ double (-x) := double_mono_pos (by linarith) (by linarith)
      rw [double_neg, double_neg] at hmirror
      exact neg_le_neg_iff.mp hmirror
    · have hneg : 0 ≤ double (-x) := double_nonneg (by linarith)
      rw [double_neg] at hneg
      exact (neg_nonneg.mp hneg).trans (double_nonneg hy)

theorem le_double {n e : Int} (hn : |n| < 2 ^ 53) (he : -1074 ≤ e) {x : Rat}
    (h : n * 2 ^ e ≤ x) : n * 2 ^ e ≤ double x :=
  (double_grid hn he).symm.le.trans (double_mono h)

theorem double_le {n e : Int} (hn : |n| < 2 ^ 53) (he : -1074 ≤ e) {x : Rat}
    (h : x ≤ n * 2 ^ e) : double x ≤ n * 2 ^ e :=
  (double_mono h).trans (double_grid hn he).le

/-- Doubles of one grid have a double as their difference unless it is very large. -/
theorem double_sub_grid {m n e : Int} (he : -1074 ≤ e)
    (h : |(m : Rat) * 2 ^ e - n * 2 ^ e| < 2 ^ 53 * 2 ^ e) :
    double ((m : Rat) * 2 ^ e - n * 2 ^ e) = m * 2 ^ e - n * 2 ^ e := by
  have hunits : (m : Rat) * 2 ^ e - n * 2 ^ e = (m - n : Int) * 2 ^ e := by
    push_cast
    ring
  rw [hunits, abs_mul, abs_of_pos (two_zpow_pos e)] at h
  rw [hunits]
  exact double_grid (by exact_mod_cast lt_of_mul_lt_mul_right h (two_zpow_pos e).le) he

/-- A double lies on the grid of the last bit of any smaller one. -/
theorem exists_grid {x y : Rat} (hy : double y = y) (hx : 0 < x) (h : x ≤ y) :
    ∃ n : Int, y = n * 2 ^ lastBit x := by
  obtain ⟨k, hk⟩ : ∃ k : Nat, lastBit y = lastBit x + k :=
    ⟨(lastBit y - lastBit x).toNat, by
      have hle : lastBit x ≤ lastBit y := lastBit_mono hx h
      omega⟩
  obtain ⟨m, hm⟩ : ∃ m : Int, y = m * 2 ^ lastBit y := ⟨_, hy.symm⟩
  refine ⟨m * 2 ^ k, ?_⟩
  calc y = m * 2 ^ lastBit y := hm
    _ = m * (2 ^ k * 2 ^ lastBit x) := by rw [hk, zpow_bits]
    _ = ((m * 2 ^ k : Int) : Rat) * 2 ^ lastBit x := by
      push_cast
      ring

/-- A whole number lies on the grid of the last bit of a double up to `2 ^ 53`. -/
theorem exists_grid_natCast {x : Rat} (hx : 0 < x) (h : x < 2 ^ 53) (w : Nat) :
    ∃ k : Int, (w : Rat) = k * 2 ^ lastBit x := by
  obtain ⟨j, hj⟩ : ∃ j : Nat, lastBit x + j = 0 :=
    ⟨(-lastBit x).toNat, by
      have hle : lastBit x ≤ 0 := lastBit_le_of_lt hx (by norm_num) (by simpa using h)
      omega⟩
  refine ⟨w * 2 ^ j, ?_⟩
  have hone : (2 : Rat) ^ j * 2 ^ lastBit x = 1 := by
    rw [← zpow_bits, hj, zpow_zero]
  push_cast
  rw [mul_assoc, hone, mul_one]

/-- The age of a double, and what is left of a window no longer than the double, are doubles. -/
theorem double_age {w : Nat} {x y : Rat} (hx : double x = x) (hy : double y = y) (hw : 0 < w)
    (hwx : (w : Rat) ≤ x) (hxy : x ≤ y) (hage : y - x ≤ w) (hbound : x < 2 ^ 53) :
    double (y - x) = y - x ∧ double (w - (y - x)) = w - (y - x) := by
  have hw' : (0 : Rat) < w := by exact_mod_cast hw
  have hpos : 0 < x := hw'.trans_le hwx
  obtain ⟨m, hm⟩ : ∃ m : Int, x = m * 2 ^ lastBit x := exists_grid hx hpos le_rfl
  obtain ⟨n, hn⟩ : ∃ n : Int, y = n * 2 ^ lastBit x := exists_grid hy hpos hxy
  obtain ⟨k, hk⟩ : ∃ k : Int, (w : Rat) = k * 2 ^ lastBit x := exists_grid_natCast hpos hbound w
  have hlast : x < 2 ^ 53 * 2 ^ lastBit x := lt_lastBit hpos
  have hleast : -1074 ≤ lastBit x := le_max_right _ _
  generalize lastBit x = e at *
  have hdiff : y - x = ((n - m : Int) : Rat) * 2 ^ e := by
    rw [hm, hn]
    push_cast
    ring
  constructor
  · have hsmall : |(n : Rat) * 2 ^ e - m * 2 ^ e| < 2 ^ 53 * 2 ^ e := by
      rw [← hn, ← hm, abs_of_nonneg (by linarith)]
      linarith
    rw [hn, hm]
    exact double_sub_grid hleast hsmall
  · have hsmall : |(k : Rat) * 2 ^ e - (n - m : Int) * 2 ^ e| < 2 ^ 53 * 2 ^ e := by
      rw [← hk, ← hdiff, abs_of_nonneg (by linarith)]
      linarith
    rw [hdiff, hk]
    exact double_sub_grid hleast hsmall

/-- A number rounds to one of the two fractions around it on any grid that is not finer. -/
theorem double_near {e : Int} (he : -1074 ≤ e) {x : Rat} (h : |x| < 2 ^ 52 * 2 ^ e) :
    |double x - x| ≤ 2 ^ e := by
  have hunit : (0 : Rat) < 2 ^ e := two_zpow_pos e
  obtain ⟨q, rfl⟩ : ∃ q : Rat, x = q * 2 ^ e := ⟨x / 2 ^ e, (div_mul_cancel₀ _ hunit.ne').symm⟩
  rw [abs_mul, abs_of_pos hunit] at h
  obtain ⟨hlow, hhigh⟩ := abs_lt.mp (lt_of_mul_lt_mul_right h hunit.le)
  have hfloor : (⌊q⌋ : Rat) ≤ q := Int.floor_le q
  have hnext : q < ⌊q⌋ + 1 := Int.lt_floor_add_one q
  have hbelow : -2 ^ 52 ≤ ⌊q⌋ := Int.le_floor.mpr (by push_cast; exact hlow.le)
  have habove : ⌊q⌋ < 2 ^ 52 := Int.floor_lt.mpr (by push_cast; exact hhigh)
  have hdown : (⌊q⌋ : Rat) * 2 ^ e ≤ double (q * 2 ^ e) :=
    le_double (by rw [abs_lt]; constructor <;> omega) he
      (mul_le_mul_of_nonneg_right hfloor hunit.le)
  have hup : double (q * 2 ^ e) ≤ ((⌊q⌋ + 1 : Int) : Rat) * 2 ^ e := by
    refine double_le (by rw [abs_lt]; constructor <;> omega) he ?_
    push_cast
    exact mul_le_mul_of_nonneg_right hnext.le hunit.le
  push_cast at hup
  rw [abs_le]
  constructor
  · have hgap : q * 2 ^ e ≤ (⌊q⌋ + 1 : Rat) * 2 ^ e :=
      mul_le_mul_of_nonneg_right hnext.le hunit.le
    linarith
  · have hgap : (⌊q⌋ : Rat) * 2 ^ e ≤ q * 2 ^ e := mul_le_mul_of_nonneg_right hfloor hunit.le
    linarith

/-- A number rounds to a double with an even last bit or to one above it from half a unit below
on. -/
theorem le_double_iff {n e : Int} (heven : n % 2 = 0) (hlow : 2 ^ 52 < n) (hhigh : n < 2 ^ 53)
    (he : -1074 ≤ e) {x : Rat} : n * 2 ^ e ≤ double x ↔ (n - 1 / 2) * 2 ^ e ≤ x := by
  have hunit : (0 : Rat) < 2 ^ e := two_zpow_pos e
  have hbefore : ((n - 1 : Int) : Rat) = n - 1 := by push_cast; rfl
  have hlow' : (2 : Rat) ^ 52 ≤ n - 1 := by
    rw [← hbefore]
    exact_mod_cast (by omega : (2 : Int) ^ 52 ≤ n - 1)
  have hhigh' : (n : Rat) < 2 ^ 53 := by exact_mod_cast hhigh
  constructor
  · contrapose!
    intro hx
    obtain ⟨q, rfl⟩ : ∃ q : Rat, x = q * 2 ^ e :=
      ⟨x / 2 ^ e, (div_mul_cancel₀ _ hunit.ne').symm⟩
    have hq : q < n - 1 / 2 := lt_of_mul_lt_mul_right hx hunit.le
    have hround : double (q * 2 ^ e) ≤ (n - 1 : Int) * 2 ^ e := by
      obtain hle | hgt := le_or_gt q (n - 1)
      · refine double_le ?_ he ?_
        · rw [abs_of_pos (by omega)]
          omega
        · rw [hbefore]
          exact mul_le_mul_of_nonneg_right hle hunit.le
      · -- from one unit below on, the last bit is the one of the double
        have hbit : lastBit (q * 2 ^ e) = e := lastBit_eq he (by linarith) (by linarith)
        rw [double_units hbit q rfl]
        exact mul_le_mul_of_nonneg_right (by exact_mod_cast roundHalfEven_lt hq) hunit.le
    calc double (q * 2 ^ e) ≤ (n - 1 : Int) * 2 ^ e := hround
      _ < n * 2 ^ e := mul_lt_mul_of_pos_right (by rw [hbefore]; linarith) hunit
  · intro hx
    have hbit : lastBit ((n - 1 / 2) * 2 ^ e) = e := lastBit_eq he (by linarith) (by linarith)
    have htie : double ((n - 1 / 2) * 2 ^ e) = n * 2 ^ e := by
      rw [double_units hbit _ rfl, roundHalfEven_tie heven]
    exact htie.symm.le.trans (double_mono hx)

end Rounded

end Binary64
