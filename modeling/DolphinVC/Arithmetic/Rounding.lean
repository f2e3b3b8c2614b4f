import Mathlib.Algebra.Order.Floor.Ring
import Mathlib.Algebra.Order.Field.Basic
import Mathlib.Tactic.Linarith

/-!
# Rounding halves to even

`roundHalfEven` rounds to the nearest whole number and a half to the even one, `roundToEven d`
to the nearest multiple of `1 / d`. `roundAway d` does so with halves away from zero. All are
monotone, which gives every bound on a rounded number: rounding does not cross a number that it
can store.
-/

namespace Rounding

variable {K : Type*} [Field K] [LinearOrder K] [FloorRing K]

def roundHalfEven (x : K) : Int :=
  let below := ⌊x⌋
  let rest := x - below
  if rest < 1 / 2 ∨ rest = 1 / 2 ∧ below % 2 = 0 then below else below + 1

def roundToEven (d : Nat) (x : K) : K := (roundHalfEven (x * d) : K) / d

def roundAway (d : Nat) (x : K) : K :=
  if 0 ≤ x then (⌊x * d + 1 / 2⌋ : K) / d else (⌈x * d - 1 / 2⌉ : K) / d

theorem floor_le_roundHalfEven (x : K) : ⌊x⌋ ≤ roundHalfEven x := by
  simp only [roundHalfEven]
  split <;> omega

theorem roundHalfEven_le_floor_add_one (x : K) : roundHalfEven x ≤ ⌊x⌋ + 1 := by
  simp only [roundHalfEven]
  split <;> omega

variable [IsStrictOrderedRing K]

@[simp] theorem roundHalfEven_whole (n : Int) : roundHalfEven (n : K) = n := by
  simp [roundHalfEven]

/-- The mirror image of the two numbers next to `x` swaps them and keeps which one is even. -/
theorem roundHalfEven_neg (x : K) : roundHalfEven (-x) = -roundHalfEven x := by
  obtain hzero | hpos := (Int.fract_nonneg x).eq_or_lt
  · have hwhole : x = (⌊x⌋ : K) := by
      linarith [Int.floor_add_fract x]
    rw [hwhole, ← Int.cast_neg, roundHalfEven_whole, roundHalfEven_whole]
  · have hbelow : ⌊-x⌋ = -⌊x⌋ - 1 := by
      rw [Int.floor_eq_iff]
      push_cast
      constructor
      · linarith [Int.lt_floor_add_one x]
      · linarith [Int.floor_add_fract x]
    have hrest : -x - (⌊-x⌋ : K) = 1 - (x - ⌊x⌋) := by
      rw [hbelow]
      push_cast
      linarith
    simp only [roundHalfEven, hrest]
    rw [hbelow]
    obtain hlow | hhalf | hhigh := lt_trichotomy (x - (⌊x⌋ : K)) (1 / 2)
    · rw [if_pos (Or.inl hlow), if_neg]
      · omega
      · rintro (h | ⟨h, -⟩) <;> linarith
    · rw [hhalf]
      have hmirror : (1 : K) - 1 / 2 = 1 / 2 := by norm_num
      simp only [hmirror, lt_irrefl, false_or, true_and]
      split <;> split <;> omega
    · rw [if_pos (Or.inl (by linarith)), if_neg]
      · omega
      · rintro (h | ⟨h, -⟩) <;> linarith

theorem roundHalfEven_mono {x y : K} (h : x ≤ y) : roundHalfEven x ≤ roundHalfEven y := by
  obtain hlt | heq := (Int.floor_le_floor h).lt_or_eq
  · have hx := roundHalfEven_le_floor_add_one x
    have hy := floor_le_roundHalfEven y
    omega
  · -- on one unit interval the rest decides, and it grows with the number
    simp only [roundHalfEven, ← heq]
    by_cases hx : x - ⌊x⌋ < 1 / 2 ∨ x - ⌊x⌋ = 1 / 2 ∧ ⌊x⌋ % 2 = 0
    · rw [if_pos hx]
      split <;> omega
    · have hy : ¬ (y - ⌊x⌋ < 1 / 2 ∨ y - ⌊x⌋ = 1 / 2 ∧ ⌊x⌋ % 2 = 0) := by
        intro hy
        apply hx
        obtain hlt | ⟨hhalf, heven⟩ := hy
        · exact Or.inl (by linarith)
        · obtain hlt | hhalf' := (show x - ⌊x⌋ ≤ 1 / 2 by linarith).lt_or_eq
          · exact Or.inl hlt
          · exact Or.inr ⟨hhalf', heven⟩
      rw [if_neg hx, if_neg hy]

theorem le_roundHalfEven {n : Int} {x : K} (h : (n : K) ≤ x) : n ≤ roundHalfEven x := by
  simpa using roundHalfEven_mono h

theorem roundHalfEven_le {n : Int} {x : K} (h : x ≤ n) : roundHalfEven x ≤ n := by
  simpa using roundHalfEven_mono h

/-- More than half a step below a whole number, rounding does not reach it. -/
theorem roundHalfEven_lt {n : Int} {x : K} (h : x < n - 1 / 2) : roundHalfEven x ≤ n - 1 := by
  have hfloor : ⌊x⌋ < n := by
    rw [Int.floor_lt]
    linarith
  obtain hlt | heq := (show ⌊x⌋ ≤ n - 1 by omega).lt_or_eq
  · have hstep : roundHalfEven x ≤ ⌊x⌋ + 1 := roundHalfEven_le_floor_add_one x
    omega
  · have hrest : x - ⌊x⌋ < 1 / 2 := by
      rw [heq]
      push_cast
      linarith
    simp only [roundHalfEven, if_pos (Or.inl hrest)]
    omega

/-- A tie below an even number goes up. -/
theorem roundHalfEven_tie {n : Int} (heven : n % 2 = 0) : roundHalfEven ((n : K) - 1 / 2) = n := by
  have hfloor : ⌊(n : K) - 1 / 2⌋ = n - 1 := by
    rw [Int.floor_eq_iff]
    push_cast
    constructor <;> linarith
  simp only [roundHalfEven, hfloor]
  push_cast
  rw [if_neg]
  · omega
  · rintro (h | ⟨-, h⟩)
    · linarith
    · omega

/-- Which numbers rounding does not make smaller. -/
theorem le_roundHalfEven_self_iff {x : K} : x ≤ roundHalfEven x ↔
    Int.fract x = 0 ∨ 1 / 2 < Int.fract x ∨ Int.fract x = 1 / 2 ∧ ⌊x⌋ % 2 = 1 := by
  have hfract : x - ⌊x⌋ = Int.fract x := rfl
  have hnonneg : 0 ≤ Int.fract x := Int.fract_nonneg x
  have hlt : Int.fract x < 1 := Int.fract_lt_one x
  have hsplit : (⌊x⌋ : K) + Int.fract x = x := Int.floor_add_fract x
  simp only [roundHalfEven, hfract]
  split
  · rename_i hdown
    constructor
    · intro hle
      exact Or.inl (by linarith)
    · rintro (hzero | hhigh | ⟨hhalf, hodd⟩)
      · linarith
      · obtain hlow | ⟨hhalf, -⟩ := hdown <;> linarith
      · obtain hlow | ⟨-, heven⟩ := hdown
        · linarith
        · omega
  · rename_i hup
    push_cast
    refine ⟨fun _ => ?_, fun _ => by linarith⟩
    obtain hlow | hhalf | hhigh := lt_trichotomy (Int.fract x) (1 / 2)
    · exact absurd (Or.inl hlow) hup
    · have hodd : ¬ ⌊x⌋ % 2 = 0 := fun heven => hup (Or.inr ⟨hhalf, heven⟩)
      exact Or.inr (Or.inr ⟨hhalf, by omega⟩)
    · exact Or.inr (Or.inl hhigh)

theorem roundToEven_mono {d : Nat} {x y : K} (h : x ≤ y) : roundToEven d x ≤ roundToEven d y := by
  have hd : (0 : K) ≤ d := Nat.cast_nonneg d
  have hmul : roundHalfEven (x * d) ≤ roundHalfEven (y * d) :=
    roundHalfEven_mono (mul_le_mul_of_nonneg_right h hd)
  exact div_le_div_of_nonneg_right (by exact_mod_cast hmul) hd

theorem roundToEven_div {d : Nat} (hd : 0 < d) (n : Int) :
    roundToEven d ((n : K) / d) = n / d := by
  have hd' : (d : K) ≠ 0 := by exact_mod_cast hd.ne'
  rw [roundToEven, div_mul_cancel₀ _ hd', roundHalfEven_whole]

theorem le_roundToEven {d : Nat} (hd : 0 < d) {n : Int} {x : K} (h : (n : K) / d ≤ x) :
    (n : K) / d ≤ roundToEven d x :=
  (roundToEven_div hd n).symm.le.trans (roundToEven_mono h)

theorem roundToEven_le {d : Nat} (hd : 0 < d) {n : Int} {x : K} (h : x ≤ (n : K) / d) :
    roundToEven d x ≤ (n : K) / d :=
  (roundToEven_mono h).trans (roundToEven_div hd n).le

/-- A number at least half a step below a multiple of `1 / d` does not round past the one
before it. -/
theorem roundToEven_lt {d : Nat} (hd : 0 < d) {n : Int} {x : K} (h : x < (n - 1 / 2) / d) :
    roundToEven d x < (n : K) / d := by
  have hd' : (0 : K) < d := by exact_mod_cast hd
  have hx : x * d < n - 1 / 2 := (lt_div_iff₀ hd').mp h
  have hround : roundHalfEven (x * d) ≤ n - 1 := roundHalfEven_lt hx
  have hcast : (roundHalfEven (x * d) : K) < n := by
    exact_mod_cast (by omega : roundHalfEven (x * d) < n)
  exact div_lt_div_of_pos_right hcast hd'

theorem roundAway_nonneg {d : Nat} {x : K} (h : 0 ≤ x) : 0 ≤ roundAway d x := by
  have hd : (0 : K) ≤ d := Nat.cast_nonneg d
  have hwhole : 0 ≤ ⌊x * d + 1 / 2⌋ := Int.floor_nonneg.mpr (by positivity)
  rw [roundAway, if_pos h]
  exact div_nonneg (by exact_mod_cast hwhole) hd

theorem roundAway_neg {d : Nat} {x : K} (h : x < 0) : roundAway d x ≤ 0 := by
  have hd : (0 : K) ≤ d := Nat.cast_nonneg d
  have hwhole : ⌈x * d - 1 / 2⌉ ≤ 0 := by
    have hneg : x * d ≤ 0 := mul_nonpos_of_nonpos_of_nonneg h.le hd
    rw [Int.ceil_le]
    push_cast
    linarith
  rw [roundAway, if_neg (not_le.mpr h)]
  exact div_nonpos_of_nonpos_of_nonneg (by exact_mod_cast hwhole) hd

theorem roundAway_mono {d : Nat} {x y : K} (h : x ≤ y) : roundAway d x ≤ roundAway d y := by
  have hd : (0 : K) ≤ d := Nat.cast_nonneg d
  have hmul : x * d ≤ y * d := mul_le_mul_of_nonneg_right h hd
  obtain hx | hx := lt_or_ge x 0
  · obtain hy | hy := lt_or_ge y 0
    · have hwhole : ⌈x * d - 1 / 2⌉ ≤ ⌈y * d - 1 / 2⌉ := Int.ceil_le_ceil (by linarith)
      rw [roundAway, roundAway, if_neg (not_le.mpr hx), if_neg (not_le.mpr hy)]
      exact div_le_div_of_nonneg_right (by exact_mod_cast hwhole) hd
    · exact (roundAway_neg hx).trans (roundAway_nonneg hy)
  · have hwhole : ⌊x * d + 1 / 2⌋ ≤ ⌊y * d + 1 / 2⌋ := Int.floor_le_floor (by linarith)
    rw [roundAway, roundAway, if_pos hx, if_pos (hx.trans h)]
    exact div_le_div_of_nonneg_right (by exact_mod_cast hwhole) hd

end Rounding
