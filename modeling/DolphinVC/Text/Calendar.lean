import Mathlib.Tactic.Ring
import Mathlib.Data.List.Basic

/-!
# Dates of the Gregorian calendar

Days are counted from the first of January of the year 1. `ofDays` finds the date of a day
and `days` the day of a date; each undoes the other, on days and on the dates there are.
-/

namespace Calendar

def isLeap (year : Nat) : Bool := year % 4 = 0 ∧ (year % 100 ≠ 0 ∨ year % 400 = 0)

/-- The days of the years before. -/
def daysBeforeYear (year : Nat) : Nat :=
  (year - 1) * 365 + (year - 1) / 4 - (year - 1) / 100 + (year - 1) / 400

def yearLength (year : Nat) : Nat := if isLeap year then 366 else 365

def monthLengths (year : Nat) : List Nat :=
  [31, if isLeap year then 29 else 28, 31, 30, 31, 30, 31, 31, 30, 31, 30, 31]

/-- The part that a position falls into and the position within that part. -/
def locate : List Nat → Nat → Nat × Nat
  | [], n => (0, n)
  | length :: lengths, n =>
      if n < length then (0, n)
      else ((locate lengths (n - length)).1 + 1, (locate lengths (n - length)).2)

structure Date where
  year : Nat
  month : Nat
  day : Nat
  deriving DecidableEq

def Date.Valid (d : Date) : Prop :=
  1 ≤ d.year ∧ 1 ≤ d.month ∧ 1 ≤ d.day ∧
    ∃ length ∈ (monthLengths d.year)[d.month - 1]?, d.day ≤ length

instance (d : Date) : Decidable d.Valid :=
  inferInstanceAs (Decidable (1 ≤ d.year ∧ 1 ≤ d.month ∧ 1 ≤ d.day ∧
    ∃ length ∈ (monthLengths d.year)[d.month - 1]?, d.day ≤ length))

/-- The days before the date. -/
def days (d : Date) : Nat :=
  daysBeforeYear d.year + ((monthLengths d.year).take (d.month - 1)).sum + (d.day - 1)

/-- The year of a day and the days of that year before it. -/
def yearOf (n : Nat) : Nat × Nat :=
  let centuries := min (n % 146097 / 36524) 3
  let inCentury := n % 146097 - centuries * 36524
  let years := min (inCentury % 1461 / 365) 3
  (400 * (n / 146097) + 100 * centuries + 4 * (inCentury / 1461) + years + 1,
    inCentury % 1461 - years * 365)

def ofDays (n : Nat) : Date :=
  let (year, rest) := yearOf n
  let (month, day) := locate (monthLengths year) rest
  ⟨year, month + 1, day + 1⟩

section Locate

variable {lengths : List Nat} {n : Nat}

theorem locate_sum : (lengths.take (locate lengths n).1).sum + (locate lengths n).2 = n := by
  induction lengths generalizing n with
  | nil => simp [locate]
  | cons length lengths ih =>
      unfold locate
      split
      · simp
      · have := @ih (n - length)
        simp only [List.take_succ_cons, List.sum_cons]
        omega

theorem locate_lt (h : n < lengths.sum) :
    ∃ length, lengths[(locate lengths n).1]? = some length ∧ (locate lengths n).2 < length := by
  induction lengths generalizing n with
  | nil => simp at h
  | cons length lengths ih =>
      unfold locate
      split
      · exact ⟨length, by simp, by assumption⟩
      · rw [List.sum_cons] at h
        obtain ⟨l, hl, hlt⟩ := @ih (n - length) (by omega)
        exact ⟨l, by simpa using hl, hlt⟩

end Locate

theorem monthLengths_sum (year : Nat) : (monthLengths year).sum = yearLength year := by
  unfold monthLengths yearLength
  split <;> rfl

theorem monthLengths_length (year : Nat) : (monthLengths year).length = 12 := rfl

/-- The parts of the count: the last of four years has a leap day, but for three of the
centuries. -/
theorem yearOf_spec (n : Nat) : ∃ e c q y r, yearOf n = (400 * e + 100 * c + 4 * q + y + 1, r) ∧
    n = 146097 * e + 36524 * c + 1461 * q + 365 * y + r ∧ c ≤ 3 ∧ q ≤ 24 ∧ y ≤ 3 ∧ r ≤ 365 ∧
    (r = 365 → y = 3 ∧ (q = 24 → c = 3)) := by
  refine ⟨_, _, _, _, _, rfl, ?_⟩
  have hc : min (n % 146097 / 36524) 3 ≤ 3 := Nat.min_le_right _ _
  generalize hcentury : min (n % 146097 / 36524) 3 = c at hc ⊢
  generalize hrest : n % 146097 - c * 36524 = m
  have hm : n = 146097 * (n / 146097) + 36524 * c + m ∧ (m < 36524 ∨ c = 3 ∧ m = 36524) := by
    omega
  generalize hyear : min (m % 1461 / 365) 3 = y
  omega

theorem yearOf_pos (n : Nat) : 1 ≤ (yearOf n).1 := by
  obtain ⟨e, c, q, y, r, heq, -⟩ := yearOf_spec n
  rw [heq]
  omega

theorem daysBeforeYear_yearOf (n : Nat) : daysBeforeYear (yearOf n).1 + (yearOf n).2 = n := by
  obtain ⟨e, c, q, y, r, heq, hn, hc, hq, hy, -⟩ := yearOf_spec n
  have h4 : (400 * e + 100 * c + 4 * q + y) / 4 = 100 * e + 25 * c + q := by omega
  have h100 : (400 * e + 100 * c + 4 * q + y) / 100 = 4 * e + c := by omega
  have h400 : (400 * e + 100 * c + 4 * q + y) / 400 = e := by omega
  rw [heq]
  simp only [daysBeforeYear, Nat.add_sub_cancel, h4, h100, h400]
  omega

theorem yearOf_lt (n : Nat) : (yearOf n).2 < yearLength (yearOf n).1 := by
  obtain ⟨e, c, q, y, r, heq, hn, hc, hq, hy, hr, hleap⟩ := yearOf_spec n
  rw [heq]
  unfold yearLength
  split
  · exact Nat.lt_succ_of_le hr
  · rename_i hyear
    simp only [isLeap, decide_eq_true_eq] at hyear
    have hshort : ¬ (y = 3 ∧ (q = 24 → c = 3)) := by
      rintro ⟨rfl, hlast⟩
      refine hyear ⟨by omega, ?_⟩
      by_cases hq24 : q = 24
      · exact Or.inr (by omega)
      · exact Or.inl (by omega)
    have : r ≠ 365 := fun h => hshort (hleap h)
    omega

theorem valid_ofDays (n : Nat) : (ofDays n).Valid := by
  obtain ⟨length, hlength, hlt⟩ := locate_lt ((yearOf_lt n).trans_eq (monthLengths_sum _).symm)
  exact ⟨yearOf_pos n, by simp [ofDays], by simp [ofDays], length, hlength, hlt⟩

@[simp] theorem days_ofDays (n : Nat) : days (ofDays n) = n := by
  have hyear := daysBeforeYear_yearOf n
  have hmonth := @locate_sum (monthLengths (yearOf n).1) (yearOf n).2
  simp only [days, ofDays, Nat.add_sub_cancel]
  omega

theorem month_le (n : Nat) : (ofDays n).month ≤ 12 := by
  obtain ⟨-, -, -, length, hlength, -⟩ := valid_ofDays n
  have := (List.getElem?_eq_some_iff.mp hlength).1
  rw [monthLengths_length] at this
  omega

theorem day_le (n : Nat) : (ofDays n).day ≤ 31 := by
  obtain ⟨-, -, -, length, hlength, hle⟩ := valid_ofDays n
  have hmem := List.mem_of_getElem? hlength
  simp only [monthLengths, List.mem_cons, List.not_mem_nil, or_false] at hmem
  split at hmem <;> omega

/-- Days of four-digit years have dates with a four-digit year. -/
theorem year_lt {n : Nat} (h : n < daysBeforeYear 10000) : (ofDays n).year < 10000 := by
  have hyear := daysBeforeYear_yearOf n
  have hpos := yearOf_pos n
  simp only [daysBeforeYear] at h hyear
  simp only [ofDays]
  omega

end Calendar
