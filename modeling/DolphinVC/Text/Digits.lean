import Mathlib

/-!
# Numbers of a fixed width

`fixed` writes the last digits of a number in a base, `value` reads digits back. The base
brings its digits along as characters.
-/

namespace Digits

structure Base where
  size : Nat
  digit : Nat → Char
  read : Char → Option Nat
  pos : 0 < size
  read_digit : ∀ d, d < size → read (digit d) = some d

variable (b : Base)

def fixed : Nat → Nat → List Char
  | 0, _ => []
  | width + 1, n => fixed width (n / b.size) ++ [b.digit (n % b.size)]

def value (cs : List Char) : Option Nat :=
  cs.foldl (fun n c => n.bind fun n => (b.read c).map fun d => n * b.size + d) (some 0)

@[simp] theorem length_fixed (width n : Nat) : (fixed b width n).length = width := by
  induction width generalizing n with
  | zero => rfl
  | succ width ih => simp [fixed, ih]

theorem mem_fixed {width n : Nat} {c : Char} (h : c ∈ fixed b width n) :
    ∃ d, d < b.size ∧ c = b.digit d := by
  induction width generalizing n with
  | zero => cases h
  | succ width ih =>
      obtain h | h := List.mem_append.mp h
      · exact ih h
      · exact ⟨_, Nat.mod_lt _ b.pos, List.mem_singleton.mp h⟩

/-- What was written is read back. -/
theorem value_fixed {width n : Nat} (h : n < b.size ^ width) :
    value b (fixed b width n) = some n := by
  induction width generalizing n with
  | zero =>
      obtain rfl : n = 0 := by simpa using h
      rfl
  | succ width ih =>
      have hread := b.read_digit _ (Nat.mod_lt n b.pos)
      have hrest := ih (n := n / b.size) (by
        rw [Nat.pow_succ] at h
        exact Nat.div_lt_of_lt_mul (by rwa [Nat.mul_comm] at h))
      unfold value at hrest ⊢
      rw [fixed, List.foldl_append, hrest]
      simp [hread, Nat.div_add_mod']

def decimal : Base where
  size := 10
  digit d := Char.ofNat ('0'.toNat + d)
  read c := if '0' ≤ c ∧ c ≤ '9' then some (c.toNat - '0'.toNat) else none
  pos := by decide
  read_digit := by decide

/-- Lower-case digits; both cases are read. -/
def hexadecimal : Base where
  size := 16
  digit d := if d < 10 then Char.ofNat ('0'.toNat + d) else Char.ofNat ('a'.toNat + d - 10)
  read c :=
    if '0' ≤ c ∧ c ≤ '9' then some (c.toNat - '0'.toNat)
    else if 'a' ≤ c ∧ c ≤ 'f' then some (c.toNat - 'a'.toNat + 10)
    else if 'A' ≤ c ∧ c ≤ 'F' then some (c.toNat - 'A'.toNat + 10)
    else none
  pos := by decide
  read_digit := by decide

end Digits
