import Mathlib.Data.List.Basic

/-!
# The URL-safe base 64 alphabet

`encode` writes three bytes as four characters and pads the last group. `decode` is the lenient
reader: characters outside the alphabet are skipped, and padding that completes a group ends
the input. It reads back what `encode` wrote.
-/

namespace Base64

def alphabet : List Char :=
  "ABCDEFGHIJKLMNOPQRSTUVWXYZabcdefghijklmnopqrstuvwxyz0123456789-_".toList

def char (v : Nat) : Char := alphabet.getD v 'A'

/-- The value of a character; both alphabets are read. -/
def value (c : Char) : Option Nat :=
  if c = '+' then some 62 else if c = '/' then some 63 else alphabet.idxOf? c

theorem value_char : ∀ v, v < 64 → value (char v) = some v ∧ char v ≠ '=' := by
  decide +kernel

def encode : List UInt8 → List Char
  | [] => []
  | [a] => [char (a.toNat / 4), char (a.toNat % 4 * 16), '=', '=']
  | [a, b] =>
      [char (a.toNat / 4), char (a.toNat % 4 * 16 + b.toNat / 16), char (b.toNat % 16 * 4), '=']
  | a :: b :: c :: rest =>
      char (a.toNat / 4) :: char (a.toNat % 4 * 16 + b.toNat / 16) ::
        char (b.toNat % 16 * 4 + c.toNat / 64) :: char (c.toNat % 64) :: encode rest

/-- Decode from a place in a group of four, with the bits left over and the padding seen. -/
def decodeFrom : Nat → Nat → Nat → List Char → Option (List UInt8)
  | quad, _, _, [] => if quad = 0 then some [] else none
  | quad, left, pads, c :: cs =>
      if c = '=' then
        if 2 ≤ quad then
          if 4 ≤ quad + (pads + 1) then some [] else decodeFrom quad left (pads + 1) cs
        else decodeFrom quad left pads cs
      else match value c with
        | none => decodeFrom quad left pads cs
        | some v => match quad with
          | 0 => decodeFrom 1 v 0 cs
          | 1 => (decodeFrom 2 (v % 16) 0 cs).map (UInt8.ofNat (left * 4 + v / 16) :: ·)
          | 2 => (decodeFrom 3 (v % 4) 0 cs).map (UInt8.ofNat (left * 16 + v / 4) :: ·)
          | _ => (decodeFrom 0 0 0 cs).map (UInt8.ofNat (left * 64 + v) :: ·)

def decode (cs : List Char) : Option (List UInt8) := decodeFrom 0 0 0 cs

section Steps

variable {v left pads : Nat} {cs : List Char} {a b c : UInt8}

theorem decodeFrom_zero (hv : v < 64) :
    decodeFrom 0 left pads (char v :: cs) = decodeFrom 1 v 0 cs := by
  simp [decodeFrom, value_char v hv]

theorem decodeFrom_one (hv : v < 64) : decodeFrom 1 left pads (char v :: cs) =
    (decodeFrom 2 (v % 16) 0 cs).map (UInt8.ofNat (left * 4 + v / 16) :: ·) := by
  simp [decodeFrom, value_char v hv]

theorem decodeFrom_two (hv : v < 64) : decodeFrom 2 left pads (char v :: cs) =
    (decodeFrom 3 (v % 4) 0 cs).map (UInt8.ofNat (left * 16 + v / 4) :: ·) := by
  simp [decodeFrom, value_char v hv]

theorem decodeFrom_three (hv : v < 64) : decodeFrom 3 left pads (char v :: cs) =
    (decodeFrom 0 0 0 cs).map (UInt8.ofNat (left * 64 + v) :: ·) := by
  simp [decodeFrom, value_char v hv]

/-- The two characters of a byte and what the second has left over. -/
theorem decode_byte (hv : v < 16) : decodeFrom 0 left pads
    (char (a.toNat / 4) :: char (a.toNat % 4 * 16 + v) :: cs) =
      (decodeFrom 2 v 0 cs).map (a :: ·) := by
  have ha := a.toNat_lt
  rw [decodeFrom_zero (by omega), decodeFrom_one (by omega)]
  have hbyte : a.toNat / 4 * 4 + (a.toNat % 4 * 16 + v) / 16 = a.toNat := by omega
  have hleft : (a.toNat % 4 * 16 + v) % 16 = v := by omega
  rw [hbyte, hleft, UInt8.ofNat_toNat]

end Steps

/-- What was encoded is decoded. -/
theorem decode_encode (bytes : List UInt8) : decode (encode bytes) = some bytes := by
  unfold decode
  induction bytes using encode.induct with
  | case1 => rfl
  | case2 a =>
      rw [encode, show char (a.toNat % 4 * 16) = char (a.toNat % 4 * 16 + 0) from rfl,
        decode_byte (by omega)]
      simp [decodeFrom]
  | case3 a b =>
      have hb := b.toNat_lt
      have hbyte : b.toNat / 16 * 16 + b.toNat % 16 * 4 / 4 = b.toNat := by omega
      rw [encode, decode_byte (by omega), decodeFrom_two (by omega), hbyte, UInt8.ofNat_toNat]
      simp [decodeFrom]
  | case4 a b c rest ih =>
      have hb := b.toNat_lt
      have hc := c.toNat_lt
      have hbyte : b.toNat / 16 * 16 + (b.toNat % 16 * 4 + c.toNat / 64) / 4 = b.toNat := by omega
      have hleft : (b.toNat % 16 * 4 + c.toNat / 64) % 4 * 64 + c.toNat % 64 = c.toNat := by omega
      rw [encode, decode_byte (by omega), decodeFrom_two (by omega), decodeFrom_three (by omega),
        hbyte, hleft, UInt8.ofNat_toNat, UInt8.ofNat_toNat, ih]
      rfl

/-- The text without the padding at its end. -/
def strip (cs : List Char) : List Char := (cs.reverse.dropWhile (· = '=')).reverse

/-- Padding up to a multiple of four. -/
def pad (cs : List Char) : List Char := cs ++ List.replicate ((4 - cs.length % 4) % 4) '='

theorem strip_append {body : List Char} (hbody : ∀ c ∈ body.getLast?, c ≠ '=') (n : Nat) :
    strip (body ++ List.replicate n '=') = body := by
  unfold strip
  rw [List.reverse_append, List.reverse_replicate, List.dropWhile_append_of_pos (by simp)]
  obtain rfl | ⟨init, c, rfl⟩ := List.eq_nil_or_concat body
  · rfl
  · have hc : c ≠ '=' := hbody c (by simp)
    simp [hc]

/-- An encoded text is a body and the padding that its length asks for. -/
theorem encode_eq_append (bytes : List UInt8) :
    ∃ body n, encode bytes = body ++ List.replicate n '=' ∧
      (∀ c ∈ body.getLast?, c ≠ '=') ∧ (body.length + n) % 4 = 0 ∧ n < 4 := by
  have plain {v : Nat} (hv : v < 64) : char v ≠ '=' := (value_char v hv).2
  induction bytes using encode.induct with
  | case1 => exact ⟨[], 0, rfl, by simp, rfl, by omega⟩
  | case2 a =>
      have ha := a.toNat_lt
      refine ⟨[_, _], 2, rfl, ?_, by simp, by omega⟩
      simpa using plain (by omega)
  | case3 a b =>
      have hb := b.toNat_lt
      refine ⟨[_, _, _], 1, rfl, ?_, by simp, by omega⟩
      simpa using plain (by omega)
  | case4 a b c rest ih =>
      obtain ⟨body, n, heq, hbody, hlength, hn⟩ := ih
      refine ⟨_ :: _ :: _ :: _ :: body, n, by rw [encode, heq]; rfl, ?_, ?_, hn⟩
      · cases body with
        | nil => simpa using plain (by omega)
        | cons x xs => simpa using hbody
      · simp only [List.length_cons]
        omega

/-- The padding can be put back. -/
theorem pad_strip_encode (bytes : List UInt8) : pad (strip (encode bytes)) = encode bytes := by
  obtain ⟨body, n, heq, hbody, hlength, hn⟩ := encode_eq_append bytes
  have hpad : (4 - body.length % 4) % 4 = n := by omega
  rw [heq, strip_append hbody, pad, hpad]

theorem toNat_char_lt (v : Nat) : (char v).toNat < 128 := by
  have hall : (('A' :: alphabet).all fun c => Nat.blt c.toNat 128) = true := by decide +kernel
  have hlt : ∀ c ∈ 'A' :: alphabet, c.toNat < 128 := fun c hc =>
    Nat.le_of_ble_eq_true (List.all_eq_true.mp hall c hc)
  refine hlt _ ?_
  unfold char
  rw [List.getD_eq_getElem?_getD]
  cases hv : alphabet[v]? with
  | none => exact List.mem_cons_self
  | some c => exact List.mem_cons_of_mem _ (List.mem_of_getElem? hv)

/-- An encoded text is ASCII. -/
theorem toNat_lt_of_mem_encode {bytes : List UInt8} {c : Char} (h : c ∈ encode bytes) :
    c.toNat < 128 := by
  have hpad : '='.toNat < 128 := by decide
  induction bytes using encode.induct with
  | case1 => cases h
  | case2 a =>
      simp only [encode, List.mem_cons, List.not_mem_nil, or_false] at h
      obtain rfl | rfl | rfl | rfl := h <;> first | exact toNat_char_lt _ | exact hpad
  | case3 a b =>
      simp only [encode, List.mem_cons, List.not_mem_nil, or_false] at h
      obtain rfl | rfl | rfl | rfl := h <;> first | exact toNat_char_lt _ | exact hpad
  | case4 a b c' rest ih =>
      simp only [encode, List.mem_cons] at h
      obtain rfl | rfl | rfl | rfl | h := h
      · exact toNat_char_lt _
      · exact toNat_char_lt _
      · exact toNat_char_lt _
      · exact toNat_char_lt _
      · exact ih h

theorem mem_of_mem_strip {cs : List Char} {c : Char} (h : c ∈ strip cs) : c ∈ cs := by
  unfold strip at h
  exact List.mem_reverse.mp ((List.dropWhile_sublist _).subset (List.mem_reverse.mp h))

end Base64
