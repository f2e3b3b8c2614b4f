import DolphinVC.Arithmetic.Binary64
import DolphinVC.Config
import DolphinVC.Text.Calendar
import DolphinVC.Text.Digits
import DolphinVC.Text.Base64

/-!
# Utilities

The texts of timestamps and identifiers, and the cursor that carries one of each. A cursor is
text in base 64 whose padding is cut off; decoding puts it back.
-/

namespace DolphinVC

open Binary64

/-- `(deadline - now).total_seconds() / 3600` -/
def hoursUntil (deadline now : Timestamp) : Rat :=
  double (double ((deadline - now : Int) / (1000000 : Int)) / (3600 : Int))

/-- No microsecond is too short to count. -/
theorem hoursUntil_nonpos {deadline now : Timestamp} :
    hoursUntil deadline now ≤ 0 ↔ deadline ≤ now := by
  have sign : ((deadline - now : Int) : Rat) ≤ 0 ↔ deadline ≤ now := by
    exact_mod_cast sub_nonpos (a := deadline) (b := now)
  have micro : ¬((deadline - now : Int) : Rat) ≤ 0 → (1 : Rat) ≤ (deadline - now : Int) := by
    intro h
    exact_mod_cast Int.add_one_le_of_lt (Int.not_le.mp (mod_cast h))
  rw [← sign, hoursUntil]
  generalize ((deadline - now : Int) : Rat) = micros at micro
  constructor
  · contrapose!
    intro h
    have whole : 1 ≤ micros := micro (not_le.mpr h)
    have seconds : (1 : Int) * (2 : Rat) ^ (-20 : Int) ≤ double (micros / (1000000 : Int)) :=
      le_double (by norm_num) (by norm_num) (by norm_num; linarith)
    have hours : (1 : Int) * (2 : Rat) ^ (-32 : Int) ≤
        double (double (micros / (1000000 : Int)) / (3600 : Int)) :=
      le_double (by norm_num) (by norm_num) (by norm_num at seconds ⊢; linarith)
    norm_num at hours ⊢
    linarith
  · intro h
    have seconds : double (micros / (1000000 : Int)) ≤ double 0 :=
      double_mono (by norm_num; linarith)
    have hours : double (double (micros / (1000000 : Int)) / (3600 : Int)) ≤ double 0 :=
      double_mono (by norm_num at seconds ⊢; linarith)
    simpa only [double_zero] using hours

/-- `str(uuid)` -/
def Uuid.text (id : Uuid) : String :=
  let hex := Digits.fixed Digits.hexadecimal 32 id
  String.ofList (hex.take 8 ++ '-' :: (hex.drop 8).take 4 ++ '-' :: (hex.drop 12).take 4 ++
    '-' :: (hex.drop 16).take 4 ++ '-' :: hex.drop 20)

/-- Microseconds from the first of January of the year 1 to that of 1970. -/
def epochMicros : Int := 719162 * 86400000000

def padded (width n : Nat) : List Char := Digits.fixed Digits.decimal width n

def dateText (day : Nat) : List Char :=
  let date := Calendar.ofDays day
  padded 4 date.year ++ '-' :: padded 2 date.month ++ '-' :: padded 2 date.day

/-- The time of a day, with microseconds when there are any. -/
def timeText (micros : Nat) : List Char :=
  let seconds := micros / 1000000
  padded 2 (seconds / 3600) ++ ':' :: padded 2 (seconds / 60 % 60) ++
    ':' :: padded 2 (seconds % 60) ++
    if micros % 1000000 = 0 then [] else '.' :: padded 6 (micros % 1000000)

/-- `isoformat()` of the instant in UTC. -/
def isoformat (t : Timestamp) : String :=
  let micros := (epochMicros + t).toNat
  String.ofList (dateText (micros / 86400000000) ++ 'T' :: timeText (micros % 86400000000) ++
    "+00:00".toList)

section Reading

def readChar (c : Char) : List Char → Option (List Char)
  | x :: xs => if x = c then some xs else none
  | [] => none

def readNumber (width : Nat) (cs : List Char) : Option (Nat × List Char) :=
  if cs.length < width then none
  else (Digits.value Digits.decimal (cs.take width)).map fun n => (n, cs.drop width)

def readDate (cs : List Char) : Option (Calendar.Date × List Char) := do
  let (year, cs) ← readNumber 4 cs
  let cs ← readChar '-' cs
  let (month, cs) ← readNumber 2 cs
  let cs ← readChar '-' cs
  let (day, cs) ← readNumber 2 cs
  if Calendar.Date.Valid ⟨year, month, day⟩ then some (⟨year, month, day⟩, cs) else none

def readFraction : List Char → Option (Nat × List Char)
  | '.' :: cs => readNumber 6 cs
  | cs => some (0, cs)

/-- Microseconds since midnight. -/
def readTime (cs : List Char) : Option (Nat × List Char) := do
  let (hour, cs) ← readNumber 2 cs
  let cs ← readChar ':' cs
  let (minute, cs) ← readNumber 2 cs
  let cs ← readChar ':' cs
  let (second, cs) ← readNumber 2 cs
  let (micros, cs) ← readFraction cs
  if hour < 24 ∧ minute < 60 ∧ second < 60 then
    some (((hour * 60 + minute) * 60 + second) * 1000000 + micros, cs)
  else none

/-- `datetime.fromisoformat`. Of the ISO 8601 formats it reads the one that `isoformat` writes
for UTC. -/
def fromisoformat (cs : List Char) : Option Timestamp := do
  let (date, cs) ← readDate cs
  let cs ← readChar 'T' cs
  let (micros, cs) ← readTime cs
  if cs = "+00:00".toList then some (Calendar.days date * 86400000000 + micros - epochMicros)
  else none

/-- `uuid.UUID(value)`: hyphens, braces around it and a URN prefix are dropped. -/
def parseUuid (value : String) : Option Uuid :=
  let cs := value.toList
  let cs := if "urn:uuid:".toList <+: cs then cs.drop 9 else cs
  let hex := cs.filter fun c => c ∉ ['-', '{', '}']
  if hex.length = 32 then Digits.value Digits.hexadecimal hex else none

end Reading

/-- The instants that a `datetime` holds: the years 1 to 9999. -/
def InRange (t : Timestamp) : Prop :=
  0 ≤ epochMicros + t ∧ epochMicros + t < Calendar.daysBeforeYear 10000 * 86400000000

instance (t : Timestamp) : Decidable (InRange t) := by
  unfold InRange
  infer_instance

/-- A `datetime`: what its clock shows, and its offset from UTC if it is aware. -/
structure DateTime where
  clock : Int
  offset : Option Int := none

/-- A naive time is taken for UTC. `astimezone` raises `OverflowError` when the instant is out of
range. -/
def DateTime.aware (v : DateTime) : Option Timestamp :=
  if InRange (v.clock - v.offset.getD 0) then some (v.clock - v.offset.getD 0) else none

def encodeCursor (sortValue : DateTime) (rowId : String) : Option String :=
  sortValue.aware.map fun t =>
    String.ofList (Base64.strip (Base64.encode (isoformat t ++ "|" ++ rowId).toUTF8.data.toList))

/-- `value.rsplit("|", 1)`, which must find one. -/
def splitLast (value : List Char) : Option (List Char × List Char) :=
  let last := (value.reverse.takeWhile (· ≠ '|')).reverse
  match value.reverse.dropWhile (· ≠ '|') with
  | [] => none
  | _ :: rest => some (rest.reverse, last)

/-- `none` stands for `ValueError("invalid cursor")`. -/
def decodeCursor (cursor : String) : Option (Timestamp × String) := do
  let bytes ← if cursor.toList.all fun c => c.toNat < 128 then
    Base64.decode (Base64.pad cursor.toList) else none
  let decoded ← String.fromUTF8? ⟨bytes.toArray⟩
  let (timestamp, rowId) ← splitLast decoded.toList
  let t ← fromisoformat timestamp
  return (t, String.ofList rowId)

section RoundTrip

variable {cs : List Char} {n width : Nat} {t : Timestamp} {id : Uuid}

theorem readNumber_padded (h : n < 10 ^ width) :
    readNumber width (padded width n ++ cs) = some (n, cs) := by
  have hlength : (padded width n).length = width := Digits.length_fixed _ width n
  have hvalue : Digits.value Digits.decimal (padded width n) = some n := Digits.value_fixed _ h
  unfold readNumber
  rw [if_neg (by simp [hlength]), List.take_left' hlength, List.drop_left' hlength, hvalue]
  rfl

@[simp] theorem readChar_self (c : Char) : readChar c (c :: cs) = some cs := by
  simp [readChar]

theorem readDate_dateText (h : n < Calendar.daysBeforeYear 10000) :
    readDate (dateText n ++ cs) = some (Calendar.ofDays n, cs) := by
  have hyear := Calendar.year_lt h
  have hmonth := Calendar.month_le n
  have hday := Calendar.day_le n
  unfold readDate dateText
  simp only [List.append_assoc, List.cons_append]
  rw [readNumber_padded (by omega)]
  simp only [Option.bind_eq_bind, Option.bind_some, readChar_self]
  rw [readNumber_padded (by omega)]
  simp only [Option.bind_some, readChar_self]
  rw [readNumber_padded (by omega)]
  simp only [Option.bind_some]
  exact if_pos (Calendar.valid_ofDays n)

theorem readFraction_text (h : n < 1000000) (hcs : cs.head? ≠ some '.') :
    readFraction ((if n = 0 then [] else '.' :: padded 6 n) ++ cs) = some (n, cs) := by
  split
  · rename_i hzero
    subst hzero
    cases cs with
    | nil => rfl
    | cons c cs =>
        rw [List.nil_append]
        unfold readFraction
        split
        · rename_i heq
          cases heq
          exact absurd rfl hcs
        · rfl
  · exact readNumber_padded h

theorem readTime_timeText (h : n < 86400000000) (hcs : cs.head? ≠ some '.') :
    readTime (timeText n ++ cs) = some (n, cs) := by
  unfold readTime timeText
  simp only [List.append_assoc, List.cons_append]
  rw [readNumber_padded (by omega)]
  simp only [Option.bind_eq_bind, Option.bind_some, readChar_self]
  rw [readNumber_padded (by omega)]
  simp only [Option.bind_some, readChar_self]
  rw [readNumber_padded (by omega)]
  simp only [Option.bind_some]
  rw [readFraction_text (by omega) hcs]
  simp only [Option.bind_some]
  rw [if_pos (by omega), Option.some_inj, Prod.mk.injEq]
  exact ⟨by omega, rfl⟩

theorem fromisoformat_isoformat (h : InRange t) : fromisoformat (isoformat t).toList = some t := by
  obtain ⟨hlow, hhigh⟩ := h
  have hday : (epochMicros + t).toNat / 86400000000 < Calendar.daysBeforeYear 10000 := by
    omega
  unfold fromisoformat isoformat
  simp only [String.toList_ofList, List.append_assoc, List.cons_append]
  rw [readDate_dateText hday]
  simp only [Option.bind_eq_bind, Option.bind_some, readChar_self]
  rw [readTime_timeText (by omega) (by decide)]
  simp only [Option.bind_some, if_true, Calendar.days_ofDays]
  have hsum : (((epochMicros + t).toNat / 86400000000 : Nat) : Int) * 86400000000 +
      ((epochMicros + t).toNat % 86400000000 : Nat) - epochMicros = t := by
    omega
  rw [hsum]

/-- No digit is a hyphen or a brace. -/
theorem plain_hex {c : Char} (h : c ∈ Digits.fixed Digits.hexadecimal 32 id) :
    c ∉ ['-', '{', '}'] ∧ c ≠ '|' ∧ c ≠ 'u' := by
  obtain ⟨d, hd, rfl⟩ := Digits.mem_fixed _ h
  have digits : ∀ d, d < 16 → Digits.hexadecimal.digit d ∉ ['-', '{', '}'] ∧
      Digits.hexadecimal.digit d ≠ '|' ∧ Digits.hexadecimal.digit d ≠ 'u' := by decide
  exact digits d hd

theorem text_toList (id : Uuid) : id.text.toList =
    (Digits.fixed Digits.hexadecimal 32 id).take 8 ++
      '-' :: ((Digits.fixed Digits.hexadecimal 32 id).drop 8).take 4 ++
      '-' :: ((Digits.fixed Digits.hexadecimal 32 id).drop 12).take 4 ++
      '-' :: ((Digits.fixed Digits.hexadecimal 32 id).drop 16).take 4 ++
      '-' :: (Digits.fixed Digits.hexadecimal 32 id).drop 20 := by
  simp [Uuid.text]

/-- The digits of the text, group by group. -/
theorem filter_text (id : Uuid) : id.text.toList.filter (fun c => c ∉ ['-', '{', '}']) =
    Digits.fixed Digits.hexadecimal 32 id := by
  rw [text_toList]
  have all : ∀ c ∈ Digits.fixed Digits.hexadecimal 32 id, c ∉ ['-', '{', '}'] :=
    fun c hc => (plain_hex hc).1
  generalize Digits.fixed Digits.hexadecimal 32 id = hex at all
  have keep {part : List Char} (hpart : ∀ c ∈ part, c ∈ hex) :
      part.filter (fun c => c ∉ ['-', '{', '}']) = part :=
    List.filter_eq_self.mpr fun c hc => by simpa using all c (hpart c hc)
  have hyphen (part : List Char) : ('-' :: part).filter (fun c => c ∉ ['-', '{', '}']) =
      part.filter (fun c => c ∉ ['-', '{', '}']) := List.filter_cons_of_neg (by simp)
  simp only [List.filter_append, hyphen]
  rw [keep fun c hc => List.mem_of_mem_take hc,
    keep fun c hc => List.mem_of_mem_drop (List.mem_of_mem_take hc),
    keep fun c hc => List.mem_of_mem_drop (List.mem_of_mem_take hc),
    keep fun c hc => List.mem_of_mem_drop (List.mem_of_mem_take hc),
    keep fun c hc => List.mem_of_mem_drop hc]
  have next (n : Nat) : (hex.drop n).take 4 ++ hex.drop (n + 4) = hex.drop n := by
    rw [← List.drop_drop, List.take_append_drop]
  simp only [List.append_assoc]
  rw [next 16, next 12, next 8, List.take_append_drop]

theorem parseUuid_text (h : id < 2 ^ 128) : parseUuid id.text = some id := by
  have hurn : ¬ "urn:uuid:".toList <+: id.text.toList := by
    intro hprefix
    obtain ⟨rest, hrest⟩ := hprefix
    have hlength : 0 < ((Digits.fixed Digits.hexadecimal 32 id).take 8).length := by simp
    have hhead : id.text.toList.head? =
        ((Digits.fixed Digits.hexadecimal 32 id).take 8).head? := by
      rw [text_toList]
      simp only [List.append_assoc]
      exact List.head?_append_of_ne_nil _ (List.ne_nil_of_length_pos hlength)
    rw [← hrest] at hhead
    have hu : 'u' ∈ Digits.fixed Digits.hexadecimal 32 id :=
      List.mem_of_mem_take (List.mem_of_head? hhead.symm)
    exact (plain_hex hu).2.2 rfl
  unfold parseUuid
  simp only [if_neg hurn, filter_text, Digits.length_fixed, if_true]
  exact Digits.value_fixed _ (by simpa [Digits.hexadecimal] using h)

theorem bar_not_mem_text : '|' ∉ id.text.toList := by
  intro hbar
  have hmem : '|' ∈ id.text.toList.filter fun c => c ∉ ['-', '{', '}'] :=
    List.mem_filter.mpr ⟨hbar, by decide⟩
  rw [filter_text] at hmem
  exact (plain_hex hmem).2.1 rfl

theorem splitLast_append {front : List Char} (hcs : '|' ∉ cs) :
    splitLast (front ++ '|' :: cs) = some (front, cs) := by
  have hrev : (front ++ '|' :: cs).reverse = cs.reverse ++ '|' :: front.reverse := by simp
  have plain : ∀ c ∈ cs.reverse, decide (c ≠ '|') = true := by
    intro c hc
    have hmem : c ∈ cs := List.mem_reverse.mp hc
    simpa using fun h : c = '|' => hcs (h ▸ hmem)
  unfold splitLast
  rw [hrev, List.takeWhile_append_of_pos plain, List.dropWhile_append_of_pos plain]
  simp

/-- A cursor decodes to the instant and the row it was made of. -/
theorem decodeCursor_encodeCursor {v : DateTime} (h : v.aware = some t) :
    (encodeCursor v id.text).bind decodeCursor = some (t, id.text) := by
  have hrange : InRange t := by
    unfold DateTime.aware at h
    split at h
    · cases h
      assumption
    · cases h
  unfold encodeCursor
  rw [h, Option.map_some, Option.bind_some]
  have hascii : (Base64.strip (Base64.encode
      (isoformat t ++ "|" ++ id.text).toUTF8.data.toList)).all (fun c => c.toNat < 128) = true :=
    List.all_eq_true.mpr fun c hc => by
      simpa using Base64.toNat_lt_of_mem_encode (Base64.mem_of_mem_strip hc)
  have hbytes : String.fromUTF8? ⟨(isoformat t ++ "|" ++ id.text).toUTF8.data.toList.toArray⟩ =
      some (isoformat t ++ "|" ++ id.text) := by
    rw [Array.toArray_toList]
    exact dif_pos (isoformat t ++ "|" ++ id.text).isValidUTF8
  have hsplit : splitLast (isoformat t ++ "|" ++ id.text).toList =
      some ((isoformat t).toList, id.text.toList) := by
    rw [String.toList_append, String.toList_append, List.append_assoc]
    exact splitLast_append bar_not_mem_text
  unfold decodeCursor
  rw [String.toList_ofList, if_pos hascii, Base64.pad_strip_encode, Base64.decode_encode]
  simp only [Option.bind_eq_bind, Option.bind_some, hbytes, hsplit,
    fromisoformat_isoformat hrange, String.ofList_toList]
  rfl

end RoundTrip

end DolphinVC
