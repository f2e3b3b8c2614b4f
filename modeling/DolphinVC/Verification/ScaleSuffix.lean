import DolphinVC.Verification.AmountText
import DolphinVC.Verification.InjectedLines

/-!
# Letters that scale an amount

The pattern of an amount ends with an optional letter and without a word boundary, unlike the
patterns for customers and for growth. The first letter of the next word is therefore taken for a
scale when it is one of the keyword's letters, and a claim has the plain number only where no such
letter follows, where the letter is a scale indeed, or where the number is 0.
-/

namespace DolphinVC

open Regex

section Scale

variable (env : Env)

/-- The text of the number in an amount. -/
def numberText (captured : List Char) : List Char :=
  (captured.dropWhile fun c => !env.isDigit c).takeWhile fun c => env.isDigit c ∨ c ∈ [',', '.']

/-- What follows the number in the line. -/
def afterNumber (m : Match Char) : List Char :=
  (m.captured.dropWhile fun c => !env.isDigit c).dropWhile
    (fun c => env.isDigit c ∨ c ∈ [',', '.']) ++ m.after

/-- The number without a scale. -/
def plainNumber (m : Match Char) : Option Decimal :=
  parseDecimal env (withoutCommas (numberText env m.captured))

/-- A letter of these begins what follows after at most one space. -/
def beginsWithScale (scale follow : List Char) : Bool :=
  (afterGap env follow).head?.any (inScale env scale)

/-- Some scale follows after at most one space, and no other letter follows it. -/
def followedByScale (isLetter : Char → Bool) (follow : List Char) : Bool :=
  beginsWithScale env scaleLetters follow && !((afterGap env follow).tail.head?.any isLetter)

/-- A claim that one of the two patterns found in a line. -/
structure AmountFound (pages : List ParsedPage) (kind : AmountKind) (line : List Char)
    (m : Match Char) (item : ExtractedClaim) : Prop where
  known : kind = arrKind ∨ kind = tamKind
  search : (kind.pattern env).regex.search line = some m
  page : ∃ page ∈ pages, line ∈ pageLines env page ∧ line ≠ [] ∧
    lineClaim env page.pageNo line (kind.pattern env) = some item

/-- The value is the plain number, unless a scale follows. -/
def PlainOrScaled (isLetter : Char → Bool) (m : Match Char) (item : ExtractedClaim) : Prop :=
  item.valueNum = (plainNumber env m).map Decimal.value ∨
    followedByScale env isLetter (afterNumber env m) = true

/-- The number is 0, or it fits and no letter that the keyword takes for a scale follows, or a
scale follows indeed. -/
def NumberStands (isLetter : Char → Bool) (scale : List Char) (m : Match Char) : Prop :=
  followedByScale env isLetter (afterNumber env m) = true ∨
    ∃ x ∈ plainNumber env m, x.coefficient = 0 ∨
      beginsWithScale env scale (afterNumber env m) = false ∧ decimalContext.Fits x

end Scale

section Claims

variable {env : Env} {pages : List ParsedPage} {kind : AmountKind} {line : List Char}
  {m : Match Char} {item : ExtractedClaim}

/-- Every ARR or TAM claim comes from a match of its pattern. -/
theorem exists_amountFound (hitem : item ∈ extractClaims env pages)
    (hpredicate : item.predicate ∈ ["arr", "tam"]) :
    ∃ kind line m, AmountFound env pages kind line m item := by
  obtain ⟨page, hpage, hitem⟩ := List.mem_flatMap.mp hitem
  obtain ⟨line, hline, hitem⟩ := List.mem_flatMap.mp hitem
  obtain ⟨hline, hne⟩ := List.mem_filter.mp hline
  obtain ⟨p, hp, hclaim⟩ := List.mem_filterMap.mp hitem
  have hclaim' := hclaim
  rw [lineClaim_eq, Option.map_eq_some_iff] at hclaim'
  obtain ⟨m, hm, rfl⟩ := hclaim'
  have hkind : ∃ kind, (kind = arrKind ∨ kind = tamKind) ∧ p = AmountKind.pattern env kind := by
    simp only [claimPatterns, List.mem_cons, List.not_mem_nil, or_false] at hp
    obtain rfl | rfl | rfl | rfl := hp
    · exact ⟨arrKind, Or.inl rfl, rfl⟩
    · revert hpredicate
      simp
    · exact ⟨tamKind, Or.inr rfl, rfl⟩
    · revert hpredicate
      simp
  obtain ⟨kind, hknown, rfl⟩ := hkind
  exact ⟨kind, line, m, hknown, hm, page, hpage, hline, by simpa using hne, hclaim⟩

theorem AmountFound.mem (h : AmountFound env pages kind line m item) :
    item ∈ extractClaims env pages := by
  obtain ⟨page, hpage, hline, hne, hclaim⟩ := h.page
  refine List.mem_flatMap.mpr ⟨page, hpage, List.mem_flatMap.mpr ⟨line, ?_, ?_⟩⟩
  · exact List.mem_filter.mpr ⟨hline, by simpa using hne⟩
  · refine List.mem_filterMap.mpr ⟨kind.pattern env, ?_, hclaim⟩
    obtain rfl | rfl := h.known
    · exact List.mem_cons_self
    · exact List.mem_cons_of_mem _ (List.mem_cons_of_mem _ List.mem_cons_self)

theorem AmountFound.valueNum (h : AmountFound env pages kind line m item) :
    item.valueNum = parseCompactNumber env m.captured := by
  obtain ⟨page, -, -, -, hclaim⟩ := h.page
  rw [lineClaim_eq, h.search] at hclaim
  rw [← Option.some.inj hclaim]

end Claims

section Parts

variable {env : Env} {scale : List Char} {m : Match Char}

theorem Numeral.chars_of_number {num : List Char} {x : Decimal} (h : Numeral env num x) :
    ∀ c ∈ num, decide (env.isDigit c = true ∨ c ∈ [',', '.']) = true := by
  intro c hc
  have := h.chars c hc
  simpa using this

/-- The number of an amount, and what is left of it. -/
theorem numberText_parts (numeric : NumericEnv env) (hscale : ∀ l ∈ scale, l ∈ scaleLetters)
    (parts : AmountParts env scale) (hm : m.captured = parts.text) :
    numberText env m.captured = parts.num ∧ afterNumber env m = parts.tail ++ m.after := by
  obtain ⟨d, rest, hnum, hd⟩ := parts.reads.front
  have hfront : m.captured.dropWhile (fun c => !env.isDigit c) = parts.num ++ parts.tail := by
    have hhead : (parts.num ++ parts.tail).head?.any (fun c => !env.isDigit c) = false := by
      rw [hnum]
      simp [hd]
    rw [hm, AmountParts.text, ← List.append_assoc]
    refine dropWhile_append_of_stop (fun c hc => ?_) hhead
    rw [Bool.not_eq_true']
    obtain hc | hc := List.mem_append.mp hc
    · have hmark : c ∈ ['$', '€', '£'] := of_decide_eq_true (parts.sgn_mark c (by simpa using hc))
      exact numeric.mark_digit c (mem_marks_of_sign hmark)
    · exact numeric.not_digit_of_space (parts.sp_space c (by simpa using hc))
  have hstop : parts.tail.head?.any (fun c => decide (env.isDigit c = true ∨ c ∈ [',', '.'])) =
      false := by
    refine any_head?_of_forall fun c hc => ?_
    rw [decide_eq_false_iff_not]
    rintro hdigit
    have hkind : env.isSpace c = true ∨ ∃ l ∈ scaleLetters, env.sameLetter l c = true := by
      obtain hc | hc := List.mem_append.mp hc
      · exact Or.inl (parts.gap_space c (by simpa using hc))
      · obtain ⟨l, hl, hsame⟩ := List.any_eq_true.mp (parts.letter_scale c (by simpa using hc))
        exact Or.inr ⟨l, hscale l hl, hsame⟩
    obtain hdigit | hmark := hdigit
    · obtain hspace | ⟨l, hl, hsame⟩ := hkind
      · exact absurd hspace (ne_true_of_eq_false (numeric.digit_space c hdigit))
      · exact absurd hsame (ne_true_of_eq_false (numeric.digit_scale c hdigit l hl))
    · have hmark' : c ∈ ['$', '€', '£', ',', '.'] := by
        simp only [List.mem_cons] at hmark ⊢
        tauto
      obtain hspace | ⟨l, hl, hsame⟩ := hkind
      · exact absurd hspace (ne_true_of_eq_false (numeric.mark_space c hmark'))
      · exact absurd hsame (ne_true_of_eq_false (numeric.mark_scale c hmark' l hl))
  unfold numberText afterNumber
  rw [hfront, takeWhile_append_of_stop parts.reads.chars_of_number hstop,
    dropWhile_append_of_stop parts.reads.chars_of_number hstop]
  exact ⟨rfl, rfl⟩

theorem plainNumber_parts (numeric : NumericEnv env) (hscale : ∀ l ∈ scale, l ∈ scaleLetters)
    (parts : AmountParts env scale) (hm : m.captured = parts.text) :
    plainNumber env m = some parts.number := by
  have hparse := parseDecimal_of_numeral [] [] numeric parts.reads (by simp)
    (by simp)
  rw [List.nil_append, List.append_nil] at hparse
  rw [plainNumber, (numberText_parts numeric hscale parts hm).1]
  exact hparse

theorem beginsWithScale_parts (numeric : NumericEnv env)
    (hscale : ∀ l ∈ scale, l ∈ scaleLetters) (parts : AmountParts env scale)
    (hm : m.captured = parts.text) (greedy : parts.Greedy m.after) :
    beginsWithScale env scale (afterNumber env m) = parts.letter.isSome := by
  rw [beginsWithScale, (numberText_parts numeric hscale parts hm).2, greedy.gap]
  cases hletter : parts.letter with
  | none => simpa using greedy.letter hletter
  | some c => simpa using parts.letter_scale c hletter

/-- The value of a match is its number where that is 0, or fits and no letter follows. -/
theorem parse_eq_plain_iff (numeric : NumericEnv env) (hscale : ∀ l ∈ scale, l ∈ scaleLetters)
    (parts : AmountParts env scale) (hm : m.captured = parts.text) (greedy : parts.Greedy m.after) :
    parseCompactNumber env m.captured = some parts.number.value ↔
      parts.number.coefficient = 0 ∨
        beginsWithScale env scale (afterNumber env m) = false ∧
          decimalContext.Fits parts.number := by
  rw [beginsWithScale_parts numeric hscale parts hm greedy, hm]
  cases hletter : parts.letter with
  | none =>
      rw [AmountParts.parse_none numeric hletter, Decimal.times_one_value_iff]
      refine ⟨fun h => Or.inr ⟨rfl, h⟩, ?_⟩
      rintro (hzero | ⟨-, hfits⟩)
      · exact decimalContext.fits_of_zero _ hzero
      · exact hfits
  | some c =>
      obtain ⟨l, hl, hsame⟩ := List.any_eq_true.mp (parts.letter_scale c hletter)
      rw [AmountParts.parse_some numeric hletter (hscale l hl) hsame,
        Decimal.times_value_iff _ _ (Nat.le_of_succ_le (three_le_multiplierOf l))]
      simp

end Parts

section Result

variable {env : Env}

/-- Every ARR or TAM claim has the plain number of its match, or a scale follows the number,
exactly where the number stands. -/
theorem plain_or_scaled_iff (numeric : NumericEnv env) (isLetter : Char → Bool)
    (pages : List ParsedPage) :
    (∀ item ∈ extractClaims env pages, item.predicate ∈ ["arr", "tam"] →
      ∃ kind line m, AmountFound env pages kind line m item) ∧
    ∀ kind line m item, AmountFound env pages kind line m item →
      item ∈ extractClaims env pages ∧ (plainNumber env m).isSome = true ∧
        (PlainOrScaled env isLetter m item ↔ NumberStands env isLetter kind.scale m) := by
  refine ⟨fun item hitem => exists_amountFound hitem, fun kind line m item h => ?_⟩
  have hscale := AmountKind.scale_letters h.known
  obtain ⟨parts, hm, greedy⟩ := exists_parts h.search
  have hplain := plainNumber_parts numeric hscale parts hm
  have hvalue := parse_eq_plain_iff numeric hscale parts hm greedy
  refine ⟨h.mem, by rw [hplain]; rfl, ?_⟩
  unfold PlainOrScaled NumberStands
  rw [hplain, h.valueNum, Option.map_some, hvalue, or_comm]
  simp

/-- What the pattern finds in a deck of one line. -/
theorem exists_arrFound (text : String) (captured after : List Char) (value : Rat)
    (hsearch : (((arrKind.pattern asciiEnv).regex.search text.toList).map
      fun m => (m.captured, m.after)) = some (captured, after))
    (hvalue : parseCompactNumber asciiEnv captured = some value)
    (hline : text.toList ∈ pageLines asciiEnv { pageNo := 1, text }) (hne : text.toList ≠ []) :
    ∃ m item, AmountFound asciiEnv [{ pageNo := 1, text }] arrKind text.toList m item ∧
      m.captured = captured ∧ m.after = after ∧ item.valueNum = some value := by
  obtain ⟨m, hm, hparts⟩ := Option.map_eq_some_iff.mp hsearch
  obtain ⟨rfl, rfl⟩ := Prod.mk.inj hparts
  have hclaim : lineClaim asciiEnv 1 text.toList (arrKind.pattern asciiEnv) = _ := lineClaim_eq
  rw [hm, Option.map_some] at hclaim
  exact ⟨m, _, ⟨Or.inl rfl, hm, _, List.mem_singleton_self _, hline, hne, hclaim⟩, rfl, rfl, hvalue⟩

/-- A letter after a space, as in "ARR 12 m", is the scale of the number. -/
theorem million_plain_or_scaled : ∃ m item,
    AmountFound asciiEnv [{ pageNo := 1, text := "ARR 12 m" }] arrKind "ARR 12 m".toList m item ∧
      item.valueNum = some 12000000 ∧ PlainOrScaled asciiEnv Char.isAlpha m item := by
  obtain ⟨m, item, found, hcaptured, hafter, hvalue⟩ := exists_arrFound "ARR 12 m"
    " 12 m".toList [] 12000000 (by decide) (by decide +kernel) (by decide) (by decide)
  have stands : NumberStands asciiEnv Char.isAlpha arrKind.scale m := by
    refine Or.inl ?_
    rw [afterNumber, hcaptured, hafter]
    decide
  exact ⟨m, item, found, hvalue, ((plain_or_scaled_iff asciiEnv_numeric Char.isAlpha _).2
    arrKind _ m item found).2.2.mpr stands⟩

def monthsPage : ParsedPage := { pageNo := 1, text := "ARR 12 months" }

/-- The months of "ARR 12 months" multiply it by a million. -/
theorem months_scale_the_number :
    ∃ m item, AmountFound asciiEnv [monthsPage] arrKind "ARR 12 months".toList m item ∧
      item.valueNum = some 12000000 ∧ ¬ PlainOrScaled asciiEnv Char.isAlpha m item := by
  obtain ⟨m, item, found, hcaptured, hafter, hvalue⟩ := exists_arrFound "ARR 12 months"
    " 12 m".toList "onths".toList 12000000 (by decide) (by decide +kernel) (by decide) (by decide)
  refine ⟨m, item, found, hvalue, ?_⟩
  unfold PlainOrScaled
  rw [not_or]
  constructor
  · rw [hvalue, plainNumber, hcaptured]
    decide +kernel
  · rw [afterNumber, hcaptured, hafter]
    decide

end Result

end DolphinVC
