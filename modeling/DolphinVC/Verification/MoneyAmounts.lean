import DolphinVC.Verification.AmountText
import DolphinVC.Verification.InjectedLines

/-!
# Amounts of money in a line

An amount after its keyword is found where it stands, since the group of the pattern fails at the
space before the sign and succeeds at the sign. But the group takes one separator only, so a number
from a million on is cut after its second group of digits; it knows only two letters for a scale
each, so another letter is left out; and the product is rounded to 28 significant digits.
-/

namespace DolphinVC

open Regex

section Ascii

/-- What the libraries say about the characters of the amounts. -/
structure AsciiText (env : Env) : Prop extends NumericEnv env where
  digit : ∀ c, c.isDigit = true →
    env.isDigit c = true ∧ env.digitValue c = c.toNat - '0'.toNat
  space : env.isSpace ' ' = true
  keyword : ∀ c ∈ ['A', 'R', 'T', 'M'],
    env.isWordChar c = true ∧ env.isSpace c = false ∧ env.sameLetter c c = true
  blank : env.isWordChar ' ' = false
  cases : ∀ c ∈ ['k', 'K', 'm', 'M', 'b', 'B'], env.sameLetter c.toLower c = true

theorem asciiEnv_text : AsciiText asciiEnv where
  toNumericEnv := asciiEnv_numeric
  digit c hc := ⟨hc, rfl⟩
  space := by decide
  keyword := by simp [asciiEnv, plainEnv]
  blank := by decide
  cases := by simp [asciiEnv, plainEnv]

end Ascii

section Amounts

/-- The three digits of a number below 1000. -/
def threeDigits (n : Nat) : List Char := [n / 100 % 10, n / 10 % 10, n % 10].map Nat.digitChar

/-- A number with a comma between its thousands. -/
def commaSeparated (n : Nat) : List Char :=
  if n < 1000 then Nat.toDigits 10 n
  else commaSeparated (n / 1000) ++ ',' :: threeDigits (n % 1000)

/-- Some digits. -/
structure DigitText where
  chars : List Char
  ne_nil : chars ≠ []
  digits : ∀ c ∈ chars, c.isDigit = true

def suffixes : List Char := ['k', 'K', 'm', 'M', 'b', 'B']

/-- A whole number after ARR, or a decimal with a point and a suffix after one of the keywords. -/
inductive Amount where
  | whole (n : Nat)
  | scaled (kind : AmountKind) (known : kind = arrKind ∨ kind = tamKind)
      (front back : DigitText) (suffix : Char) (known_suffix : suffix ∈ suffixes)

namespace Amount

def kind : Amount → AmountKind
  | whole _ => arrKind
  | scaled kind _ _ _ _ _ => kind

/-- The text after the sign. -/
def body : Amount → List Char
  | whole n => commaSeparated n
  | scaled _ _ front back suffix _ => front.chars ++ '.' :: back.chars ++ [suffix]

/-- The decimal number in front of a suffix. -/
def decimal (front back : DigitText) : Decimal where
  coefficient := Nat.ofDigitChars 10 (front.chars ++ back.chars) 0
  places := back.chars.length

/-- The amount that the text stands for. -/
def value : Amount → Rat
  | whole n => n
  | scaled _ _ front back suffix _ =>
      (decimal front back).value * (multiplierOf suffix.toLower : Nat)

/-- A whole number is below a million. A scaled one is 0, or the pattern has its letter and the
context its product. -/
def Readable : Amount → Prop
  | whole n => n < 1000000
  | scaled kind _ front back suffix _ =>
      (decimal front back).coefficient = 0 ∨ suffix.toLower ∈ kind.scale ∧
        decimalContext.Fits { decimal front back with
          coefficient := (decimal front back).coefficient * multiplierOf suffix.toLower }

end Amount

def signUnit (sign : Char) : String :=
  if sign = '€' then "EUR" else if sign = '£' then "GBP" else "USD"

/-- The line of a keyword, a sign and what follows it. -/
def amountLine (kind : AmountKind) (sign : Char) (body : List Char) : List Char :=
  kind.word.toList ++ ' ' :: sign :: body

def amountPage (pageNo : Nat) (sign : Char) (amount : Amount) : ParsedPage where
  pageNo
  text := String.ofList (amountLine amount.kind sign amount.body)

/-- The page has one claim of the keyword's category, with the value and the unit of the amount. -/
def Survives (env : Env) (pageNo : Nat) (sign : Char) (amount : Amount) : Prop :=
  ((extractClaims env [amountPage pageNo sign amount]).filter
      fun item => item.category = amount.kind.category).map
    (fun item => (item.valueNum, item.valueUnit)) = [(some amount.value, some (signUnit sign))]

end Amounts

section First

variable {env : Env} {before rest ds ds' num : List Char} {sign : Char}

theorem first_whole (hne : ds ≠ []) (digits : ∀ c ∈ ds, env.isDigit c = true)
    {separator : Char → Bool} (hstop : rest.head?.any env.isDigit = false)
    (hsep : rest.head?.any separator = false) :
    (number env separator).First before ds rest := by
  rw [← List.append_nil ds]
  refine First.seq (First.many1 hne digits hstop) (First.opt_none ?_)
  exact Fails.seq_left (Fails.repeated (Nat.zero_lt_one) hsep)

theorem first_separated (numeric : NumericEnv env) (hne : ds ≠ []) (hne' : ds' ≠ [])
    (digits : ∀ c ∈ ds ++ ds', env.isDigit c = true) {separator : Char → Bool} {c : Char}
    (hc : c ∈ ['.', ',']) (hsep : separator c = true)
    (hstop : rest.head?.any env.isDigit = false) :
    (number env separator).First before (ds ++ c :: ds') rest := by
  have hdigit : env.isDigit c = false :=
    numeric.mark_digit c (by simp only [List.mem_cons] at hc ⊢; tauto)
  have hds : ∀ c ∈ ds, env.isDigit c = true := fun c hc => digits c (List.mem_append_left _ hc)
  have hds' : ∀ c ∈ ds', env.isDigit c = true := fun c hc => digits c (List.mem_append_right _ hc)
  refine First.seq (First.many1 hne hds (by simpa using hdigit)) (First.opt_some ?_)
  exact First.seq (First.one hsep) (First.many1 hne' hds' hstop)

/-- At the sign the group takes the number and a letter of its scale. -/
theorem first_amount {scale : List Char} (letter : Option Char) (rest : List Char)
    (hsign : isMark sign = true)
    (hnumber : (number env (· ∈ ['.', ','])).First (sign :: before) num (letter.toList ++ rest))
    (hfront : num.head?.any env.isSpace = false) (hne : num ≠ [])
    (hgap : (letter.toList ++ rest).head?.any env.isSpace = false)
    (hletter : ∀ c ∈ letter, inScale env scale c = true)
    (hrest : letter = none → rest.head?.any (inScale env scale) = false) :
    (amountGroup env scale).First before (sign :: (num ++ letter.toList)) rest := by
  have hlast : (Pattern.maybe fun c => scale.any fun x => env.sameLetter x c).First
      (num.reverse ++ sign :: before) letter.toList rest := by
    cases letter with
    | none => exact First.maybe_none (hrest rfl)
    | some c => exact First.maybe_some (hletter c rfl)
  have hspace : (num ++ (letter.toList ++ rest)).head?.any env.isSpace = false := by
    obtain ⟨d, ds, rfl⟩ := List.exists_cons_of_ne_nil hne
    exact hfront
  exact First.cons (First.maybe_some hsign) (First.skip
    (First.maybe_none (by rwa [List.append_assoc])) (First.seq hnumber
      (First.skip (First.maybe_none hgap) (First.last hlast First.empty))))

/-- At the space before the sign it takes nothing. -/
theorem fails_before_sign (ascii : AsciiText env) (hsign : isMark sign = true)
    {scale : List Char} {after : List Char} :
    (Pattern.group (amountGroup env scale)).Fails before (' ' :: sign :: after) := by
  have hblank := ascii.not_digit_of_space ascii.space
  have hmark : env.isDigit sign = false := by
    have hmem : sign ∈ ['$', '€', '£'] := of_decide_eq_true hsign
    exact ascii.mark_digit sign (mem_marks_of_sign hmem)
  refine Fails.group (Fails.maybe (fun h => absurd (of_decide_eq_true h) (by decide)) ?_)
  refine Fails.maybe (fun _ => ?_) ?_
  · exact Fails.seq_left (Fails.seq_left (Fails.repeated Nat.zero_lt_one (by simpa using hmark)))
  · exact Fails.seq_left (Fails.seq_left (Fails.repeated Nat.zero_lt_one (by simpa using hblank)))

theorem AmountKind.word_chars {kind : AmountKind} (h : kind = arrKind ∨ kind = tamKind) :
    kind.word.toList ≠ [] ∧ ∀ c ∈ kind.word.toList, c ∈ ['A', 'R', 'T', 'M'] := by
  obtain rfl | rfl := h
  · simp [arrKind]
  · simp [tamKind]

/-- The search finds the amount that the group takes at the sign. -/
theorem search_amount (ascii : AsciiText env) {kind : AmountKind}
    (known : kind = arrKind ∨ kind = tamKind) (hsign : isMark sign = true) {xs : List Char}
    (hfirst : (amountGroup env kind.scale).First (' ' :: kind.word.toList.reverse) (sign :: xs)
      rest) :
    (amountAfter env kind.word kind.scale).search (amountLine kind sign (xs ++ rest)) =
      some ⟨amountLine kind sign xs, sign :: xs, rest⟩ := by
  obtain ⟨hne, hchars⟩ := AmountKind.word_chars known
  obtain ⟨w, ws, hword⟩ := List.exists_cons_of_ne_nil hne
  obtain ⟨ws', w', hword'⟩ := (List.eq_nil_or_concat' _).resolve_left hne
  have hw := (ascii.keyword w (hchars w (hword ▸ List.mem_cons_self))).1
  have hw' := (ascii.keyword w' (hchars w' (hword' ▸ by simp))).1
  have hsame : List.Forall₂ (fun x c => env.sameLetter x c = true) kind.word.toList
      kind.word.toList :=
    List.forall₂_same.mpr fun c hc => (ascii.keyword c (hchars c hc)).2.2
  have hopen : (boundary env).First [] [] (kind.word.toList ++ ' ' :: sign :: (xs ++ rest)) := by
    refine First.boundary ?_
    rw [hword]
    simp [hw]
  have hclose : (boundary env).First (kind.word.toList.reverse ++ []) []
      (' ' :: sign :: (xs ++ rest)) := by
    refine First.boundary ?_
    rw [hword']
    simp [hw', ascii.blank]
  have hgroup := head_seq (s := Pattern.empty) (head_group none hfirst) rfl
  have hline : amountLine kind sign (xs ++ rest) = amountLine kind sign xs ++ rest := by
    simp [amountLine]
  rw [hline]
  refine search_of_head ?_
  rw [← hline]
  have hinput : amountLine kind sign (xs ++ rest) =
      [] ++ (kind.word.toList ++ ([] ++ (' ' :: sign :: (xs ++ rest)))) := rfl
  have hbefore : (amountLine kind sign xs).reverse =
      (sign :: xs).reverse ++ ' ' :: kind.word.toList.reverse := by
    simp [amountLine]
  rw [hinput, hbefore]
  refine head_seq (hopen none) (head_seq (First.word hsame none) (head_seq (hclose none) ?_))
  rw [List.append_nil]
  -- the lazy prefix takes the space, since the group fails there
  exact head_lazy (by decide) (by omega)
    (Fails.seq_left (fails_before_sign ascii hsign)) hgroup

end First

section Line

variable {env : Env} {pageNo : Nat} {line : List Char} {kind : AmountKind}

/-- Only the pattern of the keyword has its category. -/
theorem filter_lineClaims (known : kind = arrKind ∨ kind = tamKind) :
    ((claimPatterns env).filterMap (lineClaim env pageNo line)).filter
      (fun item => item.category = kind.category) =
        (lineClaim env pageNo line (kind.pattern env)).toList := by
  have honly : (claimPatterns env).filter (fun p => p.category = kind.category) =
      [kind.pattern env] := by
    obtain rfl | rfl := known
    · rfl
    · rfl
  have hmove : ((claimPatterns env).filterMap (lineClaim env pageNo line)).filter
      (fun item => item.category = kind.category) =
        ((claimPatterns env).filter fun p => p.category = kind.category).filterMap
          (lineClaim env pageNo line) := by
    rw [List.filter_filterMap, List.filterMap_filter]
    refine List.filterMap_congr fun p _ => ?_
    rw [lineClaim_eq]
    cases p.regex.search line with
    | none => simp
    | some m => by_cases h : p.category = kind.category <;> simp [h]
  rw [hmove, honly, List.filterMap_cons, List.filterMap_nil]
  cases lineClaim env pageNo line (kind.pattern env) <;> rfl

theorem claims_of_line (known : kind = arrKind ∨ kind = tamKind)
    (hline : ∀ c ∈ line, isLineBoundary c = false) (hne : line ≠ [])
    (hhead : line.head?.any env.isSpace = false) (hlast : line.getLast?.any env.isSpace = false) :
    (extractClaims env [{ pageNo, text := String.ofList line }]).filter
      (fun item => item.category = kind.category) =
        (lineClaim env pageNo line (kind.pattern env)).toList := by
  have hlines : pageLines env { pageNo, text := String.ofList line } = [line] := by
    have hstrip := strip_between [] [] (by simp) (by simp) hhead hlast hne
    rw [List.nil_append, List.append_nil] at hstrip
    rw [pageLines, String.toList_ofList, List.splitOnP_eq_singleton hline, List.map_singleton,
      hstrip]
  have hempty : line.isEmpty = false := List.isEmpty_eq_false_iff.mpr hne
  simp only [extractClaims, pageClaims, hlines, List.flatMap_singleton, List.filter_singleton,
    hempty, Bool.not_false, cond_true]
  exact filter_lineClaims known

end Line

section Text

variable {env : Env} {pageNo : Nat} {sign : Char} {amount : Amount}

theorem toNat_of_isDigit {c : Char} (h : c.isDigit = true) : 48 ≤ c.toNat ∧ c.toNat ≤ 57 := by
  simp only [Char.isDigit, Bool.and_eq_true, decide_eq_true_eq] at h
  exact ⟨UInt32.le_iff_toNat_le.mp h.1, UInt32.le_iff_toNat_le.mp h.2⟩

theorem toDigits_ne_nil (n : Nat) : Nat.toDigits 10 n ≠ [] := by
  rw [← List.length_pos_iff]
  exact Nat.length_toDigits_pos

theorem threeDigits_isDigit (n : Nat) : ∀ c ∈ threeDigits n, c.isDigit = true := by
  simp only [threeDigits, List.map_cons, List.map_nil, List.mem_cons, List.not_mem_nil, or_false]
  rintro c (rfl | rfl | rfl)
  · simpa [Nat.isDigit_digitChar] using Nat.mod_lt _ (by omega)
  · simpa [Nat.isDigit_digitChar] using Nat.mod_lt _ (by omega)
  · simpa [Nat.isDigit_digitChar] using Nat.mod_lt _ (by omega)

/-- The value of the digits, most significant first. -/
theorem ofDigitChars_threeDigits {n start : Nat} (h : n < 1000) :
    Nat.ofDigitChars 10 (threeDigits n) start = 1000 * start + n := by
  simp only [threeDigits, List.map_cons, List.map_nil]
  rw [Nat.ofDigitChars_cons_digitChar_of_lt_ten (by omega),
    Nat.ofDigitChars_cons_digitChar_of_lt_ten (by omega),
    Nat.ofDigitChars_cons_digitChar_of_lt_ten (by omega), Nat.ofDigitChars_nil]
  omega

/-- Two groups of digits in front of a text with commas. -/
theorem commaSeparated_groups (n : Nat) (h : 1000 ≤ n) : ∃ ds ds' rest,
    commaSeparated n = (ds ++ ',' :: ds') ++ rest ∧ ds ≠ [] ∧ ds' ≠ [] ∧
      (∀ c ∈ ds ++ ds', c.isDigit = true) ∧ Nat.ofDigitChars 10 (ds ++ ds') 0 < 1000000 ∧
      (rest = [] ∧ Nat.ofDigitChars 10 (ds ++ ds') 0 = n ∨
        rest.head? = some ',' ∧ 1000000 ≤ n) := by
  induction n using Nat.strongRecOn with
  | ind n ih =>
      rw [commaSeparated, if_neg (by omega)]
      by_cases hsmall : n / 1000 < 1000
      · have hvalue : Nat.ofDigitChars 10 (Nat.toDigits 10 (n / 1000) ++ threeDigits (n % 1000)) 0 =
            n := by
          rw [Nat.ofDigitChars_append, Nat.ofDigitChars_ten_toDigits,
            ofDigitChars_threeDigits (Nat.mod_lt _ (by omega))]
          omega
        refine ⟨Nat.toDigits 10 (n / 1000), threeDigits (n % 1000), [], ?_, toDigits_ne_nil _, ?_,
          ?_, ?_, Or.inl ⟨rfl, hvalue⟩⟩
        · rw [commaSeparated, if_pos hsmall, List.append_nil]
        · simp [threeDigits]
        · intro c hc
          obtain hc | hc := List.mem_append.mp hc
          · exact Nat.isDigit_of_mem_toDigits (by omega) (by omega) hc
          · exact threeDigits_isDigit _ c hc
        · omega
      · obtain ⟨ds, ds', rest, htext, hne, hne', hdigits, hvalue, hrest⟩ :=
          ih (n / 1000) (by omega) (by omega)
        refine ⟨ds, ds', rest ++ ',' :: threeDigits (n % 1000), ?_, hne, hne', hdigits, hvalue,
          Or.inr ⟨?_, by omega⟩⟩
        · rw [htext, List.append_assoc]
        · obtain ⟨rfl, -⟩ | ⟨hhead, -⟩ := hrest
          · rfl
          · rw [List.head?_append, hhead]
            rfl

theorem commaSeparated_chars (n : Nat) : ∀ c ∈ commaSeparated n, c.isDigit = true ∨ c = ',' := by
  induction n using Nat.strongRecOn with
  | ind n ih =>
      intro c hc
      rw [commaSeparated] at hc
      split at hc
      · exact Or.inl (Nat.isDigit_of_mem_toDigits (by omega) (by omega) hc)
      · obtain hc | hc := List.mem_append.mp hc
        · exact ih (n / 1000) (by omega) c hc
        · obtain rfl | hc := List.mem_cons.mp hc
          · exact Or.inr rfl
          · exact Or.inl (threeDigits_isDigit _ c hc)

theorem DigitText.mem_chars (front back : DigitText) :
    ∀ c ∈ front.chars ++ back.chars, c.isDigit = true := by
  intro c hc
  obtain hc | hc := List.mem_append.mp hc
  · exact front.digits c hc
  · exact back.digits c hc

theorem Amount.body_chars (amount : Amount) :
    ∀ c ∈ amount.body, c.isDigit = true ∨ c ∈ [',', '.'] ∨ c ∈ suffixes := by
  intro c hc
  cases amount with
  | whole n =>
      obtain hdigit | rfl := commaSeparated_chars n c hc
      · exact Or.inl hdigit
      · exact Or.inr (Or.inl List.mem_cons_self)
  | scaled kind known front back suffix known_suffix =>
      simp only [Amount.body, List.mem_append, List.mem_cons, List.not_mem_nil, or_false] at hc
      obtain (hc | rfl | hc) | rfl := hc
      · exact Or.inl (front.digits c hc)
      · exact Or.inr (Or.inl (List.mem_cons_of_mem _ List.mem_cons_self))
      · exact Or.inl (back.digits c hc)
      · exact Or.inr (Or.inr known_suffix)

theorem Amount.body_ne_nil (amount : Amount) : amount.body ≠ [] := by
  cases amount with
  | whole n =>
      rw [Amount.body, commaSeparated]
      split
      · exact toDigits_ne_nil n
      · exact List.append_ne_nil_of_right_ne_nil _ (List.cons_ne_nil _ _)
  | scaled => exact List.append_ne_nil_of_right_ne_nil _ (List.cons_ne_nil _ _)

theorem Amount.known (amount : Amount) : amount.kind = arrKind ∨ amount.kind = tamKind := by
  cases amount with
  | whole n => exact Or.inl rfl
  | scaled kind known => exact known

theorem toLower_mem_scaleLetters {suffix : Char} (h : suffix ∈ suffixes) :
    suffix.toLower ∈ scaleLetters := by
  simp only [suffixes, List.mem_cons, List.not_mem_nil, or_false] at h
  obtain rfl | rfl | rfl | rfl | rfl | rfl := h <;> simp [scaleLetters]

theorem Amount.body_not_space (ascii : AsciiText env) (amount : Amount) :
    ∀ c ∈ amount.body, env.isSpace c = false := by
  intro c hc
  obtain hdigit | hmark | hsuffix := amount.body_chars c hc
  · exact ascii.digit_space c (ascii.digit c hdigit).1
  · exact ascii.mark_space c (by simp only [List.mem_cons] at hmark ⊢; tauto)
  · exact ascii.not_space_of_scale (toLower_mem_scaleLetters hsuffix) (ascii.cases c hsuffix)

theorem Amount.line_not_boundary (hsign : sign ∈ ['$', '€', '£']) (amount : Amount) :
    ∀ c ∈ amountLine amount.kind sign amount.body, isLineBoundary c = false := by
  intro c hc
  have hchars : c ∈ ['A', 'R', 'T', 'M', ' ', '$', '€', '£', ',', '.', 'k', 'K', 'm', 'b', 'B'] ∨
      c.isDigit = true := by
    obtain hc | hc := List.mem_append.mp hc
    · have := (AmountKind.word_chars amount.known).2 c hc
      simp only [List.mem_cons] at this ⊢
      tauto
    · obtain rfl | hc := List.mem_cons.mp hc
      · exact Or.inl (by simp)
      · obtain rfl | hc := List.mem_cons.mp hc
        · simp only [List.mem_cons] at hsign ⊢
          tauto
        · have := amount.body_chars c hc
          simp only [suffixes, List.mem_cons] at this ⊢
          tauto
  obtain hmem | hdigit := hchars
  · simp only [List.mem_cons, List.not_mem_nil, or_false] at hmem
    rcases hmem with rfl | rfl | rfl | rfl | rfl | rfl | rfl | rfl | rfl | rfl | rfl | rfl | rfl |
      rfl | rfl <;> rfl
  · obtain ⟨hlow, hhigh⟩ := toNat_of_isDigit hdigit
    rw [isLineBoundary, decide_eq_false_iff_not]
    simp only [List.mem_cons, List.not_mem_nil, or_false]
    omega

/-- The claims of the keyword's category come from the one line of the page. -/
theorem claims_of_amount (ascii : AsciiText env) (hsign : sign ∈ ['$', '€', '£'])
    (amount : Amount) :
    (extractClaims env [amountPage pageNo sign amount]).filter
      (fun item => item.category = amount.kind.category) =
        (lineClaim env pageNo (amountLine amount.kind sign amount.body)
          (amount.kind.pattern env)).toList := by
  obtain ⟨hword, hchars⟩ := AmountKind.word_chars amount.known
  obtain ⟨w, ws, hw⟩ := List.exists_cons_of_ne_nil hword
  obtain ⟨cs, c, hc⟩ := (List.eq_nil_or_concat' _).resolve_left amount.body_ne_nil
  refine claims_of_line amount.known (amount.line_not_boundary hsign) ?_ ?_ ?_
  · simp [amountLine]
  · rw [amountLine, hw]
    simpa using (ascii.keyword w (hchars w (hw ▸ List.mem_cons_self))).2.1
  · have hlast : (amountLine amount.kind sign amount.body).getLast? = some c := by
      rw [amountLine, hc]
      simp [List.getLast?_append, List.getLast?_cons]
    rw [hlast]
    simpa using amount.body_not_space ascii c (hc ▸ by simp)

theorem unitOf_amount (sign : Char) (letter : Option Char) (numeric : NumericEnv env)
    {num : List Char} {x : Decimal} (hreads : Numeral env num x)
    (hletter : ∀ c ∈ letter, c ∈ suffixes) :
    unitOf "currency" (sign :: (num ++ letter.toList)) = some (signUnit sign) := by
  have hnot : ∀ mark ∈ ['€', '£'], mark ∈ sign :: (num ++ letter.toList) ↔ mark = sign := by
    intro mark hmark
    rw [List.mem_cons, or_iff_left_iff_imp]
    intro hmem
    exfalso
    obtain hmem | hmem := List.mem_append.mp hmem
    · have hdigit := numeric.mark_digit mark (by simp only [List.mem_cons] at hmark ⊢; tauto)
      obtain h | rfl | rfl := hreads.chars mark hmem
      · exact absurd h (ne_true_of_eq_false hdigit)
      · revert hmark
        decide
      · revert hmark
        decide
    · have hsuffix := hletter mark (by simpa using hmem)
      simp only [List.mem_cons, List.not_mem_nil, or_false] at hmark
      obtain rfl | rfl := hmark
      · simp [suffixes] at hsuffix
      · simp [suffixes] at hsuffix
  rw [unitOf, if_pos rfl, signUnit]
  simp only [hnot '€' (by simp), hnot '£' (by simp), eq_comm (b := sign)]

/-- Where the group takes `xs` of the body, the amount survives if `xs` has its value. -/
theorem survives_iff_of_first (ascii : AsciiText env) (hsign : sign ∈ ['$', '€', '£'])
    {xs rest : List Char} (hbody : amount.body = xs ++ rest)
    (hfirst : (amountGroup env amount.kind.scale).First (' ' :: amount.kind.word.toList.reverse)
      (sign :: xs) rest)
    (hunit : unitOf "currency" (sign :: xs) = some (signUnit sign)) :
    Survives env pageNo sign amount ↔
      parseCompactNumber env (sign :: xs) = some amount.value := by
  have hsearch := search_amount ascii amount.known (decide_eq_true hsign) hfirst
  rw [← hbody] at hsearch
  have hpattern : (amount.kind.pattern env).regex =
      amountAfter env amount.kind.word amount.kind.scale := rfl
  unfold Survives
  rw [claims_of_amount ascii hsign, lineClaim_eq, hpattern, hsearch]
  simp [AmountKind.pattern, hunit]

theorem readDigits_eq (ascii : AsciiText env) {ds : List Char}
    (digits : ∀ c ∈ ds, c.isDigit = true) : readDigits env ds = Nat.ofDigitChars 10 ds 0 := by
  rw [readDigits, Nat.ofDigitChars_eq_foldl]
  refine List.foldl_ext _ _ _ fun n c hc => ?_
  rw [(ascii.digit c (digits c hc)).2]

/-- A number that is read as a whole has the value of its decimal. -/
theorem survives_plain_iff (ascii : AsciiText env) (hsign : sign ∈ ['$', '€', '£'])
    {num rest : List Char} {x : Decimal} (hbody : amount.body = num ++ rest)
    (hreads : Numeral env num x)
    (hnumber : (number env (· ∈ ['.', ','])).First
      (sign :: ' ' :: amount.kind.word.toList.reverse) num rest)
    (hspace : rest.head?.any env.isSpace = false)
    (hscale : rest.head?.any (inScale env amount.kind.scale) = false) :
    Survives env pageNo sign amount ↔
      (x.times decimalContext 1).map Decimal.value = some amount.value := by
  obtain ⟨d, ds, hnum, hd⟩ := hreads.front
  have hmark : isMark sign = true := decide_eq_true hsign
  have hunit := unitOf_amount sign none ascii.toNumericEnv hreads (by simp)
  have hfront : num.head?.any env.isSpace = false := by
    rw [hnum]
    simpa using ascii.digit_space d hd
  have hfirst := first_amount none rest
    hmark hnumber hfront (hnum ▸ List.cons_ne_nil _ _) hspace (by simp) fun _ => hscale
  rw [Option.toList_none, List.append_nil] at hunit hfirst
  rw [survives_iff_of_first ascii hsign hbody hfirst hunit]
  have hparse := parse_plain [sign] [] [] ascii.toNumericEnv hreads
    (by simpa using hmark) (by simp) (by simp)
  rw [List.nil_append, List.append_nil, List.singleton_append] at hparse
  rw [hparse]

/-- A number below a million is exact in the context. -/
theorem whole_value_iff {v n : Nat} (h : v < 1000000) :
    (Decimal.times decimalContext ⟨v, 0⟩ 1).map Decimal.value = some (n : Rat) ↔ v = n := by
  have hdigits : v < 10 ^ 28 := Nat.lt_trans h (by decide)
  have hfits := decimalContext.fits_of_lt ⟨v, 0⟩ hdigits (by decide) (by decide) (Nat.zero_le _)
  have hvalue : (⟨v, 0⟩ : Decimal).value = v := by simp [Decimal.value]
  rw [(Decimal.times_one_value_iff decimalContext ⟨v, 0⟩).mpr hfits, hvalue, Option.some_inj]
  exact Nat.cast_inj

theorem survives_whole_iff (ascii : AsciiText env) (hsign : sign ∈ ['$', '€', '£']) (n : Nat) :
    Survives env pageNo sign (.whole n) ↔ n < 1000000 := by
  have hdigits {ds : List Char} (h : ∀ c ∈ ds, c.isDigit = true) : ∀ c ∈ ds, env.isDigit c = true :=
    fun c hc => (ascii.digit c (h c hc)).1
  by_cases hsmall : n < 1000
  · have hall : ∀ c ∈ Nat.toDigits 10 n, c.isDigit = true :=
      fun c hc => Nat.isDigit_of_mem_toDigits (by omega) (by omega) hc
    have hbody : (Amount.whole n).body = Nat.toDigits 10 n ++ [] := by
      rw [Amount.body, commaSeparated, if_pos hsmall, List.append_nil]
    have hread : readDigits env (Nat.toDigits 10 n) = n := by
      rw [readDigits_eq ascii hall, Nat.ofDigitChars_ten_toDigits]
    rw [survives_plain_iff ascii hsign hbody (Numeral.whole (toDigits_ne_nil n) (hdigits hall))
      (first_whole (toDigits_ne_nil n) (hdigits hall) rfl rfl) rfl rfl, hread]
    refine (whole_value_iff (by omega)).trans ?_
    omega
  · obtain ⟨ds, ds', rest, htext, hne, hne', hall, hvalue, hrest⟩ :=
      commaSeparated_groups n (by omega)
    have hbody : (Amount.whole n).body = (ds ++ ',' :: ds') ++ rest := htext
    have hstop {p : Char → Bool} (hp : p ',' = false) : rest.head?.any p = false := by
      obtain ⟨rfl, -⟩ | ⟨hhead, -⟩ := hrest
      · rfl
      · rw [hhead]
        exact hp
    have hletter : inScale env (Amount.whole n).kind.scale ',' = false := by
      refine List.any_eq_false.mpr fun l hl => ?_
      rw [ascii.mark_scale ',' (by simp) l (AmountKind.scale_letters (Or.inl rfl) l hl)]
      exact Bool.false_ne_true
    rw [survives_plain_iff ascii hsign hbody (Numeral.grouped hne hne' (hdigits hall))
      (first_separated ascii.toNumericEnv hne hne' (hdigits hall) (by simp) (by simp)
        (hstop (ascii.mark_digit ',' (by simp)))) (hstop (ascii.mark_space ',' (by simp)))
      (hstop hletter), readDigits_eq ascii hall]
    refine (whole_value_iff hvalue).trans ?_
    obtain ⟨-, heq⟩ | ⟨-, hlarge⟩ := hrest
    · omega
    · omega

/-- A suffix of the keyword's class is a scale, and no other suffix is. -/
theorem inScale_iff (ascii : AsciiText env) {kind : AmountKind}
    (known : kind = arrKind ∨ kind = tamKind) {suffix : Char} (hsuffix : suffix ∈ suffixes) :
    inScale env kind.scale suffix = true ↔ suffix.toLower ∈ kind.scale := by
  have hlower := toLower_mem_scaleLetters hsuffix
  have hfold := (ascii.scale _ hlower suffix).mp (ascii.cases suffix hsuffix)
  constructor
  · intro h
    obtain ⟨l, hl, hsame⟩ := List.any_eq_true.mp h
    have hfold' := (ascii.scale l (AmountKind.scale_letters known l hl) suffix).mp hsame
    rw [hfold, List.singleton_inj] at hfold'
    rw [hfold']
    exact hl
  · intro h
    exact List.any_eq_true.mpr ⟨_, h, ascii.cases suffix hsuffix⟩

theorem survives_scaled_iff (ascii : AsciiText env) (hsign : sign ∈ ['$', '€', '£'])
    {kind : AmountKind} (known : kind = arrKind ∨ kind = tamKind) (front back : DigitText)
    {suffix : Char} (hsuffix : suffix ∈ suffixes) :
    Survives env pageNo sign (.scaled kind known front back suffix hsuffix) ↔
      (Amount.scaled kind known front back suffix hsuffix).Readable := by
  have hall := DigitText.mem_chars front back
  have hdigits : ∀ c ∈ front.chars ++ back.chars, env.isDigit c = true :=
    fun c hc => (ascii.digit c (hall c hc)).1
  have hreads := Numeral.point front.ne_nil back.ne_nil hdigits
  rw [readDigits_eq ascii hall] at hreads
  have hlower := toLower_mem_scaleLetters hsuffix
  have hsame := ascii.cases suffix hsuffix
  have hspace := ascii.not_space_of_scale hlower hsame
  have hdigit := ascii.not_digit_of_scale hlower hsame
  have hnumber : (number env (· ∈ ['.', ','])).First (sign :: ' ' :: kind.word.toList.reverse)
      (front.chars ++ '.' :: back.chars) [suffix] :=
    first_separated ascii.toNumericEnv front.ne_nil back.ne_nil hdigits (by simp) (by simp)
      (by simpa using hdigit)
  by_cases hscale : suffix.toLower ∈ kind.scale
  · obtain ⟨d, ds, hnum, hd⟩ := hreads.front
    have hmark : isMark sign = true := decide_eq_true hsign
    have hfront : (front.chars ++ '.' :: back.chars).head?.any env.isSpace = false := by
      rw [hnum]
      simpa using ascii.digit_space d hd
    have hfirst := first_amount (some suffix) [] hmark hnumber hfront
      (hnum ▸ List.cons_ne_nil _ _) (by simpa using hspace)
      (by simpa using (inScale_iff ascii known hsuffix).mpr hscale) (by simp)
    have hunit := unitOf_amount sign (some suffix) ascii.toNumericEnv hreads
      (by simpa using hsuffix)
    have hparse := parse_scaled [sign] [] [] ascii.toNumericEnv hreads
      (by simpa using hmark) (by simp) (by simp) hlower hsame
    have hbody : (Amount.scaled kind known front back suffix hsuffix).body =
        ((front.chars ++ '.' :: back.chars) ++ [suffix]) ++ [] := (List.append_nil _).symm
    rw [List.nil_append, List.nil_append, List.singleton_append] at hparse
    rw [survives_iff_of_first ascii hsign hbody hfirst hunit]
    refine (iff_of_eq (congrArg (· = _) hparse)).trans ?_
    refine (Decimal.times_mul_value_iff decimalContext _ _).trans ?_
    constructor
    · intro hfits
      exact Or.inr ⟨hscale, hfits⟩
    · rintro (hzero | ⟨-, hfits⟩)
      · refine decimalContext.fits_of_zero _ ?_
        exact Nat.mul_eq_zero.mpr (Or.inl hzero)
      · exact hfits
  · have hbody : (Amount.scaled kind known front back suffix hsuffix).body =
        (front.chars ++ '.' :: back.chars) ++ [suffix] := rfl
    have hletter : inScale env kind.scale suffix = false := by
      rw [← Bool.not_eq_true, inScale_iff ascii known hsuffix]
      exact hscale
    have hrest : [suffix].head?.any (inScale env kind.scale) = false := by simpa using hletter
    rw [survives_plain_iff ascii hsign hbody hreads hnumber (by simpa using hspace) hrest]
    refine (Decimal.times_one_value_mul_iff decimalContext _ (three_le_multiplierOf _)).trans ?_
    simp only [Amount.Readable, hscale, false_and, or_false]
    rfl

end Text

section Result

variable {env : Env}

/-- The page has exactly one claim with the value and the unit of the amount where it is
readable. -/
theorem amounts_survive_iff (ascii : AsciiText env) (pageNo : Nat) {sign : Char}
    (hsign : sign ∈ ['$', '€', '£']) (amount : Amount) :
    Survives env pageNo sign amount ↔ amount.Readable := by
  cases amount with
  | whole n => exact survives_whole_iff ascii hsign n
  | scaled kind known front back suffix hsuffix =>
      exact survives_scaled_iff ascii hsign known front back hsuffix

def billions : Amount :=
  .scaled tamKind (Or.inr rfl) ⟨['4'], by simp, by simp⟩ ⟨['2'], by simp, by simp⟩ 'B'
    (by simp [suffixes])

theorem readable_amounts_survive :
    Survives asciiEnv 1 '€' (.whole 950000) ∧ Survives asciiEnv 1 '$' billions := by
  constructor
  · exact (amounts_survive_iff asciiEnv_text 1 (by simp) (.whole 950000)).mpr
      (by decide : 950000 < 1000000)
  · refine (amounts_survive_iff asciiEnv_text 1 (by simp) billions).mpr (Or.inr ⟨?_, ?_⟩)
    · simp [tamKind]
    · exact decimalContext.fits_of_lt _ (by decide +kernel) (by decide) (by decide) (by decide)

/-- "ARR $1,000,000" is a thousand. -/
theorem million_is_a_thousand :
    ((extractClaims asciiEnv [amountPage 1 '$' (.whole 1000000)]).map
      fun item => (item.category, item.valueNum)) = [(.revenue, some 1000)] ∧
        ¬ Survives asciiEnv 1 '$' (.whole 1000000) := by
  constructor
  · have hgroups : commaSeparated 1000000 = "1,000,000".toList := by
      rw [commaSeparated, if_neg (by omega), commaSeparated, if_neg (by omega), commaSeparated,
        if_pos (by omega)]
      rfl
    have hpage : amountPage 1 '$' (.whole 1000000) =
        { pageNo := 1, text := "ARR $1,000,000" } := by
      rw [amountPage, Amount.body, hgroups]
      rfl
    rw [hpage]
    decide +kernel
  · intro hsurvives
    exact absurd ((survives_whole_iff asciiEnv_text (by simp) 1000000).mp hsurvives) (by omega)

end Result

end DolphinVC
