import DolphinVC.Services.Extraction
import DolphinVC.Text.RegexFirst

/-!
# The texts of amounts

The patterns for ARR and TAM share their shape: after the word an amount with an optional sign, a
number with at most one separator, and an optional letter for the scale. The number is read as a
decimal without its commas and multiplied for the letter.
-/

namespace DolphinVC

open Regex

section Kinds

/-- What tells the patterns for ARR and TAM apart. -/
structure AmountKind where
  category : ClaimCategory
  predicate : String
  word : String
  scale : List Char

def arrKind : AmountKind where
  category := .revenue
  predicate := "arr"
  word := "ARR"
  scale := ['k', 'm']

def tamKind : AmountKind where
  category := .market
  predicate := "tam"
  word := "TAM"
  scale := ['b', 'm']

def AmountKind.pattern (env : Env) (kind : AmountKind) : ClaimPattern where
  category := kind.category
  predicate := kind.predicate
  regex := amountAfter env kind.word kind.scale
  unitType := "currency"

def scaleLetters : List Char := ['k', 'm', 'b']

def multiplierOf (letter : Char) : Nat :=
  if letter = 'k' then 1000 else if letter = 'm' then 1000000 else 1000000000

theorem three_le_multiplierOf (l : Char) : 3 ≤ multiplierOf l := by
  unfold multiplierOf
  split
  · omega
  · split
    · omega
    · omega

/-- What the libraries say about digits, white space, the letters for a scale and the signs. -/
structure NumericEnv (env : Env) : Prop where
  scale : ∀ l ∈ scaleLetters, ∀ c,
    env.sameLetter l c = true ↔ (env.casefold c.toString).toList = [l]
  digit_space : ∀ c, env.isDigit c = true → env.isSpace c = false
  digit_scale : ∀ c, env.isDigit c = true → ∀ l ∈ scaleLetters, env.sameLetter l c = false
  space_scale : ∀ c, env.isSpace c = true → ∀ l ∈ scaleLetters, env.sameLetter l c = false
  mark_digit : ∀ c ∈ ['$', '€', '£', ',', '.'], env.isDigit c = false
  mark_space : ∀ c ∈ ['$', '€', '£', ',', '.'], env.isSpace c = false
  mark_scale : ∀ c ∈ ['$', '€', '£', ',', '.'], ∀ l ∈ scaleLetters, env.sameLetter l c = false

theorem NumericEnv.not_digit_of_space {env : Env} (numeric : NumericEnv env) {c : Char}
    (h : env.isSpace c = true) : env.isDigit c = false := by
  rw [← Bool.not_eq_true]
  intro hdigit
  exact absurd h (ne_true_of_eq_false (numeric.digit_space c hdigit))

/-- The letter of a scale is neither white space nor a digit. -/
theorem NumericEnv.not_space_of_scale {env : Env} (numeric : NumericEnv env) {l c : Char}
    (hl : l ∈ scaleLetters) (h : env.sameLetter l c = true) : env.isSpace c = false := by
  rw [← Bool.not_eq_true]
  intro hspace
  exact absurd h (ne_true_of_eq_false (numeric.space_scale c hspace l hl))

theorem NumericEnv.not_digit_of_scale {env : Env} (numeric : NumericEnv env) {l c : Char}
    (hl : l ∈ scaleLetters) (h : env.sameLetter l c = true) : env.isDigit c = false := by
  rw [← Bool.not_eq_true]
  intro hdigit
  exact absurd h (ne_true_of_eq_false (numeric.digit_scale c hdigit l hl))

theorem mem_marks_of_sign {c : Char} (h : c ∈ ['$', '€', '£']) :
    c ∈ ['$', '€', '£', ',', '.'] := by
  simp only [List.mem_cons] at h ⊢
  tauto

/-- The text of a number and the decimal that it stands for. -/
inductive Numeral (env : Env) : List Char → Decimal → Prop where
  | whole {ds : List Char} (hne : ds ≠ []) (digits : ∀ c ∈ ds, env.isDigit c = true) :
      Numeral env ds ⟨readDigits env ds, 0⟩
  | grouped {ds ds' : List Char} (hne : ds ≠ []) (hne' : ds' ≠ [])
      (digits : ∀ c ∈ ds ++ ds', env.isDigit c = true) :
      Numeral env (ds ++ ',' :: ds') ⟨readDigits env (ds ++ ds'), 0⟩
  | point {ds ds' : List Char} (hne : ds ≠ []) (hne' : ds' ≠ [])
      (digits : ∀ c ∈ ds ++ ds', env.isDigit c = true) :
      Numeral env (ds ++ '.' :: ds') ⟨readDigits env (ds ++ ds'), ds'.length⟩

theorem AmountKind.scale_letters (h : kind = arrKind ∨ kind = tamKind) :
    ∀ l ∈ kind.scale, l ∈ scaleLetters := by
  obtain rfl | rfl := h
  · simp [arrKind, scaleLetters]
  · simp [tamKind, scaleLetters]

end Kinds

section Lists

variable {α : Type} {p : α → Bool} {xs ys : List α}

theorem dropWhile_append_of_stop (hall : ∀ x ∈ xs, p x = true) (hstop : ys.head?.any p = false) :
    (xs ++ ys).dropWhile p = ys := by
  rw [List.dropWhile_append_of_pos hall]
  cases ys with
  | nil => rfl
  | cons y ys =>
      have hy : p y = false := by simpa using hstop
      simp [hy]

theorem takeWhile_append_of_stop (hall : ∀ x ∈ xs, p x = true) (hstop : ys.head?.any p = false) :
    (xs ++ ys).takeWhile p = xs := by
  rw [List.takeWhile_append_of_pos hall]
  cases ys with
  | nil => simp
  | cons y ys =>
      have hy : p y = false := by simpa using hstop
      simp [hy]

theorem any_head?_of_forall (h : ∀ x ∈ xs, p x = false) : xs.head?.any p = false := by
  cases xs with
  | nil => rfl
  | cons x xs => simpa using h x List.mem_cons_self

theorem any_getLast?_of_forall (h : ∀ x ∈ xs, p x = false) : xs.getLast?.any p = false := by
  rw [← List.head?_reverse]
  exact any_head?_of_forall fun x hx => h x (List.mem_reverse.mp hx)

end Lists

section Strip

variable {env : Env}

/-- White space around a text that has none at its ends. -/
theorem strip_between (sp gap : List Char) {ys : List Char}
    (hsp : ∀ c ∈ sp, env.isSpace c = true) (hgap : ∀ c ∈ gap, env.isSpace c = true)
    (hhead : ys.head?.any env.isSpace = false) (hlast : ys.getLast?.any env.isSpace = false)
    (hne : ys ≠ []) : strip env (sp ++ (ys ++ gap)) = ys := by
  have hfront : (ys ++ gap).head?.any env.isSpace = false := by
    cases ys with
    | nil => exact absurd rfl hne
    | cons y ys => exact hhead
  have hback : ys.reverse.head?.any env.isSpace = false := by
    rw [List.head?_reverse]
    exact hlast
  unfold strip
  rw [dropWhile_append_of_stop hsp hfront, List.reverse_append,
    dropWhile_append_of_stop (by simpa using hgap) hback, List.reverse_reverse]

end Strip

section Numbers

variable {env : Env} {num sp gap sgn : List Char} {x : Decimal}

theorem Numeral.front (h : Numeral env num x) :
    ∃ d rest, num = d :: rest ∧ env.isDigit d = true := by
  have front (ys : List Char) {ds : List Char} (hne : ds ≠ [])
      (digits : ∀ c ∈ ds, env.isDigit c = true) :
      ∃ d rest, ds ++ ys = d :: rest ∧ env.isDigit d = true := by
    obtain ⟨d, rest, rfl⟩ := List.exists_cons_of_ne_nil hne
    exact ⟨d, _, rfl, digits d List.mem_cons_self⟩
  cases h with
  | whole hne digits => simpa using front [] hne digits
  | grouped hne _ digits => exact front _ hne fun c hc => digits c (List.mem_append_left _ hc)
  | point hne _ digits => exact front _ hne fun c hc => digits c (List.mem_append_left _ hc)

theorem Numeral.chars (h : Numeral env num x) :
    ∀ c ∈ num, env.isDigit c = true ∨ c = ',' ∨ c = '.' := by
  intro c hc
  cases h with
  | whole _ digits => exact Or.inl (digits c hc)
  | grouped _ _ digits =>
      simp only [List.mem_append, List.mem_cons] at hc digits
      obtain hc | rfl | hc := hc
      · exact Or.inl (digits c (Or.inl hc))
      · exact Or.inr (Or.inl rfl)
      · exact Or.inl (digits c (Or.inr hc))
  | point _ _ digits =>
      simp only [List.mem_append, List.mem_cons] at hc digits
      obtain hc | rfl | hc := hc
      · exact Or.inl (digits c (Or.inl hc))
      · exact Or.inr (Or.inr rfl)
      · exact Or.inl (digits c (Or.inr hc))

theorem Numeral.not_space (numeric : NumericEnv env) (h : Numeral env num x) :
    ∀ c ∈ num, env.isSpace c = false := by
  intro c hc
  obtain hdigit | rfl | rfl := h.chars c hc
  · exact numeric.digit_space c hdigit
  · exact numeric.mark_space ',' (by simp)
  · exact numeric.mark_space '.' (by simp)

theorem Numeral.not_scale (numeric : NumericEnv env) (h : Numeral env num x) {l : Char}
    (hl : l ∈ scaleLetters) : ∀ c ∈ num, env.sameLetter l c = false := by
  intro c hc
  obtain hdigit | rfl | rfl := h.chars c hc
  · exact numeric.digit_scale c hdigit l hl
  · exact numeric.mark_scale ',' (by simp) l hl
  · exact numeric.mark_scale '.' (by simp) l hl

/-- The number without its commas. -/
def withoutCommas (num : List Char) : List Char := num.filter (· ≠ ',')

theorem withoutCommas_digits (numeric : NumericEnv env) {ds : List Char}
    (digits : ∀ c ∈ ds, env.isDigit c = true) : withoutCommas ds = ds := by
  refine List.filter_eq_self.mpr fun c hc => ?_
  rw [decide_eq_true_iff]
  rintro rfl
  exact absurd (digits _ hc) (ne_true_of_eq_false (numeric.mark_digit ',' (by simp)))

theorem withoutCommas_append (xs ys : List Char) :
    withoutCommas (xs ++ ys) = withoutCommas xs ++ withoutCommas ys := List.filter_append _ _

theorem withoutCommas_ne_nil (numeric : NumericEnv env) (h : Numeral env num x) :
    withoutCommas num ≠ [] := by
  obtain ⟨d, rest, rfl, hd⟩ := h.front
  have hfront : withoutCommas [d] = [d] := withoutCommas_digits numeric (by simpa using hd)
  rw [← List.singleton_append, withoutCommas_append, hfront]
  exact List.cons_ne_nil _ _

theorem point_not_digit (numeric : NumericEnv env) {ds : List Char}
    (digits : ∀ c ∈ ds, env.isDigit c = true) : ∀ c ∈ ds, decide (c = '.') = false := by
  intro c hc
  rw [decide_eq_false_iff_not]
  rintro rfl
  exact absurd (digits _ hc) (ne_true_of_eq_false (numeric.mark_digit '.' (by simp)))

/-- White space around a number is stripped. -/
theorem strip_numeral (sp gap : List Char) (numeric : NumericEnv env) (h : Numeral env num x)
    (hsp : ∀ c ∈ sp, env.isSpace c = true) (hgap : ∀ c ∈ gap, env.isSpace c = true) :
    strip env (sp ++ (withoutCommas num ++ gap)) = withoutCommas num := by
  have hnot : ∀ c ∈ withoutCommas num, env.isSpace c = false :=
    fun c hc => h.not_space numeric c (List.mem_of_mem_filter hc)
  exact strip_between sp gap hsp hgap (any_head?_of_forall hnot) (any_getLast?_of_forall hnot)
    (withoutCommas_ne_nil numeric h)

/-- `Decimal` reads the number, and white space around it does not matter. -/
theorem parseDecimal_of_numeral (sp gap : List Char) (numeric : NumericEnv env)
    (h : Numeral env num x) (hsp : ∀ c ∈ sp, env.isSpace c = true)
    (hgap : ∀ c ∈ gap, env.isSpace c = true) :
    parseDecimal env (sp ++ (withoutCommas num ++ gap)) = some x := by
  unfold parseDecimal
  rw [strip_numeral sp gap numeric h hsp hgap]
  cases h with
  | @whole ds hne digits =>
      rw [withoutCommas_digits numeric digits,
        List.splitOnP_eq_singleton (point_not_digit numeric digits)]
      exact if_pos ⟨hne, List.all_eq_true.mpr digits⟩
  | @grouped ds ds' hne hne' digits =>
      have htext : withoutCommas (ds ++ ',' :: ds') = ds ++ ds' := by
        rw [← withoutCommas_digits numeric digits, withoutCommas_append, withoutCommas_append]
        rfl
      have hne'' : ds ++ ds' ≠ [] := List.append_ne_nil_of_left_ne_nil hne _
      rw [htext, List.splitOnP_eq_singleton (point_not_digit numeric digits)]
      exact if_pos ⟨hne'', List.all_eq_true.mpr digits⟩
  | @point ds ds' hne hne' digits =>
      have hds : ∀ c ∈ ds, env.isDigit c = true := fun c hc => digits c (List.mem_append_left _ hc)
      have hds' : ∀ c ∈ ds', env.isDigit c = true :=
        fun c hc => digits c (List.mem_append_right _ hc)
      have htext : withoutCommas (ds ++ '.' :: ds') = ds ++ '.' :: ds' := by
        rw [← List.singleton_append, withoutCommas_append, withoutCommas_append,
          withoutCommas_digits numeric hds, withoutCommas_digits numeric hds']
        rfl
      have hne'' : ds ++ ds' ≠ [] := List.append_ne_nil_of_left_ne_nil hne _
      rw [htext,
        List.splitOnP_append_cons_of_forall_mem (point_not_digit numeric hds) '.' (by simp),
        List.splitOnP_eq_singleton (point_not_digit numeric hds')]
      exact if_pos ⟨hne'', List.all_eq_true.mpr digits⟩

def isMark (c : Char) : Bool := c ∈ ['$', '€', '£']

/-- What `_parse_compact_number` replaces. -/
def withoutMarks (value : List Char) : List Char := value.filter fun c => c ∉ ['$', '€', '£', ',']

theorem withoutMarks_append (xs ys : List Char) :
    withoutMarks (xs ++ ys) = withoutMarks xs ++ withoutMarks ys := List.filter_append _ _

theorem withoutMarks_eq_self {ys : List Char} (h : ∀ c ∈ ys, c ∉ ['$', '€', '£', ',', '.']) :
    withoutMarks ys = ys := by
  refine List.filter_eq_self.mpr fun c hc => ?_
  rw [decide_eq_true_iff]
  intro hmark
  refine h c hc ?_
  simp only [List.mem_cons] at hmark ⊢
  tauto

/-- The marks and the commas go, the rest of an amount stays. -/
theorem withoutMarks_amount (numeric : NumericEnv env) (h : Numeral env num x) (tail : List Char)
    (hsgn : ∀ c ∈ sgn, isMark c = true) (hsp : ∀ c ∈ sp, env.isSpace c = true)
    (hgap : ∀ c ∈ gap, env.isSpace c = true)
    (htail : ∀ c ∈ tail, ∃ l ∈ scaleLetters, env.sameLetter l c = true) :
    withoutMarks (sgn ++ (sp ++ (num ++ (gap ++ tail)))) =
      sp ++ (withoutCommas num ++ (gap ++ tail)) := by
  have hspace {ys : List Char} (hys : ∀ c ∈ ys, env.isSpace c = true) : withoutMarks ys = ys :=
    withoutMarks_eq_self fun c hc hmark =>
      absurd (hys c hc) (ne_true_of_eq_false (numeric.mark_space c hmark))
  have hsgn' : withoutMarks sgn = [] := by
    refine List.filter_eq_nil_iff.mpr fun c hc => ?_
    have hmark : c ∈ ['$', '€', '£'] := of_decide_eq_true (hsgn c hc)
    simp only [List.mem_cons] at hmark ⊢
    rw [decide_eq_true_iff]
    tauto
  have hnum : withoutMarks num = withoutCommas num := by
    refine List.filter_congr fun c hc => ?_
    rw [decide_eq_decide]
    refine ⟨fun hmark heq => hmark (by simp [heq]), fun hcomma hmark => ?_⟩
    obtain hdigit | rfl | rfl := h.chars c hc
    · have hmem : c ∈ ['$', '€', '£', ',', '.'] := by
        simp only [List.mem_cons] at hmark ⊢
        tauto
      exact absurd hdigit (ne_true_of_eq_false (numeric.mark_digit c hmem))
    · exact hcomma rfl
    · revert hmark
      decide
  have htail' : withoutMarks tail = tail := withoutMarks_eq_self fun c hc hmark => by
    obtain ⟨l, hl, hsame⟩ := htail c hc
    exact absurd hsame (ne_true_of_eq_false (numeric.mark_scale c hmark l hl))
  rw [withoutMarks_append, withoutMarks_append, withoutMarks_append, withoutMarks_append, hsgn',
    hspace hsp, hnum, hspace hgap, htail', List.nil_append]

theorem hasSuffix_eq {suffix c : Char} {ys : List Char} :
    hasSuffix env suffix (ys ++ [c]) = decide ((env.casefold c.toString).toList = [suffix]) := by
  simp [hasSuffix]

theorem parse_plain (sgn sp gap : List Char) (numeric : NumericEnv env) (h : Numeral env num x)
    (hsgn : ∀ c ∈ sgn, isMark c = true) (hsp : ∀ c ∈ sp, env.isSpace c = true)
    (hgap : ∀ c ∈ gap, env.isSpace c = true) :
    parseCompactNumber env (sgn ++ (sp ++ (num ++ gap))) =
      (x.times decimalContext 1).map Decimal.value := by
  have hmarks := withoutMarks_amount numeric h [] hsgn hsp hgap (by simp)
  rw [List.append_nil] at hmarks
  have hclean : strip env (withoutMarks (sgn ++ (sp ++ (num ++ gap)))) = withoutCommas num := by
    rw [hmarks]
    exact strip_numeral sp gap numeric h hsp hgap
  have hsuffix (l : Char) (hl : l ∈ scaleLetters) :
      hasSuffix env l (withoutCommas num) = false := by
    obtain ⟨rest, d, hback⟩ := (List.eq_nil_or_concat' _).resolve_left
      (withoutCommas_ne_nil numeric h)
    have hd : d ∈ num := List.mem_of_mem_filter (hback ▸ by simp : d ∈ withoutCommas num)
    rw [hback, hasSuffix_eq, decide_eq_false_iff_not, ← numeric.scale l hl]
    exact ne_true_of_eq_false (h.not_scale numeric hl d hd)
  have hparse := parseDecimal_of_numeral [] [] numeric h (by simp) (by simp)
  rw [List.nil_append, List.append_nil] at hparse
  unfold withoutMarks at hclean
  simp only [parseCompactNumber, hclean, hsuffix 'k' (by decide), hsuffix 'm' (by decide),
    hsuffix 'b' (by decide), Bool.false_eq_true, if_false, hparse, Option.bind_some]

/-- A last letter for the scale is cut off and multiplies what is before it. -/
theorem parse_suffix {l c : Char} {value digits : List Char} (hl : l ∈ scaleLetters)
    (hclean : strip env (withoutMarks value) = digits ++ [c])
    (hfold : (env.casefold c.toString).toList = [l]) :
    parseCompactNumber env value =
      ((parseDecimal env digits).bind fun x => x.times decimalContext (multiplierOf l)).map
        Decimal.value := by
  have hsuffix (l' : Char) :
      hasSuffix env l' (strip env (withoutMarks value)) = decide (l = l') := by
    rw [hclean, hasSuffix_eq, hfold]
    simp
  have hdrop : (strip env (withoutMarks value)).dropLast = digits := by
    rw [hclean, List.dropLast_concat]
  unfold withoutMarks at hsuffix hdrop
  unfold parseCompactNumber multiplierOf
  simp only [hsuffix, hdrop, decide_eq_true_eq]
  simp only [scaleLetters, List.mem_cons, List.not_mem_nil, or_false] at hl
  obtain rfl | rfl | rfl := hl
  · rw [if_pos rfl, if_pos rfl]
  · rw [if_neg (by decide), if_pos rfl, if_neg (by decide), if_pos rfl]
  · rw [if_neg (by decide), if_neg (by decide), if_pos rfl, if_neg (by decide), if_neg (by decide)]

theorem parse_scaled (sgn sp gap : List Char) (numeric : NumericEnv env) (h : Numeral env num x)
    (hsgn : ∀ c ∈ sgn, isMark c = true) (hsp : ∀ c ∈ sp, env.isSpace c = true)
    (hgap : ∀ c ∈ gap, env.isSpace c = true) {l c : Char} (hl : l ∈ scaleLetters)
    (hsame : env.sameLetter l c = true) :
    parseCompactNumber env (sgn ++ (sp ++ (num ++ (gap ++ [c])))) =
      (x.times decimalContext (multiplierOf l)).map Decimal.value := by
  obtain ⟨d, rest, hfront⟩ := List.exists_cons_of_ne_nil (withoutCommas_ne_nil numeric h)
  have hd : d ∈ num :=
    List.mem_of_mem_filter (hfront ▸ List.mem_cons_self : d ∈ withoutCommas num)
  have hmarks := withoutMarks_amount numeric h [c] hsgn hsp hgap
    (by simpa using ⟨l, hl, hsame⟩)
  have hspace := numeric.not_space_of_scale hl hsame
  have hclean : strip env (withoutMarks (sgn ++ (sp ++ (num ++ (gap ++ [c]))))) =
      (withoutCommas num ++ gap) ++ [c] := by
    rw [hmarks, ← List.append_assoc (withoutCommas num)]
    have hstrip : strip env (sp ++ (((withoutCommas num ++ gap) ++ [c]) ++ [])) =
        (withoutCommas num ++ gap) ++ [c] := by
      refine strip_between sp [] hsp (by simp) ?_ (by simpa using hspace) (by simp)
      rw [hfront]
      simpa using h.not_space numeric d hd
    rwa [List.append_nil] at hstrip
  have hparse := parseDecimal_of_numeral [] gap numeric h (by simp) hgap
  rw [List.nil_append] at hparse
  rw [parse_suffix hl hclean ((numeric.scale l hl c).mp hsame), hparse, Option.bind_some]

end Numbers

section Parts

variable (env : Env) (scale : List Char)

/-- The group of the pattern. -/
def amountGroup : Pattern Char :=
  .all [.maybe (· ∈ ['$', '€', '£']), .maybe env.isSpace, number env (· ∈ ['.', ',']),
    .maybe env.isSpace, .maybe fun c => scale.any fun x => env.sameLetter x c]

def inScale (c : Char) : Bool := scale.any fun l => env.sameLetter l c

/-- What follows after at most one space. -/
def afterGap (follow : List Char) : List Char :=
  if follow.head?.any env.isSpace then follow.tail else follow

/-- The parts of a captured amount. -/
structure AmountParts where
  sgn : Option Char
  sp : Option Char
  num : List Char
  number : Decimal
  gap : Option Char
  letter : Option Char
  sgn_mark : ∀ c ∈ sgn, isMark c = true
  sp_space : ∀ c ∈ sp, env.isSpace c = true
  reads : Numeral env num number
  gap_space : ∀ c ∈ gap, env.isSpace c = true
  letter_scale : ∀ c ∈ letter, inScale env scale c = true

variable {env scale}

namespace AmountParts

variable (parts : AmountParts env scale)

/-- The gap and the letter. -/
def tail : List Char := parts.gap.toList ++ parts.letter.toList

def text : List Char :=
  parts.sgn.toList ++ (parts.sp.toList ++ (parts.num ++ parts.tail))

/-- The optional symbols at the end are taken where they are there. -/
structure Greedy (after : List Char) : Prop where
  gap : afterGap env (parts.tail ++ after) = parts.letter.toList ++ after
  letter : parts.letter = none → after.head?.any (inScale env scale) = false

end AmountParts

theorem numeral_of_accepts {xs : List Char} (h : (number env (· ∈ ['.', ','])).Accepts xs) :
    ∃ x, Numeral env xs x := by
  obtain ⟨ds, rest, rfl, ⟨hlen, -, hds⟩, hrest⟩ := h
  have hne : ds ≠ [] := List.length_pos_iff.mp hlen
  obtain ⟨sep, ds', rfl, hsep, hlen', -, hds'⟩ | hempty := hrest
  · obtain ⟨c, rfl, hc⟩ := accepts_one hsep
    have hne' : ds' ≠ [] := List.length_pos_iff.mp hlen'
    have hall : ∀ c ∈ ds ++ ds', env.isDigit c = true := by
      intro c hc
      obtain hc | hc := List.mem_append.mp hc
      · exact hds c hc
      · exact hds' c hc
    have hmem : c ∈ ['.', ','] := of_decide_eq_true hc
    simp only [List.mem_cons, List.not_mem_nil, or_false] at hmem
    obtain rfl | rfl := hmem
    · exact ⟨_, Numeral.point hne hne' hall⟩
    · exact ⟨_, Numeral.grouped hne hne' hall⟩
  · obtain rfl : rest = [] := hempty
    rw [List.append_nil]
    exact ⟨_, Numeral.whole hne hds⟩

/-- What the group of the pattern captures. -/
theorem exists_parts {word : String} {line : List Char} {m : Match Char}
    (h : (amountAfter env word scale).search line = some m) :
    ∃ parts : AmountParts env scale, m.captured = parts.text ∧ parts.Greedy m.after := by
  obtain ⟨c, d, -, hd, hcaptured, hafter⟩ := Pattern.exists_of_search h
  obtain ⟨c₁, -, hd⟩ := exists_of_head_seq hd
  obtain ⟨c₂, -, hd⟩ := exists_of_head_seq hd
  obtain ⟨c₃, -, hd⟩ := exists_of_head_seq hd
  obtain ⟨c₄, -, hd⟩ := exists_of_head_seq hd
  obtain ⟨g, hg, hdg⟩ := head_of_head_seq (fun _ => empty_total) hd
  obtain rfl : g = d := Option.some.inj hdg
  obtain ⟨e, he, rfl⟩ := exists_of_head_group hg
  -- the symbols of the group, one part after the other
  obtain ⟨e₁, he₁, he⟩ := exists_of_head_seq he
  obtain ⟨e₂, he₂, he⟩ := exists_of_head_seq he
  obtain ⟨e₃, he₃, he⟩ := exists_of_head_seq he
  obtain ⟨e₄, he₄, he⟩ := head_of_head_seq
    (fun _ => seq_total (fun _ => maybe_total) fun _ => empty_total) he
  obtain ⟨e₅, he₅, he⟩ := head_of_head_seq (fun _ => empty_total) he
  obtain rfl : e₅ = e := Option.some.inj he
  obtain ⟨xs₁, hmoved₁, hxs₁⟩ := Pattern.accepts_of_run he₁
  obtain ⟨sgn, rfl, hsgn⟩ := accepts_maybe hxs₁
  obtain ⟨xs₂, hmoved₂, hxs₂⟩ := Pattern.accepts_of_run he₂
  obtain ⟨sp, rfl, hsp⟩ := accepts_maybe hxs₂
  obtain ⟨num, hmoved₃, hnum⟩ := Pattern.accepts_of_run he₃
  obtain ⟨x, hreads⟩ := numeral_of_accepts hnum
  obtain ⟨gap, hafter₄, hgap, hnogap⟩ := exists_of_head_maybe he₄
  obtain ⟨letter, hafter₅, hletter, hnoletter⟩ := exists_of_head_maybe he₅
  let parts : AmountParts env scale :=
    { sgn, sp, num, number := x, gap, letter, sgn_mark := hsgn, sp_space := hsp, reads := hreads
      gap_space := hgap, letter_scale := hletter }
  have htext : c₄.after = parts.text ++ e₅.after := by
    rw [hmoved₁.1, hmoved₂.1, hmoved₃.1, hafter₄, hafter₅]
    simp [parts, AmountParts.text, AmountParts.tail]
  refine ⟨parts, ?_, ?_, ?_⟩
  · rw [hcaptured, htext]
    simp
  · have htail : parts.tail ++ e₅.after = gap.toList ++ (letter.toList ++ e₅.after) :=
      List.append_assoc _ _ _
    rw [hafter, htail]
    cases gap with
    | some s => simp [afterGap, hgap s rfl, parts]
    | none =>
        have hstop := hnogap rfl
        rw [hafter₅] at hstop
        rw [Option.toList_none, List.nil_append, afterGap, hstop]
        rfl
  · rw [hafter]
    exact hnoletter

variable {parts : AmountParts env scale}

theorem AmountParts.parse_none (numeric : NumericEnv env) (hnone : parts.letter = none) :
    parseCompactNumber env parts.text =
      (parts.number.times decimalContext 1).map Decimal.value := by
  have htail : parts.tail = parts.gap.toList := by
    rw [AmountParts.tail, hnone]
    exact List.append_nil _
  rw [AmountParts.text, htail]
  exact parse_plain _ _ _ numeric parts.reads (by simpa using parts.sgn_mark)
    (by simpa using parts.sp_space) (by simpa using parts.gap_space)

theorem AmountParts.parse_some (numeric : NumericEnv env) {l c : Char}
    (hsome : parts.letter = some c) (hl : l ∈ scaleLetters) (hsame : env.sameLetter l c = true) :
    parseCompactNumber env parts.text =
      (parts.number.times decimalContext (multiplierOf l)).map Decimal.value := by
  have htail : parts.tail = parts.gap.toList ++ [c] := by
    rw [AmountParts.tail, hsome]
    rfl
  rw [AmountParts.text, htail]
  exact parse_scaled _ _ _ numeric parts.reads (by simpa using parts.sgn_mark)
    (by simpa using parts.sp_space) (by simpa using parts.gap_space) hl hsame

end Parts

section Ascii

theorem space_cases {c : Char} (h : c.isWhitespace = true) : c ∈ [' ', '\t', '\r', '\n'] := by
  simp only [Char.isWhitespace, Bool.or_eq_true, decide_eq_true_eq] at h
  simp only [List.mem_cons]
  tauto

theorem toLower_of_isDigit {c : Char} (h : c.isDigit = true) : c.toLower = c := by
  simp only [Char.isDigit, Bool.and_eq_true, decide_eq_true_eq] at h
  refine dif_neg fun hupper => ?_
  have hlow : '9'.val < 'A'.val := by decide
  exact absurd (UInt32.le_trans hupper.1 h.2) (UInt32.not_le.mpr hlow)

theorem asciiEnv_sameLetter {l c : Char} (hl : l ∈ scaleLetters) :
    asciiEnv.sameLetter l c = decide (l = c.toLower) := by
  simp only [scaleLetters, List.mem_cons, List.not_mem_nil, or_false] at hl
  obtain rfl | rfl | rfl := hl <;> rfl

theorem asciiEnv_numeric : NumericEnv asciiEnv where
  scale l hl c := by
    have hfold : (asciiEnv.casefold c.toString).toList = [c.toLower] := by
      simp [asciiEnv, Char.toString]
    rw [hfold, asciiEnv_sameLetter hl, decide_eq_true_iff, List.singleton_inj]
    exact eq_comm
  digit_space c hc := by
    rw [← Bool.not_eq_true]
    intro hspace
    have hcases := space_cases hspace
    simp only [List.mem_cons, List.not_mem_nil, or_false] at hcases
    obtain rfl | rfl | rfl | rfl := hcases <;> cases hc
  digit_scale c hc l hl := by
    rw [asciiEnv_sameLetter hl, toLower_of_isDigit hc, decide_eq_false_iff_not]
    rintro rfl
    simp only [scaleLetters, List.mem_cons, List.not_mem_nil, or_false] at hl
    obtain rfl | rfl | rfl := hl <;> cases hc
  space_scale c hc l hl := by
    have hcases := space_cases hc
    rw [asciiEnv_sameLetter hl, decide_eq_false_iff_not]
    rintro rfl
    simp only [List.mem_cons, List.not_mem_nil, or_false] at hcases
    obtain rfl | rfl | rfl | rfl := hcases <;> simp [scaleLetters] at hl
  mark_digit := by simp [asciiEnv, plainEnv]
  mark_space := by simp [asciiEnv, plainEnv]
  mark_scale c hc l hl := by
    rw [asciiEnv_sameLetter hl, decide_eq_false_iff_not]
    rintro rfl
    simp only [List.mem_cons, List.not_mem_nil, or_false] at hc
    obtain rfl | rfl | rfl | rfl | rfl := hc <;> simp [scaleLetters] at hl

end Ascii

end DolphinVC
