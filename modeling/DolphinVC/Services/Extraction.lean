import DolphinVC.Arithmetic.DecimalContext
import DolphinVC.Services.Score
import DolphinVC.Text.Regex

/-!
# Extracting claims from a deck

`extract_claims` looks for four patterns in every line of a deck. A line that looks like an
instruction to a language model is extracted all the same, with less confidence and marked
unverifiable. `deterministicAnalysis` collects the functions that an analysis composes.
-/

namespace DolphinVC

section Patterns

open Regex

variable (env : Env)

structure ClaimPattern where
  category : ClaimCategory
  predicate : String
  regex : Pattern Char
  unitType : String

def boundary : Pattern Char := .boundary env.isWordChar

/-- A word, whatever the case of its letters. -/
def anyCase (word : String) : Pattern Char := .word env.sameLetter word.toList

/-- `\d+(?:[sep]\d+)?` -/
def number (separator : Char → Bool) : Pattern Char :=
  .seq (.many1 env.isDigit) (.opt (.seq (.one separator) (.many1 env.isDigit)))

/-- `\bWORD\b[^\n]{0,30}?([$€£]?\s?\d+(?:[.,]\d+)?\s?[scale]?)` -/
def amountAfter (word : String) (scale : List Char) : Pattern Char :=
  .all [boundary env, anyCase env word, boundary env, .repeated (· ≠ '\n') 0 (some 30) false,
    .group (.all [.maybe (· ∈ ['$', '€', '£']), .maybe env.isSpace,
      number env (· ∈ ['.', ',']), .maybe env.isSpace,
      .maybe fun c => scale.any fun x => env.sameLetter x c])]

/-- `\b(\d[\d,]*)\s+(?:paying\s+)?customers?\b` -/
def customerCount : Pattern Char :=
  .all [boundary env,
    .group (.seq (.one env.isDigit) (.many fun c => env.isDigit c ∨ c = ',')),
    .many1 env.isSpace, .opt (.seq (anyCase env "paying") (.many1 env.isSpace)),
    anyCase env "customer", .maybe (env.sameLetter 's'), boundary env]

/-- `\b(\d+(?:\.\d+)?)\s?%\s+(?:MoM|month[- ]over[- ]month|growth)\b` -/
def growthRate : Pattern Char :=
  .all [boundary env, .group (number env (· = '.')), .maybe env.isSpace, .one (· = '%'),
    .many1 env.isSpace,
    .alt (anyCase env "MoM")
      (.alt (.all [anyCase env "month", .one (· ∈ ['-', ' ']), anyCase env "over",
          .one (· ∈ ['-', ' ']), anyCase env "month"])
        (anyCase env "growth")),
    boundary env]

/-- `PATTERNS` -/
def claimPatterns : List ClaimPattern :=
  [{ category := .revenue, predicate := "arr"
     regex := amountAfter env "ARR" ['k', 'm'], unitType := "currency" },
    { category := .traction, predicate := "customer_count", regex := customerCount env
      unitType := "count" },
    { category := .market, predicate := "tam", regex := amountAfter env "TAM" ['b', 'm']
      unitType := "currency" },
    { category := .traction, predicate := "growth_rate_pct", regex := growthRate env
      unitType := "percent" }]

end Patterns

section Lines

variable (env : Env)

def looksLikePromptInjection (text : List Char) : Bool :=
  let folded := (env.casefold (String.ofList text)).toList
  ["ignore previous", "ignore all prior", "system prompt", "you are now",
    "override your instructions"].any fun pattern => pattern.toList <:+: folded

/-- The context of the `decimal` module. -/
def decimalContext : Decimal.Context where
  precision := 28
  maxExponent := 999999

/-- The number that digits stand for. -/
def readDigits (ds : List Char) : Nat := ds.foldl (fun n d => 10 * n + env.digitValue d) 0

/-- `Decimal(text)` of digits with at most one point. -/
def parseDecimal (text : List Char) : Option Decimal :=
  match (strip env text).splitOnP (· = '.') with
  | [whole] =>
      if whole ≠ [] ∧ whole.all env.isDigit then some ⟨readDigits env whole, 0⟩ else none
  | [whole, fraction] =>
      if whole ++ fraction ≠ [] ∧ (whole ++ fraction).all env.isDigit then
        some ⟨readDigits env (whole ++ fraction), fraction.length⟩
      else none
  | _ => none

/-- The last symbol is this letter, in either case. -/
def hasSuffix (suffix : Char) (cleaned : List Char) : Bool :=
  cleaned.getLast?.any fun c => (env.casefold c.toString).toList = [suffix]

def parseCompactNumber (value : List Char) : Option Rat :=
  let cleaned := strip env (value.filter fun c => c ∉ ['$', '€', '£', ','])
  let scaled (digits : List Char) (multiplier : Nat) : Option Rat :=
    ((parseDecimal env digits).bind fun x => x.times decimalContext multiplier).map Decimal.value
  if hasSuffix env 'k' cleaned then scaled cleaned.dropLast 1000
  else if hasSuffix env 'm' cleaned then scaled cleaned.dropLast 1000000
  else if hasSuffix env 'b' cleaned then scaled cleaned.dropLast 1000000000
  else scaled cleaned 1

def unitOf (unitType : String) (raw : List Char) : Option String :=
  if unitType = "currency" then
    some (if '€' ∈ raw then "EUR" else if '£' ∈ raw then "GBP" else "USD")
  else if unitType ∈ ["count", "percent"] then some unitType
  else none

/-- What one pattern finds in a line. The gate rejects a snippet that is not in the line. -/
def lineClaim (pageNo : Nat) (line : List Char) (p : ClaimPattern) : Option ExtractedClaim :=
  match p.regex.search line with
  | none => none
  | some m =>
      if m.text <:+: line then
        some
          { category := p.category
            predicate := p.predicate
            text := String.ofList (line.take 500)
            valueNum := parseCompactNumber env m.captured
            valueUnit := unitOf p.unitType m.captured
            locator := { page := pageNo, snippet := String.ofList m.text }
            extractionConfidence :=
              if looksLikePromptInjection env line then 30 / 100 else 82 / 100
            unverifiable := looksLikePromptInjection env line }
      else none

def pageClaims (page : ParsedPage) : List ExtractedClaim :=
  ((pageLines env page).filter fun line => !line.isEmpty).flatMap fun line =>
    (claimPatterns env).filterMap (lineClaim env page.pageNo line)

def extractClaims (pages : List ParsedPage) : List ExtractedClaim := pages.flatMap (pageClaims env)

end Lines

/-- The analysis of the repository. `exp` is `math.exp` and `age` the age of a document in days. -/
def deterministicAnalysis (env : Env) (parseDeck : Document → List ParsedPage)
    (exp : Rat → Rat) (age : Document → Option Nat)
    (composeMemo : List Claim → Recommendation → List MemoSection) : Analysis where
  parseDeck
  extractClaims := extractClaims env
  computeTrust document item :=
    computeTrust exp .selfReported item.category
      [{ reliability := 40 / 100, independenceGroup := "deck:" ++ toString document.id }]
      (age document) item.extractionConfidence false false
  scoreAxis db opportunity claims axis :=
    (axisScore (companyFounderScores opportunity.companyId db) claims axis).stored
  thesisFit := fitOfThesis env
  recommend := recommendRows
  composeMemo

end DolphinVC
