import DolphinVC.Config
import DolphinVC.Arithmetic.Binary64
import DolphinVC.Text.Replace
import Mathlib.Data.List.Sort
import Mathlib.Data.Rat.Floor

/-!
# Searching opportunities

A query is read for phrases that stand for filters; what is left of its text is compared with
the texts of the companies. The database hands over the opportunities in an order of its own,
at most 200 of them, and these are ranked. Scores are floats: every product, quotient and sum
is rounded to a double, so that two of one value on paper can differ.

The phrases that were found are a set, and the order in which Python goes through those of
one length is open: `SetOrder` is any way to enumerate a set.
-/

namespace DolphinVC

open Binary64

structure SetOrder where
  enumerate : List String → List String
  perm : ∀ phrases, (enumerate phrases).Perm phrases

def SetOrder.given : SetOrder := ⟨id, fun _ => List.Perm.refl _⟩

def sectorAliases : List (String × String) :=
  [("ai infra", "ai_infra"), ("ai infrastructure", "ai_infra"), ("devtools", "devtools"),
    ("developer tools", "devtools"), ("fintech", "fintech"), ("healthtech", "healthtech"),
    ("climate", "climate"), ("robotics", "robotics"), ("defense", "defense"),
    ("vertical saas", "vertical_saas")]

def countryAliases : List (String × String × Option String) :=
  [("berlin", "DE", some "Berlin"), ("germany", "DE", none), ("london", "GB", some "London"),
    ("uk", "GB", none), ("united states", "US", none),
    ("san francisco", "US", some "San Francisco")]

/-- `needle in text` -/
def isIn (needle text : String) : Bool := needle.toList <:+: text.toList

inductive FilterValue where
  | names (values : List String)
  | text (value : String)
  | flag (value : Bool)
  deriving DecidableEq

structure QueryPlan where
  filters : List (String × FilterValue)
  residual : String
  unresolved : List String := []
  confidence : Rat

section Interpret

/-- Filters of a query with the phrases they were found by. -/
abbrev Found := List (String × FilterValue) × List String

/-- `folded` is the query in folded case. -/
def foundSectors (folded : String) : Found :=
  let found := sectorAliases.filter fun (a : String × String) => isIn a.1 folded
  if found.isEmpty then ([], [])
  else ([("sectors", .names ((found.map Prod.snd).dedup.insertionSort fun a b => a ≤ b))],
    found.map Prod.fst)

/-- The first country or city of the table that the query names. -/
def foundCountry (folded : String) : Found :=
  match countryAliases.find? fun (a : String × String × Option String) => isIn a.1 folded with
  | none => ([], [])
  | some (phrase, country, city) =>
      (("country", .text country) :: (city.map fun city => ("city", .text city)).toList, [phrase])

/-- One filter for each of several phrases; `counted` are the ones that leave the text. -/
def foundPhrase (folded : String) (phrases : List String) (attr : String)
    (value : FilterValue) (counted : List String) : Found :=
  if phrases.any fun phrase => isIn phrase folded then ([(attr, value)], counted) else ([], [])

def foundFounder (folded : String) : Found :=
  foundPhrase folded ["technical founder", "engineer founder"] "founder_profile"
    (.names ["technical"]) ["technical founder"]

def foundTraction (folded : String) : Found :=
  foundPhrase folded ["enterprise traction", "b2b traction"] "traction_type"
    (.names ["enterprise"]) ["enterprise traction"]

def foundBacking (folded : String) : Found :=
  foundPhrase folded ["no prior vc", "no vc backing", "bootstrapped"] "prior_vc_backing"
    (.flag false) ["no prior vc", "no vc backing", "bootstrapped"]

def foundAccelerator (folded : String) : Found :=
  foundPhrase folded ["top-tier accelerator", "top tier accelerator"] "accelerator_tier"
    (.names ["top"]) ["top-tier accelerator", "top tier accelerator"]

def foundAll (folded : String) : List Found :=
  [foundSectors folded, foundCountry folded, foundFounder folded, foundTraction folded,
    foundBacking folded, foundAccelerator folded]

def planFilters (folded : String) : List (String × FilterValue) :=
  (foundAll folded).flatMap Prod.fst

def matchedPhrases (folded : String) : List String := (foundAll folded).flatMap Prod.snd

/-- The longer phrases leave the text first. -/
def removalOrder (sets : SetOrder) (phrases : List String) : List String :=
  (sets.enumerate phrases).mergeSort fun a b => b.length ≤ a.length

def removePhrases (phrases : List String) (folded : List Char) : List Char :=
  phrases.foldl (fun text phrase => Text.replaceAll phrase.toList [' '] text) folded

/-- One blank for every run of white space, and none or a comma at either end. -/
def tidy (env : Env) (text : List Char) : List Char :=
  Text.stripEnds (fun c => c = ' ' ∨ c = ',') (Text.collapse env.isSpace ' ' text)

def planResidual (env : Env) (sets : SetOrder) (query : String) : String :=
  let folded := env.casefold query
  let residual := tidy env (removePhrases (removalOrder sets (matchedPhrases folded)) folded.toList)
  if residual.isEmpty then query else String.ofList residual

def interpretQuery (env : Env) (sets : SetOrder) (query : String) : QueryPlan where
  filters := planFilters (env.casefold query)
  residual := planResidual env sets query
  confidence := Rounding.roundToEven 100
    (min (95 / 100 : Rat) (45 / 100 + 8 / 100 * (planFilters (env.casefold query)).length))

end Interpret

section Match

/-- The texts that are there and not empty, with blanks between. -/
def joinTexts (texts : List (Option String)) : String :=
  " ".intercalate (texts.filterMap fun text => text.filter (· ≠ ""))

/-- `term.replace("_", " ")` -/
def spaced (term : String) : String :=
  String.ofList (Text.replaceAll ['_'] [' '] term.toList)

def FilterValue.terms : FilterValue → List String
  | .names values => values
  | .text value => [value]
  | .flag value => [if value then "True" else "False"]

def satisfies (env : Env) (company : Company) (attr : String) (value : FilterValue) : Bool :=
  if attr = "sectors" then company.sectors.any fun sector => sector ∈ value.terms
  else if attr = "country" then company.hqCountry.map FilterValue.text = some value
  else if attr = "city" then
    value.terms.any fun city => env.casefold (company.hqCity.getD "") = env.casefold city
  else
    value.terms.any fun term =>
      isIn (spaced term) (env.casefold (joinTexts [company.oneLiner, company.description]))

def matchReason (company : Company) (attr : String) : String :=
  if attr = "sectors" then "Company sectors: " ++ ", ".intercalate company.sectors
  else if attr = "country" then
    "HQ country: " ++ ((company.hqCountry.filter (· ≠ "")).getD "not disclosed")
  else if attr = "city" then
    "HQ city: " ++ ((company.hqCity.filter (· ≠ "")).getD "not disclosed")
  else "Matched against available company evidence for " ++ attr ++ "."

structure CompanyMatch where
  score : Rat
  /-- Attributes with the reason. -/
  matched : List (String × String)
  unmatched : List String

/-- `_match_company` -/
def matchCompany (env : Env) (company : Company) (plan : QueryPlan) : CompanyMatch :=
  let ok := plan.filters.filter fun f => satisfies env company f.1 f.2
  { score := double ((ok.length : Rat) / (max 1 plan.filters.length : Nat))
    matched := ok.map fun f => (f.1, matchReason company f.1)
    unmatched := (plan.filters.filter fun f => !satisfies env company f.1 f.2).map Prod.fst }

end Match

section Rank

variable (env : Env)

/-- `re.findall(r"[a-z0-9]+", residual)`, the words of more than two characters. -/
def residualTerms (plan : QueryPlan) : List (List Char) :=
  let isWord (c : Char) : Bool := ('a' ≤ c ∧ c ≤ 'z') ∨ ('0' ≤ c ∧ c ≤ '9')
  (plan.residual.toList.splitOnP fun c => !isWord c).filter fun w => 2 < w.length

/-- The share of the terms that the company's texts contain. -/
def lexicalScore (terms : List (List Char)) (company : Company) : Rat :=
  let text := env.casefold (joinTexts [some company.name, company.oneLiner, company.description])
  double ((terms.countP fun term => term <:+: text.toList : Nat) / (max 1 terms.length : Nat))

def searchScore (plan : QueryPlan) (company : Company) : Rat :=
  double (double (75 / 100 * (matchCompany env company plan).score) +
    double (25 / 100 * lexicalScore env (residualTerms plan) company))

def planCountry (plan : QueryPlan) : Option String :=
  (plan.filters.find? fun f => f.1 = "country").bind fun f => f.2.terms.head?

def planCity (plan : QueryPlan) : Option String :=
  (plan.filters.find? fun f => f.1 = "city").bind fun f => f.2.terms.head?

/-- The hard filters on the company, `ilike` for the city. -/
def meetsPlace (plan : QueryPlan) (company : Company) : Bool :=
  (planCountry plan).all (fun country => company.hqCountry = some country) ∧
    (planCity plan).all fun city => company.hqCity.map env.lower = some (env.lower city)

/-- The rows of the query, without its limit. -/
def searchRows (orgId : Uuid) (plan : QueryPlan) (db : Db) : List (Opportunity × Company) :=
  (db.opportunities.rows.filterMap fun o =>
    (db.companies.find? o.companyId).map fun c => (o, c)).filter fun row =>
      row.1.orgId = orgId ∧ meetsPlace env plan row.2

/-- `rows` are those of the query in the order the database has them. -/
def rankRows (plan : QueryPlan) (limit : Nat) (rows : List (Opportunity × Company)) :
    List (Opportunity × Company) :=
  ((rows.take 200).mergeSort fun a b =>
    searchScore env plan b.2 ≤ searchScore env plan a.2).take limit

structure SearchItem where
  opportunity : Uuid
  score : Rat
  matched : List (String × String)
  unmatched : List String

/-- The cards that `build_card` makes are left out. -/
def searchOpportunities (sets : SetOrder) (orgId : Uuid) (q : String) (limit : Nat) (db : Db) :
    List SearchItem :=
  let plan := interpretQuery env sets q
  (rankRows env plan limit (searchRows env orgId plan db)).map fun row =>
    { opportunity := row.1.id
      score := Rounding.roundToEven 1000 (searchScore env plan row.2)
      matched := (matchCompany env row.2 plan).matched
      unmatched := (matchCompany env row.2 plan).unmatched }

end Rank

end DolphinVC
