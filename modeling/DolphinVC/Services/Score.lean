import DolphinVC.Arithmetic.Binary64
import DolphinVC.Services.Pipeline
import Mathlib.Algebra.Order.Field.Basic
import Mathlib.Algebra.Order.Ring.Rat
import Mathlib.Tactic.Linarith
import Mathlib.Tactic.NormNum
import Mathlib.Data.List.Infix

/-!
# Scores and recommendations

The pure functions that an analysis composes: the fit of a company to a thesis, the three
axes, the trust in a claim and the recommendation. The formulas are in exact fractions; `round2`
and `round3` are the roundings before a score is stored. The recommendation compares floats, each
the double next to what is stored or computed.
-/

namespace DolphinVC

open Binary64

section Rounding

/-- `round(x, k)` for `d = 10 ^ k`, halves to even. -/
def roundTo (d : Nat) (x : Rat) : Rat :=
  let below := (x * d).floor
  let rest := x * d - below
  if rest < 1 / 2 ∨ rest = 1 / 2 ∧ below % 2 = 0 then below / d else (below + 1) / d

/-- `round(x, 3)` -/
def round3 (x : Rat) : Rat := roundTo 1000 x

theorem round2_eq (x : Rat) : round2 x = roundTo 100 x := rfl

theorem roundTo_eq (d : Nat) (x : Rat) : roundTo d x = Rounding.roundToEven d x := by
  have hfloor : ⌊x * d⌋ = (x * d).floor := rfl
  simp only [roundTo, Rounding.roundToEven, Rounding.roundHalfEven, hfloor]
  split
  · rfl
  · push_cast
    rfl

theorem roundTo_mono {d : Nat} {x y : Rat} (h : x ≤ y) : roundTo d x ≤ roundTo d y := by
  rw [roundTo_eq, roundTo_eq]
  exact Rounding.roundToEven_mono h

/-- Rounding does not cross a number that it can store. -/
theorem le_roundTo {d : Nat} {n : Int} {x : Rat} (hd : 0 < d) (h : (n : Rat) / d ≤ x) :
    (n : Rat) / d ≤ roundTo d x := by
  rw [roundTo_eq]
  exact Rounding.le_roundToEven hd h

theorem roundTo_le {d : Nat} {n : Int} {x : Rat} (hd : 0 < d) (h : x ≤ (n : Rat) / d) :
    roundTo d x ≤ (n : Rat) / d := by
  rw [roundTo_eq]
  exact Rounding.roundToEven_le hd h

theorem roundTo_div {d : Nat} {n : Int} (hd : 0 < d) : roundTo d ((n : Rat) / d) = n / d := by
  rw [roundTo_eq]
  exact Rounding.roundToEven_div hd n

end Rounding

section Thesis

variable (env : Env)

structure ThesisFitResult where
  score : Rat
  gateReason : Option String
  mustHaveCoverage : List (String × Bool)

/-- `set & {item.casefold() for item in items}` is not empty; the set is case folded. -/
def meets (folded items : List String) : Bool :=
  folded.any fun item => item ∈ items.map env.casefold

/-- `str.split()` -/
def words (text : String) : List (List Char) :=
  (text.toList.splitOnP env.isSpace).filter fun w => !w.isEmpty

/-- The first three words of the rule occur in the text. -/
def satisfiesRule (folded : String) (rule : String) : Bool :=
  ((words env (env.casefold rule)).take 3).all fun token => token <:+: folded.toList

/-- A company's stage or country is absent when it is null or empty. -/
def present (value : Option String) : Option String := value.filter (· ≠ "")

/-- The reason for which a hard gate of the thesis excludes the company. -/
def gateReason (sectors : List String) (stage country : Option String)
    (thesisSectors antiSectors stages geos : List String) : Option String :=
  let sectorSet := sectors.map env.casefold
  let excludes (value : Option String) (allowed : List String) : Bool :=
    match present value with
    | none => false
    | some v => env.casefold v ∉ allowed.map env.casefold
  if meets env sectorSet antiSectors then some "Company matches an excluded sector."
  else if thesisSectors ≠ [] ∧ sectorSet ≠ [] ∧ ¬ meets env sectorSet thesisSectors then
    some "Company is outside the thesis sectors."
  else if stages ≠ [] ∧ excludes stage stages then some "Company stage is outside the thesis."
  else if geos ≠ [] ∧ excludes country geos ∧ "remote" ∉ geos.map env.casefold then
    some "Company geography is outside the thesis."
  else none

/-- 1 when nothing is asked for or the value is unknown or allowed, else 1/2. -/
def softMatch (value : Option String) (allowed : List String) : Rat :=
  if allowed = [] then 1
  else match present value with
    | none => 1
    | some v => if env.casefold v ∈ allowed.map env.casefold then 1 else 1 / 2

def computeThesisFit (sectors : List String) (stage country : Option String)
    (thesisSectors antiSectors stages geos mustHaves : List String) (companyText : String) :
    ThesisFitResult :=
  match gateReason env sectors stage country thesisSectors antiSectors stages geos with
  | some reason => { score := 0, gateReason := some reason, mustHaveCoverage := [] }
  | none =>
      let coverage := mustHaves.map fun rule =>
        (rule, satisfiesRule env (env.casefold companyText) rule)
      let ratio : Rat :=
        if coverage = [] then 1
        else (coverage.countP fun item => item.2 : Nat) / (coverage.length : Nat)
      let sectorMatch : Rat :=
        if thesisSectors = [] ∨ meets env (sectors.map env.casefold) thesisSectors then 1 else 1 / 2
      { score := round2 (100 * (40 / 100 * sectorMatch + 25 / 100 * softMatch env stage stages +
          15 / 100 * softMatch env country geos + 20 / 100 * ratio))
        gateReason := none
        mustHaveCoverage := coverage }

/-- `" ".join(filter(None, [one_liner, description]))` -/
def companyText (company : Company) : String :=
  " ".intercalate ([company.oneLiner, company.description].filterMap present)

/-- Iterating over a JSON null raises. -/
def iterate (items : Option (List String)) : Except Exc (List String) :=
  match items with
  | some items => .ok items
  | none => .error (.raised "TypeError" "'NoneType' object is not iterable")

/-- The must haves are looked at when no gate has answered. -/
def rulesOf (gate : Option String) (mustHaves : Option (List String)) :
    Except Exc (List String) :=
  match gate with
  | some _ => .ok []
  | none => iterate mustHaves

/-- Score and gate reason for a thesis or none. Three list columns are first asked for their
truth, where a JSON null is as good as an empty list. -/
def fitOfThesis (thesis? : Option Thesis) (company : Company) :
    Except Exc (Rat × Option String) :=
  match thesis? with
  | none => .ok (70, none)
  | some thesis => do
      let sectors := thesis.sectors.getD []
      let stages := thesis.stages.getD []
      let geos := thesis.geos.getD []
      let antiSectors ← iterate thesis.antiSectors
      let gate := gateReason env company.sectors company.stage company.hqCountry sectors
        antiSectors stages geos
      let mustHaves ← rulesOf gate thesis.mustHaves
      let result := computeThesisFit env company.sectors company.stage company.hqCountry sectors
        antiSectors stages geos mustHaves (companyText company)
      return (result.score, result.gateReason)

end Thesis

section Recommendation

/-- Two floats and a text. -/
structure AxisValue where
  score : Rat
  confidence : Rat
  rationale : String := ""

structure TrustSummary where
  contradictedCritical : Bool := false

/-- `min(axes, key=score)`, the first of equals. -/
def weakest (a b c : AxisValue) : AxisValue :=
  let w := if b.score < a.score then b else a
  if c.score < w.score then c else w

def recommend (axes : List AxisValue) (thesisFit : Rat) (trustSummary : TrustSummary)
    (coldStart : Bool) (gateReason : Option String) : Recommendation :=
  match axes with
  | [a, b, c] =>
      -- `mean` of the statistics module sums exactly and rounds once
      let meanConfidence := double ((a.confidence + b.confidence + c.confidence) / 3)
      let low := (weakest a b c).score
      let high := max a.score (max b.score c.score)
      if trustSummary.contradictedCritical then
        ⟨.needsHuman, "A decision-critical claim is contradicted."⟩
      else if thesisFit = 0 then
        ⟨.pass, (present gateReason).getD "A hard thesis gate failed."⟩
      else if low < 25 then
        ⟨.pass, (present (some (weakest a b c).rationale)).getD
          "One independent axis is below 25."⟩
      else if 70 ≤ low ∧ 65 ≤ thesisFit ∧ double (55 / 100) ≤ meanConfidence then
        ⟨.invest, "All three axes and thesis fit clear the investment bar."⟩
      else if 30 < double (high - low) then
        ⟨.watchlist, "The independent axes disagree materially."⟩
      else if meanConfidence < double (40 / 100) ∨ coldStart then
        ⟨.needsHuman, "Evidence is too thin for a confident automated recommendation."⟩
      else
        ⟨.watchlist, "Evidence is credible but does not clear every investment threshold."⟩
  | _ => ⟨.needsHuman, "One or more axes could not be scored."⟩

end Recommendation

section Axes

/-- `max(founder_scores, key=score)`, the first of equals. -/
def bestFounder (scores : List FounderScore) : Option FounderScore :=
  scores.foldl (fun best s => match best with
    | some b => if b.score < s.score then some s else some b
    | none => some s) none

def founderAxis (scores : List FounderScore) : AxisScore :=
  match bestFounder scores with
  | some best =>
      { score := 35 + ((best.score : Rat) - 300) / 600 * 60
        confidence := best.confidence
        rationale := "Founder Score and team evidence are available." }
  | none =>
      { score := 50
        confidence := 20 / 100
        rationale := "No resolved founder profile; cohort prior used without penalty." }

/-- How many claims have a category among the given ones. -/
def countOf (categories : List ClaimCategory) (claims : List Claim) : Nat :=
  claims.countP fun c => c.category ∈ categories

def marketAxis (markets tractions : Nat) : AxisScore where
  score := min 80 (48 + markets * 8 + tractions * 2)
  confidence := min (75 / 100) (22 / 100 + markets * (15 / 100))
  rationale := "Market score reflects only evidence-backed market and traction claims."

def ideaAxis (products tractions : Nat) : AxisScore where
  score := min 80 (50 + products * 6 + tractions * 3)
  confidence := min (75 / 100) (25 / 100 + products * (12 / 100) + tractions * (8 / 100))
  rationale := "Idea-vs-market score reflects product specificity and demonstrated pull."

/-- The value of one axis before it is rounded. -/
def axisScore (scores : List FounderScore) (claims : List Claim) : AxisKind → AxisScore
  | .founder => founderAxis scores
  | .market => marketAxis (countOf [.market] claims) (countOf [.traction, .revenue] claims)
  | .ideaVsMarket =>
      ideaAxis (countOf [.product, .technology] claims) (countOf [.traction, .revenue] claims)

def AxisScore.stored (a : AxisScore) : AxisScore :=
  { a with score := round2 a.score, confidence := round3 a.confidence }

/-- The scores of the founders of the company. -/
def companyFounderScores (companyId : Uuid) (db : Db) : List FounderScore :=
  db.founderScores.rows.filter fun s => db.affiliations.rows.any fun a =>
    a.personId = s.personId ∧ a.companyId = companyId ∧ a.isFounder

/-- A contradicted claim about revenue, traction or team. -/
def criticalContradiction (claims : List Claim) : Bool :=
  claims.any fun c => c.status = .contradicted ∧ c.category ∈ [.revenue, .traction, .team]

/-- `float(…)` of the stored decimals. -/
def OpportunityScore.axisValue (s : OpportunityScore) : AxisValue where
  score := double s.score
  confidence := double s.confidence
  rationale := s.rationale

/-- The call of `recommend` in `process_job`. -/
def recommendRows (rows : List OpportunityScore) (fit : Rat) (gateReason : Option String)
    (claims : List Claim) : Recommendation :=
  recommend (rows.map OpportunityScore.axisValue) fit ⟨criticalContradiction claims⟩
    (rows.head?.any fun s => double s.confidence < double (40 / 100)) gateReason

end Axes

section Trust

def tierBase : SourceTier → Rat
  | .primary => 92 / 100
  | .verifiedThirdParty => 85 / 100
  | .aggregator => 65 / 100
  | .selfReported => 40 / 100
  | .inferred => 25 / 100

/-- In days. -/
def halfLife : ClaimCategory → Nat
  | .traction => 90
  | .revenue => 120
  | .team | .technology => 365
  | .funding | .legal => 540
  | _ => 180

structure TrustEvidence where
  reliability : Rat
  independenceGroup : String

/-- `1 - product`: what the pieces of evidence leave open, a repeated group counting a quarter. -/
def corroboration (evidence : List TrustEvidence) : Rat :=
  1 - (evidence.foldl (fun (acc : List String × Rat) item =>
    (item.independenceGroup :: acc.1, acc.2 * (1 - max 0 (min 1 item.reliability) *
      (if item.independenceGroup ∈ acc.1 then 1 / 4 else 1)))) ([], 1)).2

variable (exp : Rat → Rat)

/-- `exp` is `math.exp`; the age is in days and unknown when nothing was observed. -/
def computeTrust (tier : SourceTier) (category : ClaimCategory) (evidence : List TrustEvidence)
    (ageDays : Option Nat) (extractionConfidence : Rat)
    (contradicted independentlyVerified : Bool) : TrustResult :=
  let recency := match ageDays with
    | none => 1 / 2
    | some age => exp (-(age : Rat) / halfLife category)
  let score := tierBase tier * (35 / 100 + 65 / 100 * corroboration evidence) *
    (6 / 10 + 4 / 10 * recency) * max 0 (min 1 extractionConfidence) *
    ((if contradicted then 45 / 100 else 1) * (if independentlyVerified then 115 / 100 else 1))
  let score := round3 (max (2 / 100) (min (99 / 100) score))
  { score
    status :=
      if contradicted then .contradicted
      else if 80 / 100 ≤ score then .verified
      else if 55 / 100 ≤ score then .corroborated
      else if 30 / 100 ≤ score then .claimed
      else .unverifiable
    inputs :=
      { base := tierBase tier
        corroboration := roundTo 10000 (corroboration evidence)
        independentSources := (evidence.map TrustEvidence.independenceGroup).toFinset.card
        recency := roundTo 10000 recency
        extraction := extractionConfidence
        contradicted
        independentlyVerified } }

end Trust

end DolphinVC
