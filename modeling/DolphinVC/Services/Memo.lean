import DolphinVC.Services.Score
import DolphinVC.Services.Utils

/-!
# The memo

`compose_memo` writes one section for each entry of a fixed table. A section lists the claims
whose category is in its set; a section without claims says so and is reported as a gap. The
decision and its reason come last, in a section that cites nothing.
-/

namespace DolphinVC

/-- `REQUIRED_SECTIONS` -/
def requiredSections : List (String × List ClaimCategory) :=
  [("company_snapshot", [.product, .market]),
    ("investment_hypotheses", [.team, .traction, .technology]),
    ("swot", [.market, .product, .technology]),
    ("problem_product", [.product]),
    ("traction_kpis", [.traction, .revenue])]

structure DraftSection where
  key : String
  title : String
  markdown : String
  claimIds : List Uuid
  gaps : List String

structure MemoGap where
  field : String
  reason : String := "not_disclosed"
  howToResolve : String := "Request primary documentation or a founder answer."

structure MemoDraft where
  sections : List DraftSection
  gaps : List MemoGap
  wordCount : Nat

/-- A letter is a capital where the symbol before it is no letter. -/
def titleFrom : Bool → List Char → List Char
  | _, [] => []
  | inWord, c :: rest => (if inWord then c.toLower else c.toUpper) :: titleFrom c.isAlpha rest

/-- `value.replace("_", " ").title()` of an ASCII text. -/
def titleText (value : String) : String :=
  String.ofList (titleFrom false (value.toList.map fun c => if c = '_' then ' ' else c))

example : titleText "traction_kpis" = "Traction Kpis" := by decide

def DecisionKind.value : DecisionKind → String
  | .invest => "invest"
  | .pass => "pass"
  | .watchlist => "watchlist"
  | .needsHuman => "needs_human"

section Compose

variable (env : Env) (fixed2 : Rat → String)

def relevantClaims (categories : List ClaimCategory) (claims : List Claim) : List Claim :=
  claims.filter fun c => c.category ∈ categories

/-- `fixed2` is the format `.2f` of a floating-point number. -/
def claimBullet (c : Claim) : String :=
  "- " ++ c.text ++ " [claim:" ++ c.id.text ++ "] (trust " ++ fixed2 c.trustScore ++ ")"

def claimSection (key : String) (relevant : List Claim) : DraftSection where
  key
  title := titleText key
  markdown :=
    if relevant = [] then "Not disclosed in the available evidence."
    else "\n".intercalate (relevant.map (claimBullet fixed2))
  claimIds := relevant.map Claim.id
  gaps :=
    if relevant = [] then ["No evidence-backed claims are available for this section."] else []

def recommendationSection (recommendation : DecisionKind) (rationale : String) : DraftSection where
  key := "recommendation"
  title := "Recommendation"
  markdown := "**" ++ titleText recommendation.value ++ "** — " ++ rationale
  claimIds := []
  gaps := []

def composeMemo (claims : List Claim) (recommendation : DecisionKind) (rationale : String) :
    MemoDraft :=
  let sections := (requiredSections.map fun entry =>
    claimSection fixed2 entry.1 (relevantClaims entry.2 claims)) ++
      [recommendationSection recommendation rationale]
  { sections
    gaps := requiredSections.filterMap fun entry =>
      if relevantClaims entry.2 claims = [] then some { field := entry.1 } else none
    wordCount := (sections.map fun s => (words env s.markdown).length).sum }

end Compose

end DolphinVC
