import DolphinVC.Types
import DolphinVC.Arithmetic.Rounding
import DolphinVC.Arithmetic.WeightedMean
import Mathlib.Data.Finset.Dedup
import Mathlib.Data.Finset.Card
import Mathlib.Data.Finset.Lattice.Basic
import Mathlib.Algebra.BigOperators.Group.List.Basic
import Mathlib.Data.Rat.Floor

/-!
# Founder Scores

`compute_founder_score`, in exact arithmetic over any ordered field. The functions of `math`
that it calls are parameters, and a division by zero is explicit: `none` where Python raises.
`scored` is what it comes to: the result for the tallies of the components.
-/

namespace DolphinVC

open Rounding WeightedMean

/-- The keys of `COMPONENT_WEIGHTS`. -/
inductive Component where
  | execution | technicalDepth | domainExpertise | outcomes | velocity | validation
  | communication
  deriving DecidableEq

namespace Component

/-- In the order of the dictionary. -/
def all : List Component :=
  [.execution, .technicalDepth, .domainExpertise, .outcomes, .velocity, .validation,
    .communication]

def key : Component → String
  | .execution => "execution"
  | .technicalDepth => "technical_depth"
  | .domainExpertise => "domain_expertise"
  | .outcomes => "outcomes"
  | .velocity => "velocity"
  | .validation => "validation"
  | .communication => "communication"

def halfLifeDays : Component → Nat
  | .execution => 540
  | .technicalDepth => 720
  | .domainExpertise => 900
  | .outcomes => 1460
  | .velocity => 120
  | .validation => 720
  | .communication => 365

variable (K : Type*) [Field K]

def weight : Component → K
  | .execution => 26 / 100
  | .technicalDepth => 18 / 100
  | .domainExpertise => 14 / 100
  | .outcomes => 14 / 100
  | .velocity => 12 / 100
  | .validation => 10 / 100
  | .communication => 6 / 100

end Component

structure ScoreEvent (K : Type*) [One K] where
  component : String
  delta : K
  occurredAt : Timestamp
  weight : K := 1
  sourceKey : String := "unknown"

/-- `0.5 ** x`, `math.exp` and `_normal_cdf`. -/
structure ScoreMaths (K : Type*) where
  halfPow : K → K
  exp : K → K
  normalCdf : K → K

structure Cohort (K : Type*) [Field K] where
  mean : K := 50
  sd : K := 15

/-- The default arguments. -/
def Cohort.standard {K : Type*} [Field K] : Cohort K := {}

/-- What `values` holds for a component. -/
structure ComponentScore (K : Type*) where
  value : Option K
  prior : Option K
  weight : K
  evidenceSources : Nat

structure FounderScoreResult (K : Type*) where
  score : Int
  ciLow : Int
  ciHigh : Int
  confidence : K
  components : List (Component × ComponentScore K)
  coldStart : Bool

/-- `max(0, (now - timestamp).days)`, whole days rounded down. -/
def ageDays (now occurredAt : Timestamp) : Nat := ((now - occurredAt) / 86400000000).toNat

section Field

variable {K : Type*} [Field K] [LinearOrder K] (m : ScoreMaths K) (cohort : Cohort K)

/-- `x / y`, none for a `ZeroDivisionError`. -/
def divide (x y : K) : Option K := if y = 0 then none else some (x / y)

def byComponent (events : List (ScoreEvent K)) (c : Component) : List (ScoreEvent K) :=
  events.filter fun e => e.component = c.key

def clampedDelta (e : ScoreEvent K) : K := max 0 (min 100 e.delta)

def effectiveWeight (now : Timestamp) (c : Component) (e : ScoreEvent K) : K :=
  max 0 e.weight * m.halfPow ((ageDays now e.occurredAt : K) / c.halfLifeDays)

/-- What the loop over the events of one component adds up. -/
structure Tally (K : Type*) where
  numerator : K
  denominator : K
  sources : Finset String

def tally (events : List (ScoreEvent K)) (now : Timestamp) (c : Component) : Tally K where
  numerator := ((byComponent events c).map fun e => clampedDelta e * effectiveWeight m now c e).sum
  denominator := ((byComponent events c).map (effectiveWeight m now c)).sum
  sources := ((byComponent events c).map ScoreEvent.sourceKey).toFinset

/-- `numerator / denominator if denominator else None` -/
def Tally.raw (t : Tally K) : Option (Option K) :=
  if t.denominator = 0 then some none else (divide t.numerator t.denominator).map some

/-- `observation_weight` -/
def observationWeight (t : Component → Tally K) : K :=
  (Component.all.map fun c => min (21 / 10) ((t c).sources.card : K)).sum

def independentSources (t : Component → Tally K) : Finset String :=
  Component.all.foldl (fun sources c => sources ∪ (t c).sources) ∅

variable [FloorRing K]

def componentScore (c : Component) (t : Tally K) (raw : Option K) : ComponentScore K where
  value := raw.map (roundToEven 100)
  prior := if raw = none then some cohort.mean else none
  weight := c.weight K
  evidenceSources := t.sources.card

/-- The part after the loop, from the raw value of each component. -/
def shrinkAndBound (t : Component → Tally K) (raws : List (Component × Option K)) :
    Option (FounderScoreResult K) := do
  let weightedMean := (raws.map fun r => r.2.getD cohort.mean * r.1.weight K).sum
  let posterior ← divide (4 * cohort.mean + observationWeight t * weightedMean)
    (4 + observationWeight t)
  let zScore ← divide (posterior - cohort.mean) (max cohort.sd 1)
  let score := roundHalfEven (300 + 600 * m.normalCdf zScore)
  let confidence := 1 - m.exp (-observationWeight t / 6)
  let width := roundHalfEven (45 + 125 * (1 - confidence))
  return {
    score
    ciLow := max 300 (score - width)
    ciHigh := min 900 (score + width)
    confidence := roundToEven 1000 confidence
    components := raws.map fun r => (r.1, componentScore cohort r.1 (t r.1) r.2)
    coldStart := (independentSources t).card < 3 }

def computeFounderScore (events : List (ScoreEvent K)) (now : Timestamp) :
    Option (FounderScoreResult K) := do
  let t := tally m events now
  let raws ← Component.all.mapM fun c => return (c, ← (t c).raw)
  shrinkAndBound m cohort t raws

end Field

section Closed

variable {K : Type*} [Field K] [LinearOrder K]

def Tally.mean (t : Tally K) : Option K :=
  if t.denominator = 0 then none else some (t.numerator / t.denominator)

/-- A component without evidence counts as the cohort. -/
def componentValue (cohort : Cohort K) (t : Component → Tally K) (c : Component) : K :=
  (t c).mean.getD cohort.mean

def weightedMean (cohort : Cohort K) (t : Component → Tally K) : K :=
  (Component.all.map fun c => componentValue cohort t c * c.weight K).sum

def posterior (cohort : Cohort K) (t : Component → Tally K) : K :=
  shrink 4 cohort.mean (observationWeight t) (weightedMean cohort t)

def zScore (cohort : Cohort K) (t : Component → Tally K) : K :=
  (posterior cohort t - cohort.mean) / max cohort.sd 1

variable [FloorRing K]

/-- What is returned for the tallies. -/
def scored (m : ScoreMaths K) (cohort : Cohort K) (t : Component → Tally K) :
    FounderScoreResult K :=
  let score := roundHalfEven (300 + 600 * m.normalCdf (zScore cohort t))
  let confidence := 1 - m.exp (-observationWeight t / 6)
  let width := roundHalfEven (45 + 125 * (1 - confidence))
  { score
    ciLow := max 300 (score - width)
    ciHigh := min 900 (score + width)
    confidence := roundToEven 1000 confidence
    components := Component.all.map fun c => (c, componentScore cohort c (t c) (t c).mean)
    coldStart := (independentSources t).card < 3 }

/-- What the new observation weight draws towards the mean is made up for by what the event
adds to it. -/
def Outweighs (cohort : Cohort K) (t t' : Component → Tally K) : Prop :=
  4 * (observationWeight t' - observationWeight t) * (cohort.mean - weightedMean cohort t) ≤
    observationWeight t' * (4 + observationWeight t) *
      (weightedMean cohort t' - weightedMean cohort t)

end Closed

end DolphinVC
