import DolphinVC.Verification.InjectedLines

/-!
# The bar for an investment

INVEST asks for no critical contradiction, for every axis and for the fit to reach a threshold
and for the mean confidence to reach one. All of this is symmetric in the axes and grows with
them. It does not ask whether the founder is a cold start: that rule comes after, so claims
about market and product can make up for a founder about whom little is known.
-/

namespace DolphinVC

open Binary64

section Rules

/-- Each axis is at least as good as the other's. -/
structure AxisValue.Below (a b : AxisValue) : Prop where
  score : a.score ≤ b.score
  confidence : a.confidence ≤ b.confidence

def meanConfidence (a b c : AxisValue) : Rat :=
  double ((a.confidence + b.confidence + c.confidence) / 3)

def highest (a b c : AxisValue) : Rat := max a.score (max b.score c.score)

/-- The decision on three axes, of which it reads three numbers. -/
def decisionOf (low high confidence fit : Rat) (contradicted coldStart : Bool) : DecisionKind :=
  if contradicted then .needsHuman
  else if fit = 0 then .pass
  else if low < 25 then .pass
  else if 70 ≤ low ∧ 65 ≤ fit ∧ double (55 / 100) ≤ confidence then .invest
  else if 30 < double (high - low) then .watchlist
  else if confidence < double (40 / 100) ∨ coldStart then .needsHuman
  else .watchlist

variable {a b c : AxisValue} {fit : Rat} {trust : TrustSummary} {coldStart : Bool}
variable {reason : Option String}

theorem recommend_decision : (recommend [a, b, c] fit trust coldStart reason).decision =
    decisionOf (weakest a b c).score (highest a b c) (meanConfidence a b c) fit
      trust.contradictedCritical coldStart := by
  unfold recommend decisionOf
  simp only [apply_ite Recommendation.decision]
  rfl

theorem weakest_le : ∀ d ∈ [a, b, c], (weakest a b c).score ≤ d.score := by
  intro d hd
  simp only [List.mem_cons, List.not_mem_nil, or_false] at hd
  unfold weakest
  obtain rfl | rfl | rfl := hd
  all_goals
    dsimp only
    repeat' split
    all_goals linarith

theorem weakest_mem_list : weakest a b c ∈ [a, b, c] := by
  obtain h | h | h := weakest_mem a b c <;> simp [h]

theorem le_weakest_iff {x : Rat} :
    x ≤ (weakest a b c).score ↔ x ≤ a.score ∧ x ≤ b.score ∧ x ≤ c.score := by
  constructor
  · intro h
    exact ⟨h.trans (weakest_le a (by simp)), h.trans (weakest_le b (by simp)),
      h.trans (weakest_le c (by simp))⟩
  · rintro ⟨ha, hb, hc⟩
    obtain h | h | h := weakest_mem a b c <;> rw [h]
    · exact ha
    · exact hb
    · exact hc

theorem highest_le_iff {x : Rat} :
    highest a b c ≤ x ↔ ∀ d ∈ [a, b, c], d.score ≤ x := by
  simp [highest]

theorem weakest_perm {a' b' c' : AxisValue} (h : [a, b, c].Perm [a', b', c']) :
    (weakest a b c).score = (weakest a' b' c').score :=
  le_antisymm (weakest_le _ (h.mem_iff.mpr weakest_mem_list))
    (weakest_le _ (h.mem_iff.mp weakest_mem_list))

theorem highest_perm {a' b' c' : AxisValue} (h : [a, b, c].Perm [a', b', c']) :
    highest a b c = highest a' b' c' := by
  refine le_antisymm (highest_le_iff.mpr fun d hd => ?_) (highest_le_iff.mpr fun d hd => ?_)
  · exact highest_le_iff.mp le_rfl d (h.mem_iff.mp hd)
  · exact highest_le_iff.mp le_rfl d (h.mem_iff.mpr hd)

theorem meanConfidence_perm {a' b' c' : AxisValue} (h : [a, b, c].Perm [a', b', c']) :
    meanConfidence a b c = meanConfidence a' b' c' := by
  have hsum := (h.map AxisValue.confidence).sum_eq
  simp only [List.map_cons, List.map_nil, List.sum_cons, List.sum_nil] at hsum
  have hmean : (a.confidence + b.confidence + c.confidence) / 3 =
      (a'.confidence + b'.confidence + c'.confidence) / 3 := by
    linarith
  exact congrArg double hmean

/-- No earlier rule stands in the way of the bar. -/
theorem recommend_invest_iff :
    (recommend [a, b, c] fit trust coldStart reason).decision = .invest ↔
      trust.contradictedCritical = false ∧ 70 ≤ (weakest a b c).score ∧ 65 ≤ fit ∧
        double (55 / 100) ≤ meanConfidence a b c := by
  rw [recommend_decision, decisionOf]
  cases trust.contradictedCritical with
  | true => simp
  | false =>
      simp only [Bool.false_eq_true, if_false, true_and]
      by_cases hbar : 70 ≤ (weakest a b c).score ∧ 65 ≤ fit ∧
          double (55 / 100) ≤ meanConfidence a b c
      · have hzero : ¬ fit = 0 := by
          intro hfit
          linarith [hbar.2.1]
        have hnotlow : ¬ (weakest a b c).score < 25 := by linarith [hbar.1]
        simp [hbar, hzero, hnotlow]
      · simp only [hbar, if_false, iff_false]
        repeat' split
        all_goals simp

end Rules

/-- The decision is the same for every order of the three axes, and INVEST stays INVEST when
scores, confidences and the fit rise. -/
theorem recommend_symmetric_and_stable (axes axes' : List AxisValue) (fit fit' : Rat)
    (trust : TrustSummary) (coldStart : Bool) (reason : Option String)
    (three : axes.length = 3) :
    (axes.Perm axes' → (recommend axes fit trust coldStart reason).decision =
      (recommend axes' fit trust coldStart reason).decision) ∧
    (List.Forall₂ AxisValue.Below axes axes' → fit ≤ fit' →
      (recommend axes fit trust coldStart reason).decision = .invest →
        (recommend axes' fit' trust coldStart reason).decision = .invest) := by
  obtain ⟨a, b, c, rfl⟩ := List.length_eq_three.mp three
  constructor
  · intro hperm
    obtain ⟨a', b', c', rfl⟩ := List.length_eq_three.mp (hperm.length_eq.symm.trans three)
    rw [recommend_decision, recommend_decision, weakest_perm hperm, highest_perm hperm,
      meanConfidence_perm hperm]
  · intro hbelow hfit hinvest
    obtain ⟨a', b', c', rfl⟩ := List.length_eq_three.mp (hbelow.length_eq.symm.trans three)
    simp only [List.forall₂_cons, List.forall₂_nil_left_iff, and_true] at hbelow
    obtain ⟨ha, hb, hc⟩ := hbelow
    obtain ⟨htrust, hlow, hbar, hmean⟩ := recommend_invest_iff.mp hinvest
    obtain ⟨hla, hlb, hlc⟩ := le_weakest_iff.mp hlow
    refine recommend_invest_iff.mpr ⟨htrust, ?_, hbar.trans hfit, hmean.trans ?_⟩
    · exact le_weakest_iff.mpr ⟨hla.trans ha.score, hlb.trans hb.score, hlc.trans hc.score⟩
    · exact double_mono (by linarith [ha.confidence, hb.confidence, hc.confidence])

def goodAxes : List AxisValue := [⟨90, 6 / 10, ""⟩, ⟨80, 7 / 10, ""⟩, ⟨70, 8 / 10, ""⟩]

def betterAxes : List AxisValue := [⟨90, 6 / 10, ""⟩, ⟨85, 7 / 10, ""⟩, ⟨70, 9 / 10, ""⟩]

theorem good_axes_stay_good :
    goodAxes.length = 3 ∧
    (recommend goodAxes 70 {} false none).decision =
      (recommend goodAxes.reverse 70 {} false none).decision ∧
    (recommend goodAxes 70 {} false none).decision = .invest ∧
    (recommend betterAxes 75 {} false none).decision = .invest := by
  have hinvest : (recommend goodAxes 70 {} false none).decision = .invest := by decide +kernel
  have hbelow : List.Forall₂ AxisValue.Below goodAxes betterAxes :=
    .cons ⟨le_rfl, le_rfl⟩ (.cons ⟨by norm_num, le_rfl⟩ (.cons ⟨le_rfl, by norm_num⟩ .nil))
  exact ⟨rfl, (recommend_symmetric_and_stable goodAxes _ 70 70 {} false none rfl).1
      (List.reverse_perm _).symm, hinvest,
    (recommend_symmetric_and_stable goodAxes betterAxes 70 75 {} false none rfl).2 hbelow
      (by norm_num) hinvest⟩

section ColdStart

/-- `float(axes[0].confidence) < 0.4` -/
def coldStart (rows : List OpportunityScore) : Bool :=
  rows.head?.any fun s => double s.confidence < double (40 / 100)

/-- The least number that rounds to the double next to 0.55. -/
def leastMean : Rat := (4953959590107546 - 1 / 2) / 2 ^ 53

/-- The stored confidences of the market axis and of the idea axis, by the numbers of claims. -/
def marketConfidence (markets : Nat) : Rat := (min 750 (220 + 150 * markets) : Nat) / (1000 : Nat)

def ideaConfidence (products tractions : Nat) : Rat :=
  (min 750 (250 + 120 * products + 80 * tractions) : Nat) / (1000 : Nat)

/-- The deck says enough about market and product for a founder about whom little is known. -/
structure OutweighsColdStart (scores : List FounderScore) (claims : List Claim) (fit : Rat)
    (best : FounderScore) : Prop where
  highest : bestFounder scores = some best
  uncontradicted :
    ¬ ∃ c ∈ claims, c.status = .contradicted ∧ c.category ∈ [.revenue, .traction, .team]
  fit : 65 ≤ fit
  founder : 650 ≤ best.score
  cold : round3 best.confidence < 40 / 100
  market : 22 ≤ 8 * countOf [.market] claims + 2 * countOf [.traction, .revenue] claims
  idea :
    20 ≤ 6 * countOf [.product, .technology] claims + 3 * countOf [.traction, .revenue] claims
  confidence :
    3 * leastMean ≤ double (round3 best.confidence) +
      double (marketConfidence (countOf [.market] claims)) +
      double (ideaConfidence (countOf [.product, .technology] claims)
        (countOf [.traction, .revenue] claims))

variable {scores : List FounderScore} {claims : List Claim} {fit : Rat} {reason : Option String}
variable {opportunityId : Uuid} {id : AxisKind → Uuid} {version : AxisKind → Nat}

theorem stored_score_founderAxis {best : FounderScore} (h : bestFounder scores = some best) :
    (founderAxis scores).stored.score = ((best.score * 10 + 500 : Int) : Rat) / (100 : Nat) := by
  have hgrid : (founderAxis scores).score =
      ((best.score * 10 + 500 : Int) : Rat) / (100 : Nat) := by
    simp only [founderAxis, h]
    push_cast
    ring
  show roundTo 100 (founderAxis scores).score = _
  rw [hgrid, roundTo_div (by omega)]

/-- No stored score is so little below 70 that its float is 70. -/
theorem seventy_le_double_iff {n : Int} : 70 ≤ double ((n : Rat) / (100 : Nat)) ↔ 7000 ≤ n := by
  constructor
  · contrapose!
    intro hlt
    have hbelow : (n : Rat) ≤ 6999 := by exact_mod_cast (by omega : n ≤ 6999)
    have hdouble : double ((n : Rat) / (100 : Nat)) ≤ ((8959 : Int) : Rat) * 2 ^ (-7 : Int) := by
      refine double_le (by norm_num) (by norm_num) ?_
      rw [div_le_iff₀ (by norm_num)]
      norm_num
      linarith
    norm_num at hdouble ⊢
    linarith
  · intro hle
    have hcast : (7000 : Rat) ≤ n := by exact_mod_cast hle
    have hdouble : ((70 : Int) : Rat) * 2 ^ (0 : Int) ≤ double ((n : Rat) / (100 : Nat)) := by
      refine le_double (by norm_num) (by norm_num) ?_
      rw [le_div_iff₀ (by norm_num)]
      norm_num
      linarith
    simpa using hdouble

/-- Nor is a stored confidence so little below 0.4. -/
theorem double_round3_lt_iff {x : Rat} :
    double (round3 x) < double (40 / 100) ↔ round3 x < 40 / 100 := by
  obtain ⟨k, hk⟩ : ∃ k : Int, round3 x = k / (1000 : Nat) := ⟨_, roundTo_eq 1000 x⟩
  rw [hk]
  constructor
  · contrapose!
    exact double_mono
  · intro hlt
    have hnum : k < 400 := by
      rw [div_lt_iff₀ (by norm_num)] at hlt
      norm_num at hlt
      exact_mod_cast hlt
    have hbelow : (k : Rat) ≤ 399 := by exact_mod_cast (by omega : k ≤ 399)
    have hlow : double ((k : Rat) / (1000 : Nat)) ≤ ((409 : Int) : Rat) * 2 ^ (-10 : Int) := by
      refine double_le (by norm_num) (by norm_num) ?_
      rw [div_le_iff₀ (by norm_num)]
      norm_num
      linarith
    have hhigh : ((819 : Int) : Rat) * 2 ^ (-11 : Int) ≤ double (40 / 100) :=
      le_double (by norm_num) (by norm_num) (by norm_num)
    norm_num at hlow hhigh ⊢
    linarith

theorem bar_le_double_iff {x : Rat} : double (55 / 100) ≤ double x ↔ leastMean ≤ x := by
  have hbar : double (55 / 100) = ((4953959590107546 : Int) : Rat) * 2 ^ (-53 : Int) := by
    decide +kernel
  rw [hbar, le_double_iff (by norm_num) (by norm_num) (by norm_num) (by norm_num)]
  rfl

/-- The floats of three confidences are so close to them that only a sum of exactly 1.65 leaves
the bar to their last bits. -/
theorem leastMean_le_iff {k m n : Int} (hk : 0 ≤ k ∧ k ≤ 1000) (hm : 0 ≤ m ∧ m ≤ 1000)
    (hn : 0 ≤ n ∧ n ≤ 1000) (apart : k + m + n ≠ 1650) :
    3 * leastMean ≤ double ((k : Rat) / (1000 : Nat)) + double ((m : Rat) / (1000 : Nat)) +
        double ((n : Rat) / (1000 : Nat)) ↔ 1650 < k + m + n := by
  have near : ∀ i : Int, 0 ≤ i ∧ i ≤ 1000 →
      |double ((i : Rat) / (1000 : Nat)) - i / (1000 : Nat)| ≤ 2 ^ (-51 : Int) := by
    intro i hi
    refine double_near (by norm_num) ?_
    have hlow : (0 : Rat) ≤ i := by exact_mod_cast hi.1
    have hhigh : (i : Rat) ≤ 1000 := by exact_mod_cast hi.2
    rw [abs_of_nonneg (div_nonneg hlow (by norm_num)), div_lt_iff₀ (by norm_num)]
    norm_num
    linarith
  obtain ⟨hklow, hkhigh⟩ := abs_le.mp (near k hk)
  obtain ⟨hmlow, hmhigh⟩ := abs_le.mp (near m hm)
  obtain ⟨hnlow, hnhigh⟩ := abs_le.mp (near n hn)
  rw [leastMean]
  norm_num at hklow hkhigh hmlow hmhigh hnlow hnhigh ⊢
  constructor
  · intro hbar
    by_contra hle
    have hsum : (k : Rat) + m + n ≤ 1649 := by exact_mod_cast (by omega : k + m + n ≤ 1649)
    linarith
  · intro hgt
    have hsum : (1651 : Rat) ≤ k + m + n := by exact_mod_cast (by omega : 1651 ≤ k + m + n)
    linarith

theorem seventy_le_founder_iff :
    70 ≤ double (founderAxis scores).stored.score ↔
      ∃ best, bestFounder scores = some best ∧ 650 ≤ best.score := by
  cases h : bestFounder scores with
  | none =>
      have hprior : (founderAxis scores).stored.score = ((5000 : Int) : Rat) / (100 : Nat) := by
        have hgrid : (founderAxis scores).score = ((5000 : Int) : Rat) / (100 : Nat) := by
          simp only [founderAxis, h]
          norm_num
        show roundTo 100 (founderAxis scores).score = _
        rw [hgrid, roundTo_div (by omega)]
      rw [hprior, seventy_le_double_iff]
      simp
  | some best =>
      rw [stored_score_founderAxis h, seventy_le_double_iff]
      simp only [Option.some.injEq, exists_eq_left']
      omega

theorem seventy_le_market_iff {m t : Nat} :
    70 ≤ double (marketAxis m t).stored.score ↔ 22 ≤ 8 * m + 2 * t := by
  rw [stored_score_marketAxis, ← Int.cast_natCast, seventy_le_double_iff]
  omega

theorem seventy_le_idea_iff {p t : Nat} :
    70 ≤ double (ideaAxis p t).stored.score ↔ 20 ≤ 6 * p + 3 * t := by
  rw [stored_score_ideaAxis, ← Int.cast_natCast, seventy_le_double_iff]
  omega

/-- The rows of the three axes as `recommend` sees them. -/
theorem recommendRows_scored :
    recommendRows (scoredRows opportunityId id version scores claims) fit reason claims =
      recommend [⟨double (founderAxis scores).stored.score,
            double (founderAxis scores).stored.confidence, (founderAxis scores).rationale⟩,
          ⟨double (axisScore scores claims .market).stored.score,
            double (axisScore scores claims .market).stored.confidence,
            (axisScore scores claims .market).rationale⟩,
          ⟨double (axisScore scores claims .ideaVsMarket).stored.score,
            double (axisScore scores claims .ideaVsMarket).stored.confidence,
            (axisScore scores claims .ideaVsMarket).rationale⟩] fit
        ⟨criticalContradiction claims⟩
        (coldStart (scoredRows opportunityId id version scores claims)) reason := rfl

end ColdStart

/-- A cold start is not recommended for an investment unless the deck outweighs it. -/
theorem cold_start_not_invest_iff (opportunityId : Uuid) (id : AxisKind → Uuid)
    (version : AxisKind → Nat) (scores : List FounderScore) (claims : List Claim) (fit : Rat)
    (reason : Option String) :
    (coldStart (scoredRows opportunityId id version scores claims) = true →
      (recommendRows (scoredRows opportunityId id version scores claims) fit reason
        claims).decision ≠ .invest) ↔
      ¬ ∃ best, OutweighsColdStart scores claims fit best := by
  have hcold : coldStart (scoredRows opportunityId id version scores claims) = true ↔
      (founderAxis scores).stored.confidence < 40 / 100 :=
    decide_eq_true_iff.trans double_round3_lt_iff
  have hcritical : criticalContradiction claims = false ↔
      ¬ ∃ c ∈ claims, c.status = .contradicted ∧ c.category ∈ [.revenue, .traction, .team] := by
    simp [criticalContradiction]
  rw [← not_iff_not, Classical.not_imp, not_not, not_not, recommendRows_scored,
    recommend_invest_iff, le_weakest_iff, hcold]
  simp only [meanConfidence, bar_le_double_iff, axisScore, seventy_le_founder_iff,
    seventy_le_market_iff, seventy_le_idea_iff, stored_confidence_marketAxis,
    stored_confidence_ideaAxis, hcritical]
  constructor
  · rintro ⟨cold, uncontradicted, ⟨⟨best, hbest, founder⟩, market, idea⟩, hfit, hmean⟩
    have hconfidence : (founderAxis scores).stored.confidence = round3 best.confidence := by
      simp only [AxisScore.stored, founderAxis, hbest]
    rw [hconfidence] at cold hmean
    refine ⟨best, hbest, uncontradicted, hfit, founder, cold, market, idea, ?_⟩
    rw [marketConfidence, ideaConfidence]
    linarith
  · rintro ⟨best, hbest, uncontradicted, hfit, founder, cold, market, idea, confidence⟩
    have hconfidence : (founderAxis scores).stored.confidence = round3 best.confidence := by
      simp only [AxisScore.stored, founderAxis, hbest]
    rw [marketConfidence, ideaConfidence] at confidence
    rw [hconfidence]
    refine ⟨cold, uncontradicted, ⟨⟨best, hbest, founder⟩, market, idea⟩, hfit, ?_⟩
    linarith

section Example

/-- A founder with a high score on thin evidence. -/
def newcomer : FounderScore where
  personId := 1
  score := 700
  ciLow := 500
  ciHigh := 900
  confidence := 3 / 10
  computedAt := 0

def deckClaim (category : ClaimCategory) : Claim where
  id := 2
  orgId := 1
  opportunityId := some 3
  category
  text := "A figure from the deck"

/-- Four claims about the market and five about the technology. -/
def talkativeDeck : List Claim :=
  List.replicate 4 (deckClaim .market) ++ List.replicate 5 (deckClaim .technology)

theorem cold_start_is_invested :
    ¬ ∀ (opportunityId : Uuid) (id : AxisKind → Uuid) (version : AxisKind → Nat)
      (scores : List FounderScore) (claims : List Claim) (fit : Rat) (reason : Option String),
      coldStart (scoredRows opportunityId id version scores claims) = true →
        (recommendRows (scoredRows opportunityId id version scores claims) fit reason
          claims).decision ≠ .invest := by
  intro h
  exact absurd (h 3 (fun _ => 4) (fun _ => 1) [newcomer] talkativeDeck 70 none
    (by decide +kernel)) (by decide +kernel)

end Example

end DolphinVC
