import Mathlib
import DolphinVC.Services.FounderScore
import DolphinVC.Arithmetic.WeightedMean
import DolphinVC.Verification.Recommendation

/-!
# What a Founder Score depends on

The loop of `compute_founder_score` reduces the events to one tally a component, and the
score is a function of the tallies that never divides by zero. A tally does not see the order
of the events, its mean grows with the deltas and its sources grow with the events; each
result carries one of these facts through the shrinkage, the rounding and the bounds.
-/

namespace DolphinVC

open Rounding WeightedMean

section Total

variable {K : Type*} [Field K] [LinearOrder K]

theorem Tally.raw_eq (t : Tally K) : t.raw = some t.mean := by
  simp only [Tally.raw, Tally.mean, divide]
  split <;> rfl

theorem mapM_raw (t : Component → Tally K) :
    (Component.all.mapM fun c => (return (c, ← (t c).raw) : Option (Component × Option K))) =
      some (Component.all.map fun c => (c, (t c).mean)) := by
  simp [Tally.raw_eq, Component.all]

variable [IsStrictOrderedRing K]

theorem Component.weight_pos (c : Component) : 0 < c.weight K := by
  cases c <;> simp only [Component.weight] <;> positivity

theorem Component.sum_weight : (Component.all.map fun c => c.weight K).sum = 1 := by
  simp only [Component.all, Component.weight, List.map_cons, List.map_nil, List.sum_cons,
    List.sum_nil]
  norm_num

theorem observationWeight_nonneg (t : Component → Tally K) : 0 ≤ observationWeight t := by
  refine List.sum_nonneg fun x hx => ?_
  obtain ⟨c, -, rfl⟩ := List.mem_map.mp hx
  exact le_min (by positivity) (Nat.cast_nonneg _)

/-- Seven components count 2.1 at most. -/
theorem observationWeight_le (t : Component → Tally K) : observationWeight t ≤ 147 / 10 := by
  have hsum : (Component.all.map fun c => min (21 / 10) ((t c).sources.card : K) * 1).sum ≤
      21 / 10 * (Component.all.map fun _ => (1 : K)).sum :=
    sum_le (fun _ _ => zero_le_one) fun c _ => min_le_left _ _
  have hlength : (Component.all.map fun _ => (1 : K)).sum = 7 := by
    simp only [Component.all, List.map_cons, List.map_nil, List.sum_cons, List.sum_nil]
    norm_num
  rw [hlength] at hsum
  simp only [mul_one] at hsum
  exact hsum.trans (by norm_num)

variable [FloorRing K]

variable (m : ScoreMaths K) (cohort : Cohort K)

theorem shrinkAndBound_eq (t : Component → Tally K) :
    shrinkAndBound m cohort t (Component.all.map fun c => (c, (t c).mean)) =
      some (scored m cohort t) := by
  have hweight : 4 + observationWeight t ≠ 0 := by
    have := observationWeight_nonneg t
    exact ne_of_gt (by linarith)
  have hsd : max cohort.sd 1 ≠ 0 := ne_of_gt (lt_max_of_lt_right one_pos)
  simp only [shrinkAndBound, divide, if_neg hweight, if_neg hsd, Option.bind_eq_bind,
    Option.bind_some, List.map_map]
  rfl

/-- No division fails, and the result is that of the tallies. -/
theorem computeFounderScore_eq (events : List (ScoreEvent K)) (now : Timestamp) :
    computeFounderScore m cohort events now = some (scored m cohort (tally m events now)) :=
  (congrArg (· >>= shrinkAndBound m cohort (tally m events now)) (mapM_raw _)).trans
    (shrinkAndBound_eq m cohort _)

end Total

section Maths

variable {K : Type*} [Field K] [LinearOrder K]

/-- A recency factor is positive and at most 1. -/
def ScoreMaths.Decays (m : ScoreMaths K) : Prop :=
  ∀ x, 0 ≤ x → 0 < m.halfPow x ∧ m.halfPow x ≤ 1

def ScoreMaths.CdfRange (m : ScoreMaths K) : Prop :=
  ∀ x, 0 ≤ m.normalCdf x ∧ m.normalCdf x ≤ 1

/-- The two laws that no function but the exponential has. -/
structure IsExponential (exp : K → K) : Prop where
  map_add : ∀ x y, exp (x + y) = exp x * exp y
  one_add_le : ∀ x, 1 + x ≤ exp x

namespace IsExponential

variable [IsStrictOrderedRing K] {exp : K → K} (h : IsExponential exp)
include h

theorem map_zero : exp 0 = 1 := by
  have hone : 1 ≤ exp 0 := by simpa using h.one_add_le 0
  have hmul : exp 0 * exp 0 = exp 0 := by rw [← h.map_add, add_zero]
  exact mul_left_cancel₀ (ne_of_gt (zero_lt_one.trans_le hone)) (hmul.trans (mul_one _).symm)

theorem nonneg (x : K) : 0 ≤ exp x := by
  have hhalf : exp x = exp (x / 2) * exp (x / 2) := by rw [← h.map_add, add_halves]
  rw [hhalf]
  exact mul_self_nonneg _

theorem le_one {x : K} (hx : x ≤ 0) : exp x ≤ 1 := by
  have hinv : exp x * exp (-x) = 1 := by rw [← h.map_add, add_neg_cancel, h.map_zero]
  have hge : 1 ≤ exp (-x) := le_trans (by linarith) (h.one_add_le (-x))
  calc exp x = exp x * 1 := (mul_one _).symm
    _ ≤ exp x * exp (-x) := mul_le_mul_of_nonneg_left hge (h.nonneg x)
    _ = 1 := hinv

theorem pow_le (n : Nat) {x : K} (hx : 0 ≤ 1 + x) : (1 + x) ^ n ≤ exp (n * x) := by
  induction n with
  | zero => simp [h.map_zero]
  | succ n ih =>
      rw [pow_succ, Nat.cast_succ, add_mul, one_mul, h.map_add]
      exact mul_le_mul ih (h.one_add_le x) hx (h.nonneg _)

end IsExponential

end Maths

section Sources

variable {K : Type*} {t t' : Component → Tally K}

theorem mem_independentSources {s : String} :
    s ∈ independentSources t ↔ ∃ c, s ∈ (t c).sources := by
  simp only [independentSources, Component.all, List.foldl_cons, List.foldl_nil,
    Finset.mem_union, Finset.notMem_empty, false_or]
  constructor
  · intro h
    obtain (((((h | h) | h) | h) | h) | h) | h := h <;> exact ⟨_, h⟩
  · rintro ⟨c, h⟩
    cases c <;> simp [h]

theorem independentSources_mono (h : ∀ c, (t c).sources ⊆ (t' c).sources) :
    independentSources t ⊆ independentSources t' := by
  intro s hs
  obtain ⟨c, hc⟩ := mem_independentSources.mp hs
  exact mem_independentSources.mpr ⟨c, h c hc⟩

end Sources

section Tallies

variable {K : Type*} [Field K] [LinearOrder K]
variable {m : ScoreMaths K} {cohort : Cohort K} {events events' : List (ScoreEvent K)}
variable {now : Timestamp} {e : ScoreEvent K} {c : Component} {t t' : Component → Tally K}

theorem clampedDelta_nonneg (e : ScoreEvent K) : 0 ≤ clampedDelta e := le_max_left _ _

/-- Bounds of the delta that the clamp cannot cross. -/
theorem le_clampedDelta {x : K} (hdelta : x ≤ e.delta) (hx : x ≤ 100) : x ≤ clampedDelta e :=
  le_max_of_le_right (le_min hx hdelta)

theorem Tally.mean_eq_some {t : Tally K} {v : K} :
    t.mean = some v ↔ t.denominator ≠ 0 ∧ t.numerator / t.denominator = v := by
  unfold Tally.mean
  split <;> simp [*]

theorem tally_perm (h : events.Perm events') : tally m events now = tally m events' now := by
  funext c
  have hc : (byComponent events c).Perm (byComponent events' c) := h.filter _
  simp only [tally, Tally.mk.injEq]
  exact ⟨(hc.map _).sum_eq, (hc.map _).sum_eq, List.toFinset_eq_of_perm _ _ (hc.map _)⟩

theorem tally_middle (before after : List (ScoreEvent K)) :
    tally m (before ++ e :: after) now = tally m (e :: (before ++ after)) now :=
  tally_perm List.perm_middle

theorem tally_cons_self (hc : e.component = c.key) : tally m (e :: events) now c =
    { numerator := clampedDelta e * effectiveWeight m now c e + (tally m events now c).numerator
      denominator := effectiveWeight m now c e + (tally m events now c).denominator
      sources := insert e.sourceKey (tally m events now c).sources } := by
  simp [tally, byComponent, hc]

theorem tally_cons_other (hc : e.component ≠ c.key) :
    tally m (e :: events) now c = tally m events now c := by
  simp [tally, byComponent, hc]

variable [IsStrictOrderedRing K]

theorem clampedDelta_le (e : ScoreEvent K) : clampedDelta e ≤ 100 :=
  max_le (by norm_num) (min_le_left _ _)

theorem effectiveWeight_nonneg (hpow : m.Decays) : 0 ≤ effectiveWeight m now c e :=
  mul_nonneg (le_max_left _ _) (hpow _ (by positivity)).1.le

theorem denominator_nonneg (hpow : m.Decays) : 0 ≤ (tally m events now c).denominator :=
  sum_weight_nonneg fun _ _ => effectiveWeight_nonneg hpow

theorem numerator_nonneg (hpow : m.Decays) : 0 ≤ (tally m events now c).numerator := by
  have h : 0 * (tally m events now c).denominator ≤ (tally m events now c).numerator :=
    le_sum (fun _ _ => effectiveWeight_nonneg hpow) fun e _ => clampedDelta_nonneg e
  rwa [zero_mul] at h

theorem numerator_le (hpow : m.Decays) :
    (tally m events now c).numerator ≤ 100 * (tally m events now c).denominator :=
  sum_le (fun _ _ => effectiveWeight_nonneg hpow) fun e _ => clampedDelta_le e

theorem mean_mem (hpow : m.Decays) {v : K} (h : (tally m events now c).mean = some v) :
    0 ≤ v ∧ v ≤ 100 := by
  obtain ⟨hne, rfl⟩ := Tally.mean_eq_some.mp h
  have hpos : 0 < (tally m events now c).denominator :=
    lt_of_le_of_ne (denominator_nonneg hpow) hne.symm
  exact ⟨div_nonneg (numerator_nonneg hpow) hpos.le,
    (div_le_iff₀ hpos).mpr (numerator_le hpow)⟩

theorem weightedMean_mono (h : ∀ c, componentValue cohort t c ≤ componentValue cohort t' c) :
    weightedMean cohort t ≤ weightedMean cohort t' :=
  sum_mono (fun c _ => c.weight_pos.le) fun c _ => h c

theorem weightedMean_eq_mean (h : ∀ c, componentValue cohort t c = cohort.mean) :
    weightedMean cohort t = cohort.mean := by
  simp only [weightedMean, h]
  rw [List.sum_map_mul_left, Component.sum_weight, mul_one]

theorem posterior_mono (hvalue : ∀ c, componentValue cohort t c ≤ componentValue cohort t' c)
    (hsources : ∀ c, (t c).sources = (t' c).sources) :
    posterior cohort t ≤ posterior cohort t' := by
  have hweight : observationWeight t = observationWeight t' := by
    simp only [observationWeight, hsources]
  rw [posterior, posterior, hweight]
  exact shrink_mono (by norm_num) (observationWeight_nonneg t') (weightedMean_mono hvalue)

/-- A larger delta raises the value of its component, whose weight it leaves alone. -/
theorem componentValue_raise (hpow : m.Decays) {delta : K} (hdelta : e.delta ≤ delta) :
    componentValue cohort (tally m (e :: events) now) c ≤
      componentValue cohort (tally m ({ e with delta } :: events) now) c := by
  by_cases hc : e.component = c.key
  · have hclamp : clampedDelta e ≤ clampedDelta { e with delta } :=
      max_le_max le_rfl (min_le_min le_rfl hdelta)
    have hweight : 0 ≤ effectiveWeight m now c e := effectiveWeight_nonneg hpow
    have hden : 0 ≤ effectiveWeight m now c e + (tally m events now c).denominator :=
      add_nonneg hweight (denominator_nonneg hpow)
    simp only [componentValue, tally_cons_self hc,
      tally_cons_self (show ({ e with delta } : ScoreEvent K).component = c.key from hc),
      Tally.mean]
    change _ ≤ Option.getD (if effectiveWeight m now c e + _ = 0 then none else
      some ((clampedDelta { e with delta } * effectiveWeight m now c e + _) /
        (effectiveWeight m now c e + _))) _
    split
    · exact le_rfl
    · have hmul := mul_le_mul_of_nonneg_right hclamp hweight
      exact div_le_div_of_nonneg_right (by linarith) hden
  · rw [componentValue, componentValue, tally_cons_other hc, tally_cons_other (by exact hc)]

theorem zScore_mono (h : posterior cohort t ≤ posterior cohort t') :
    zScore cohort t ≤ zScore cohort t' :=
  div_le_div_of_nonneg_right (by linarith) (zero_le_one.trans (le_max_right _ _))

theorem observationWeight_mono (h : ∀ c, (t c).sources ⊆ (t' c).sources) :
    observationWeight t ≤ observationWeight t' :=
  List.sum_le_sum fun c _ => min_le_min le_rfl (by exact_mod_cast Finset.card_le_card (h c))

end Tallies

section Real

/-- The functions themselves, on the real numbers. -/
noncomputable def realMaths : ScoreMaths ℝ where
  halfPow x := ((1 / 2 : ℚ) : ℝ) ^ x
  exp := Real.exp
  normalCdf := ProbabilityTheory.cdf (ProbabilityTheory.gaussianReal 0 1)

theorem realMaths_decays : realMaths.Decays := fun x hx =>
  ⟨Real.rpow_pos_of_pos (by norm_num) x, Real.rpow_le_one (by norm_num) (by norm_num) hx⟩

theorem realMaths_cdfRange : realMaths.CdfRange := fun x =>
  ⟨ProbabilityTheory.cdf_nonneg _ x, ProbabilityTheory.cdf_le_one _ x⟩

theorem monotone_normalCdf : Monotone realMaths.normalCdf := ProbabilityTheory.monotone_cdf _

theorem isExponential_exp : IsExponential Real.exp where
  map_add := Real.exp_add
  one_add_le x := by
    have := Real.add_one_le_exp x
    linarith

def hackathon : ScoreEvent ℝ where
  component := "execution"
  delta := 55
  occurredAt := 0
  sourceKey := "devpost"

/-- One source tells of two of them. -/
def hackathons : List (ScoreEvent ℝ) := [hackathon, { hackathon with delta := 40 }]

end Real

section Multiset

variable {K : Type*} [Field K] [LinearOrder K] [FloorRing K]
variable {m : ScoreMaths K} {cohort : Cohort K} {t t' : Component → Tally K}

theorem certainty_congr (h : ∀ c, (t' c).sources = (t c).sources) :
    (scored m cohort t').confidence = (scored m cohort t).confidence ∧
    (scored m cohort t').coldStart = (scored m cohort t).coldStart := by
  have hweight : observationWeight t' = observationWeight t := by simp only [observationWeight, h]
  have hindependent : independentSources t' = independentSources t := by
    simp only [independentSources, h]
  exact ⟨by simp only [scored, hweight], by simp only [scored, hindependent]⟩

variable [IsStrictOrderedRing K]

theorem score_mono (hcdf : Monotone m.normalCdf) (h : posterior cohort t ≤ posterior cohort t') :
    (scored m cohort t).score ≤ (scored m cohort t').score := by
  have hz := hcdf (zScore_mono h)
  exact roundHalfEven_mono (by linarith)

theorem confidence_mono (hexp : Monotone m.exp) (h : observationWeight t ≤ observationWeight t') :
    (scored m cohort t).confidence ≤ (scored m cohort t').confidence := by
  have hle : m.exp (-observationWeight t' / 6) ≤ m.exp (-observationWeight t / 6) :=
    hexp (by linarith)
  exact roundToEven_mono (by linarith)

/-- Between tallies that differ in their numerators the whole result follows the posterior. -/
theorem scored_mono (hcdf : Monotone m.normalCdf) (h : posterior cohort t ≤ posterior cohort t')
    (hsources : ∀ c, (t c).sources = (t' c).sources) :
    (scored m cohort t).score ≤ (scored m cohort t').score ∧
    (scored m cohort t).ciLow ≤ (scored m cohort t').ciLow ∧
    (scored m cohort t).ciHigh ≤ (scored m cohort t').ciHigh ∧
    (scored m cohort t').confidence = (scored m cohort t).confidence ∧
    (scored m cohort t').coldStart = (scored m cohort t).coldStart := by
  have hweight : observationWeight t = observationWeight t' := by
    simp only [observationWeight, hsources]
  have hscore := score_mono hcdf h
  refine ⟨hscore, max_le_max le_rfl ?_, min_le_min le_rfl ?_,
    certainty_congr fun c => (hsources c).symm⟩
  · rw [hweight]
    exact sub_le_sub_right hscore _
  · rw [hweight]
    exact add_le_add_left hscore _

/-- The same events in another order have the same result; a larger delta in the place of
another lowers neither the score nor its bounds and leaves the certainty alone. -/
theorem founder_score_multiset (m : ScoreMaths K) (cohort : Cohort K) (now : Timestamp)
    (hpow : m.Decays) (hcdf : Monotone m.normalCdf) :
    (∀ events events' : List (ScoreEvent K), events.Perm events' →
      computeFounderScore m cohort events now = computeFounderScore m cohort events' now) ∧
    ∀ (before after : List (ScoreEvent K)) (e : ScoreEvent K) (delta : K), e.delta ≤ delta →
      ∃ r r', computeFounderScore m cohort (before ++ e :: after) now = some r ∧
        computeFounderScore m cohort (before ++ { e with delta } :: after) now = some r' ∧
        r.score ≤ r'.score ∧ r.ciLow ≤ r'.ciLow ∧ r.ciHigh ≤ r'.ciHigh ∧
        r'.confidence = r.confidence ∧ r'.coldStart = r.coldStart := by
  constructor
  · intro events events' h
    rw [computeFounderScore_eq, computeFounderScore_eq, tally_perm h]
  · intro before after e delta hdelta
    refine ⟨_, _, computeFounderScore_eq m cohort _ now, computeFounderScore_eq m cohort _ now, ?_⟩
    rw [tally_middle, tally_middle]
    have hsources (c : Component) : (tally m (e :: (before ++ after)) now c).sources =
        (tally m ({ e with delta } :: (before ++ after)) now c).sources := by
      by_cases hc : e.component = c.key
      · rw [tally_cons_self hc, tally_cons_self (by exact hc)]
      · rw [tally_cons_other hc, tally_cons_other (by exact hc)]
    exact scored_mono hcdf
      (posterior_mono (fun c => componentValue_raise hpow hdelta) hsources) hsources

theorem hackathon_improves :
    computeFounderScore realMaths {} hackathons.reverse 0 =
      computeFounderScore realMaths {} hackathons 0 ∧
    ∃ r r', computeFounderScore realMaths {} (hackathons ++ hackathon :: []) 0 = some r ∧
      computeFounderScore realMaths {} (hackathons ++ { hackathon with delta := 65 } :: []) 0 =
        some r' ∧
      r.score ≤ r'.score ∧ r.ciLow ≤ r'.ciLow ∧ r.ciHigh ≤ r'.ciHigh ∧
      r'.confidence = r.confidence ∧ r'.coldStart = r.coldStart := by
  obtain ⟨same, raised⟩ := founder_score_multiset realMaths {} 0 realMaths_decays monotone_normalCdf
  exact ⟨same _ _ hackathons.reverse_perm, raised hackathons [] hackathon 65
    (by norm_num [hackathon])⟩

end Multiset

section Certainty

variable {K : Type*} [Field K] [LinearOrder K]
variable {m : ScoreMaths K} {cohort : Cohort K} {t t' : Component → Tally K}
variable {events : List (ScoreEvent K)} {now : Timestamp} {e : ScoreEvent K} {c : Component}

theorem sources_cons : (tally m events now c).sources ⊆ (tally m (e :: events) now c).sources := by
  by_cases hc : e.component = c.key
  · rw [tally_cons_self hc]
    exact Finset.subset_insert _ _
  · rw [tally_cons_other hc]

/-- An event from a source that its component has heard brings no source. -/
theorem sources_cons_of_mem {f : ScoreEvent K} (hf : f ∈ events)
    (hcomponent : f.component = e.component) (hsource : f.sourceKey = e.sourceKey) :
    (tally m (e :: events) now c).sources = (tally m events now c).sources := by
  by_cases hc : e.component = c.key
  · have hmem : e.sourceKey ∈ (tally m events now c).sources := by
      simp only [tally, byComponent, List.mem_toFinset, List.mem_map, List.mem_filter,
        decide_eq_true_eq]
      exact ⟨f, ⟨hf, hcomponent.trans hc⟩, hsource⟩
    rw [tally_cons_self hc]
    exact Finset.insert_eq_of_mem hmem
  · rw [tally_cons_other hc]

theorem componentValue_neutral (hmean : 0 ≤ cohort.mean) (hmean' : cohort.mean ≤ 100)
    (hneutral : ∀ e ∈ events, e.delta = cohort.mean) :
    componentValue cohort (tally m events now) c = cohort.mean := by
  have hclamp : ∀ e ∈ byComponent events c, clampedDelta e = cohort.mean := by
    intro e he
    rw [clampedDelta, hneutral e (List.mem_filter.mp he).1, min_eq_right hmean', max_eq_right hmean]
  have hnumerator : (tally m events now c).numerator =
      cohort.mean * (tally m events now c).denominator := by
    simp only [tally, ← List.sum_map_mul_left]
    exact congrArg List.sum (List.map_congr_left fun e he => by rw [hclamp e he])
  unfold componentValue Tally.mean
  split
  · rfl
  · rename_i hne
    rw [Option.getD_some, hnumerator, mul_div_cancel_right₀ _ hne]

variable [FloorRing K]

theorem coldStart_mono (h : ∀ c, (t c).sources ⊆ (t' c).sources)
    (hcold : (scored m cohort t').coldStart = true) : (scored m cohort t).coldStart = true := by
  have hcard := Finset.card_le_card (independentSources_mono h)
  simp only [scored, decide_eq_true_eq] at hcold ⊢
  omega

variable [IsStrictOrderedRing K]

theorem posterior_neutral (hmean : 0 ≤ cohort.mean) (hmean' : cohort.mean ≤ 100)
    (hneutral : ∀ e ∈ events, e.delta = cohort.mean) :
    posterior cohort (tally m events now) = cohort.mean := by
  have hweight := observationWeight_nonneg (tally m events now)
  rw [posterior, weightedMean_eq_mean fun c => componentValue_neutral hmean hmean' hneutral]
  exact shrink_self (ne_of_gt (by linarith))

/-- Where the posterior is the same, more weight does not widen the interval. -/
theorem interval_le (hexp : Monotone m.exp) (hposterior : posterior cohort t' = posterior cohort t)
    (hweight : observationWeight t ≤ observationWeight t') :
    (scored m cohort t').score = (scored m cohort t).score ∧
    (scored m cohort t').ciHigh - (scored m cohort t').ciLow ≤
      (scored m cohort t).ciHigh - (scored m cohort t).ciLow := by
  have hwidth : roundHalfEven (45 + 125 * (1 - (1 - m.exp (-observationWeight t' / 6)))) ≤
      roundHalfEven (45 + 125 * (1 - (1 - m.exp (-observationWeight t / 6)))) := by
    have := hexp (show -observationWeight t' / 6 ≤ -observationWeight t / 6 by linarith)
    exact roundHalfEven_mono (by linarith)
  have hscore : (scored m cohort t').score = (scored m cohort t).score := by
    simp only [scored, zScore, hposterior]
  refine ⟨hscore, ?_⟩
  have hlow := max_le_max (le_refl (300 : Int))
    (sub_le_sub_left hwidth (scored m cohort t).score)
  have hhigh := min_le_min (le_refl (900 : Int))
    (add_le_add_right hwidth (scored m cohort t).score)
  calc (scored m cohort t').ciHigh - (scored m cohort t').ciLow
      = min 900 ((scored m cohort t).score + _) - max 300 ((scored m cohort t).score - _) := by
        rw [← hscore]
        rfl
    _ ≤ _ := sub_le_sub hhigh hlow

/-- An event never lowers the confidence or makes a warm start cold, and changes neither when
its source is known in its component. Events at the cohort's mean leave the score of nobody's
events, in an interval that is not wider. -/
theorem founder_score_certainty (m : ScoreMaths K) (cohort : Cohort K) (now : Timestamp)
    (hexp : Monotone m.exp) :
    (∀ (before after : List (ScoreEvent K)) (e : ScoreEvent K),
      ∃ r r', computeFounderScore m cohort (before ++ after) now = some r ∧
        computeFounderScore m cohort (before ++ e :: after) now = some r' ∧
        r.confidence ≤ r'.confidence ∧ (r'.coldStart = true → r.coldStart = true) ∧
        ((∃ f ∈ before ++ after, f.component = e.component ∧ f.sourceKey = e.sourceKey) →
          r'.confidence = r.confidence ∧ r'.coldStart = r.coldStart)) ∧
    (0 ≤ cohort.mean → cohort.mean ≤ 100 →
      ∀ events : List (ScoreEvent K), (∀ e ∈ events, e.delta = cohort.mean) →
        ∃ r r', computeFounderScore m cohort [] now = some r ∧
          computeFounderScore m cohort events now = some r' ∧
          r'.score = r.score ∧ r'.ciHigh - r'.ciLow ≤ r.ciHigh - r.ciLow) := by
  constructor
  · intro before after e
    refine ⟨_, _, computeFounderScore_eq m cohort _ now, computeFounderScore_eq m cohort _ now, ?_⟩
    rw [tally_middle]
    refine ⟨confidence_mono hexp (observationWeight_mono fun c => sources_cons),
      coldStart_mono fun c => sources_cons, ?_⟩
    rintro ⟨f, hf, hcomponent, hsource⟩
    exact certainty_congr fun c => sources_cons_of_mem hf hcomponent hsource
  · intro hmean hmean' events hneutral
    refine ⟨_, _, computeFounderScore_eq m cohort _ now, computeFounderScore_eq m cohort _ now, ?_⟩
    refine interval_le hexp ?_ (observationWeight_mono fun c => ?_)
    · rw [posterior_neutral hmean hmean' hneutral,
        posterior_neutral hmean hmean' fun e he => absurd he List.not_mem_nil]
    · simp [tally, byComponent]

/-- A third report of the source adds none. -/
theorem hackathon_adds_certainty :
    ∃ r r', computeFounderScore realMaths {} (hackathons ++ []) 0 = some r ∧
      computeFounderScore realMaths {} (hackathons ++ hackathon :: []) 0 = some r' ∧
      r'.confidence = r.confidence ∧ r'.coldStart = r.coldStart := by
  obtain ⟨r, r', hr, hr', -, -, repeated⟩ :=
    (founder_score_certainty realMaths {} 0 Real.exp_monotone).1 hackathons [] hackathon
  exact ⟨r, r', hr, hr', repeated ⟨hackathon, List.mem_cons_self, rfl, rfl⟩⟩

end Certainty

section Bounds

variable {K : Type*} [Field K] [LinearOrder K] [IsStrictOrderedRing K] [FloorRing K]
variable {m : ScoreMaths K} {cohort : Cohort K} {t : Component → Tally K}

theorem score_mem (cohort : Cohort K) (t : Component → Tally K) (hcdf : m.CdfRange) :
    300 ≤ (scored m cohort t).score ∧ (scored m cohort t).score ≤ 900 := by
  obtain ⟨hlow, hhigh⟩ := hcdf (zScore cohort t)
  constructor
  · exact le_roundHalfEven (by push_cast; linarith)
  · exact roundHalfEven_le (by push_cast; linarith)

theorem interval_mem (hcdf : m.CdfRange) (hexp : IsExponential m.exp) :
    300 ≤ (scored m cohort t).ciLow ∧
    (scored m cohort t).ciLow ≤ (scored m cohort t).score ∧
    (scored m cohort t).score ≤ (scored m cohort t).ciHigh ∧
    (scored m cohort t).ciHigh ≤ 900 := by
  obtain ⟨hlow, hhigh⟩ := score_mem cohort t hcdf
  have hwidth : 0 ≤ roundHalfEven (45 + 125 * (1 - (1 - m.exp (-observationWeight t / 6)))) := by
    have := hexp.nonneg (-observationWeight t / 6)
    exact le_roundHalfEven (by push_cast; linarith)
  exact ⟨le_max_left _ _, max_le hlow (by simpa [scored] using hwidth),
    le_min hhigh (by simpa [scored] using hwidth), min_le_left _ _⟩

/-- Seven components cannot carry the confidence to what rounds to 1. -/
theorem confidence_mem (hexp : IsExponential m.exp) :
    0 ≤ (scored m cohort t).confidence ∧ (scored m cohort t).confidence < 1 := by
  have hnonneg := observationWeight_nonneg t
  have hle := observationWeight_le t
  have hupper : m.exp (-observationWeight t / 6) ≤ 1 := hexp.le_one (by linarith)
  have hlower : (51 / 100 : K) ^ 5 ≤ m.exp (-observationWeight t / 6) := by
    have hbase : (51 / 100 : K) ≤ 1 + -observationWeight t / 30 := by linarith
    have hpow := hexp.pow_le 5 (x := -observationWeight t / 30) (by linarith)
    have hexponent : ((5 : Nat) : K) * (-observationWeight t / 30) = -observationWeight t / 6 := by
      push_cast
      ring
    rw [hexponent] at hpow
    exact (pow_le_pow_left₀ (by norm_num) hbase 5).trans hpow
  constructor
  · have h := le_roundToEven (d := 1000) (n := 0) (x := 1 - m.exp (-observationWeight t / 6))
      (by omega) (by push_cast; linarith)
    simpa [scored] using h
  · have h := roundToEven_lt (d := 1000) (n := 1000) (x := 1 - m.exp (-observationWeight t / 6))
      (by omega) (by
        norm_num at hlower ⊢
        linarith)
    norm_num at h
    exact h

theorem component_mem (hpow : m.Decays) {events : List (ScoreEvent K)} {now : Timestamp}
    {c : Component} {score : ComponentScore K} {v : K}
    (h : (c, score) ∈ (scored m cohort (tally m events now)).components)
    (hv : score.value = some v) : 0 ≤ v ∧ v ≤ 100 := by
  obtain ⟨c', -, heq⟩ := List.mem_map.mp h
  obtain ⟨rfl, rfl⟩ := Prod.mk.inj heq
  obtain ⟨raw, hraw, rfl⟩ := Option.map_eq_some_iff.mp hv
  obtain ⟨hlow, hhigh⟩ := mean_mem hpow hraw
  have hzero := le_roundToEven (d := 100) (n := 0) (x := raw) (by omega) (by simpa using hlow)
  have hhundred := roundToEven_le (d := 100) (n := 10000) (x := raw) (by omega)
    (by norm_num; exact hhigh)
  norm_num at hzero hhundred
  exact ⟨hzero, hhundred⟩

theorem founderAxis_mem {scores : List FounderScore}
    (inRange : ∀ s ∈ scores, 300 ≤ s.score ∧ s.score ≤ 900) :
    35 ≤ (founderAxis scores).score ∧ (founderAxis scores).score ≤ 95 := by
  refine ⟨le_founderAxis fun s hs => (inRange s hs).1, ?_⟩
  unfold founderAxis
  cases h : bestFounder scores with
  | none => norm_num
  | some best =>
      have hbest : (best.score : Rat) ≤ 900 := by
        exact_mod_cast (inRange best (bestFounder_mem h)).2
      change (35 : Rat) + ((best.score : Rat) - 300) / 600 * 60 ≤ 95
      linarith

/-- A score is well formed for every list of events, and so is the axis that is derived from
rows with such scores. -/
theorem founder_score_wellFormed (m : ScoreMaths K) (hpow : m.Decays)
    (hexp : IsExponential m.exp) (hcdf : m.CdfRange) :
    (∀ (events : List (ScoreEvent K)) (now : Timestamp),
      ∃ r, computeFounderScore m {} events now = some r ∧
        (300 ≤ r.ciLow ∧ r.ciLow ≤ r.score ∧ r.score ≤ r.ciHigh ∧ r.ciHigh ≤ 900) ∧
        (0 ≤ r.confidence ∧ r.confidence < 1) ∧
        ∀ c score v, (c, score) ∈ r.components → score.value = some v → 0 ≤ v ∧ v ≤ 100) ∧
    ∀ scores : List FounderScore, scores ≠ [] →
      (∀ s ∈ scores, ∃ (events : List (ScoreEvent K)) (now : Timestamp) (r : FounderScoreResult K),
        computeFounderScore m {} events now = some r ∧ s.score = r.score) →
      35 ≤ (founderAxis scores).score ∧ (founderAxis scores).score ≤ 95 := by
  constructor
  · intro events now
    exact ⟨_, computeFounderScore_eq m _ _ now, interval_mem hcdf hexp, confidence_mem hexp,
      fun c score v h hv => component_mem hpow h hv⟩
  · intro scores _ hscores
    refine founderAxis_mem fun s hs => ?_
    obtain ⟨events, now, r, hr, hscore⟩ := hscores s hs
    rw [computeFounderScore_eq] at hr
    cases hr
    rw [hscore]
    exact score_mem _ _ hcdf

theorem hackathon_wellFormed :
    realMaths.Decays ∧ IsExponential realMaths.exp ∧ realMaths.CdfRange ∧
    ∃ r, computeFounderScore realMaths {} [hackathon] 0 = some r ∧
      (300 ≤ r.ciLow ∧ r.ciLow ≤ r.score ∧ r.score ≤ r.ciHigh ∧ r.ciHigh ≤ 900) ∧
      (0 ≤ r.confidence ∧ r.confidence < 1) ∧
      ∀ c score v, (c, score) ∈ r.components → score.value = some v → 0 ≤ v ∧ v ≤ 100 :=
  ⟨realMaths_decays, isExponential_exp, realMaths_cdfRange,
    (founder_score_wellFormed realMaths realMaths_decays isExponential_exp
      realMaths_cdfRange).1 [hackathon] 0⟩

end Bounds

section GoodNews

variable {K : Type*} [Field K] [LinearOrder K] [IsStrictOrderedRing K]
variable {m : ScoreMaths K} {cohort : Cohort K} {events : List (ScoreEvent K)}
variable {now : Timestamp} {e : ScoreEvent K} {c : Component}

/-- Good news about a component does not lower its value. -/
theorem componentValue_le_cons (hpow : m.Decays) (hmean : cohort.mean ≤ 100)
    (hcohort : cohort.mean ≤ e.delta)
    (hvalue : e.component = c.key → ∀ v, (tally m events now c).mean = some v → v ≤ e.delta) :
    componentValue cohort (tally m events now) c ≤
      componentValue cohort (tally m (e :: events) now) c := by
  by_cases hc : e.component = c.key
  · have hweight : 0 ≤ effectiveWeight m now c e := effectiveWeight_nonneg hpow
    have hclamp : cohort.mean ≤ clampedDelta e := le_clampedDelta hcohort hmean
    simp only [componentValue, tally_cons_self hc, Tally.mean]
    have hnonneg : 0 ≤ (tally m events now c).denominator := denominator_nonneg hpow
    obtain hpos | hzero := hnonneg.lt_or_eq
    · have hmean' : (tally m events now c).mean =
          some ((tally m events now c).numerator / (tally m events now c).denominator) :=
        Tally.mean_eq_some.mpr ⟨hpos.ne', rfl⟩
      have hle := le_clampedDelta (hvalue hc _ hmean') (mean_mem hpow hmean').2
      rw [if_neg hpos.ne', if_neg (by linarith), Option.getD_some, Option.getD_some,
        add_comm (clampedDelta e * _), add_comm (effectiveWeight m now c e)]
      exact div_le_join hpos hweight hle
    · have hnumerator : (tally m events now c).numerator = 0 := by
        have hle : (tally m events now c).numerator ≤ 100 * (tally m events now c).denominator :=
          numerator_le hpow
        rw [← hzero, mul_zero] at hle
        exact le_antisymm hle (numerator_nonneg hpow)
      rw [if_pos hzero.symm, ← hzero, hnumerator, add_zero, add_zero, Option.getD_none]
      split
      · exact le_rfl
      · rename_i hne
        rwa [Option.getD_some, mul_div_cancel_right₀ _ hne]
  · rw [componentValue, componentValue, tally_cons_other hc]

theorem posterior_le_iff {t t' : Component → Tally K} :
    posterior cohort t ≤ posterior cohort t' ↔ Outweighs cohort t t' :=
  shrink_le_shrink_iff (by norm_num) (observationWeight_nonneg t) (observationWeight_nonneg t')

theorem outweighs_of_le {t t' : Component → Tally K}
    (hmean : weightedMean cohort t ≤ weightedMean cohort t')
    (hweight : observationWeight t ≤ observationWeight t')
    (h : observationWeight t' = observationWeight t ∨ cohort.mean ≤ weightedMean cohort t) :
    Outweighs cohort t t' := by
  have hnonneg := observationWeight_nonneg t
  have hright : 0 ≤ observationWeight t' * (4 + observationWeight t) *
      (weightedMean cohort t' - weightedMean cohort t) :=
    mul_nonneg (mul_nonneg (by linarith) (by linarith)) (by linarith)
  refine le_trans ?_ hright
  obtain heq | hle := h
  · rw [heq, sub_self, mul_zero, zero_mul]
  · exact mul_nonpos_of_nonneg_of_nonpos (by linarith) (by linarith)

variable [FloorRing K]

/-- Good news raises the weighted mean of the components and the weight it has against the
prior. The score follows the posterior, which falls where the mean is below the cohort's and
the weight gains more than the mean; without new weight, or with a mean at least the
cohort's, it does not. -/
theorem good_news_score (m : ScoreMaths K) (cohort : Cohort K) (now : Timestamp)
    (hpow : m.Decays) (hcdf : Monotone m.normalCdf) (hcohort : cohort.mean ≤ 100)
    (before after : List (ScoreEvent K)) (e : ScoreEvent K) (hdelta : cohort.mean ≤ e.delta)
    (hvalue : ∀ c v, e.component = c.key → (tally m (before ++ after) now c).mean = some v →
      v ≤ e.delta) :
    ∃ r r', computeFounderScore m cohort (before ++ after) now = some r ∧
      computeFounderScore m cohort (before ++ e :: after) now = some r' ∧
      (Outweighs cohort (tally m (before ++ after) now) (tally m (before ++ e :: after) now) →
        r.score ≤ r'.score) ∧
      (¬ Outweighs cohort (tally m (before ++ after) now) (tally m (before ++ e :: after) now) →
        r'.score ≤ r.score) ∧
      (observationWeight (tally m (before ++ e :: after) now) =
          observationWeight (tally m (before ++ after) now) ∨
        cohort.mean ≤ weightedMean cohort (tally m (before ++ after) now) →
        Outweighs cohort (tally m (before ++ after) now) (tally m (before ++ e :: after) now)) := by
  refine ⟨_, _, computeFounderScore_eq m cohort _ now, computeFounderScore_eq m cohort _ now, ?_⟩
  rw [tally_middle, ← posterior_le_iff]
  refine ⟨score_mono hcdf, fun h => score_mono hcdf (le_of_not_ge h), fun h => ?_⟩
  exact posterior_le_iff.mpr (outweighs_of_le
    (weightedMean_mono fun c =>
      componentValue_le_cons hpow hcohort hdelta fun hc v hv => hvalue c v hc hv)
    (observationWeight_mono fun c => sources_cons) h)

/-- A hackathon that was won raises the score, for its source was known. -/
theorem hackathon_is_good_news :
    ∃ r r', computeFounderScore realMaths {} (hackathons ++ []) 0 = some r ∧
      computeFounderScore realMaths {} (hackathons ++ { hackathon with delta := 100 } :: []) 0 =
        some r' ∧ r.score ≤ r'.score := by
  obtain ⟨r, r', hr, hr', raised, -, outweighs⟩ := good_news_score realMaths {} 0 realMaths_decays
    monotone_normalCdf (by norm_num) hackathons [] { hackathon with delta := 100 } (by norm_num)
    fun c v _ hv => (mean_mem realMaths_decays hv).2
  refine ⟨r, r', hr, hr', raised (outweighs (Or.inl ?_))⟩
  have known (c : Component) : (tally realMaths
      (hackathons ++ { hackathon with delta := 100 } :: []) 0 c).sources =
      (tally realMaths (hackathons ++ []) 0 c).sources := by
    rw [tally_middle]
    exact sources_cons_of_mem List.mem_cons_self rfl rfl
  simp only [observationWeight, known]

end GoodNews

section Outweighed

/-- Increasing, 1/2 at 0 and between 0 and 1. -/
def softCdf (x : Rat) : Rat := if 0 ≤ x then 1 - 1 / (2 * (1 + x)) else 1 / (2 * (1 - x))

def softMaths : ScoreMaths Rat where
  halfPow _ := 1
  exp _ := 1
  normalCdf := softCdf

theorem softCdf_range (x : Rat) : 0 ≤ softCdf x ∧ softCdf x ≤ 1 := by
  unfold softCdf
  split
  · have hpos : (0 : Rat) < 2 * (1 + x) := by linarith
    have hle : 1 / (2 * (1 + x)) ≤ 1 := (div_le_one hpos).mpr (by linarith)
    have hnonneg : 0 ≤ 1 / (2 * (1 + x)) := by positivity
    constructor <;> linarith
  · have hpos : (0 : Rat) < 2 * (1 - x) := by linarith
    exact ⟨by positivity, (div_le_one hpos).mpr (by linarith)⟩

theorem softCdf_strictMono : StrictMono softCdf := by
  intro x y hxy
  unfold softCdf
  split
  · rw [if_pos (by linarith)]
    have := one_div_lt_one_div_of_lt (show (0 : Rat) < 2 * (1 + x) by linarith)
      (show 2 * (1 + x) < 2 * (1 + y) by linarith)
    linarith
  · split
    · have hx := one_div_lt_one_div_of_lt (show (0 : Rat) < 2 by norm_num)
        (show (2 : Rat) < 2 * (1 - x) by linarith)
      have hy := one_div_le_one_div_of_le (show (0 : Rat) < 2 by norm_num)
        (show (2 : Rat) ≤ 2 * (1 + y) by linarith)
      linarith
    · exact one_div_lt_one_div_of_lt (by linarith) (by linarith)

def failedProject : ScoreEvent Rat where
  component := "execution"
  delta := 0
  occurredAt := 0
  sourceKey := "postmortem"

/-- At the cohort's mean, about a component without evidence. -/
def interview : ScoreEvent Rat where
  component := "communication"
  delta := 50
  occurredAt := 0
  sourceKey := "interview"

theorem good_news_can_lower_score :
    ¬ ∀ m : ScoreMaths Rat, m.Decays → StrictMono m.normalCdf → m.CdfRange →
      m.normalCdf 0 = 1 / 2 → ∀ (before after : List (ScoreEvent Rat)) (e : ScoreEvent Rat)
        (now : Timestamp), 50 ≤ e.delta →
        (∀ c v, e.component = c.key → (tally m (before ++ after) now c).mean = some v →
          v ≤ e.delta) →
        ∀ r r', computeFounderScore m {} (before ++ after) now = some r →
          computeFounderScore m {} (before ++ e :: after) now = some r' → r.score ≤ r'.score := by
  intro h
  have hpow : softMaths.Decays := fun x _ => by norm_num [softMaths]
  have hle := h softMaths hpow softCdf_strictMono softCdf_range
    (by norm_num [softMaths, softCdf]) [failedProject] [] interview 0 (by norm_num [interview])
    (fun c v hc hv => by
      cases c <;>
        simp [interview, Component.key, Tally.mean, tally, byComponent, failedProject] at hc hv)
    _ _ (computeFounderScore_eq softMaths {} _ 0) (computeFounderScore_eq softMaths {} _ 0)
  have hlt : (scored softMaths {} (tally softMaths ([failedProject] ++ interview :: []) 0)).score <
      (scored softMaths {} (tally softMaths ([failedProject] ++ []) 0)).score := by decide +kernel
  exact absurd hle (not_le.mpr hlt)

end Outweighed

end DolphinVC
