import DolphinVC.Services.FounderScore
import DolphinVC.Verification.TrustOrder

/-!
# Trust is monotone

The trust in a claim is a product of factors that are not negative, bounded on both sides and
rounded. Each argument of `compute_trust` enters one factor, and monotonically: what the
evidence leaves open only falls with more or more reliable evidence, whichever groups have been
seen before. Bounding and rounding are monotone too, and the thresholds of the statuses rise.
-/

namespace DolphinVC

/-- The arguments of `compute_trust`. -/
structure TrustCall where
  tier : SourceTier
  category : ClaimCategory
  evidence : List TrustEvidence
  observedAt : Option Timestamp
  extractionConfidence : Rat
  contradicted : Bool := false
  independentlyVerified : Bool := false
  now : Timestamp

def TrustCall.trust (exp : Rat → Rat) (q : TrustCall) : TrustResult :=
  computeTrust exp q.tier q.category q.evidence (q.observedAt.map (ageDays q.now))
    q.extractionConfidence q.contradicted q.independentlyVerified

/-- The second call has one argument changed in favour of the claim. -/
inductive Strengthened : TrustCall → TrustCall → Prop where
  | evidence (q : TrustCall) (item : TrustEvidence) :
      Strengthened q { q with evidence := q.evidence ++ [item] }
  | reliability (q : TrustCall) (before after : List TrustEvidence) (item : TrustEvidence)
      (r : Rat) (at_item : q.evidence = before ++ item :: after) (raised : item.reliability ≤ r) :
      Strengthened q { q with evidence := before ++ { item with reliability := r } :: after }
  | confidence (q : TrustCall) (c : Rat) (raised : q.extractionConfidence ≤ c) :
      Strengthened q { q with extractionConfidence := c }
  | observed (q : TrustCall) (t t' : Timestamp) (observed : q.observedAt = some t)
      (later : t ≤ t') : Strengthened q { q with observedAt := some t' }
  | tier (q : TrustCall) (tier : SourceTier) (higher : tierBase q.tier ≤ tierBase tier) :
      Strengthened q { q with tier }
  | verified (q : TrustCall) : Strengthened q { q with independentlyVerified := true }

/-- The statuses that a score decides, from the lowest. -/
def scoredStatuses : List ClaimStatus := [.unverifiable, .claimed, .corroborated, .verified]

/-- What holds for one call and all calls to compare it with. -/
structure MonotoneAt (exp : Rat → Rat) (q : TrustCall) : Prop where
  strengthened : ∀ q', Strengthened q q' → (q.trust exp).score ≤ (q'.trust exp).score
  contradicted :
    ({ q with contradicted := true }.trust exp).score ≤ (q.trust exp).score ∧
      ({ q with contradicted := true }.trust exp).status = .contradicted
  lower : 2 / 100 ≤ (q.trust exp).score
  upper : (q.trust exp).score ≤ 99 / 100
  scored : q.contradicted = false → (q.trust exp).status ∈ scoredStatuses
  status : ∀ q' : TrustCall, q.contradicted = false → q'.contradicted = false →
    (q.trust exp).score ≤ (q'.trust exp).score →
      scoredStatuses.idxOf (q.trust exp).status ≤ scoredStatuses.idxOf (q'.trust exp).status

/-- The function for the recency decreases with the age and has values in `(0, 1]`. -/
structure Decaying (exp : Rat → Rat) : Prop where
  mono : ∀ x y, x ≤ y → y ≤ 0 → exp x ≤ exp y
  pos : ∀ x ≤ 0, 0 < exp x
  le_one : ∀ x ≤ 0, exp x ≤ 1

section Evidence

theorem TrustEvidence.clamped_nonneg (item : TrustEvidence) : 0 ≤ item.clamped := le_max_left _ _

theorem TrustEvidence.clamped_le_one (item : TrustEvidence) : item.clamped ≤ 1 :=
  max_le zero_le_one (min_le_left _ _)

theorem TrustEvidence.clamped_mono {item item' : TrustEvidence}
    (h : item.reliability ≤ item'.reliability) : item.clamped ≤ item'.clamped :=
  max_le_max_left 0 (min_le_min_left 1 h)

/-- The factor of one item. -/
def itemFactor (seen : List String) (item : TrustEvidence) : Rat :=
  1 - item.clamped * (if item.independenceGroup ∈ seen then 1 / 4 else 1)

variable {seen : List String} {item item' : TrustEvidence}

theorem itemFactor_nonneg : 0 ≤ itemFactor seen item := by
  have h0 := item.clamped_nonneg
  have h1 := item.clamped_le_one
  unfold itemFactor
  split <;> linarith

theorem itemFactor_le_one : itemFactor seen item ≤ 1 := by
  have h0 := item.clamped_nonneg
  unfold itemFactor
  split <;> linarith

theorem itemFactor_anti (hgroup : item'.independenceGroup = item.independenceGroup)
    (h : item.reliability ≤ item'.reliability) : itemFactor seen item' ≤ itemFactor seen item := by
  have hclamped := TrustEvidence.clamped_mono h
  unfold itemFactor
  rw [hgroup]
  split <;> linarith

theorem leftOpen_cons (seen : List String) (item : TrustEvidence) (rest : List TrustEvidence) :
    leftOpen seen (item :: rest) =
      itemFactor seen item * leftOpen (item.independenceGroup :: seen) rest := rfl

theorem leftOpen_nonneg (seen : List String) (evidence : List TrustEvidence) :
    0 ≤ leftOpen seen evidence := by
  induction evidence generalizing seen with
  | nil => exact zero_le_one
  | cons item rest ih => exact mul_nonneg itemFactor_nonneg (ih _)

theorem leftOpen_le_one (seen : List String) (evidence : List TrustEvidence) :
    leftOpen seen evidence ≤ 1 := by
  induction evidence generalizing seen with
  | nil => exact le_refl 1
  | cons item rest ih => exact mul_le_one₀ itemFactor_le_one (leftOpen_nonneg _ _) (ih _)

theorem leftOpen_append_le (seen : List String) (evidence : List TrustEvidence)
    (item : TrustEvidence) : leftOpen seen (evidence ++ [item]) ≤ leftOpen seen evidence := by
  induction evidence generalizing seen with
  | nil => exact leftOpen_le_one seen [item]
  | cons first rest ih =>
      rw [List.cons_append, leftOpen_cons, leftOpen_cons]
      exact mul_le_mul_of_nonneg_left (ih _) itemFactor_nonneg

theorem leftOpen_raise_le (seen : List String) (before after : List TrustEvidence)
    (hgroup : item'.independenceGroup = item.independenceGroup)
    (h : item.reliability ≤ item'.reliability) :
    leftOpen seen (before ++ item' :: after) ≤ leftOpen seen (before ++ item :: after) := by
  induction before generalizing seen with
  | nil =>
      rw [List.nil_append, List.nil_append, leftOpen_cons, leftOpen_cons, hgroup]
      exact mul_le_mul_of_nonneg_right (itemFactor_anti hgroup h) (leftOpen_nonneg _ _)
  | cons first rest ih =>
      rw [List.cons_append, List.cons_append, leftOpen_cons, leftOpen_cons]
      exact mul_le_mul_of_nonneg_left (ih _) itemFactor_nonneg

theorem corroboration_nonneg (evidence : List TrustEvidence) : 0 ≤ corroboration evidence := by
  rw [corroboration_eq]
  linarith [leftOpen_le_one [] evidence]

end Evidence

section Factors

/-- The bounds and the rounding at the end. -/
def boundedTrust (x : Rat) : Rat := round3 (max (2 / 100) (min (99 / 100) x))

theorem boundedTrust_mono {x y : Rat} (h : x ≤ y) : boundedTrust x ≤ boundedTrust y :=
  roundTo_mono (max_le_max_left _ (min_le_min_left _ h))

theorem le_boundedTrust (x : Rat) : 2 / 100 ≤ boundedTrust x := by
  have hgrid : ((20 : Int) : Rat) / (1000 : Nat) ≤ max (2 / 100) (min (99 / 100) x) :=
    le_trans (by norm_num) (le_max_left _ _)
  exact le_trans (by norm_num) (le_roundTo (by omega) hgrid)

theorem boundedTrust_le (x : Rat) : boundedTrust x ≤ 99 / 100 := by
  have hgrid : max (2 / 100) (min (99 / 100) x) ≤ ((990 : Int) : Rat) / (1000 : Nat) :=
    le_trans (max_le (by norm_num) (min_le_left _ _)) (by norm_num : (99 / 100 : Rat) ≤ _)
  exact le_trans (roundTo_le (by omega) hgrid) (by norm_num)

/-- The factors of a trust score. -/
structure TrustFactors where
  base : Rat
  corroboration : Rat
  recency : Rat
  extraction : Rat
  multiplier : Rat

/-- Every factor is at least that of the other score, and none is negative. -/
structure TrustFactors.Below (f g : TrustFactors) : Prop where
  base : f.base ≤ g.base
  corroboration : f.corroboration ≤ g.corroboration
  recency : f.recency ≤ g.recency
  extraction : f.extraction ≤ g.extraction
  multiplier : f.multiplier ≤ g.multiplier

structure TrustFactors.Nonneg (f : TrustFactors) : Prop where
  base : 0 ≤ f.base
  corroboration : 0 ≤ f.corroboration
  recency : 0 ≤ f.recency
  extraction : 0 ≤ f.extraction
  multiplier : 0 ≤ f.multiplier

def TrustFactors.product (f : TrustFactors) : Rat :=
  f.base * (35 / 100 + 65 / 100 * f.corroboration) * (6 / 10 + 4 / 10 * f.recency) *
    f.extraction * f.multiplier

theorem TrustFactors.product_mono {f g : TrustFactors} (nonneg : f.Nonneg) (h : f.Below g) :
    f.product ≤ g.product := by
  obtain ⟨hb, hc, hr, he, hm⟩ := nonneg
  have hcorroboration : 35 / 100 + 65 / 100 * f.corroboration ≤
      35 / 100 + 65 / 100 * g.corroboration := by linarith [h.corroboration]
  have hrecency : 6 / 10 + 4 / 10 * f.recency ≤ 6 / 10 + 4 / 10 * g.recency := by
    linarith [h.recency]
  have hc' : 0 ≤ 35 / 100 + 65 / 100 * f.corroboration := by linarith
  have hr' : 0 ≤ 6 / 10 + 4 / 10 * f.recency := by linarith
  have hfirst := mul_le_mul h.base hcorroboration hc' (hb.trans h.base)
  have hsecond := mul_le_mul hfirst hrecency hr'
    (mul_nonneg (hb.trans h.base) (hc'.trans hcorroboration))
  have hthird := mul_le_mul hsecond h.extraction he
    (mul_nonneg (mul_nonneg (hb.trans h.base) (hc'.trans hcorroboration)) (hr'.trans hrecency))
  exact mul_le_mul hthird h.multiplier hm
    (mul_nonneg (mul_nonneg (mul_nonneg (hb.trans h.base) (hc'.trans hcorroboration))
      (hr'.trans hrecency)) (he.trans h.extraction))

end Factors

section Trust

variable (exp : Rat → Rat)

def recencyOf (category : ClaimCategory) (age : Option Nat) : Rat :=
  match age with
  | none => 1 / 2
  | some age => exp (-(age : Rat) / halfLife category)

def TrustCall.factors (q : TrustCall) : TrustFactors where
  base := tierBase q.tier
  corroboration := DolphinVC.corroboration q.evidence
  recency := recencyOf exp q.category (q.observedAt.map (ageDays q.now))
  extraction := max 0 (min 1 q.extractionConfidence)
  multiplier := (if q.contradicted then 45 / 100 else 1) *
    (if q.independentlyVerified then 115 / 100 else 1)

variable {exp} {q q' : TrustCall}

theorem TrustCall.score_eq : (q.trust exp).score = boundedTrust (q.factors exp).product := rfl

theorem tierBase_nonneg (tier : SourceTier) : 0 ≤ tierBase tier := by
  cases tier <;> norm_num [tierBase]

theorem age_nonpos (age : Nat) (category : ClaimCategory) :
    -(age : Rat) / halfLife category ≤ 0 :=
  div_nonpos_of_nonpos_of_nonneg (by simp) (Nat.cast_nonneg _)

theorem recencyOf_nonneg (decaying : Decaying exp) (category : ClaimCategory) (age : Option Nat) :
    0 ≤ recencyOf exp category age := by
  cases age with
  | none => norm_num [recencyOf]
  | some age => exact (decaying.pos _ (age_nonpos age category)).le

/-- A later observation is not older. -/
theorem ageDays_anti {now t t' : Timestamp} (h : t ≤ t') : ageDays now t' ≤ ageDays now t := by
  have hdays : (now - t') / 86400000000 ≤ (now - t) / 86400000000 :=
    Int.ediv_le_ediv (by omega) (Int.sub_le_sub_left h now)
  exact Int.toNat_le_toNat hdays

theorem recencyOf_anti (decaying : Decaying exp) (category : ClaimCategory) {age age' : Nat}
    (h : age' ≤ age) : recencyOf exp category (some age) ≤ recencyOf exp category (some age') := by
  have hage : (age' : Rat) ≤ age := by exact_mod_cast h
  refine decaying.mono _ _ ?_ (age_nonpos age' category)
  exact div_le_div_of_nonneg_right (by linarith) (Nat.cast_nonneg _)

theorem multiplier_nonneg (contradicted verified : Bool) :
    (0 : Rat) ≤ (if contradicted then 45 / 100 else 1) * (if verified then 115 / 100 else 1) := by
  cases contradicted <;> cases verified <;> norm_num

theorem TrustCall.factors_nonneg (decaying : Decaying exp) (q : TrustCall) :
    (q.factors exp).Nonneg where
  base := tierBase_nonneg q.tier
  corroboration := corroboration_nonneg q.evidence
  recency := recencyOf_nonneg decaying _ _
  extraction := le_max_left _ _
  multiplier := multiplier_nonneg _ _

theorem TrustFactors.Below.refl (f : TrustFactors) : f.Below f :=
  ⟨le_refl _, le_refl _, le_refl _, le_refl _, le_refl _⟩

/-- A strengthened call raises one factor. -/
theorem Strengthened.below (decaying : Decaying exp) (h : Strengthened q q') :
    (q.factors exp).Below (q'.factors exp) := by
  cases h with
  | evidence item =>
      refine { TrustFactors.Below.refl (q.factors exp) with corroboration := ?_ }
      show corroboration q.evidence ≤ corroboration (q.evidence ++ [item])
      rw [corroboration_eq, corroboration_eq]
      linarith [leftOpen_append_le [] q.evidence item]
  | reliability before after item r at_item raised =>
      refine { TrustFactors.Below.refl (q.factors exp) with corroboration := ?_ }
      show corroboration q.evidence ≤
        corroboration (before ++ { item with reliability := r } :: after)
      rw [corroboration_eq, corroboration_eq, at_item]
      have hraise : leftOpen [] (before ++ { item with reliability := r } :: after) ≤
          leftOpen [] (before ++ item :: after) := leftOpen_raise_le [] before after rfl raised
      linarith
  | confidence c raised =>
      exact { TrustFactors.Below.refl (q.factors exp) with
        extraction := max_le_max_left 0 (min_le_min_left 1 raised) }
  | observed t t' observed later =>
      refine { TrustFactors.Below.refl (q.factors exp) with recency := ?_ }
      show recencyOf exp q.category (q.observedAt.map (ageDays q.now)) ≤ _
      rw [observed]
      exact recencyOf_anti decaying q.category (ageDays_anti later)
  | tier tier higher =>
      exact { TrustFactors.Below.refl (q.factors exp) with base := higher }
  | verified =>
      refine { TrustFactors.Below.refl (q.factors exp) with multiplier := ?_ }
      show _ * (if q.independentlyVerified then 115 / 100 else 1) ≤ _ * (115 / 100 : Rat)
      cases q.contradicted <;> cases q.independentlyVerified <;> norm_num

theorem contradicted_below :
    ({ q with contradicted := true }.factors exp).Below (q.factors exp) := by
  refine { TrustFactors.Below.refl (q.factors exp) with multiplier := ?_ }
  show (45 / 100 : Rat) * _ ≤ (if q.contradicted then 45 / 100 else 1) * _
  cases q.contradicted <;> cases q.independentlyVerified <;> norm_num

/-- The status for a score without contradiction. -/
def statusOf (score : Rat) : ClaimStatus :=
  if 80 / 100 ≤ score then .verified
  else if 55 / 100 ≤ score then .corroborated
  else if 30 / 100 ≤ score then .claimed
  else .unverifiable

theorem TrustCall.status_eq (h : q.contradicted = false) :
    (q.trust exp).status = statusOf (q.trust exp).score := by
  unfold TrustCall.trust
  rw [h]
  rfl

theorem statusOf_mem (score : Rat) : statusOf score ∈ scoredStatuses := by
  unfold statusOf
  repeat' split
  all_goals decide

/-- How many thresholds the score has reached. -/
theorem idxOf_statusOf (score : Rat) :
    scoredStatuses.idxOf (statusOf score) =
      if 80 / 100 ≤ score then 3 else if 55 / 100 ≤ score then 2
      else if 30 / 100 ≤ score then 1 else 0 := by
  unfold statusOf
  repeat' split
  all_goals rfl

theorem idxOf_statusOf_mono {score score' : Rat} (h : score ≤ score') :
    scoredStatuses.idxOf (statusOf score) ≤ scoredStatuses.idxOf (statusOf score') := by
  rw [idxOf_statusOf, idxOf_statusOf]
  by_cases hverified : 80 / 100 ≤ score
  · rw [if_pos hverified, if_pos (hverified.trans h)]
  · rw [if_neg hverified]
    by_cases hcorroborated : 55 / 100 ≤ score
    · rw [if_pos hcorroborated, if_pos (hcorroborated.trans h)]
      split <;> omega
    · rw [if_neg hcorroborated]
      by_cases hclaimed : 30 / 100 ≤ score
      · rw [if_pos hclaimed, if_pos (hclaimed.trans h)]
        repeat' split
        all_goals omega
      · rw [if_neg hclaimed]
        exact Nat.zero_le _

end Trust

/-- Every argument of `compute_trust` counts in one direction. -/
theorem trust_monotone (exp : Rat → Rat) (decaying : Decaying exp) (q : TrustCall) :
    MonotoneAt exp q where
  strengthened q' h := by
    rw [TrustCall.score_eq, TrustCall.score_eq]
    exact boundedTrust_mono
      (TrustFactors.product_mono (q.factors_nonneg decaying) (h.below decaying))
  contradicted := by
    refine ⟨?_, rfl⟩
    rw [TrustCall.score_eq, TrustCall.score_eq]
    exact boundedTrust_mono
      (TrustFactors.product_mono (TrustCall.factors_nonneg decaying _) contradicted_below)
  lower := le_boundedTrust _
  upper := boundedTrust_le _
  scored h := by
    rw [q.status_eq h]
    exact statusOf_mem _
  status q' h h' hscore := by
    rw [q.status_eq h, q'.status_eq h']
    exact idxOf_statusOf_mono hscore

/-- The trust in a revenue figure that the press has repeated. -/
def pressFigure : TrustCall where
  tier := .aggregator
  category := .revenue
  evidence := [pressReport]
  observedAt := some 0
  extractionConfidence := 9 / 10
  now := 86400000000

theorem pressFigure_monotone :
    Decaying (fun x => 1 / (1 - x)) ∧ MonotoneAt (fun x => 1 / (1 - x)) pressFigure := by
  have decaying : Decaying (fun x => 1 / (1 - x)) := by
    refine ⟨fun x y hxy hy => ?_, fun x hx => ?_, fun x hx => ?_⟩
    · exact one_div_le_one_div_of_le (by linarith) (by linarith)
    · exact one_div_pos.mpr (by linarith)
    · exact (div_le_one (by linarith)).mpr (by linarith)
  exact ⟨decaying, trust_monotone _ decaying pressFigure⟩

end DolphinVC
