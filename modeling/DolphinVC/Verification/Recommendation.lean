import DolphinVC.Services.Extraction

/-!
# When the pipeline recommends to pass

`recommend` answers PASS in two places: for a fit of 0 and for an axis below 25. The axes
that the pipeline computes start at 35, 48 and 50 and rounding never crosses a whole number,
so the second place is out of reach. A fit that no gate has set to 0 is at least 40.
-/

namespace DolphinVC

open Transaction Transaction.Tx Binary64

section Axes

variable {scores : List FounderScore} {claims : List Claim}

theorem bestFounder_mem {s : FounderScore} (h : bestFounder scores = some s) : s ∈ scores := by
  have run : s ∈ scores ∨ (none : Option FounderScore) = some s := by
    unfold bestFounder at h
    generalize (none : Option FounderScore) = best at h ⊢
    induction scores generalizing best with
    | nil => exact Or.inr h
    | cons t rest ih =>
        obtain hrest | heq := ih _ h
        · exact Or.inl (List.mem_cons_of_mem t hrest)
        · cases best with
          | none =>
              cases heq
              exact Or.inl List.mem_cons_self
          | some b =>
              simp only at heq
              split at heq
              · cases heq
                exact Or.inl List.mem_cons_self
              · exact Or.inr heq
  exact run.resolve_right (fun hn => by cases hn)

theorem le_founderAxis (inRange : ∀ s ∈ scores, 300 ≤ s.score) :
    35 ≤ (founderAxis scores).score := by
  unfold founderAxis
  cases h : bestFounder scores with
  | none => norm_num
  | some best =>
      have hbest : (300 : Rat) ≤ best.score := by exact_mod_cast inRange best (bestFounder_mem h)
      show (35 : Rat) ≤ 35 + ((best.score : Rat) - 300) / 600 * 60
      linarith

theorem le_marketAxis (markets tractions : Nat) : 48 ≤ (marketAxis markets tractions).score := by
  have hm : (0 : Rat) ≤ markets := by exact_mod_cast Nat.zero_le markets
  have ht : (0 : Rat) ≤ tractions := by exact_mod_cast Nat.zero_le tractions
  refine le_min (by norm_num) ?_
  linarith

theorem le_ideaAxis (products tractions : Nat) : 50 ≤ (ideaAxis products tractions).score := by
  have hp : (0 : Rat) ≤ products := by exact_mod_cast Nat.zero_le products
  have ht : (0 : Rat) ≤ tractions := by exact_mod_cast Nat.zero_le tractions
  refine le_min (by norm_num) ?_
  linarith

/-- No stored axis is below 35. -/
theorem le_stored_axisScore (inRange : ∀ s ∈ scores, 300 ≤ s.score) (axis : AxisKind) :
    35 ≤ ((axisScore scores claims axis).stored).score := by
  have hscore : (35 : Rat) ≤ (axisScore scores claims axis).score := by
    cases axis with
    | founder => exact le_founderAxis inRange
    | market => exact le_trans (by norm_num) (le_marketAxis _ _)
    | ideaVsMarket => exact le_trans (by norm_num) (le_ideaAxis _ _)
  have hgrid : ((3500 : Int) : Rat) / (100 : Nat) ≤ (axisScore scores claims axis).score := by
    norm_num
    exact hscore
  have := le_roundTo (d := 100) (by omega) hgrid
  norm_num at this
  exact this

end Axes

section Thesis

variable {env : Env}

theorem le_softMatch (value : Option String) (allowed : List String) :
    1 / 2 ≤ softMatch env value allowed := by
  unfold softMatch
  split
  · norm_num
  · split
    · norm_num
    · split <;> norm_num

/-- The score is 0 exactly when a gate has given its reason. -/
theorem computeThesisFit_score_eq_zero {sectors : List String} {stage country : Option String}
    {thesisSectors antiSectors stages geos mustHaves : List String} {text : String} :
    (computeThesisFit env sectors stage country thesisSectors antiSectors stages geos mustHaves
        text).score = 0 ↔
      ∃ reason, (computeThesisFit env sectors stage country thesisSectors antiSectors stages geos
        mustHaves text).gateReason = some reason := by
  unfold computeThesisFit
  cases gateReason env sectors stage country thesisSectors antiSectors stages geos with
  | some reason => exact ⟨fun _ => ⟨reason, rfl⟩, fun _ => rfl⟩
  | none =>
      set coverage := mustHaves.map fun rule =>
        (rule, satisfiesRule env (env.casefold text) rule) with hcoverage
      set ratio : Rat := if coverage = [] then 1
        else (coverage.countP fun item => item.2 : Nat) / (coverage.length : Nat) with hratio
      set sectorMatch : Rat :=
        if thesisSectors = [] ∨ meets env (sectors.map env.casefold) thesisSectors then 1
        else 1 / 2 with hsector
      have hratio0 : 0 ≤ ratio := by
        rw [hratio]
        split
        · norm_num
        · positivity
      have hsector0 : 1 / 2 ≤ sectorMatch := by
        rw [hsector]
        split <;> norm_num
      have hstage : 1 / 2 ≤ softMatch env stage stages := le_softMatch stage stages
      have hgeo : 1 / 2 ≤ softMatch env country geos := le_softMatch country geos
      have hgrid : ((4000 : Int) : Rat) / (100 : Nat) ≤ 100 * (40 / 100 * sectorMatch +
          25 / 100 * softMatch env stage stages + 15 / 100 * softMatch env country geos +
          20 / 100 * ratio) := by
        norm_num
        linarith
      have hpos := le_roundTo (by omega) hgrid
      rw [← round2_eq] at hpos
      simp only [reduceCtorEq, exists_false, iff_false]
      intro hzero
      exact absurd (hpos.trans_eq hzero) (by norm_num)

/-- A fit of 0 and a reason come together, whenever there is an answer at all. -/
theorem fitOfThesis_eq_zero {thesis? : Option Thesis} {company : Company} {fit : Rat}
    {reason? : Option String} (h : fitOfThesis env thesis? company = .ok (fit, reason?)) :
    fit = 0 ↔ ∃ reason, reason? = some reason := by
  cases thesis? with
  | none =>
      cases h
      simp
  | some thesis =>
      simp only [fitOfThesis] at h
      cases hanti : iterate thesis.antiSectors with
      | error e =>
          rw [hanti] at h
          cases h
      | ok antiSectors =>
          rw [hanti] at h
          simp only [bind, Except.bind] at h
          cases hrules : rulesOf (gateReason env company.sectors company.stage company.hqCountry
              (thesis.sectors.getD []) antiSectors (thesis.stages.getD []) (thesis.geos.getD []))
              thesis.mustHaves with
          | error e =>
              rw [hrules] at h
              cases h
          | ok mustHaves =>
              rw [hrules] at h
              cases h
              exact computeThesisFit_score_eq_zero

end Thesis

section Recommend

theorem weakest_mem (a b c : AxisValue) :
    weakest a b c = a ∨ weakest a b c = b ∨ weakest a b c = c := by
  unfold weakest
  by_cases hb : b.score < a.score
  · by_cases hc : c.score < b.score <;> simp [hb, hc]
  · by_cases hc : c.score < a.score <;> simp [hb, hc]

/-- With no axis below 25, PASS stands for a fit of 0 without a critical contradiction. -/
theorem recommend_pass_iff {a b c : AxisValue} {fit : Rat} {trust : TrustSummary}
    {coldStart : Bool} {reason : Option String} (ha : 25 ≤ a.score) (hb : 25 ≤ b.score)
    (hc : 25 ≤ c.score) :
    (recommend [a, b, c] fit trust coldStart reason).decision = .pass ↔
      fit = 0 ∧ trust.contradictedCritical = false := by
  have hlow : ¬ (weakest a b c).score < 25 := by
    obtain h | h | h := weakest_mem a b c <;> rw [h] <;> linarith
  unfold recommend
  simp only [hlow, if_false]
  cases trust.contradictedCritical with
  | true => simp
  | false =>
      by_cases hfit : fit = 0
      · simp [hfit]
      · simp only [Bool.false_eq_true, if_false, hfit, false_and, iff_false]
        split
        · simp
        · split
          · simp
          · split <;> simp

end Recommend

/-- The rows that the scoring step creates for given founder scores and claims. -/
def scoredRows (opportunityId : Uuid) (id : AxisKind → Uuid) (version : AxisKind → Nat)
    (scores : List FounderScore) (claims : List Claim) : List OpportunityScore :=
  [AxisKind.founder, .market, .ideaVsMarket].map fun axis =>
    let value := (axisScore scores claims axis).stored
    { id := id axis, opportunityId, axis, score := value.score, confidence := value.confidence
      rationale := value.rationale, version := version axis }

/-- A stored axis from 25 on is read as a float from 25 on. -/
theorem le_double_axis {x : Rat} (h : 25 ≤ x) : 25 ≤ double x := by
  simpa using le_double (n := 25) (e := 0) (by norm_num) (by norm_num) (by simpa using h)

theorem recommendRows_pass_iff {opportunityId : Uuid} {id : AxisKind → Uuid}
    {version : AxisKind → Nat} {scores : List FounderScore} {claims : List Claim} {fit : Rat}
    {reason : Option String} (inRange : ∀ s ∈ scores, 300 ≤ s.score) :
    (recommendRows (scoredRows opportunityId id version scores claims) fit reason
        claims).decision = .pass ↔ fit = 0 ∧ criticalContradiction claims = false := by
  have high (axis : AxisKind) : 25 ≤ double ((axisScore scores claims axis).stored).score :=
    le_double_axis ((by norm_num : (25 : Rat) ≤ 35).trans (le_stored_axisScore inRange axis))
  exact recommend_pass_iff (high .founder) (high .market) (high .ideaVsMarket)

section Rows

variable {run : RunEnv} {o : Opportunity} {claims : List Claim}

/-- The row for one axis, as the store shows it. -/
def scoreRow (run : RunEnv) (o : Opportunity) (claims : List Claim) (axis : AxisKind) (db : Db) :
    OpportunityScore where
  id := run.id (.score axis)
  opportunityId := o.id
  axis
  score := (run.analysis.scoreAxis db o claims axis).score
  confidence := (run.analysis.scoreAxis db o claims axis).confidence
  rationale := (run.analysis.scoreAxis db o claims axis).rationale
  version := latestScoreVersion o.id axis db + 1

theorem addScores_cons_returns {P : List OpportunityScore → Prop} {axis : AxisKind}
    {rest : List AxisKind} {created : List OpportunityScore}
    (h : ∀ db, EmitsTo (fun _ => True) P
      (addScores run o claims rest (created ++ [scoreRow run o claims axis db]))) :
    EmitsTo (fun _ => True) P (addScores run o claims (axis :: rest) created) := by
  refine EmitsTo.bind (P := fun r => ∃ db, r = (run.analysis.scoreAxis db o claims axis,
    latestScoreVersion o.id axis db)) (EmitsTo.query fun db => ⟨db, rfl⟩) ?_
  rintro _ ⟨db, rfl⟩
  exact EmitsTo.bind (Emits.stage trivial).to fun _ _ => h db

/-- Whatever else happens meanwhile, the scoring step yields the rows for the founder scores that
it has read. -/
theorem scoreAxes_returns {env : Env} {parseDeck : Document → List ParsedPage} {exp : Rat → Rat}
    {age : Document → Option Nat} {composeMemo : List Claim → Recommendation → List MemoSection}
    (hanalysis : run.analysis = deterministicAnalysis env parseDeck exp age composeMemo) :
    EmitsTo (fun _ => True) (fun rows => ∃ db version, rows =
      scoredRows o.id (fun axis => run.id (.score axis)) version
        (companyFounderScores o.companyId db) claims) (scoreAxes run o claims) := by
  refine EmitsTo.bind (Emits.call _).to fun _ _ => EmitsTo.bind ?_ fun created h =>
    EmitsTo.bind Emits.flush.to fun _ _ => EmitsTo.pure h
  refine addScores_cons_returns fun db => addScores_cons_returns fun db₂ =>
    addScores_cons_returns fun db₃ => EmitsTo.pure ⟨db, @AxisKind.rec (fun _ => Nat)
      (latestScoreVersion o.id .founder db + 1) (latestScoreVersion o.id .market db₂ + 1)
      (latestScoreVersion o.id .ideaVsMarket db₃ + 1), ?_⟩
  simp only [scoreRow, hanalysis, deterministicAnalysis, scoredRows, List.map_cons, List.map_nil,
    List.nil_append, List.cons_append]
  rfl

end Rows

/-- What `process_job` stores as the recommendation of the memo, or what the fit raises before. -/
def jobRecommendation (env : Env) (thesis? : Option Thesis) (company : Company)
    (rows : List OpportunityScore) (claims : List Claim) : Except Exc Recommendation := do
  let (fit, gateReason) ← fitOfThesis env thesis? company
  return recommendRows rows fit gateReason claims

/-- The pipeline recommends to pass exactly when a gate of the thesis excludes the company and
no critical claim is contradicted. -/
theorem jobRecommendation_pass_iff (env : Env) (thesis? : Option Thesis) (company : Company)
    (opportunityId : Uuid) (id : AxisKind → Uuid) (version : AxisKind → Nat)
    (scores : List FounderScore) (claims : List Claim)
    (inRange : ∀ s ∈ scores, 300 ≤ s.score ∧ s.score ≤ 900) :
    (∃ recommendation, jobRecommendation env thesis? company
          (scoredRows opportunityId id version scores claims) claims = .ok recommendation ∧
        recommendation.decision = .pass) ↔
      (∃ fit reason, fitOfThesis env thesis? company = .ok (fit, some reason)) ∧
        ¬ ∃ c ∈ claims, c.status = .contradicted ∧ c.category ∈ [.revenue, .traction, .team] := by
  have hcritical : criticalContradiction claims = false ↔
      ¬ ∃ c ∈ claims, c.status = .contradicted ∧ c.category ∈ [.revenue, .traction, .team] := by
    simp [criticalContradiction]
  rw [← hcritical]
  cases hfit : fitOfThesis env thesis? company with
  | error e =>
      constructor
      · rintro ⟨recommendation, h, -⟩
        simp only [jobRecommendation, hfit] at h
        cases h
      · rintro ⟨⟨_, _, h⟩, -⟩
        cases h
  | ok answer =>
      obtain ⟨fit, reason?⟩ := answer
      have hjob : jobRecommendation env thesis? company
            (scoredRows opportunityId id version scores claims) claims =
          .ok (recommendRows (scoredRows opportunityId id version scores claims) fit reason?
            claims) := by
        simp only [jobRecommendation, hfit]
        rfl
      have hgate : (∃ fit' reason, (Except.ok (fit, reason?) : Except Exc _) =
          .ok (fit', some reason)) ↔ ∃ reason, reason? = some reason := by
        simp
      have hpass : (recommendRows (scoredRows opportunityId id version scores claims) fit reason?
            claims).decision = .pass ↔ fit = 0 ∧ criticalContradiction claims = false :=
        recommendRows_pass_iff fun s hs => (inRange s hs).1
      rw [hjob, hgate, ← fitOfThesis_eq_zero hfit, ← hpass]
      simp

/-- A thesis that excludes gambling, and a company that is in it. -/
def noGambling : Thesis where
  id := 1
  orgId := 1
  name := "Default"
  antiSectors := some ["gambling"]

def casino : Company where
  id := 2
  name := "Casino"
  normalizedName := "casino"
  sectors := ["gambling"]

def dealerScore : FounderScore where
  personId := 3
  score := 640
  ciLow := 500
  ciHigh := 780
  confidence := 4 / 10
  computedAt := 0

theorem casino_is_passed :
    (∀ s ∈ [dealerScore], 300 ≤ s.score ∧ s.score ≤ 900) ∧
    ∃ recommendation, jobRecommendation plainEnv (some noGambling) casino
        (scoredRows 4 (fun _ => 5) (fun _ => 1) [dealerScore] []) [] = .ok recommendation ∧
      recommendation.decision = .pass := by
  have inRange : ∀ s ∈ [dealerScore], 300 ≤ s.score ∧ s.score ≤ 900 := by decide
  have gated : fitOfThesis plainEnv (some noGambling) casino =
      .ok (0, some "Company matches an excluded sector.") := by
    decide +kernel
  exact ⟨inRange, (jobRecommendation_pass_iff plainEnv (some noGambling) casino 4 (fun _ => 5)
    (fun _ => 1) _ [] inRange).mpr ⟨⟨0, _, gated⟩, by simp⟩⟩

end DolphinVC
