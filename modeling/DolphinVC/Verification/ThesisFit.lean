import DolphinVC.Verification.Recommendation
import Mathlib.Logic.Relation

/-!
# The fit to a thesis

A hard gate gives the fit 0 and a reason. Behind the gates the stage matches in full, the
sectors and the geography at least by half, so the fit is at least 52.5. Sectors, stages and
geographies enter only as sets of case folded entries.
-/

namespace DolphinVC

section Statement

/-- The arguments of `compute_thesis_fit`. -/
structure FitCall where
  sectors : List String
  stage : Option String
  country : Option String
  thesisSectors : List String
  antiSectors : List String
  stages : List String
  geos : List String
  mustHaves : List String
  companyText : String

/-- Entries are put in another order, one is repeated, or one changes the case of ASCII letters. -/
inductive EntryEdit : List String → List String → Prop where
  | reorder {xs ys : List String} (h : xs.Perm ys) : EntryEdit xs ys
  | duplicate {xs : List String} {x : String} (h : x ∈ xs) : EntryEdit xs (x :: xs)
  | recase (before after : List String) {x y : String} (h : x.toLower = y.toLower) :
      EntryEdit (before ++ x :: after) (before ++ y :: after)

def Edits : List String → List String → Prop := Relation.ReflTransGen EntryEdit

/-- The same question with edited lists. -/
structure FitCall.Edited (q q' : FitCall) : Prop where
  sectors : Edits q.sectors q'.sectors
  thesisSectors : Edits q.thesisSectors q'.thesisSectors
  antiSectors : Edits q.antiSectors q'.antiSectors
  stages : Edits q.stages q'.stages
  geos : Edits q.geos q'.geos
  stage : q'.stage = q.stage
  country : q'.country = q.country
  mustHaves : q'.mustHaves = q.mustHaves
  companyText : q'.companyText = q.companyText

variable (env : Env)

def FitCall.fit (q : FitCall) : ThesisFitResult :=
  computeThesisFit env q.sectors q.stage q.country q.thesisSectors q.antiSectors q.stages q.geos
    q.mustHaves q.companyText

def FitCall.satisfies (q : FitCall) (rule : String) : Prop :=
  satisfiesRule env (env.casefold q.companyText) rule = true

structure FitLaws (q : FitCall) : Prop where
  gate : (∃ reason, (q.fit env).gateReason = some reason) ↔ (q.fit env).score = 0
  lower : (q.fit env).gateReason = none → 525 / 10 ≤ (q.fit env).score
  upper : (q.fit env).score ≤ 100
  /-- Without sectors the gates are those of a thesis that asks for none. -/
  noSectors : q.sectors = [] →
    (q.fit env).gateReason =
      ({ q with thesisSectors := [], antiSectors := [] }.fit env).gateReason
  noStage : present q.stage = none →
    (q.fit env).gateReason = ({ q with stages := [] }.fit env).gateReason
  noCountry : present q.country = none →
    (q.fit env).gateReason = ({ q with geos := [] }.fit env).gateReason
  edited : ∀ q', q.Edited q' → q'.fit env = q.fit env
  /-- A text that satisfies more of the rules does not score lower. -/
  satisfied : ∀ text, (∀ rule ∈ q.mustHaves, q.satisfies env rule →
      { q with companyText := text }.satisfies env rule) →
    (q.fit env).score ≤ ({ q with companyText := text }.fit env).score
  /-- Nor does one more rule that is satisfied lower the score. -/
  added : ∀ before after rule, q.mustHaves = before ++ after → q.satisfies env rule →
    (q.fit env).score ≤ ({ q with mustHaves := before ++ rule :: after }.fit env).score

end Statement

section Entries

variable {env : Env} {xs ys xs' ys' : List String}

/-- The same set of case folded entries. -/
def SameEntries (env : Env) (xs ys : List String) : Prop :=
  ∀ s, s ∈ xs.map env.casefold ↔ s ∈ ys.map env.casefold

theorem EntryEdit.same (folds : ∀ x y : String, x.toLower = y.toLower →
    env.casefold x = env.casefold y) (h : EntryEdit xs ys) : SameEntries env xs ys := by
  intro s
  cases h with
  | reorder h => exact (h.map env.casefold).mem_iff
  | duplicate h =>
      rw [List.map_cons, List.mem_cons]
      refine ⟨Or.inr, fun hs => hs.elim (fun heq => ?_) id⟩
      rw [heq]
      exact List.mem_map_of_mem h
  | recase before after h => simp only [List.map_append, List.map_cons, folds _ _ h]

theorem Edits.same (folds : ∀ x y : String, x.toLower = y.toLower →
    env.casefold x = env.casefold y) (h : Edits xs ys) : SameEntries env xs ys := by
  induction h with
  | refl => exact fun s => Iff.rfl
  | tail _ step ih => exact fun s => (ih s).trans (step.same folds s)

theorem SameEntries.nil_iff (h : SameEntries env xs ys) : xs = [] ↔ ys = [] := by
  have hmap : xs.map env.casefold = [] ↔ ys.map env.casefold = [] := by
    simp only [List.eq_nil_iff_forall_not_mem, h _]
  simpa using hmap

theorem SameEntries.meets (h : SameEntries env xs ys) (h' : SameEntries env xs' ys') :
    meets env (xs.map env.casefold) xs' = meets env (ys.map env.casefold) ys' := by
  rw [Bool.eq_iff_iff]
  simp only [DolphinVC.meets, List.any_eq_true, decide_eq_true_eq, h' _]
  constructor
  · rintro ⟨s, hs, hs'⟩
    exact ⟨s, (h s).mp hs, hs'⟩
  · rintro ⟨s, hs, hs'⟩
    exact ⟨s, (h s).mpr hs, hs'⟩

end Entries

section Gates

variable (env : Env)

/-- A value that is there and not among the allowed ones. -/
def excludes (value : Option String) (allowed : List String) : Bool :=
  match present value with
  | none => false
  | some v => env.casefold v ∉ allowed.map env.casefold

variable {env} {sectors thesisSectors antiSectors stages geos : List String}
variable {stage country : Option String}

theorem gateReason_eq :
    gateReason env sectors stage country thesisSectors antiSectors stages geos =
      if meets env (sectors.map env.casefold) antiSectors then
        some "Company matches an excluded sector."
      else if thesisSectors ≠ [] ∧ sectors.map env.casefold ≠ [] ∧
          ¬ meets env (sectors.map env.casefold) thesisSectors then
        some "Company is outside the thesis sectors."
      else if stages ≠ [] ∧ excludes env stage stages then
        some "Company stage is outside the thesis."
      else if geos ≠ [] ∧ excludes env country geos ∧ "remote" ∉ geos.map env.casefold then
        some "Company geography is outside the thesis."
      else none := rfl

theorem excludes_of_missing {value : Option String} (missing : present value = none)
    (allowed : List String) : excludes env value allowed = false := by
  unfold excludes
  rw [missing]

theorem softMatch_eq (value : Option String) (allowed : List String) :
    softMatch env value allowed =
      if allowed ≠ [] ∧ excludes env value allowed then 1 / 2 else 1 := by
  unfold softMatch excludes
  by_cases hnil : allowed = []
  · simp [hnil]
  · cases present value with
    | none => simp [hnil]
    | some v => by_cases hv : env.casefold v ∈ allowed.map env.casefold <;> simp [hnil, hv]

theorem SameEntries.excludes {xs ys : List String} (h : SameEntries env xs ys)
    (value : Option String) :
    DolphinVC.excludes env value xs = DolphinVC.excludes env value ys := by
  unfold DolphinVC.excludes
  cases present value with
  | none => rfl
  | some v => simp only [h _]

/-- Behind the gates the stage matches in full. -/
theorem softMatch_stage
    (h : gateReason env sectors stage country thesisSectors antiSectors stages geos = none) :
    softMatch env stage stages = 1 := by
  rw [softMatch_eq, if_neg]
  intro hstage
  rw [gateReason_eq, if_pos hstage] at h
  split at h
  · cases h
  · split at h <;> cases h

end Gates

section Fit

variable {env : Env} {q : FitCall}

def FitCall.gate (env : Env) (q : FitCall) : Option String :=
  gateReason env q.sectors q.stage q.country q.thesisSectors q.antiSectors q.stages q.geos

def FitCall.coverage (env : Env) (q : FitCall) : List (String × Bool) :=
  q.mustHaves.map fun rule => (rule, satisfiesRule env (env.casefold q.companyText) rule)

/-- The share of the rules that are satisfied. -/
def ratio (coverage : List (String × Bool)) : Rat :=
  if coverage = [] then 1
  else (coverage.countP fun item => item.2 : Nat) / (coverage.length : Nat)

def FitCall.sectorMatch (env : Env) (q : FitCall) : Rat :=
  if q.thesisSectors = [] ∨ meets env (q.sectors.map env.casefold) q.thesisSectors then 1 else 1 / 2

/-- The weighted sum of the matches. -/
def FitCall.sum (env : Env) (q : FitCall) : Rat :=
  100 * (40 / 100 * q.sectorMatch env + 25 / 100 * softMatch env q.stage q.stages +
    15 / 100 * softMatch env q.country q.geos + 20 / 100 * ratio (q.coverage env))

theorem FitCall.fit_of_gate {reason : String} (h : q.gate env = some reason) :
    q.fit env = { score := 0, gateReason := some reason, mustHaveCoverage := [] } := by
  unfold FitCall.fit computeThesisFit
  rw [show gateReason env q.sectors q.stage q.country q.thesisSectors q.antiSectors q.stages
    q.geos = some reason from h]

theorem FitCall.fit_of_passed (h : q.gate env = none) :
    q.fit env = { score := round2 (q.sum env), gateReason := none
                  mustHaveCoverage := q.coverage env } := by
  unfold FitCall.fit computeThesisFit
  rw [show gateReason env q.sectors q.stage q.country q.thesisSectors q.antiSectors q.stages
    q.geos = none from h]
  rfl

theorem FitCall.gateReason_fit : (q.fit env).gateReason = q.gate env := by
  cases h : q.gate env with
  | none => rw [FitCall.fit_of_passed h]
  | some reason => rw [FitCall.fit_of_gate h]

theorem ratio_nonneg (coverage : List (String × Bool)) : 0 ≤ ratio coverage := by
  unfold ratio
  split
  · exact zero_le_one
  · exact div_nonneg (Nat.cast_nonneg _) (Nat.cast_nonneg _)

theorem ratio_le_one (coverage : List (String × Bool)) : ratio coverage ≤ 1 := by
  unfold ratio
  split
  · exact le_rfl
  · refine div_le_one_of_le₀ ?_ (Nat.cast_nonneg _)
    exact_mod_cast List.countP_le_length

theorem ratio_mono {cs cs' : List (String × Bool)} (hlength : cs.length = cs'.length)
    (h : cs.countP (fun item => item.2) ≤ cs'.countP fun item => item.2) :
    ratio cs ≤ ratio cs' := by
  have hnil : cs = [] ↔ cs' = [] := by
    rw [← List.length_eq_zero_iff, hlength, List.length_eq_zero_iff]
  unfold ratio
  by_cases hcs : cs = []
  · rw [if_pos hcs, if_pos (hnil.mp hcs)]
  · rw [if_neg hcs, if_neg (mt hnil.mpr hcs), hlength]
    exact div_le_div_of_nonneg_right (by exact_mod_cast h) (Nat.cast_nonneg _)

/-- One more rule that is satisfied. -/
theorem ratio_insert (cs cs' : List (String × Bool)) (rule : String) :
    ratio (cs ++ cs') ≤ ratio (cs ++ (rule, true) :: cs') := by
  have hcount : (cs ++ (rule, true) :: cs').countP (fun item => item.2) =
      (cs ++ cs').countP (fun item => item.2) + 1 := by
    simp [List.countP_append]
    omega
  have hlength : (cs ++ (rule, true) :: cs').length = (cs ++ cs').length + 1 := by
    simp
    omega
  have hle : (cs ++ cs').countP (fun item => item.2) ≤ (cs ++ cs').length :=
    List.countP_le_length
  by_cases hnil : cs ++ cs' = []
  · obtain ⟨rfl, rfl⟩ := List.append_eq_nil_iff.mp hnil
    simp [ratio]
  · have hpos : (0 : Rat) < ((cs ++ cs').length : Nat) := by
      exact_mod_cast List.length_pos_iff.mpr hnil
    rw [ratio, if_neg hnil, ratio, if_neg (by simp), hcount, hlength,
      div_le_div_iff₀ hpos (by exact_mod_cast Nat.succ_pos _)]
    have hle' :
        (((cs ++ cs').countP fun item => item.2 : Nat) : Rat) ≤ ((cs ++ cs').length : Nat) := by
      exact_mod_cast hle
    push_cast
    linarith

theorem half_le_sectorMatch : 1 / 2 ≤ q.sectorMatch env := by
  unfold FitCall.sectorMatch
  split <;> norm_num

theorem sectorMatch_le_one : q.sectorMatch env ≤ 1 := by
  unfold FitCall.sectorMatch
  split <;> norm_num

theorem softMatch_le_one (value : Option String) (allowed : List String) :
    softMatch env value allowed ≤ 1 := by
  rw [softMatch_eq]
  split <;> norm_num

theorem sum_le : q.sum env ≤ 100 := by
  have hsector : q.sectorMatch env ≤ 1 := sectorMatch_le_one
  have hstage : softMatch env q.stage q.stages ≤ 1 := softMatch_le_one _ _
  have hgeo : softMatch env q.country q.geos ≤ 1 := softMatch_le_one _ _
  have hratio := ratio_le_one (q.coverage env)
  unfold FitCall.sum
  linarith

theorem le_sum_of_passed (h : q.gate env = none) : 525 / 10 ≤ q.sum env := by
  have hsector : 1 / 2 ≤ q.sectorMatch env := half_le_sectorMatch
  have hgeo : 1 / 2 ≤ softMatch env q.country q.geos := le_softMatch _ _
  have hratio := ratio_nonneg (q.coverage env)
  unfold FitCall.sum
  rw [softMatch_stage h]
  linarith

/-- Of two questions with the same lists the one with the better coverage scores higher. -/
theorem score_mono_of_ratio {q' : FitCall} (hgate : q'.gate env = q.gate env)
    (hsector : q'.sectorMatch env = q.sectorMatch env)
    (hstage : softMatch env q'.stage q'.stages = softMatch env q.stage q.stages)
    (hgeo : softMatch env q'.country q'.geos = softMatch env q.country q.geos)
    (h : ratio (q.coverage env) ≤ ratio (q'.coverage env)) :
    (q.fit env).score ≤ (q'.fit env).score := by
  cases hq : q.gate env with
  | some reason =>
      rw [FitCall.fit_of_gate hq, FitCall.fit_of_gate (hgate.trans hq)]
  | none =>
      rw [FitCall.fit_of_passed hq, FitCall.fit_of_passed (hgate.trans hq)]
      have hsum : q.sum env ≤ q'.sum env := by
        unfold FitCall.sum
        rw [hsector, hstage, hgeo]
        linarith
      exact roundTo_mono hsum

theorem coverage_mono {text : String} (h : ∀ rule ∈ q.mustHaves, q.satisfies env rule →
      { q with companyText := text }.satisfies env rule) :
    ratio (q.coverage env) ≤ ratio ({ q with companyText := text }.coverage env) := by
  refine ratio_mono (by simp [FitCall.coverage]) ?_
  simp only [FitCall.coverage, List.countP_map]
  exact List.countP_mono_left h

theorem fit_edited (folds : ∀ x y : String, x.toLower = y.toLower →
    env.casefold x = env.casefold y) {q' : FitCall} (h : q.Edited q') :
    q'.fit env = q.fit env := by
  have hsectors := h.sectors.same folds
  have hthesis := h.thesisSectors.same folds
  have hanti := h.antiSectors.same folds
  have hstages := h.stages.same folds
  have hgeos := h.geos.same folds
  have hgate : q'.gate env = q.gate env := by
    unfold FitCall.gate
    simp only [gateReason_eq, h.stage, h.country, ← hsectors.meets hanti,
      ← hsectors.meets hthesis, ← hstages.excludes, ← hgeos.excludes, ← hgeos _, ne_eq,
      List.map_eq_nil_iff, ← hsectors.nil_iff, ← hthesis.nil_iff, ← hstages.nil_iff,
      ← hgeos.nil_iff]
  have hcoverage : q'.coverage env = q.coverage env := by
    unfold FitCall.coverage
    rw [h.mustHaves, h.companyText]
  have hsum : q'.sum env = q.sum env := by
    unfold FitCall.sum FitCall.sectorMatch
    simp only [softMatch_eq, h.stage, h.country, hcoverage, ← hsectors.meets hthesis,
      ← hstages.excludes, ← hgeos.excludes, ne_eq, ← hthesis.nil_iff, ← hstages.nil_iff,
      ← hgeos.nil_iff]
  cases hq : q.gate env with
  | some reason => rw [FitCall.fit_of_gate hq, FitCall.fit_of_gate (hgate.trans hq)]
  | none =>
      rw [FitCall.fit_of_passed hq, FitCall.fit_of_passed (hgate.trans hq), hsum, hcoverage]

end Fit

/-- Case folding does not tell ASCII capitals from small letters; nothing else is asked of it. -/
theorem thesis_fit_laws (env : Env) (folds : ∀ x y : String, x.toLower = y.toLower →
    env.casefold x = env.casefold y) (q : FitCall) : FitLaws env q where
  gate := computeThesisFit_score_eq_zero.symm
  lower h := by
    rw [FitCall.gateReason_fit] at h
    rw [FitCall.fit_of_passed h]
    have hgrid : ((5250 : Int) : Rat) / (100 : Nat) ≤ q.sum env :=
      le_trans (by norm_num) (le_sum_of_passed h)
    exact le_trans (by norm_num) (le_roundTo (d := 100) (by omega) hgrid)
  upper := by
    cases h : q.gate env with
    | some reason =>
        rw [FitCall.fit_of_gate h]
        norm_num
    | none =>
        rw [FitCall.fit_of_passed h]
        have hgrid : q.sum env ≤ ((10000 : Int) : Rat) / (100 : Nat) :=
          le_trans sum_le (by norm_num)
        exact le_trans (roundTo_le (d := 100) (by omega) hgrid) (by norm_num)
  noSectors h := by
    rw [FitCall.gateReason_fit, FitCall.gateReason_fit]
    simp [FitCall.gate, gateReason_eq, h, meets]
  noStage h := by
    rw [FitCall.gateReason_fit, FitCall.gateReason_fit]
    simp [FitCall.gate, gateReason_eq, excludes_of_missing h]
  noCountry h := by
    rw [FitCall.gateReason_fit, FitCall.gateReason_fit]
    simp [FitCall.gate, gateReason_eq, excludes_of_missing h]
  edited _ := fit_edited folds
  satisfied _ h := score_mono_of_ratio rfl rfl rfl rfl (coverage_mono h)
  added before after rule hsplit hrule := by
    refine score_mono_of_ratio rfl rfl rfl rfl ?_
    have hcoverage (rules : List String) : { q with mustHaves := rules }.coverage env =
        rules.map fun rule => (rule, satisfiesRule env (env.casefold q.companyText) rule) := rfl
    have hsat : satisfiesRule env (env.casefold q.companyText) rule = true := hrule
    rw [hcoverage, FitCall.coverage, hsplit, List.map_append, List.map_append, List.map_cons,
      hsat]
    exact ratio_insert _ _ rule

/-- A thesis for climate funds in Europe. -/
def climateFit : FitCall where
  sectors := ["Climate"]
  stage := some "Seed"
  country := none
  thesisSectors := ["climate", "energy"]
  antiSectors := ["gambling"]
  stages := ["seed"]
  geos := ["de", "fr"]
  mustHaves := ["carbon capture"]
  companyText := "Carbon capture for cement"

def foldingEnv : Env := { plainEnv with casefold := String.toLower }

theorem climateFit_laws :
    (∀ x y : String, x.toLower = y.toLower → foldingEnv.casefold x = foldingEnv.casefold y) ∧
      FitLaws foldingEnv climateFit :=
  ⟨fun _ _ h => h, thesis_fit_laws foldingEnv (fun _ _ h => h) climateFit⟩

end DolphinVC
