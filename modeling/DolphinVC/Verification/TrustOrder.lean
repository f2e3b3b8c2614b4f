import DolphinVC.Services.Score
import Mathlib.Algebra.BigOperators.Group.List.Basic
import Mathlib.Algebra.BigOperators.Group.Finset.Basic
import Mathlib.Algebra.Order.Field.Basic
import Mathlib.Tactic.Ring

/-!
# Trust and the order of the evidence

The loop of `compute_trust` counts the first item of a group in full and a later one for a
quarter. What the evidence leaves open is therefore a product over the items, each at a
quarter, corrected by one factor a group that the first item of the group decides. This is a
law of the formula in exact fractions; the last bit of a product of floats knows the order.
-/

namespace DolphinVC

/-- `max(0.0, min(1.0, item.reliability))` -/
def TrustEvidence.clamped (item : TrustEvidence) : Rat := max 0 (min 1 item.reliability)

def groupsOf (evidence : List TrustEvidence) : Finset String :=
  (evidence.map TrustEvidence.independenceGroup).toFinset

/-- The clamped reliability of the first item of a group. -/
def leading (evidence : List TrustEvidence) (group : String) : Option Rat :=
  (evidence.find? fun item => item.independenceGroup = group).map TrustEvidence.clamped

/-- The product of the loop when some groups have been seen. -/
def leftOpen (seen : List String) : List TrustEvidence → Rat
  | [] => 1
  | item :: rest =>
      (1 - item.clamped * (if item.independenceGroup ∈ seen then 1 / 4 else 1)) *
        leftOpen (item.independenceGroup :: seen) rest

theorem corroboration_eq (evidence : List TrustEvidence) :
    corroboration evidence = 1 - leftOpen [] evidence := by
  have loop (seen : List String) (product : Rat) :
      (evidence.foldl (fun (acc : List String × Rat) item =>
        (item.independenceGroup :: acc.1, acc.2 * (1 - max 0 (min 1 item.reliability) *
          (if item.independenceGroup ∈ acc.1 then 1 / 4 else 1)))) (seen, product)).2 =
        product * leftOpen seen evidence := by
    induction evidence generalizing seen product with
    | nil => simp [leftOpen]
    | cons item rest ih => rw [List.foldl_cons, ih, leftOpen, mul_assoc, TrustEvidence.clamped]
  rw [corroboration, loop, one_mul]

/-- What the first item of a group takes beyond the quarter. -/
def firstFactor (evidence : List TrustEvidence) (group : String) : Rat :=
  match leading evidence group with
  | none => 1
  | some r => (1 - r) / (1 - r / 4)

theorem TrustEvidence.quarter_pos (item : TrustEvidence) : 0 < 1 - item.clamped / 4 := by
  have : item.clamped ≤ 1 := max_le zero_le_one (min_le_left _ _)
  linarith

theorem firstFactor_cons_self (item : TrustEvidence) (rest : List TrustEvidence) :
    firstFactor (item :: rest) item.independenceGroup =
      (1 - item.clamped) / (1 - item.clamped / 4) := by
  simp [firstFactor, leading]

theorem firstFactor_cons_other {item : TrustEvidence} {rest : List TrustEvidence} {group : String}
    (h : item.independenceGroup ≠ group) :
    firstFactor (item :: rest) group = firstFactor rest group := by
  simp [firstFactor, leading, h]

/-- The product by items and by groups. -/
theorem leftOpen_eq (evidence : List TrustEvidence) (seen : List String) :
    leftOpen seen evidence = (evidence.map fun item => 1 - item.clamped / 4).prod *
      ∏ group ∈ groupsOf evidence \ seen.toFinset, firstFactor evidence group := by
  induction evidence generalizing seen with
  | nil => simp [leftOpen, groupsOf]
  | cons item rest ih =>
      have hgroups : groupsOf (item :: rest) = insert item.independenceGroup (groupsOf rest) := by
        simp [groupsOf]
      have hrest : ∏ group ∈ groupsOf rest \ (item.independenceGroup :: seen).toFinset,
          firstFactor (item :: rest) group =
            ∏ group ∈ groupsOf rest \ (item.independenceGroup :: seen).toFinset,
              firstFactor rest group := by
        refine Finset.prod_congr rfl fun group hgroup => firstFactor_cons_other ?_
        rintro rfl
        simp at hgroup
      rw [leftOpen, ih, List.map_cons, List.prod_cons, hgroups]
      by_cases hseen : item.independenceGroup ∈ seen
      · have hset : insert item.independenceGroup (groupsOf rest) \ seen.toFinset =
            groupsOf rest \ (item.independenceGroup :: seen).toFinset := by
          ext group
          by_cases hgroup : group = item.independenceGroup <;> simp [hgroup, hseen]
        rw [if_pos hseen, hset, hrest]
        ring
      · have hset : insert item.independenceGroup (groupsOf rest) \ seen.toFinset =
            insert item.independenceGroup
              (groupsOf rest \ (item.independenceGroup :: seen).toFinset) := by
          ext group
          by_cases hgroup : group = item.independenceGroup <;> simp [hgroup, hseen]
        have hlead : 1 - item.clamped * 1 =
            (1 - item.clamped / 4) * ((1 - item.clamped) / (1 - item.clamped / 4)) := by
          rw [mul_div_cancel₀ _ item.quarter_pos.ne', mul_one]
        rw [if_neg hseen, hset, Finset.prod_insert (by simp), hrest, firstFactor_cons_self, hlead]
        ring

/-- Evidence with the same items and the same first items leaves the same open. -/
theorem corroboration_congr {evidence evidence' : List TrustEvidence}
    (h : evidence.Perm evidence')
    (hfirst : ∀ group, leading evidence group = leading evidence' group) :
    corroboration evidence = corroboration evidence' := by
  have hgroups : groupsOf evidence = groupsOf evidence' :=
    List.toFinset_eq_of_perm _ _ (h.map _)
  rw [corroboration_eq, corroboration_eq, leftOpen_eq, leftOpen_eq, (h.map _).prod_eq, hgroups]
  simp only [firstFactor, hfirst]

/-- An order of the evidence that leads each group with the same clamped reliability gives
the same trust. -/
theorem trust_order (exp : Rat → Rat) (tier : SourceTier) (category : ClaimCategory)
    (evidence evidence' : List TrustEvidence) (ageDays : Option Nat)
    (extractionConfidence : Rat) (contradicted independentlyVerified : Bool)
    (h : evidence.Perm evidence')
    (hfirst : ∀ group, leading evidence group = leading evidence' group) :
    computeTrust exp tier category evidence ageDays extractionConfidence contradicted
        independentlyVerified =
      computeTrust exp tier category evidence' ageDays extractionConfidence contradicted
        independentlyVerified := by
  have hgroups : (evidence.map TrustEvidence.independenceGroup).toFinset =
      (evidence'.map TrustEvidence.independenceGroup).toFinset :=
    List.toFinset_eq_of_perm _ _ (h.map _)
  simp only [computeTrust, corroboration_congr h hfirst, hgroups]

def registryEntry : TrustEvidence := ⟨8 / 10, "registry"⟩
def registryMirror : TrustEvidence := ⟨2 / 10, "registry"⟩
def pressReport : TrustEvidence := ⟨5 / 10, "press"⟩

theorem order_across_groups :
    [registryEntry, pressReport].Perm [pressReport, registryEntry] ∧
    (∀ group, leading [registryEntry, pressReport] group =
      leading [pressReport, registryEntry] group) ∧
    computeTrust id .aggregator .traction [registryEntry, pressReport] none 1 false false =
      computeTrust id .aggregator .traction [pressReport, registryEntry] none 1 false false := by
  have hperm : [registryEntry, pressReport].Perm [pressReport, registryEntry] :=
    List.Perm.swap _ _ _
  have hfirst (group : String) : leading [registryEntry, pressReport] group =
      leading [pressReport, registryEntry] group := by
    by_cases hgroup : "registry" = group
    · subst hgroup
      rfl
    · by_cases hpress : "press" = group <;>
        simp [leading, registryEntry, pressReport, hgroup, hpress]
  exact ⟨hperm, hfirst, trust_order id .aggregator .traction _ _ none 1 false false hperm hfirst⟩

theorem order_in_a_group_counts :
    ¬ ∀ (exp : Rat → Rat) (tier : SourceTier) (category : ClaimCategory)
      (evidence evidence' : List TrustEvidence) (ageDays : Option Nat) (confidence : Rat)
      (contradicted verified : Bool), evidence.Perm evidence' →
        computeTrust exp tier category evidence ageDays confidence contradicted verified =
          computeTrust exp tier category evidence' ageDays confidence contradicted verified := by
  intro h
  have heq := congrArg TrustResult.score (h id .primary .traction [registryEntry, registryMirror]
    [registryMirror, registryEntry] none 1 false false (List.Perm.swap _ _ _))
  have hne : (computeTrust id .primary .traction [registryEntry, registryMirror] none 1 false
      false).score ≠ (computeTrust id .primary .traction [registryMirror, registryEntry] none 1
        false false).score := by decide +kernel
  exact hne heq

end DolphinVC
