import DolphinVC.Services.Memo

/-!
# What a memo cites

Every section of a memo cites the claims of its categories, all of them and nothing else, and a
section is a gap when there are none. The sets of the sections cover six of the nine
categories: a claim about funding, about legal matters or about anything else is cited nowhere
and its absence is no gap.
-/

namespace DolphinVC

/-- The memo cites the claims in their sections and reports what is missing. -/
structure FaithfulMemo (claims : List Claim) (draft : MemoDraft) : Prop where
  /-- Nothing is cited that is not among the claims. -/
  inputs : ∀ s ∈ draft.sections, ∀ id ∈ s.claimIds, ∃ c ∈ claims, c.id = id
  categories : ∀ s ∈ draft.sections, ∀ id ∈ s.claimIds, ∃ entry ∈ requiredSections,
    entry.1 = s.key ∧ ∃ c ∈ claims, c.id = id ∧ c.category ∈ entry.2
  complete : ∀ c ∈ claims, ∃ s ∈ draft.sections, c.id ∈ s.claimIds
  gaps : ∀ entry ∈ requiredSections,
    (∃ g ∈ draft.gaps, g.field = entry.1) ↔ ¬ ∃ c ∈ claims, c.category ∈ entry.2
  silent : ∀ entry ∈ requiredSections, (∃ g ∈ draft.gaps, g.field = entry.1) →
    ∀ s ∈ draft.sections, s.key = entry.1 → s.claimIds = []

section Compose

variable {env : Env} {fixed2 : Rat → String} {claims : List Claim} {decision : DecisionKind}
variable {rationale : String} {id : Uuid}

theorem mem_relevantClaims {categories : List ClaimCategory} {c : Claim} :
    c ∈ relevantClaims categories claims ↔ c ∈ claims ∧ c.category ∈ categories := by
  simp [relevantClaims]

theorem relevantClaims_eq_nil {categories : List ClaimCategory} :
    relevantClaims categories claims = [] ↔ ¬ ∃ c ∈ claims, c.category ∈ categories := by
  simp [relevantClaims]

/-- A section comes from the table or is the recommendation. -/
theorem mem_sections {s : DraftSection}
    (h : s ∈ (composeMemo env fixed2 claims decision rationale).sections) :
    (∃ entry ∈ requiredSections,
      s = claimSection fixed2 entry.1 (relevantClaims entry.2 claims)) ∨
      s = recommendationSection decision rationale := by
  obtain h | h := List.mem_append.mp h
  · obtain ⟨entry, hentry, rfl⟩ := List.mem_map.mp h
    exact Or.inl ⟨entry, hentry, rfl⟩
  · exact Or.inr (List.mem_singleton.mp h)

theorem claimSection_mem {entry : String × List ClaimCategory} (h : entry ∈ requiredSections) :
    claimSection fixed2 entry.1 (relevantClaims entry.2 claims) ∈
      (composeMemo env fixed2 claims decision rationale).sections :=
  List.mem_append_left _ (List.mem_map_of_mem h)

theorem cited_iff : (∃ s ∈ (composeMemo env fixed2 claims decision rationale).sections,
    id ∈ s.claimIds) ↔
      ∃ entry ∈ requiredSections, ∃ c ∈ claims, c.id = id ∧ c.category ∈ entry.2 := by
  constructor
  · rintro ⟨s, hs, hid⟩
    obtain ⟨entry, hentry, rfl⟩ | rfl := mem_sections hs
    · obtain ⟨c, hc, rfl⟩ := List.mem_map.mp hid
      obtain ⟨hclaim, hcategory⟩ := mem_relevantClaims.mp hc
      exact ⟨entry, hentry, c, hclaim, rfl, hcategory⟩
    · cases hid
  · rintro ⟨entry, hentry, c, hc, rfl, hcategory⟩
    exact ⟨_, claimSection_mem hentry,
      List.mem_map_of_mem (mem_relevantClaims.mpr ⟨hc, hcategory⟩)⟩

/-- The keys of the table are distinct. -/
theorem entry_of_key {entry entry' : String × List ClaimCategory}
    (h : entry ∈ requiredSections) (h' : entry' ∈ requiredSections) (hkey : entry.1 = entry'.1) :
    entry = entry' := by
  have hnodup : (requiredSections.map Prod.fst).Nodup := by decide
  exact List.inj_on_of_nodup_map hnodup h h' hkey

theorem gap_iff {entry : String × List ClaimCategory} (h : entry ∈ requiredSections) :
    (∃ g ∈ (composeMemo env fixed2 claims decision rationale).gaps, g.field = entry.1) ↔
      relevantClaims entry.2 claims = [] := by
  constructor
  · rintro ⟨g, hg, hfield⟩
    obtain ⟨entry', hentry', hsome⟩ := List.mem_filterMap.mp hg
    split at hsome
    · rename_i hnil
      cases hsome
      rw [← entry_of_key hentry' h hfield]
      exact hnil
    · cases hsome
  · intro hnil
    exact ⟨{ field := entry.1 }, List.mem_filterMap.mpr ⟨entry, h, by simp [hnil]⟩, rfl⟩

/-- The categories that belong to a section. -/
theorem covered_iff (category : ClaimCategory) :
    (∃ entry ∈ requiredSections, category ∈ entry.2) ↔
      category ∉ [ClaimCategory.funding, .legal, .other] := by
  cases category <;> decide

end Compose

/-- A memo is faithful exactly when each claim about funding, about legal matters or about
anything else has the id of a claim in another category, so for distinct ids when there is no
such claim. -/
theorem composeMemo_faithful_iff (env : Env) (fixed2 : Rat → String) (claims : List Claim)
    (decision : DecisionKind) (rationale : String) :
    FaithfulMemo claims (composeMemo env fixed2 claims decision rationale) ↔
      ∀ c ∈ claims, ∃ c' ∈ claims, c'.id = c.id ∧
        c'.category ∉ [ClaimCategory.funding, .legal, .other] := by
  have complete_iff (c : Claim) :
      (∃ s ∈ (composeMemo env fixed2 claims decision rationale).sections, c.id ∈ s.claimIds) ↔
        ∃ c' ∈ claims, c'.id = c.id ∧
          c'.category ∉ [ClaimCategory.funding, .legal, .other] := by
    rw [cited_iff]
    constructor
    · rintro ⟨entry, hentry, c', hc', hid, hcategory⟩
      exact ⟨c', hc', hid, (covered_iff _).mp ⟨entry, hentry, hcategory⟩⟩
    · rintro ⟨c', hc', hid, hcategory⟩
      obtain ⟨entry, hentry, hmem⟩ := (covered_iff _).mpr hcategory
      exact ⟨entry, hentry, c', hc', hid, hmem⟩
  constructor
  · intro h c hc
    exact (complete_iff c).mp (h.complete c hc)
  · intro h
    refine ⟨fun s hs id hid => ?_, fun s hs id hid => ?_, fun c hc => ?_, fun entry hentry => ?_,
      fun entry hentry hgap s hs hkey => ?_⟩
    · obtain ⟨-, -, c, hc, hcid, -⟩ := cited_iff.mp ⟨s, hs, hid⟩
      exact ⟨c, hc, hcid⟩
    · obtain ⟨entry, hentry, rfl⟩ | rfl := mem_sections hs
      · obtain ⟨c, hc, rfl⟩ := List.mem_map.mp hid
        obtain ⟨hclaim, hcategory⟩ := mem_relevantClaims.mp hc
        exact ⟨entry, hentry, rfl, c, hclaim, rfl, hcategory⟩
      · cases hid
    · exact (complete_iff c).mpr (h c hc)
    · exact (gap_iff hentry).trans relevantClaims_eq_nil
    · obtain ⟨entry', hentry', rfl⟩ | rfl := mem_sections hs
      · obtain rfl := entry_of_key hentry' hentry hkey
        show (relevantClaims entry'.2 claims).map Claim.id = []
        rw [(gap_iff hentry').mp hgap, List.map_nil]
      · rfl

/-- The only claim says how much has been raised. -/
def fundingClaim : Claim where
  id := 7
  orgId := 1
  opportunityId := some 3
  category := .funding
  text := "Raised two millions from angels"

theorem funding_is_not_cited :
    ¬ ∀ (env : Env) (fixed2 : Rat → String) (claims : List Claim) (decision : DecisionKind)
      (rationale : String),
      FaithfulMemo claims (composeMemo env fixed2 claims decision rationale) := by
  intro h
  obtain ⟨s, hs, hid⟩ := (h plainEnv (fun _ => "0.30") [fundingClaim] .watchlist "").complete
    fundingClaim List.mem_cons_self
  obtain ⟨entry, hentry, c, hc, -, hcategory⟩ := cited_iff.mp ⟨s, hs, hid⟩
  rw [List.mem_singleton.mp hc] at hcategory
  exact (covered_iff .funding).mp ⟨entry, hentry, hcategory⟩ (by decide)

end DolphinVC
