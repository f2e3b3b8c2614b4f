import DolphinVC.Services.Search

/-!
# Companies that say what was asked

A filter of a query holds a code, and the code is looked for in the folded texts of a company.
For the phrases that contain their code a company with the query as its description satisfies
the filter. "engineer founder" and "b2b traction" do not contain theirs, and the code of the
filter for no earlier funding is `False`, which no folded text contains.
-/

namespace DolphinVC

/-- What is used of `str.casefold`: it works character by character and leaves no `F`. -/
structure FoldsCase (env : Env) : Prop where
  append : ∀ a b, env.casefold (a ++ b) = env.casefold a ++ env.casefold b
  small : ∀ text, 'F' ∉ (env.casefold text).toList

/-- The company's description is the query, and its sectors and place are the ones asked for. -/
structure SaysWhatIsAsked (company : Company) (plan : QueryPlan) (q : String) : Prop where
  description : company.description = some q
  sectors : ∀ value, ("sectors", value) ∈ plan.filters →
    ∀ sector, sector ∈ company.sectors ↔ sector ∈ value.terms
  country : ∀ value, ("country", value) ∈ plan.filters →
    company.hqCountry.map FilterValue.text = some value
  city : ∀ value, ("city", value) ∈ plan.filters → company.hqCity.map FilterValue.text = some value

variable {env : Env} {sets : SetOrder} {company : Company} {plan : QueryPlan} {q folded : String}

section Texts

theorem isIn_trans {a b c : String} (hab : isIn a b = true) (hbc : isIn b c = true) :
    isIn a c = true :=
  decide_eq_true ((of_decide_eq_true hab).trans (of_decide_eq_true hbc))

theorem joinTexts_sole (q : String) : joinTexts [none, some q] = q := by
  by_cases hq : q = ""
  · rw [hq]
    rfl
  · have hsole : ([none, some q].filterMap fun text => text.filter (· ≠ "")) = [q] := by
      simp [Option.filter_some, hq]
    exact congrArg (" ".intercalate ·) hsole

/-- The description ends the text that a filter looks at. -/
theorem joinTexts_description (oneLiner : Option String) (q : String) :
    ∃ front, joinTexts [oneLiner, some q] = front ++ q := by
  by_cases hq : q = ""
  · exact ⟨joinTexts [oneLiner, some q], by simp [hq]⟩
  · cases oneLiner with
    | none => exact ⟨"", joinTexts_sole q⟩
    | some s =>
        by_cases hs : s = ""
        · subst hs
          exact ⟨"", joinTexts_sole q⟩
        · have hboth : ([some s, some q].filterMap fun text => text.filter (· ≠ "")) = [s, q] := by
            simp [Option.filter_some, hq, hs]
          exact ⟨s ++ " ", congrArg (" ".intercalate ·) hboth⟩

theorem isIn_description (laws : FoldsCase env) (hcompany : company.description = some q)
    {term : String} (h : isIn term (env.casefold q) = true) :
    isIn term (env.casefold (joinTexts [company.oneLiner, company.description])) = true := by
  obtain ⟨front, hfront⟩ := joinTexts_description company.oneLiner q
  rw [hcompany, hfront, laws.append]
  refine isIn_trans h (decide_eq_true ?_)
  rw [String.toList_append]
  exact (List.suffix_append _ _).isInfix

end Texts

section Plans

theorem matchCompany_all_iff :
    ((matchCompany env company plan).matched.map Prod.fst = plan.filters.map Prod.fst ∧
        (matchCompany env company plan).unmatched = []) ↔
      ∀ f ∈ plan.filters, satisfies env company f.1 f.2 = true := by
  simp only [matchCompany, List.map_map, List.map_eq_nil_iff, List.filter_eq_nil_iff,
    Bool.not_eq_true', Bool.not_eq_false]
  refine ⟨And.right, fun h => ⟨?_, h⟩⟩
  rw [List.filter_eq_self.mpr h]
  rfl

/-- A property of all filters is one of each part of the query. -/
theorem forall_mem_planFilters {P : String × FilterValue → Prop} :
    (∀ f ∈ planFilters folded, P f) ↔ ∀ found ∈ foundAll folded, ∀ f ∈ found.1, P f := by
  simp only [planFilters, List.mem_flatMap]
  exact ⟨fun h found hfound f hf => h f ⟨found, hfound, hf⟩, fun h f ⟨found, hfound, hf⟩ =>
    h found hfound f hf⟩

theorem forall_mem_foundPhrase {phrases counted : List String} {attr : String}
    {value : FilterValue} {P : String × FilterValue → Prop} :
    (∀ f ∈ (foundPhrase folded phrases attr value counted).1, P f) ↔
      ((∃ phrase ∈ phrases, isIn phrase folded = true) → P (attr, value)) := by
  by_cases h : ∃ phrase ∈ phrases, isIn phrase folded = true
  · simp [foundPhrase, h]
  · simp [foundPhrase, h]

/-- The filters on the place are those of the country that was found. -/
theorem planFilters_split : planFilters folded = (foundSectors folded).1 ++
    ((foundCountry folded).1 ++ ((foundFounder folded).1 ++ ((foundTraction folded).1 ++
      ((foundBacking folded).1 ++ (foundAccelerator folded).1)))) := by
  simp [planFilters, foundAll]

theorem attr_foundSectors {f : String × FilterValue} (h : f ∈ (foundSectors folded).1) :
    f.1 = "sectors" := by
  rw [foundSectors] at h
  split at h
  · cases h
  · rw [List.mem_singleton.mp h]

theorem attr_foundPhrase {phrases counted : List String} {attr : String} {value : FilterValue}
    {f : String × FilterValue} (h : f ∈ (foundPhrase folded phrases attr value counted).1) :
    f = (attr, value) := by
  rw [foundPhrase] at h
  split at h
  · exact List.mem_singleton.mp h
  · cases h

/-- The filters on the sectors and on the place come from their own parts. -/
theorem mem_planFilters {attr : String} {value : FilterValue}
    (hattr : attr ∈ ["sectors", "country", "city"]) (h : (attr, value) ∈ planFilters folded) :
    (attr, value) ∈ (foundSectors folded).1 ∧ attr = "sectors" ∨
      (attr, value) ∈ (foundCountry folded).1 := by
  have other {phrases counted : List String} {attr' : String} {value' : FilterValue}
      (hmem : (attr, value) ∈ (foundPhrase folded phrases attr' value' counted).1)
      (hne : attr' ∉ ["sectors", "country", "city"]) : False := by
    have heq : attr = attr' := congrArg Prod.fst (attr_foundPhrase hmem)
    exact hne (heq ▸ hattr)
  rw [planFilters_split] at h
  simp only [List.mem_append] at h
  obtain hs | hc | hf | ht | hb | ha := h
  · exact Or.inl ⟨hs, attr_foundSectors hs⟩
  · exact Or.inr hc
  · exact (other hf (by decide)).elim
  · exact (other ht (by decide)).elim
  · exact (other hb (by decide)).elim
  · exact (other ha (by decide)).elim

/-- What the place of a query says: a country, and perhaps a city. -/
theorem foundCountry_cases (folded : String) : (foundCountry folded).1 = [] ∨
    ∃ (country : String) (city : Option String), (foundCountry folded).1 =
      ("country", .text country) :: (city.map fun city => ("city", .text city)).toList := by
  rw [foundCountry]
  split
  · exact Or.inl rfl
  · exact Or.inr ⟨_, _, rfl⟩

theorem satisfies_term {attr : String} {value : FilterValue}
    (hattr : attr ∉ ["sectors", "country", "city"]) :
    satisfies env company attr value = true ↔ ∃ term ∈ value.terms, isIn (spaced term)
      (env.casefold (joinTexts [company.oneLiner, company.description])) = true := by
  simp only [List.mem_cons, List.not_mem_nil, or_false, not_or] at hattr
  simp [satisfies, hattr]

theorem satisfies_sectors (h : ∀ value, ("sectors", value) ∈ planFilters folded →
      ∀ sector, sector ∈ company.sectors ↔ sector ∈ value.terms) :
    ∀ f ∈ (foundSectors folded).1, satisfies env company f.1 f.2 = true := by
  intro f hf
  have hmem : f ∈ planFilters folded := by
    rw [planFilters_split]
    exact List.mem_append_left _ hf
  rw [foundSectors] at hf
  split at hf
  · cases hf
  · rename_i hfound
    rw [List.mem_singleton] at hf
    subst hf
    obtain ⟨entry, hentry⟩ := 
      List.exists_mem_of_ne_nil _ fun hnil => hfound (List.isEmpty_iff.mpr hnil)
    have hterm : entry.2 ∈ (FilterValue.names (((sectorAliases.filter fun a => isIn a.1 folded).map
        Prod.snd).dedup.insertionSort fun a b => a ≤ b)).terms := by
      simp only [FilterValue.terms, List.mem_insertionSort, List.mem_dedup]
      exact List.mem_map_of_mem hentry
    simp only [satisfies, if_pos, List.any_eq_true, decide_eq_true_eq]
    exact ⟨entry.2, (h _ hmem entry.2).mpr hterm, hterm⟩

theorem satisfies_country
    (hcountry : ∀ value, ("country", value) ∈ planFilters folded →
      company.hqCountry.map FilterValue.text = some value)
    (hcity : ∀ value, ("city", value) ∈ planFilters folded →
      company.hqCity.map FilterValue.text = some value) :
    ∀ f ∈ (foundCountry folded).1, satisfies env company f.1 f.2 = true := by
  intro f hf
  have hmem : f ∈ planFilters folded := by
    rw [planFilters_split]
    exact List.mem_append_right _ (List.mem_append_left _ hf)
  rw [foundCountry] at hf
  split at hf
  · cases hf
  · rename_i phrase country city _
    cases hf with
    | head => simp [satisfies, hcountry _ hmem]
    | tail _ hf =>
        obtain ⟨name, rfl, rfl⟩ : ∃ name, city = some name ∧ f = ("city", .text name) := by
          cases city with
          | none => cases hf
          | some name => exact ⟨name, rfl, List.mem_singleton.mp hf⟩
        have hname : company.hqCity = some name := by
          have h := hcity _ hmem
          cases hhq : company.hqCity with
          | none => simp [hhq] at h
          | some hq => simpa [hhq] using h
        simp [satisfies, FilterValue.terms, hname]

end Plans

/-- The phrases that say there was no venture money before. -/
def backingPhrases : List String := ["no prior vc", "no vc backing", "bootstrapped"]

/-- There is a company that says no more than what is asked. -/
theorem exists_asked (env : Env) (sets : SetOrder) (q : String) : ∃ company : Company,
    SaysWhatIsAsked company (interpretQuery env sets q) q ∧ company.oneLiner = none := by
  have hsectors : ∃ sectors : List String, ∀ value,
      ("sectors", value) ∈ planFilters (env.casefold q) →
        ∀ sector, sector ∈ sectors ↔ sector ∈ value.terms := by
    refine ⟨(foundSectors (env.casefold q)).1.flatMap fun f => f.2.terms, ?_⟩
    intro value hvalue sector
    obtain ⟨hmem, -⟩ | hmem := mem_planFilters (by simp) hvalue
    · rw [foundSectors] at hmem ⊢
      split at hmem
      · cases hmem
      · rename_i hfound
        rw [if_neg hfound, List.flatMap_singleton, ← List.mem_singleton.mp hmem]
    · obtain hnil | ⟨country, city, hcons⟩ := foundCountry_cases (env.casefold q)
      · rw [hnil] at hmem
        cases hmem
      · rw [hcons] at hmem
        cases city <;> simp at hmem
  have hplace (attr : String) (hattr : attr = "country" ∨ attr = "city") :
      ∃ place : Option String, ∀ value, (attr, value) ∈ planFilters (env.casefold q) →
        place.map FilterValue.text = some value := by
    have hplaces : ∀ value, (attr, value) ∈ planFilters (env.casefold q) →
        (attr, value) ∈ (foundCountry (env.casefold q)).1 := by
      intro value hvalue
      obtain ⟨-, hs⟩ | hc := mem_planFilters (by obtain rfl | rfl := hattr <;> simp) hvalue
      · obtain rfl | rfl := hattr <;> simp at hs
      · exact hc
    obtain hnil | ⟨country, city, hcons⟩ := foundCountry_cases (env.casefold q)
    · refine ⟨none, fun value hvalue => ?_⟩
      have := hplaces value hvalue
      rw [hnil] at this
      cases this
    · rw [hcons] at hplaces
      obtain rfl | rfl := hattr
      · refine ⟨some country, fun value hvalue => ?_⟩
        have := hplaces value hvalue
        cases city <;> simpa [eq_comm] using this
      · refine ⟨city, fun value hvalue => ?_⟩
        have := hplaces value hvalue
        cases city with
        | none => simp at this
        | some name => simpa [eq_comm] using this
  obtain ⟨sectors, hsectors⟩ := hsectors
  obtain ⟨country, hcountry⟩ := hplace "country" (Or.inl rfl)
  obtain ⟨city, hcity⟩ := hplace "city" (Or.inr rfl)
  exact ⟨
    { id := 0, name := "", normalizedName := "", description := some q, sectors
      hqCountry := country, hqCity := city },
    ⟨rfl, hsectors, hcountry, hcity⟩, rfl⟩

/-- Every company that says what a query asks satisfies all its filters exactly if the query
has no phrase for earlier funding, and has the words "technical" and "enterprise" where it has
the other phrases for their filters. -/
theorem search_filters_satisfied_iff (env : Env) (sets : SetOrder) (laws : FoldsCase env)
    (q : String) :
    (∀ company : Company, SaysWhatIsAsked company (interpretQuery env sets q) q →
        (matchCompany env company (interpretQuery env sets q)).matched.map Prod.fst =
            (interpretQuery env sets q).filters.map Prod.fst ∧
          (matchCompany env company (interpretQuery env sets q)).unmatched = []) ↔
      (∀ phrase ∈ backingPhrases, isIn phrase (env.casefold q) = false) ∧
        (isIn "engineer founder" (env.casefold q) = true →
          isIn "technical" (env.casefold q) = true) ∧
        (isIn "b2b traction" (env.casefold q) = true →
          isIn "enterprise" (env.casefold q) = true) := by
  constructor
  · intro h
    obtain ⟨company, hsays, hline⟩ := exists_asked env sets q
    have hall : ∀ f ∈ planFilters (env.casefold q), satisfies env company f.1 f.2 = true :=
      matchCompany_all_iff.mp (h company hsays)
    have htext : joinTexts [company.oneLiner, company.description] = q := by
      rw [hline, hsays.description, joinTexts_sole]
    rw [planFilters_split] at hall
    simp only [List.forall_mem_append, foundFounder, foundTraction, foundBacking,
      foundAccelerator, forall_mem_foundPhrase] at hall
    obtain ⟨-, -, hfounder, htraction, hbacking, -⟩ := hall
    refine ⟨?_, ?_, ?_⟩
    · intro phrase hphrase
      by_contra hin
      obtain ⟨term, hterm, hfalse⟩ :=
        (satisfies_term (by decide)).mp (hbacking ⟨phrase, hphrase, by simpa using hin⟩)
      rw [List.mem_singleton.mp hterm, htext] at hfalse
      exact laws.small q ((of_decide_eq_true hfalse).subset (by decide +kernel))
    · intro hin
      obtain ⟨term, hterm, hwords⟩ :=
        (satisfies_term (by decide)).mp (hfounder ⟨_, by simp, hin⟩)
      rw [List.mem_singleton.mp hterm, htext] at hwords
      exact hwords
    · intro hin
      obtain ⟨term, hterm, hwords⟩ :=
        (satisfies_term (by decide)).mp (htraction ⟨_, by simp, hin⟩)
      rw [List.mem_singleton.mp hterm, htext] at hwords
      exact hwords
  · rintro ⟨hbacking, hfounder, htraction⟩ company hsays
    have said {term : String} (hterm : isIn term (env.casefold q) = true) :=
      isIn_description laws hsays.description hterm
    refine matchCompany_all_iff.mpr ?_
    show ∀ f ∈ planFilters (env.casefold q), satisfies env company f.1 f.2 = true
    rw [planFilters_split]
    simp only [List.forall_mem_append]
    refine ⟨satisfies_sectors hsays.sectors, satisfies_country hsays.country hsays.city, ?_, ?_,
      ?_, ?_⟩
    · refine forall_mem_foundPhrase.mpr ?_
      rintro ⟨phrase, hphrase, hin⟩
      refine (satisfies_term (by decide)).mpr ⟨"technical", List.mem_singleton_self _, said ?_⟩
      cases hphrase with
      | head => exact isIn_trans (by decide +kernel) hin
      | tail _ hphrase =>
          rw [List.mem_singleton.mp hphrase] at hin
          exact hfounder hin
    · refine forall_mem_foundPhrase.mpr ?_
      rintro ⟨phrase, hphrase, hin⟩
      refine (satisfies_term (by decide)).mpr ⟨"enterprise", List.mem_singleton_self _, said ?_⟩
      cases hphrase with
      | head => exact isIn_trans (by decide +kernel) hin
      | tail _ hphrase =>
          rw [List.mem_singleton.mp hphrase] at hin
          exact htraction hin
    · refine forall_mem_foundPhrase.mpr ?_
      rintro ⟨phrase, hphrase, hin⟩
      rw [hbacking phrase hphrase] at hin
      cases hin
    · refine forall_mem_foundPhrase.mpr ?_
      rintro ⟨phrase, hphrase, hin⟩
      refine (satisfies_term (by decide)).mpr ⟨"top", List.mem_singleton_self _, said ?_⟩
      have hall : ∀ phrase ∈ ["top-tier accelerator", "top tier accelerator"],
          isIn (spaced "top") phrase = true := by decide +kernel
      exact isIn_trans (hall phrase hphrase) hin

/-- Lowering a character leaves no `F`. -/
theorem toLower_ne_F (c : Char) : c.toLower ≠ 'F' := by
  intro h
  have hval : c.toLower.val = 'F'.val := congrArg Char.val h
  delta Char.toLower at hval
  split at hval
  · rename_i hupper
    have hge : 65 ≤ c.val.toNat := UInt32.le_iff_toNat_le.mp hupper.1
    have hle : c.val.toNat ≤ 90 := UInt32.le_iff_toNat_le.mp hupper.2
    have hsum : (c.val.toNat + 32) % 4294967296 = 70 := congrArg UInt32.toNat hval
    omega
  · rename_i hother
    rw [Char.ext hval] at hother
    exact hother (by decide)

theorem asciiEnv_foldsCase : FoldsCase asciiEnv where
  append a b := by simp [asciiEnv, String.ofList_append]
  small text hF := by
    simp only [asciiEnv, String.toList_ofList, List.mem_map] at hF
    obtain ⟨c, -, hc⟩ := hF
    exact toLower_ne_F c hc

/-- A company in Berlin that says no more than what is asked. -/
def berlinFounder : Company where
  id := 2
  name := "Kerbtal"
  normalizedName := "kerbtal"
  description := some "technical founder, Berlin"
  hqCountry := some "DE"
  hqCity := some "Berlin"

theorem berlinFounder_says : SaysWhatIsAsked berlinFounder
    (interpretQuery asciiEnv .given "technical founder, Berlin") "technical founder, Berlin" := by
  have hfilters : (interpretQuery asciiEnv .given "technical founder, Berlin").filters =
      [("country", .text "DE"), ("city", .text "Berlin"),
        ("founder_profile", .names ["technical"])] := by decide +kernel
  refine ⟨rfl, ?_, ?_, ?_⟩
  · simp [hfilters]
  · simp [hfilters, berlinFounder]
  · simp [hfilters, berlinFounder]

theorem search_filters_satisfied_iff_berlin :
    (matchCompany asciiEnv berlinFounder
        (interpretQuery asciiEnv .given "technical founder, Berlin")).matched.map Prod.fst =
          (interpretQuery asciiEnv .given "technical founder, Berlin").filters.map Prod.fst ∧
      (matchCompany asciiEnv berlinFounder
        (interpretQuery asciiEnv .given "technical founder, Berlin")).unmatched = [] :=
  (search_filters_satisfied_iff asciiEnv .given asciiEnv_foldsCase
    "technical founder, Berlin").mpr (by decide +kernel) berlinFounder berlinFounder_says

/-- A bootstrapped company. -/
def bootstrappedFintech : Company where
  id := 1
  name := "Ledgerly"
  normalizedName := "ledgerly"
  description := some "bootstrapped fintech"
  sectors := ["fintech"]

/-- It says what is asked, and yet does not satisfy what is asked. -/
theorem bootstrapped_unmatched :
    SaysWhatIsAsked bootstrappedFintech (interpretQuery asciiEnv .given "bootstrapped fintech")
        "bootstrapped fintech" ∧
      (matchCompany asciiEnv bootstrappedFintech
        (interpretQuery asciiEnv .given "bootstrapped fintech")).unmatched =
          ["prior_vc_backing"] := by
  have hfilters : (interpretQuery asciiEnv .given "bootstrapped fintech").filters =
      [("sectors", .names ["fintech"]), ("prior_vc_backing", .flag false)] := by decide +kernel
  refine ⟨⟨rfl, ?_, ?_, ?_⟩, by decide +kernel⟩
  · simp [hfilters, bootstrappedFintech, FilterValue.terms]
  · simp [hfilters]
  · simp [hfilters]

end DolphinVC
