import DolphinVC.Text.Words
import DolphinVC.Verification.SearchFilters

/-!
# Filters from whole phrases

A phrase of a query is looked for, and taken out, anywhere in its folded text: "uk" is found in
"ukraine" and leaves "raine". Where every occurrence of a phrase that was found is part of one
made of whole words, each filter on the place and the sectors has a phrase in whole words, and
the text that is left has every word outside them. The longer phrases leave first, so "ai infra"
leaves no half of "ai infrastructure".
-/

namespace DolphinVC

/-- `str.isalnum` of a character: what `\w` matches but the underscore -/
def Env.isAlnum (env : Env) (c : Char) : Bool := env.isWordChar c && c != '_'

/-- What is used of the characters: the letters and digits of ASCII are alphanumeric; a blank, a
comma and white space are not. -/
structure KnowsLetters (env : Env) : Prop where
  letter : ∀ c : Char, c.isAlphanum = true → env.isAlnum c = true
  blank : env.isAlnum ' ' = false
  comma : env.isAlnum ',' = false
  space : ∀ c, env.isSpace c = true → env.isAlnum c = false

/-- All phrases that a query is read for. -/
def queryPhrases : List String :=
  sectorAliases.map Prod.fst ++ countryAliases.map Prod.fst ++
    ["technical founder", "engineer founder", "enterprise traction", "b2b traction",
      "no prior vc", "no vc backing", "bootstrapped", "top-tier accelerator",
      "top tier accelerator"]

/-- The phrase stands between `x` and `y`, delimited on both sides. -/
def OccursBetween (env : Env) (folded phrase : String) (x y : List Char) : Prop :=
  folded.toList = x ++ phrase.toList ++ y ∧ Text.Delimited env.isAlnum x y

def OccursWhole (env : Env) (folded phrase : String) : Prop :=
  ∃ x y, OccursBetween env folded phrase x y

/-- What is between `a` and `b` is part of a delimited occurrence of one of the phrases. -/
def Inside (env : Env) (whole : List String) (folded : String) (a b : List Char) : Prop :=
  ∃ phrase ∈ whole, ∃ x y, OccursBetween env folded phrase x y ∧ x <+: a ∧ y <:+ b

/-- `whole` are the phrases whose words need not be left. -/
structure FromWholePhrases (env : Env) (sets : SetOrder) (whole : List String) (query : String) :
    Prop where
  country : ∀ country, ("country", .text country) ∈ (interpretQuery env sets query).filters →
    ∃ entry ∈ countryAliases, entry.2.1 = country ∧
      OccursWhole env (env.casefold query) entry.1
  city : ∀ city, ("city", .text city) ∈ (interpretQuery env sets query).filters →
    ∃ entry ∈ countryAliases, entry.2.2 = some city ∧
      OccursWhole env (env.casefold query) entry.1
  sectors : ∀ sectors, ("sectors", .names sectors) ∈ (interpretQuery env sets query).filters →
    ∀ sector ∈ sectors, ∃ entry ∈ sectorAliases, entry.2 = sector ∧
      OccursWhole env (env.casefold query) entry.1
  words : ∀ a w b, (env.casefold query).toList = a ++ w ++ b → Text.IsWord env.isAlnum w →
    Text.Delimited env.isAlnum a b → ¬ Inside env whole (env.casefold query) a b →
      Text.HasWord env.isAlnum (interpretQuery env sets query).residual.toList w

/-- Every occurrence of a phrase that was found is part of a delimited one. -/
def FoundInWholePhrases (env : Env) (whole : List String) (folded : String) : Prop :=
  ∀ phrase ∈ matchedPhrases folded, ∀ a b, folded.toList = a ++ phrase.toList ++ b →
    Inside env whole folded a b

variable {env : Env} {sets : SetOrder} {whole : List String} {query folded : String}

section Phrases

theorem queryPhrases_isPhrase (letters : KnowsLetters env) {phrase : String}
    (h : phrase ∈ queryPhrases) : Text.IsPhrase env.isAlnum phrase.toList := by
  have hends : ∀ phrase ∈ queryPhrases, phrase.toList.head?.any Char.isAlphanum = true ∧
      phrase.toList.getLast?.any Char.isAlphanum = true ∧
      phrase.toList.IsChain fun c d => c.isAlphanum = true ∨ d.isAlphanum = true := by
    decide +kernel
  obtain ⟨hfirst, hlast, hchain⟩ := hends phrase h
  exact (Text.IsPhrase.of_ends hfirst hlast hchain).mono letters.letter

/-- Only one phrase is part of another one. -/
theorem eq_of_infix {p q : String} (hp : p ∈ queryPhrases) (hq : q ∈ queryPhrases)
    (h : p.toList <:+: q.toList) : p = q ∨ p = "ai infra" ∧ q = "ai infrastructure" := by
  have hpairs : ∀ p ∈ queryPhrases, ∀ q ∈ queryPhrases, p.toList <:+: q.toList →
      p = q ∨ p = "ai infra" ∧ q = "ai infrastructure" := by
    decide +kernel
  exact hpairs p hp q hq h

theorem infrastructure_split :
    "ai infrastructure".toList = "ai infra".toList ++ "structure".toList := by
  simp

theorem infra_in_infrastructure {l r : List Char}
    (h : "ai infrastructure".toList = l ++ "ai infra".toList ++ r) :
    l = [] ∧ r = "structure".toList := by
  have hlength : l.length < 18 := by
    have := congrArg List.length h
    simp only [List.length_append] at this
    have hwhole : "ai infrastructure".toList.length = 17 := by simp
    omega
  have hstart : ∀ n < 18, "ai infra".toList <+: "ai infrastructure".toList.drop n → n = 0 := by
    decide
  have hl : l.length = 0 := by
    refine hstart l.length hlength ⟨r, ?_⟩
    rw [h, List.append_assoc, List.drop_left]
  obtain rfl := List.eq_nil_of_length_eq_zero hl
  refine ⟨rfl, ?_⟩
  rw [infrastructure_split, List.nil_append] at h
  exact (List.append_cancel_left h).symm

theorem mem_foundPhrase {phrase attr : String} {phrases counted : List String}
    {value : FilterValue} (h : phrase ∈ (foundPhrase folded phrases attr value counted).2) :
    phrase ∈ counted := by
  rw [foundPhrase] at h
  split at h
  · exact h
  · cases h

theorem mem_foundSectors {phrase : String} : phrase ∈ (foundSectors folded).2 ↔
    phrase ∈ sectorAliases.map Prod.fst ∧ isIn phrase folded = true := by
  have hmem : phrase ∈ (sectorAliases.filter fun a => isIn a.1 folded).map Prod.fst ↔
      phrase ∈ sectorAliases.map Prod.fst ∧ isIn phrase folded = true := by
    simp only [List.mem_map, List.mem_filter]
    constructor
    · rintro ⟨a, ⟨ha, hin⟩, rfl⟩
      exact ⟨⟨a, ha, rfl⟩, hin⟩
    · rintro ⟨⟨a, ha, rfl⟩, hin⟩
      exact ⟨a, ⟨ha, hin⟩, rfl⟩
  rw [← hmem, foundSectors]
  split
  · rename_i hnil
    rw [List.isEmpty_iff.mp hnil]
    simp
  · rfl

theorem mem_foundCountry {phrase : String} (h : phrase ∈ (foundCountry folded).2) :
    phrase ∈ countryAliases.map Prod.fst := by
  rw [foundCountry] at h
  split at h
  · cases h
  · rename_i hfound
    rw [List.mem_singleton.mp h]
    exact List.mem_map_of_mem (List.mem_of_find?_eq_some hfound)

theorem matchedPhrases_split : matchedPhrases folded = (foundSectors folded).2 ++
    ((foundCountry folded).2 ++ ((foundFounder folded).2 ++ ((foundTraction folded).2 ++
      ((foundBacking folded).2 ++ (foundAccelerator folded).2)))) := by
  simp [matchedPhrases, foundAll]

theorem mem_queryPhrases {phrase : String} (h : phrase ∈ matchedPhrases folded) :
    phrase ∈ queryPhrases := by
  rw [matchedPhrases_split] at h
  simp only [List.mem_append] at h
  have counted {phrases : List String} (hphrases : phrase ∈ phrases)
      (hall : ∀ p ∈ phrases, p ∈ queryPhrases) : phrase ∈ queryPhrases := hall phrase hphrases
  obtain hs | hc | hf | ht | hb | ha := h
  · exact List.mem_append_left _ (List.mem_append_left _ (mem_foundSectors.mp hs).1)
  · exact List.mem_append_left _ (List.mem_append_right _ (mem_foundCountry hc))
  · exact counted (mem_foundPhrase hf) (by simp [queryPhrases])
  · exact counted (mem_foundPhrase ht) (by simp [queryPhrases])
  · exact counted (mem_foundPhrase hb) (by simp [queryPhrases])
  · exact counted (mem_foundPhrase ha) (by simp [queryPhrases])

end Phrases

section Removal

theorem isIn_infrastructure {a b : List Char}
    (h : folded.toList = a ++ "ai infra".toList ++ ("structure".toList ++ b)) :
    "ai infrastructure" ∈ matchedPhrases folded := by
  have hin : isIn "ai infrastructure" folded = true := by
    refine decide_eq_true ⟨a, b, ?_⟩
    rw [h, infrastructure_split]
    simp
  rw [matchedPhrases_split]
  exact List.mem_append_left _ (mem_foundSectors.mpr ⟨by simp [sectorAliases], hin⟩)

variable (hwhole : ∀ phrase ∈ whole, phrase ∈ queryPhrases)
  (hfound : FoundInWholePhrases env whole folded)

include hwhole hfound

/-- An occurrence of a phrase is delimited, or it begins a delimited "ai infrastructure". -/
theorem occurrence_cases {phrase : String} (hphrase : phrase ∈ matchedPhrases folded)
    {a b : List Char} (h : folded.toList = a ++ phrase.toList ++ b) :
    Text.Delimited env.isAlnum a b ∨ phrase = "ai infra" ∧ ∃ b', b = "structure".toList ++ b' ∧
      Text.Delimited env.isAlnum a b' := by
  obtain ⟨q, hq, x, y, ⟨htext, hdelim⟩, ⟨l, rfl⟩, ⟨r, rfl⟩⟩ := hfound phrase hphrase a b h
  have hinfix : q.toList = l ++ phrase.toList ++ r := by
    have hsame : x ++ (q.toList ++ y) = x ++ ((l ++ phrase.toList ++ r) ++ y) := by
      rw [← List.append_assoc, ← htext, h]
      simp
    exact List.append_cancel_right (List.append_cancel_left hsame)
  cases eq_of_infix (mem_queryPhrases hphrase) (hwhole q hq) ⟨l, r, hinfix.symm⟩ with
  | inl heq =>
      have hlength := congrArg List.length hinfix
      rw [heq] at hlength
      simp only [List.length_append] at hlength
      obtain rfl : l = [] := List.eq_nil_of_length_eq_zero (by omega)
      obtain rfl : r = [] := List.eq_nil_of_length_eq_zero (by omega)
      rw [List.append_nil]
      exact Or.inl hdelim
  | inr hpair =>
      obtain ⟨rfl, rfl⟩ := hpair
      obtain ⟨rfl, rfl⟩ := infra_in_infrastructure hinfix
      rw [List.append_nil]
      exact Or.inr ⟨rfl, y, rfl, hdelim⟩

variable (letters : KnowsLetters env)

include letters

theorem closed_matched :
    Text.Cut.Closed env.isAlnum ((matchedPhrases folded).map String.toList) folded.toList := by
  intro p hp x y htext
  obtain ⟨phrase, hphrase, rfl⟩ := List.mem_map.mp hp
  obtain ⟨hx, hy⟩ | ⟨rfl, b', rfl, hx, hy⟩ :=
    occurrence_cases hwhole hfound hphrase htext
  · exact ⟨hx, by rwa [hy, List.append_nil]⟩
  · have hword : ∀ c ∈ "structure".toList, env.isAlnum c = true := by
      have hletters : ∀ c ∈ "structure".toList, c.isAlphanum = true := by simp
      exact fun c hc => letters.letter c (hletters c hc)
    refine ⟨hx, ?_⟩
    rw [List.takeWhile_append_of_pos hword, hy, List.append_nil]
    refine List.mem_map.mpr ⟨"ai infrastructure",
      isIn_infrastructure htext, ?_⟩
    simp

theorem cut_removed (sets : SetOrder) :
    Text.Cut env.isAlnum ' ' ((matchedPhrases folded).map String.toList) folded.toList
      (removePhrases (removalOrder sets (matchedPhrases folded)) folded.toList) := by
  have hperm : (removalOrder sets (matchedPhrases folded)).Perm (matchedPhrases folded) :=
    (List.mergeSort_perm _ _).trans (sets.perm _)
  have hsorted : (removalOrder sets (matchedPhrases folded)).Pairwise
      fun a b => b.length ≤ a.length := by
    have htrans : ∀ a b c : String, decide (b.length ≤ a.length) = true →
        decide (c.length ≤ b.length) = true → decide (c.length ≤ a.length) = true := by
      simp only [decide_eq_true_eq]
      exact fun a b c hab hbc => hbc.trans hab
    have htotal : ∀ a b : String,
        (decide (b.length ≤ a.length) || decide (a.length ≤ b.length)) = true := by
      simp only [Bool.or_eq_true, decide_eq_true_eq]
      exact fun a b => le_total _ _
    have := List.pairwise_mergeSort htrans htotal (sets.enumerate (matchedPhrases folded))
    simpa [removalOrder] using this
  have hclosed : Text.Cut.Closed env.isAlnum
      ((removalOrder sets (matchedPhrases folded)).map String.toList) folded.toList := by
    intro p hp x y htext
    obtain ⟨hx, hmem⟩ := closed_matched hwhole hfound letters p
      ((hperm.map _).mem_iff.mp hp) x y htext
    exact ⟨hx, (hperm.map _).mem_iff.mpr hmem⟩
  have hrun := Text.Cut.of_closed letters.blank ?_ (fun q hq => (hperm.map _).mem_iff.mp hq) ?_
    (.keep _) hclosed
  · rwa [List.foldl_map] at hrun
  · intro q hq
    obtain ⟨phrase, hphrase, rfl⟩ := List.mem_map.mp hq
    exact queryPhrases_isPhrase letters (mem_queryPhrases hphrase)
  · exact List.pairwise_map.mpr (hsorted.imp fun h => by rwa [String.length_toList,
      String.length_toList])

/-- The words outside the phrases are words of what is left of the query. -/
theorem hasWord_residual (sets : SetOrder) {a w b : List Char}
    (htext : folded.toList = a ++ w ++ b) (hw : Text.IsWord env.isAlnum w)
    (hdelim : Text.Delimited env.isAlnum a b) (houtside : ¬ Inside env whole folded a b) :
    Text.HasWord env.isAlnum (tidy env (removePhrases
      (removalOrder sets (matchedPhrases folded)) folded.toList)) w := by
  have hends : ∀ c, decide (c = ' ' ∨ c = ',') = true → env.isAlnum c = false := by
    intro c hc
    obtain rfl | rfl := of_decide_eq_true hc
    · exact letters.blank
    · exact letters.comma
  refine Text.HasWord.stripEnds hends hw (Text.HasWord.collapse letters.blank letters.space hw ?_)
  refine (cut_removed hwhole hfound letters sets).hasWord letters.blank ?_ hw htext hdelim ?_
  · intro q hq
    obtain ⟨phrase, hphrase, rfl⟩ := List.mem_map.mp hq
    exact queryPhrases_isPhrase letters (mem_queryPhrases hphrase)
  · rintro ⟨q, hq, x, y, hxy, -, hx, hy⟩
    obtain ⟨phrase, hphrase, rfl⟩ := List.mem_map.mp hq
    obtain ⟨q', hq', x', y', hoccurs, hx', hy'⟩ := hfound phrase hphrase x y hxy
    exact houtside ⟨q', hq', x', y', hoccurs, hx'.trans hx, hy'.trans hy⟩

end Removal

section Filters

/-- An alias that was found has its sector in whole words of the query. -/
theorem sector_occurs (hwhole : ∀ phrase ∈ whole, phrase ∈ queryPhrases)
    (hfound : FoundInWholePhrases env whole folded) {entry : String × String}
    (hentry : entry ∈ sectorAliases) (hin : isIn entry.1 folded = true) :
    ∃ a ∈ sectorAliases, a.2 = entry.2 ∧ OccursWhole env folded a.1 := by
  have hphrase : entry.1 ∈ matchedPhrases folded := by
    rw [matchedPhrases_split]
    exact List.mem_append_left _
      (mem_foundSectors.mpr ⟨List.mem_map_of_mem hentry, hin⟩)
  obtain ⟨x, y, h⟩ := of_decide_eq_true hin
  obtain hdelim | ⟨hinfra, b, rfl, hdelim⟩ := occurrence_cases hwhole hfound hphrase h.symm
  · exact ⟨entry, hentry, rfl, x, y, h.symm, hdelim⟩
  · have hsector : ∀ a ∈ sectorAliases, a.1 = "ai infra" → a.2 = "ai_infra" := by
      simp [sectorAliases]
    refine ⟨("ai infrastructure", "ai_infra"), by simp [sectorAliases],
      (hsector entry hentry hinfra).symm, x, b, ?_, hdelim⟩
    rw [← h, hinfra, infrastructure_split]
    simp

theorem country_occurs (hwhole : ∀ phrase ∈ whole, phrase ∈ queryPhrases)
    (hfound : FoundInWholePhrases env whole folded) {entry : String × String × Option String}
    (hentry : countryAliases.find? (fun a => isIn a.1 folded) = some entry) :
    OccursWhole env folded entry.1 := by
  have hphrase : entry.1 ∈ matchedPhrases folded := by
    rw [matchedPhrases_split]
    refine List.mem_append_right _ (List.mem_append_left _ ?_)
    rw [foundCountry, hentry]
    exact List.mem_singleton_self _
  have hin := List.find?_some hentry
  obtain ⟨x, y, h⟩ := of_decide_eq_true hin
  obtain hdelim | ⟨hinfra, -⟩ := occurrence_cases hwhole hfound hphrase h.symm
  · exact ⟨x, y, h.symm, hdelim⟩
  · have hcountry : ∀ a ∈ countryAliases, a.1 ≠ "ai infra" := by simp [countryAliases]
    exact absurd hinfra (hcountry entry (List.mem_of_find?_eq_some hentry))

/-- The filters on the place say what one entry of the table says. -/
theorem exists_entry {f : String × FilterValue} (h : f ∈ (foundCountry folded).1) :
    ∃ entry, countryAliases.find? (fun a => isIn a.1 folded) = some entry ∧
      (f = ("country", .text entry.2.1) ∨
        ∃ city, entry.2.2 = some city ∧ f = ("city", .text city)) := by
  rw [foundCountry] at h
  split at h
  · cases h
  · rename_i phrase country city hfind
    refine ⟨_, hfind, ?_⟩
    cases city with
    | none => exact Or.inl (List.mem_singleton.mp h)
    | some city =>
        cases h with
        | head => exact Or.inl rfl
        | tail _ h => exact Or.inr ⟨city, rfl, List.mem_singleton.mp h⟩

/-- If every phrase that is found in a query is part of whole words, then so are the phrases of
its filters, and what is left of it has all words outside them. -/
theorem query_from_whole_phrases (env : Env) (sets : SetOrder) (whole : List String)
    (query : String) (letters : KnowsLetters env)
    (hwhole : ∀ phrase ∈ whole, phrase ∈ queryPhrases)
    (hfound : FoundInWholePhrases env whole (env.casefold query)) :
    FromWholePhrases env sets whole query where
  country country h := by
    obtain ⟨-, hattr⟩ | h := mem_planFilters (by simp) h
    · exact absurd hattr (by decide)
    · obtain ⟨entry, hentry, hf | ⟨city, -, hf⟩⟩ := exists_entry h
      · obtain ⟨-, hvalue⟩ := Prod.mk.inj hf
        exact ⟨entry, List.mem_of_find?_eq_some hentry, (FilterValue.text.inj hvalue).symm,
          country_occurs hwhole hfound hentry⟩
      · exact absurd (congrArg Prod.fst hf) (by simp)
  city city h := by
    obtain ⟨-, hattr⟩ | h := mem_planFilters (by simp) h
    · exact absurd hattr (by decide)
    · obtain ⟨entry, hentry, hf | ⟨city', hcity, hf⟩⟩ := exists_entry h
      · exact absurd (congrArg Prod.fst hf) (by simp)
      · obtain ⟨-, hvalue⟩ := Prod.mk.inj hf
        rw [FilterValue.text.inj hvalue]
        exact ⟨entry, List.mem_of_find?_eq_some hentry, hcity,
          country_occurs hwhole hfound hentry⟩
  sectors sectors h := by
    obtain ⟨h, -⟩ | h := mem_planFilters (by simp) h
    · rw [foundSectors] at h
      split at h
      · cases h
      · intro sector hsector
        have heq := FilterValue.names.inj (congrArg Prod.snd (List.mem_singleton.mp h))
        rw [heq, List.mem_insertionSort, List.mem_dedup] at hsector
        obtain ⟨entry, hentry, rfl⟩ := List.mem_map.mp hsector
        obtain ⟨halias, hin⟩ := List.mem_filter.mp hentry
        exact sector_occurs hwhole hfound halias hin
    · obtain ⟨entry, -, hf | ⟨city, -, hf⟩⟩ := exists_entry h
      · exact absurd (congrArg Prod.fst hf) (by simp)
      · exact absurd (congrArg Prod.fst hf) (by simp)
  words a w b htext hw hdelim houtside := by
    have hword := hasWord_residual hwhole hfound letters sets htext hw hdelim houtside
    have hresidual : (interpretQuery env sets query).residual.toList =
        tidy env (removePhrases (removalOrder sets (matchedPhrases (env.casefold query)))
          (env.casefold query).toList) := by
      obtain ⟨x, y, heq, -⟩ := hword
      have hne : (tidy env (removePhrases (removalOrder sets
          (matchedPhrases (env.casefold query))) (env.casefold query).toList)).isEmpty = false := by
        rw [heq]
        simp [hw.1]
      simp only [interpretQuery, planResidual, hne]
      rw [if_neg Bool.false_ne_true, String.toList_ofList]
    rw [hresidual]
    exact hword

end Filters

section Positions

/-- What `FoundInWholePhrases` says, position by position. -/
theorem foundInWholePhrases_of_positions
    (h : ∀ phrase ∈ matchedPhrases folded, ∀ n < folded.toList.length + 1,
      phrase.toList <+: folded.toList.drop n →
        ∃ q ∈ whole, ∃ j < n + 1, q.toList <+: folded.toList.drop j ∧
          Text.Delimited env.isAlnum (folded.toList.take j)
            (folded.toList.drop (j + q.toList.length)) ∧
          n + phrase.toList.length ≤ j + q.toList.length) :
    FoundInWholePhrases env whole folded := by
  intro phrase hphrase a b htext
  have ha : folded.toList.drop a.length = phrase.toList ++ b := by
    rw [htext, List.append_assoc, List.drop_left]
  obtain ⟨q, hq, j, hj, ⟨y, hy⟩, hdelim, hend⟩ := h phrase hphrase a.length
    (by rw [htext]; simp only [List.length_append]; omega) ⟨b, ha.symm⟩
  have hdrop : folded.toList.drop (j + q.toList.length) = y := by
    rw [← List.drop_drop, ← hy, List.drop_left]
  refine ⟨q, hq, folded.toList.take j, y, ⟨?_, hdrop ▸ hdelim⟩, ?_, ?_⟩
  · rw [List.append_assoc, hy, List.take_append_drop]
  · have htake : a = folded.toList.take a.length := by
      rw [htext, List.append_assoc, List.take_left]
    rw [htake]
    exact List.take_prefix_take_left (Nat.le_of_lt_succ hj)
  · have hb : b = folded.toList.drop (a.length + phrase.toList.length) := by
      rw [← List.drop_drop, ha, List.drop_left]
    rw [hb, ← hdrop]
    exact List.drop_suffix_drop_left _ hend

theorem asciiEnv_knowsLetters : KnowsLetters asciiEnv where
  letter c hc := by
    have hne : c ≠ '_' := by
      rintro rfl
      exact absurd hc (by decide)
    simp [Env.isAlnum, asciiEnv, plainEnv, hc, hne]
  blank := by decide
  comma := by decide
  space c hc := by
    have hspace : c = ' ' ∨ c = '\t' ∨ c = '\r' ∨ c = '\n' := by
      simpa [asciiEnv, plainEnv, Char.isWhitespace, or_assoc] using hc
    obtain rfl | rfl | rfl | rfl := hspace <;> decide

end Positions

theorem query_from_whole_phrases_london :
    FromWholePhrases asciiEnv .given queryPhrases "AI infrastructure in London, no hype" :=
  query_from_whole_phrases asciiEnv .given queryPhrases _ asciiEnv_knowsLetters (fun _ h => h)
    (foundInWholePhrases_of_positions (by decide +kernel))

/-- "uk" is found in "ukraine": the search is for Britain, and the word is no more. -/
theorem ukraine_is_no_phrase :
    ("country", .text "GB") ∈ (interpretQuery asciiEnv .given "Ukraine").filters ∧
      (interpretQuery asciiEnv .given "Ukraine").residual = "raine" ∧
      ¬ FromWholePhrases asciiEnv .given queryPhrases "Ukraine" := by
  have hresidual : (interpretQuery asciiEnv .given "Ukraine").residual = "raine" := by
    have hmatched : matchedPhrases (asciiEnv.casefold "Ukraine") = ["uk"] := by decide +kernel
    have horder : removalOrder .given ["uk"] = ["uk"] := List.mergeSort_singleton _
    simp only [interpretQuery, planResidual, hmatched, horder]
    decide +kernel
  refine ⟨by decide +kernel, hresidual, fun h => ?_⟩
  obtain ⟨x, y, htext, -⟩ := h.words [] "ukraine".toList [] (by decide +kernel) (by decide +kernel)
    ⟨rfl, rfl⟩ (by
      rintro ⟨phrase, hphrase, x, y, ⟨htext, -⟩, hx, hy⟩
      rw [List.prefix_nil.mp hx, List.suffix_nil.mp hy] at htext
      have hnone : ∀ phrase ∈ queryPhrases,
          (asciiEnv.casefold "Ukraine").toList ≠ phrase.toList := by decide +kernel
      exact hnone phrase hphrase (by simpa using htext))
  rw [hresidual] at htext
  have hlength := congrArg List.length htext
  simp at hlength
  omega

end DolphinVC
