import DolphinVC.Services.Auth
import Mathlib.Data.List.Nodup
import Mathlib.Data.List.Perm.Subperm

/-!
# Slugs of new organizations

A signup tries the slug of the name and then the same slug, cut to 70 characters, with the
suffixes 2, 3 and so on. No two suffixes give one slug, so a finite number of organizations
cannot take them all and the loop ends.

The public application form looks an organization up by a slug of 2 to 100 characters. The
slug of a name may be a single character.
-/

namespace DolphinVC

/-- The slug with a suffix. -/
def suffixedSlug (base : String) (n : Nat) : String :=
  String.ofList (base.toList.take 70) ++ "-" ++ toString n

/-- The `while` loop of `signup`: from a suffix and the slug it has led to, it ends with the
third slug. -/
inductive SlugLoop (taken : String → Bool) (base : String) : Nat → String → String → Prop
  | done {suffix : Nat} {slug : String} : taken slug = false →
      SlugLoop taken base suffix slug slug
  | retry {suffix : Nat} {slug result : String} : taken slug = true →
      SlugLoop taken base (suffix + 1) (suffixedSlug base (suffix + 1)) result →
      SlugLoop taken base suffix slug result

variable {env : Env} {taken : String → Bool} {base slug result : String} {suffix n m : Nat}

section Suffixes

theorem length_suffixedSlug : (suffixedSlug base n).length =
    min 70 base.length + 1 + (toString n).length := by
  have hcut : (String.ofList (base.toList.take 70)).length = min 70 base.length := by
    rw [String.length_ofList, List.length_take, String.length_toList]
  rw [suffixedSlug, String.length_append, String.length_append, hcut]
  rfl

theorem suffixedSlug_injective : Function.Injective (suffixedSlug base) := by
  intro n m h
  have hsame : (suffixedSlug base n).toList = (suffixedSlug base m).toList := by rw [h]
  have hdigits : Nat.toDigits 10 n = Nat.toDigits 10 m := by
    simp only [suffixedSlug, String.toList_append] at hsame
    have hrepr : n.repr.toList = m.repr.toList := List.append_cancel_left hsame
    rwa [Nat.toList_repr, Nat.toList_repr] at hrepr
  calc n = Nat.ofDigitChars 10 (Nat.toDigits 10 n) 0 := Nat.ofDigitChars_ten_toDigits.symm
    _ = m := by rw [hdigits, Nat.ofDigitChars_ten_toDigits]

theorem length_suffixedSlug_mono (base : String) (h : n ≤ m) :
    (suffixedSlug base n).length ≤ (suffixedSlug base m).length := by
  have hpos : 0 < m.repr.length := Nat.length_repr_pos
  have hm : m < 10 ^ m.repr.length := (Nat.length_repr_le_iff hpos).mp le_rfl
  have hn : n.repr.length ≤ m.repr.length := (Nat.length_repr_le_iff hpos).mpr (h.trans_lt hm)
  rw [length_suffixedSlug, length_suffixedSlug]
  exact Nat.add_le_add_left hn _

/-- One suffix more than there are slugs in use. -/
theorem exists_free_suffix (base : String) (slugs : List String) :
    ∃ n, 2 ≤ n ∧ n ≤ slugs.length + 2 ∧ suffixedSlug base n ∉ slugs := by
  by_contra hnone
  have hsub : (List.range' 2 (slugs.length + 1)).map (suffixedSlug base) ⊆ slugs := by
    intro s hs
    obtain ⟨n, hn, rfl⟩ := List.mem_map.mp hs
    obtain ⟨hlow, hhigh⟩ := List.mem_range'_1.mp hn
    by_contra hfree
    exact hnone ⟨n, hlow, by omega, hfree⟩
  have hnodup : ((List.range' 2 (slugs.length + 1)).map (suffixedSlug base)).Nodup :=
    (List.nodup_range').map suffixedSlug_injective
  have hle := (List.subperm_of_subset hnodup hsub).length_le
  rw [List.length_map, List.length_range'] at hle
  omega

theorem length_slugify (env : Env) (name : String) :
    1 ≤ (slugify env name).length ∧ (slugify env name).length ≤ 80 := by
  rw [slugify]
  split
  · decide
  · rename_i hne
    rw [String.length_ofList]
    refine ⟨?_, List.length_take_le _ _⟩
    exact List.length_pos_of_ne_nil (by simpa using hne)

end Suffixes

section Loop

/-- With a free slug among those that the fuel reaches, `freeSlug` returns where the loop ends. -/
theorem slugLoop_freeSlug {fuel : Nat} (h : taken slug = false ∨
      ∃ n, suffix < n ∧ n ≤ suffix + fuel ∧ taken (suffixedSlug base n) = false) :
    SlugLoop taken base suffix slug (freeSlug taken base fuel suffix slug) := by
  induction fuel generalizing suffix slug with
  | zero =>
      cases h with
      | inl hfree => exact SlugLoop.done hfree
      | inr h =>
          obtain ⟨n, hlow, hhigh, -⟩ := h
          omega
  | succ fuel ih =>
      cases hslug : taken slug with
      | false =>
          simp only [freeSlug, hslug, Bool.false_eq_true, if_false]
          exact SlugLoop.done hslug
      | true =>
          simp only [freeSlug, hslug, if_true]
          refine SlugLoop.retry hslug (ih ?_)
          obtain hfree | ⟨n, hlow, hhigh, hfree⟩ := h
          · rw [hslug] at hfree
            cases hfree
          · obtain rfl | hlt := (Nat.succ_le_of_lt hlow).eq_or_lt
            · exact Or.inl hfree
            · exact Or.inr ⟨n, hlt, by omega, hfree⟩

/-- The loop ends with the first slug that is free. -/
theorem SlugLoop.spec (h : SlugLoop taken base suffix slug result) :
    taken result = false ∧ (taken slug = false ∧ result = slug ∨
      taken slug = true ∧ ∃ n, suffix < n ∧ result = suffixedSlug base n ∧
        ∀ m, suffix < m → m < n → taken (suffixedSlug base m) = true) := by
  induction h with
  | done hfree => exact ⟨hfree, Or.inl ⟨hfree, rfl⟩⟩
  | @retry suffix slug result hslug _ ih =>
      obtain ⟨hresult, ⟨-, rfl⟩ | ⟨hnext, n, hlt, rfl, hbefore⟩⟩ := ih
      · exact ⟨hresult, Or.inr ⟨hslug, suffix + 1, Nat.lt_succ_self _, rfl, fun m _ _ => by omega⟩⟩
      · refine ⟨hresult, Or.inr ⟨hslug, n, Nat.lt_of_succ_lt hlt, rfl, ?_⟩⟩
        intro m hlow hhigh
        obtain rfl | hm := (Nat.succ_le_of_lt hlow).eq_or_lt
        · exact hnext
        · exact hbefore m hm hhigh

def slugTaken (db : Db) (slug : String) : Bool := db.orgs.rows.any fun o => o.slug = slug

/-- The slug a signup stores. -/
def signupSlug (env : Env) (name : String) (db : Db) : String :=
  freeSlug (fun s => db.orgs.rows.any fun o => o.slug = s) (slugify env name)
    (db.orgs.rows.length + 1) 1 (slugify env name)

/-- The loop of a signup ends. -/
theorem slugLoop_signup (env : Env) (name : String) (db : Db) :
    SlugLoop (slugTaken db) (slugify env name) 1 (slugify env name) (signupSlug env name db) := by
  refine slugLoop_freeSlug (Or.inr ?_)
  obtain ⟨n, hlow, hhigh, hfree⟩ :=
    exists_free_suffix (slugify env name) (db.orgs.rows.map Org.slug)
  rw [List.length_map] at hhigh
  refine ⟨n, hlow, by omega, ?_⟩
  apply List.any_eq_false.mpr
  intro o ho heq
  exact hfree (of_decide_eq_true heq ▸ List.mem_map_of_mem ho)

/-- The slug is one that the application form finds exactly if the name's own slug is free and
no single character, or a suffix is free that leaves it within 100 characters. -/
theorem signup_slug_usable_iff (env : Env) (name : String) (db : Db) :
    (SlugLoop (slugTaken db) (slugify env name) 1 (slugify env name) (signupSlug env name db) ∧
        slugTaken db (signupSlug env name db) = false ∧
        2 ≤ (signupSlug env name db).length ∧ (signupSlug env name db).length ≤ 100) ↔
      slugTaken db (slugify env name) = false ∧ 2 ≤ (slugify env name).length ∨
        slugTaken db (slugify env name) = true ∧ ∃ n, 2 ≤ n ∧
          slugTaken db (suffixedSlug (slugify env name) n) = false ∧
          (suffixedSlug (slugify env name) n).length ≤ 100 := by
  have hloop := slugLoop_signup env name db
  obtain ⟨hlow, hhigh⟩ := length_slugify env name
  obtain ⟨hfree, ⟨hbase, hslug⟩ | ⟨hbase, n, hn, hslug, hleast⟩⟩ := hloop.spec
  · rw [hslug] at hfree ⊢
    constructor
    · rintro ⟨-, -, htwo, -⟩
      exact Or.inl ⟨hbase, htwo⟩
    · rintro (⟨-, htwo⟩ | ⟨htaken, -⟩)
      · exact ⟨SlugLoop.done hbase, hbase, htwo, by omega⟩
      · rw [hbase] at htaken
        cases htaken
  · rw [hslug] at hfree hloop ⊢
    constructor
    · rintro ⟨-, -, -, hfits⟩
      exact Or.inr ⟨hbase, n, hn, hfree, hfits⟩
    · rintro (⟨huntaken, -⟩ | ⟨-, m, hm, hmfree, hfits⟩)
      · rw [hbase] at huntaken
        cases huntaken
      · -- the first free suffix is no longer than any other
        have hnm : n ≤ m := by
          by_contra hlt
          rw [hleast m hm (not_le.mp hlt)] at hmfree
          cases hmfree
        have hle := (length_suffixedSlug_mono (slugify env name) hnm).trans hfits
        have hlen : (suffixedSlug (slugify env name) n).length =
          min 70 (slugify env name).length + 1 + (toString n).length := length_suffixedSlug
        have hdigits : 0 < (toString n).length := Nat.length_repr_pos
        exact ⟨hloop, hfree, by omega, hle⟩

/-- The first organization of this name gets a slug that no application form finds. -/
theorem signup_slug_too_short : SlugLoop (slugTaken {}) (slugify plainEnv "a!") 1
    (slugify plainEnv "a!") (signupSlug plainEnv "a!" {}) ∧
      ¬ 2 ≤ (signupSlug plainEnv "a!" {}).length :=
  ⟨slugLoop_signup _ _ _, by decide +kernel⟩

end Loop

end DolphinVC
