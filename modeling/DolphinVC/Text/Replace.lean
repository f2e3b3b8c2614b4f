import Mathlib.Data.List.Basic

/-!
# Replacing and collapsing

`replaceAll` is `str.replace`: from the left, every occurrence that does not overlap one
already replaced. The count says how much of an occurrence is still to be skipped. `collapse`
leaves one blank of every run of white space, and `stripEnds` is `str.strip`.
-/

namespace Text

variable {α : Type*} [DecidableEq α]

/-- A pattern is not empty; `old.length - 1` of its characters follow the first. -/
def replaceFrom (old new : List α) : Nat → List α → List α
  | _, [] => []
  | skip + 1, _ :: cs => replaceFrom old new skip cs
  | 0, c :: cs =>
      if old <+: c :: cs then new ++ replaceFrom old new (old.length - 1) cs
      else c :: replaceFrom old new 0 cs

def replaceAll (old new : List α) (text : List α) : List α := replaceFrom old new 0 text

section ReplaceAll

variable {old new text s r : List α} {d : α}

theorem replaceFrom_eq_drop (skip : Nat) (text : List α) :
    replaceFrom old new skip text = replaceAll old new (text.drop skip) := by
  induction text generalizing skip with
  | nil => simp [replaceAll, replaceFrom]
  | cons c cs ih =>
      cases skip with
      | zero => rfl
      | succ skip => exact ih skip

theorem replaceAll_of_absent (h : ¬ old <:+: text) : replaceAll old new text = text := by
  induction text with
  | nil => rfl
  | cons c cs ih =>
      have hprefix : ¬ old <+: c :: cs := fun hp => h hp.isInfix
      have htail : ¬ old <:+: cs := fun ht => h (ht.trans (List.suffix_cons c cs).isInfix)
      rw [replaceAll, replaceFrom, if_neg hprefix]
      exact congrArg (c :: ·) (ih htail)

/-- The first occurrence is replaced, and what follows it is treated alike. -/
theorem exists_replaceAll (new : List α) (hold : old ≠ []) (h : old <:+: text) :
    ∃ s r, text = s ++ old ++ r ∧
      ¬ old <:+: s ∧ replaceAll old new text = s ++ new ++ replaceAll old new r := by
  induction text with
  | nil => exact absurd (List.eq_nil_of_infix_nil h) hold
  | cons c cs ih =>
      by_cases hprefix : old <+: c :: cs
      · have hreplace : replaceAll old new (c :: cs) =
            new ++ replaceAll old new (cs.drop (old.length - 1)) := by
          rw [replaceAll, replaceFrom, if_pos hprefix, replaceFrom_eq_drop]
        obtain ⟨r, hr⟩ := hprefix
        refine ⟨[], r, by simpa using hr.symm, by simpa using hold, ?_⟩
        cases old with
        | nil => exact absurd rfl hold
        | cons e old =>
            obtain ⟨rfl, rfl⟩ := List.cons.inj hr
            rw [hreplace, List.nil_append]
            simp
      · obtain ⟨s, r, rfl, hs, hreplace⟩ := ih ((List.infix_cons_iff.mp h).resolve_left hprefix)
        refine ⟨c :: s, r, rfl, ?_, ?_⟩
        · intro hinfix
          cases List.infix_cons_iff.mp hinfix with
          | inl hp => exact hprefix (hp.trans ⟨old ++ r, by simp⟩)
          | inr hi => exact hs hi
        · rw [replaceAll, replaceFrom, if_neg hprefix]
          exact congrArg (c :: ·) hreplace

/-- No occurrence that starts before `d` reaches it, so the two sides are treated apart. -/
theorem replaceAll_append_cons (hs : ∀ l, l ≠ [] → l <:+ s → old <+: l ++ d :: r → old <+: l)
    (hd : ¬ old <+: d :: r) :
    replaceAll old new (s ++ d :: r) = replaceAll old new s ++ d :: replaceAll old new r := by
  have skipped (skip : Nat) (hskip : skip ≤ s.length) :
      replaceFrom old new skip (s ++ d :: r) =
        replaceFrom old new skip s ++ d :: replaceAll old new r := by
    induction s generalizing skip with
    | nil =>
        obtain rfl : skip = 0 := Nat.le_zero.mp hskip
        show replaceFrom old new 0 (d :: r) = d :: replaceAll old new r
        rw [replaceFrom, if_neg hd]
        rfl
    | cons c s ih =>
        have hrest : ∀ l, l ≠ [] → l <:+ s → old <+: l ++ d :: r → old <+: l :=
          fun l hl hsuffix => hs l hl (hsuffix.trans (List.suffix_cons c s))
        cases skip with
        | succ skip => exact ih hrest skip (Nat.le_of_succ_le_succ hskip)
        | zero =>
            have hhere : old <+: c :: (s ++ d :: r) ↔ old <+: c :: s :=
              ⟨hs (c :: s) (List.cons_ne_nil c s) List.suffix_rfl, fun h => h.trans ⟨_, rfl⟩⟩
            rw [List.cons_append, replaceFrom, replaceFrom]
            by_cases hold : old <+: c :: s
            · have hlength : old.length - 1 ≤ s.length := by
                have := hold.length_le
                rw [List.length_cons] at this
                omega
              rw [if_pos (hhere.mpr hold), if_pos hold, ih hrest _ hlength, List.append_assoc]
            · rw [if_neg fun h => hold (hhere.mp h), if_neg hold, ih hrest 0 (Nat.zero_le _)]
              rfl
  exact skipped 0 (Nat.zero_le _)

end ReplaceAll

def collapse (isSpace : α → Bool) (blank : α) : List α → List α
  | [] => []
  | [c] => [if isSpace c then blank else c]
  | c :: d :: cs =>
      if isSpace c then
        if isSpace d then collapse isSpace blank (d :: cs)
        else blank :: collapse isSpace blank (d :: cs)
      else c :: collapse isSpace blank (d :: cs)

def stripEnds (isEnd : α → Bool) (cs : List α) : List α :=
  ((cs.dropWhile isEnd).reverse.dropWhile isEnd).reverse

end Text
