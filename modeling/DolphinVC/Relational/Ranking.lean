import Mathlib.Data.List.MinMax
import Mathlib.Data.List.Nodup

/-!
# Ranking a part of the rows

`top` ranks rows by their scores and keeps the first ones; only rows that count are ranked. It
answers as if there were no limit to what it looks at. `cutTop` looks at the first rows only,
in whatever order they come.

`cutTop_best_iff` says for which rows no order makes a difference: few rows, no row that counts
below the highest score, or so few rows below it that every cut has enough of the others.
-/

namespace Ranking

variable {ρ K : Type*} [LinearOrder K] (score : ρ → K) (counted : ρ → Bool)

def top (limit : Nat) (rows : List ρ) : List ρ :=
  ((rows.filter counted).mergeSort fun a b => score b ≤ score a).take limit

def cutTop (cut limit : Nat) (rows : List ρ) : List ρ := top score counted limit (rows.take cut)

/-- No row that is left out scores higher than one in the answer. -/
def Best (rows answer : List ρ) : Prop :=
  ∀ x ∈ rows, x ∉ answer → ∀ y ∈ answer, score x ≤ score y

/-- Some row scores higher. -/
def Beaten (rows : List ρ) (y : ρ) : Prop := ∃ x ∈ rows, score y < score x

instance (rows : List ρ) : DecidablePred (Beaten score rows) := fun y =>
  inferInstanceAs (Decidable (∃ x ∈ rows, score y < score x))

variable {score counted} {rows S : List ρ} {cut limit : Nat} {x y : ρ}

section Keys

/-- The same about keys, which is all that an answer may show of its rows. -/
theorem best_iff_keys {κ : Type*} (score : ρ → K) (key : ρ → κ) {answer : List ρ}
    (hinj : ∀ x ∈ rows, ∀ y ∈ rows, key x = key y → x = y) (hsub : ∀ y ∈ answer, y ∈ rows) :
    Best score rows answer ↔ ∀ x ∈ rows, key x ∉ answer.map key →
      ∀ y ∈ rows, key y ∈ answer.map key → score x ≤ score y := by
  have hmem : ∀ x ∈ rows, key x ∈ answer.map key ↔ x ∈ answer := by
    intro x hx
    refine ⟨fun h => ?_, List.mem_map_of_mem⟩
    obtain ⟨y, hy, hkey⟩ := List.mem_map.mp h
    rwa [← hinj y (hsub y hy) x hx hkey]
  constructor
  · intro h x hx hout y hy hin
    exact h x hx (mt (hmem x hx).mpr hout) y ((hmem y hy).mp hin)
  · intro h x hx hout y hy
    exact h x hx (mt (hmem x hx).mp hout) y (hsub y hy) ((hmem y (hsub y hy)).mpr hy)

end Keys

section Top

theorem mem_of_mem_top (h : y ∈ top score counted limit S) : y ∈ S ∧ counted y = true :=
  List.mem_filter.mp (List.mem_mergeSort.mp (List.mem_of_mem_take h))

/-- What is not in the answer comes after all of it. -/
theorem pairwise_ranked (score : ρ → K) (S : List ρ) :
    (S.mergeSort fun a b => score b ≤ score a).Pairwise fun a b => score b ≤ score a := by
  have hsorted := @List.pairwise_mergeSort ρ (fun a b => decide (score b ≤ score a))
    (fun a b c hab hbc => decide_eq_true
      ((of_decide_eq_true hbc).trans (of_decide_eq_true hab)))
    (fun a b => by simpa using le_total (score b) (score a)) S
  exact hsorted.imp fun h => of_decide_eq_true h

theorem score_le_of_not_mem_top (hx : x ∈ S) (hcounted : counted x = true)
    (hout : x ∉ top score counted limit S) (hy : y ∈ top score counted limit S) :
    score x ≤ score y := by
  have hranked := pairwise_ranked score (S.filter counted)
  rw [← List.take_append_drop limit (List.mergeSort _ _)] at hranked
  have hmem : x ∈ (S.filter counted).mergeSort fun a b => score b ≤ score a :=
    List.mem_mergeSort.mpr (List.mem_filter.mpr ⟨hx, hcounted⟩)
  rw [← List.take_append_drop limit (List.mergeSort _ _)] at hmem
  exact (List.pairwise_append.mp hranked).2.2 y hy x ((List.mem_append.mp hmem).resolve_left hout)

/-- Fewer rows than the limit score higher than a row of the answer. -/
theorem countP_above_lt (hy : y ∈ top score counted limit S) :
    (S.filter counted).countP (fun z => decide (score y < score z)) < limit := by
  have hranked := pairwise_ranked score (S.filter counted)
  rw [← (List.mergeSort_perm (S.filter counted) fun a b => decide (score b ≤ score a)).countP_eq]
  rw [← List.take_append_drop limit (List.mergeSort _ _)] at hranked ⊢
  have hdrop : (((S.filter counted).mergeSort fun a b => score b ≤ score a).drop limit).countP
      (fun z => decide (score y < score z)) = 0 := by
    apply List.countP_eq_zero.mpr
    intro z hz
    simpa using (List.pairwise_append.mp hranked).2.2 y hy z hz
  have htake : (top score counted limit S).countP (fun z => decide (score y < score z)) <
      (top score counted limit S).length := by
    refine lt_of_le_of_ne List.countP_le_length fun heq => ?_
    simpa using List.countP_eq_length.mp heq y hy
  have hlimit : (top score counted limit S).length ≤ limit := List.length_take_le _ _
  rw [List.countP_append, hdrop]
  exact (htake.trans_le hlimit : _)

/-- An answer with more places than there are rows with a property has a row without it. -/
theorem exists_mem_top (score : ρ → K) (limit : Nat) {p : ρ → Bool} (hlimit : S.countP p < limit)
    (hrows : S.countP p < (S.filter counted).length) :
    ∃ z ∈ top score counted limit S, p z = false := by
  by_contra hnone
  have hall : (top score counted limit S).countP p = (top score counted limit S).length := by
    apply List.countP_eq_length.mpr
    intro z hz
    by_contra hp
    exact hnone ⟨z, hz, by simpa using hp⟩
  have hle : (top score counted limit S).countP p ≤ S.countP p := by
    calc (top score counted limit S).countP p
        ≤ ((S.filter counted).mergeSort fun a b => score b ≤ score a).countP p :=
          (List.take_sublist limit _).countP_le
      _ = (S.filter counted).countP p := (List.mergeSort_perm _ _).countP_eq p
      _ ≤ S.countP p := List.filter_sublist.countP_le
  have hlength : (top score counted limit S).length = min limit (S.filter counted).length := by
    rw [top, List.length_take, List.length_mergeSort]
  omega

end Top

section Cut

/-- If no row beats the others' best, or too few are below it, the cut leaves out none of the
highest rows in favour of a lower one. -/
theorem cutTop_best (upward : ∀ x ∈ rows, ∀ y ∈ rows, counted y = true → score y < score x →
      counted x = true) {rows' : List ρ} (hperm : rows'.Perm rows)
    (h : rows.length ≤ cut ∨ (∀ y ∈ rows, counted y = true → ∀ x ∈ rows, score x ≤ score y) ∨
      rows.countP (Beaten score rows) + min limit cut ≤ cut) :
    Best score rows (cutTop score counted cut limit rows') := by
  intro x hx hout y hy
  obtain ⟨hyS, hycounted⟩ := mem_of_mem_top hy
  have hyrows : y ∈ rows := hperm.mem_iff.mp (List.mem_of_mem_take hyS)
  by_contra hlt
  rw [not_le] at hlt
  by_cases hxS : x ∈ rows'.take cut
  · have hle := score_le_of_not_mem_top hxS (upward x hx y hyrows hycounted hlt) hout hy
    exact absurd hlt (not_lt.mpr hle)
  · have hcut : cut < rows'.length := by
      by_contra hle
      rw [List.take_of_length_le (not_lt.mp hle)] at hxS
      exact hxS (hperm.mem_iff.mpr hx)
    obtain hfew | hlevel | hbelow := h
    · rw [hperm.length_eq] at hcut
      omega
    · exact absurd (hlevel y hyrows hycounted x hx) (not_le.mpr hlt)
    · -- the rows of the cut that nothing beats all rank before `y`
      have hbeaten : (rows'.take cut).countP (Beaten score rows) ≤
          rows.countP (Beaten score rows) := by
        rw [← hperm.countP_eq]
        exact (List.take_sublist _ _).countP_le
      have hothers : (rows'.take cut).countP (fun z => decide ¬ Beaten score rows z) < limit := by
        refine lt_of_le_of_lt ?_ (countP_above_lt hy)
        rw [List.countP_filter]
        apply List.countP_mono_left
        intro z hz hbest
        have hzrows : z ∈ rows := hperm.mem_iff.mp (List.mem_of_mem_take hz)
        have hzx : score x ≤ score z := by
          by_contra hzlt
          exact of_decide_eq_true hbest ⟨x, hx, not_le.mp hzlt⟩
        have hyz : score y < score z := hlt.trans_le hzx
        simp [hyz, upward z hzrows y hyrows hycounted hyz]
      have hlength : (rows'.take cut).length = cut := by
        rw [List.length_take]
        omega
      have hsplit := List.length_eq_countP_add_countP (fun z => decide (Beaten score rows z))
        (l := rows'.take cut)
      have hpos : 0 < rows.countP (Beaten score rows) :=
        List.countP_pos_iff.mpr ⟨y, hyrows, by simpa using ⟨x, hx, hlt⟩⟩
      simp only [decide_eq_true_eq] at hsplit
      omega

/-- The rows that are kept back: the cut sees few rows that nothing beats, then the ones below,
and a highest row comes last. -/
theorem exists_order (hx : x ∈ rows) (hxbest : ¬ Beaten score rows x) (hy : y ∈ rows)
    (hybeaten : Beaten score rows y) (n : Nat) : ∃ best others rest,
      rows.Perm (best ++ y :: others ++ (rest ++ [x])) ∧ best.length ≤ n ∧
        (∀ z ∈ best, ¬ Beaten score rows z) ∧ (∀ z ∈ others, Beaten score rows z) ∧
        (rest = [] ∨ best.length = n) ∧
        others.length + 1 = rows.countP (Beaten score rows) := by
  have hxmem : x ∈ rows.filter fun z => !decide (Beaten score rows z) :=
    List.mem_filter.mpr ⟨hx, by simpa using hxbest⟩
  have hymem : y ∈ rows.filter fun z => decide (Beaten score rows z) :=
    List.mem_filter.mpr ⟨hy, by simpa using hybeaten⟩
  obtain ⟨u, u', hu⟩ := List.append_of_mem hxmem
  obtain ⟨w, w', hw⟩ := List.append_of_mem hymem
  refine ⟨(u ++ u').take n, w ++ w', (u ++ u').drop n, ?_, List.length_take_le _ _, ?_, ?_, ?_, ?_⟩
  · have hsplit : ((w ++ y :: w') ++ (u ++ x :: u')).Perm rows := by
      rw [← hw, ← hu]
      exact List.filter_append_perm _ _
    have hfront : ((w ++ y :: w') ++ (u ++ x :: u')).Perm
        ((y :: (w ++ w')) ++ ((u ++ u') ++ [x])) :=
      List.perm_middle.append (List.perm_middle.trans (List.perm_append_singleton _ _).symm)
    have hrest : (u ++ u') ++ [x] = (u ++ u').take n ++ ((u ++ u').drop n ++ [x]) := by
      rw [← List.append_assoc, List.take_append_drop]
    rw [hrest] at hfront
    refine (hsplit.symm.trans hfront).trans ?_
    rw [List.append_assoc]
    exact List.perm_append_comm_assoc _ _ _
  · intro z hz
    have hmem : z ∈ rows.filter fun z => !decide (Beaten score rows z) := by
      rw [hu]
      have := List.mem_of_mem_take hz
      simp only [List.mem_append, List.mem_cons] at this ⊢
      tauto
    simpa using (List.mem_filter.mp hmem).2
  · intro z hz
    have hmem : z ∈ rows.filter fun z => decide (Beaten score rows z) := by
      rw [hw]
      simp only [List.mem_append, List.mem_cons] at hz ⊢
      tauto
    exact of_decide_eq_true (List.mem_filter.mp hmem).2
  · by_cases hlen : (u ++ u').length ≤ n
    · exact Or.inl (List.drop_eq_nil_of_le hlen)
    · right
      rw [List.length_take]
      omega
  · rw [List.countP_eq_length_filter, hw]
    simp only [List.length_append, List.length_cons]
    omega

/-- An order in which a row that was looked at is returned, and a higher one was not. -/
theorem not_best_of_order (nodup : rows.Nodup)
    (upward : ∀ x ∈ rows, ∀ y ∈ rows, counted y = true → score y < score x → counted x = true)
    (hy : y ∈ rows) (hcounted : counted y = true) (hx : x ∈ rows) (hyx : score y < score x)
    (hxbest : ∀ z ∈ rows, score z ≤ score x) (hlimit : 0 < limit) (hpos : 0 < cut)
    (hcut : cut < rows.length)
    (hbelow : cut < rows.countP (Beaten score rows) + min limit cut) :
    ∃ rows', rows'.Perm rows ∧ ¬ Best score rows (cutTop score counted cut limit rows') := by
  have hxunbeaten : ¬ Beaten score rows x := by
    rintro ⟨z, hz, hlt⟩
    exact absurd (hxbest z hz) (not_le.mpr hlt)
  obtain ⟨best, others, rest, hperm, hlen, hbest, hothers, hrest, hcount⟩ :=
    exists_order hx hxunbeaten hy ⟨x, hx, hyx⟩ (min limit cut - 1)
  refine ⟨_, hperm.symm, fun h => ?_⟩
  have htotal := hperm.length_eq
  have hnodup := hperm.nodup_iff.mp nodup
  -- the cut ends before the rest begins
  have hfits : cut ≤ (best ++ y :: others).length := by
    simp only [List.length_append, List.length_cons, List.length_nil] at htotal ⊢
    obtain rfl | hfull := hrest
    · simp only [List.length_nil] at htotal
      omega
    · omega
  have hseen : (best ++ y :: others ++ (rest ++ [x])).take cut =
      best ++ (y :: others).take (cut - best.length) := by
    rw [List.take_append_of_le_length hfits, List.take_append,
      List.take_of_length_le (hlen.trans (by omega))]
  have hroom : 0 < cut - best.length := by omega
  rw [List.take_cons hroom] at hseen
  have hout : x ∉ cutTop score counted cut limit (best ++ y :: others ++ (rest ++ [x])) := by
    intro hmem
    have hlast := (List.nodup_append.mp hnodup).2.2
    have hfront : x ∈ best ++ y :: others := by
      have hx' := (mem_of_mem_top hmem).1
      rw [hseen] at hx'
      simp only [List.mem_append, List.mem_cons] at hx' ⊢
      exact hx'.imp_right fun h => h.imp_right List.mem_of_mem_take
    exact hlast x hfront x (by simp) rfl
  have hhigh : ∀ z ∈ best, score x ≤ score z := by
    intro z hz
    by_contra hlt
    exact hbest z hz ⟨x, hx, not_le.mp hlt⟩
  have hbestcounted : best.filter counted = best := by
    apply List.filter_eq_self.mpr
    intro z hz
    have hzrows : z ∈ rows := hperm.mem_iff.mpr (by simp [hz])
    exact upward z hzrows y hy hcounted (hyx.trans_le (hhigh z hz))
  have hunbeaten : (best ++ y :: others.take (cut - best.length - 1)).countP
      (fun z => decide ¬ Beaten score rows z) ≤ best.length := by
    have hybeaten : Beaten score rows y := ⟨x, hx, hyx⟩
    have hrest' : (others.take (cut - best.length - 1)).countP
        (fun z => decide ¬ Beaten score rows z) = 0 := by
      apply List.countP_eq_zero.mpr
      intro z hz
      simpa using hothers z (List.mem_of_mem_take hz)
    rw [List.countP_append, List.countP_cons_of_neg (by simpa using hybeaten), hrest',
      Nat.add_zero]
    exact List.countP_le_length
  have hranked : best.length < ((best ++ y :: others.take (cut - best.length - 1)).filter
      counted).length := by
    rw [List.filter_append, hbestcounted, List.filter_cons_of_pos hcounted, List.length_append,
      List.length_cons]
    omega
  obtain ⟨z, hz, hzp⟩ := exists_mem_top score limit
    (hunbeaten.trans_lt (by omega)) (hunbeaten.trans_lt hranked)
  have hzbeaten : Beaten score rows z := by simpa using hzp
  rw [← hseen] at hz
  exact absurd (h x hx hout z hz) (by
    obtain ⟨z', hz', hlt⟩ := hzbeaten
    exact not_le.mpr (hlt.trans_le (hxbest z' hz')))

/-- Whatever order the rows come in, none that is left out scores higher than one returned:
exactly if there is nothing to choose, or the cut is never short of the highest rows. -/
theorem cutTop_best_iff (nodup : rows.Nodup) (hpos : 0 < cut)
    (upward : ∀ x ∈ rows, ∀ y ∈ rows, counted y = true → score y < score x → counted x = true) :
    (∀ rows' : List ρ, rows'.Perm rows → Best score rows (cutTop score counted cut limit rows')) ↔
      limit = 0 ∨ rows.length ≤ cut ∨
        (∀ y ∈ rows, counted y = true → ∀ x ∈ rows, score x ≤ score y) ∨
        rows.countP (Beaten score rows) + min limit cut ≤ cut := by
  constructor
  · intro h
    by_contra hnone
    simp only [not_or, not_forall, not_le] at hnone
    obtain ⟨hlimit, hcut, ⟨y, hy, hcounted, x, hx, hyx⟩, hbelow⟩ := hnone
    obtain ⟨best, hbest⟩ : ∃ best, best ∈ rows.argmax score := by
      cases harg : rows.argmax score with
      | none =>
          rw [List.argmax_eq_none] at harg
          rw [harg] at hx
          cases hx
      | some best => exact ⟨best, rfl⟩
    have hmax : ∀ z ∈ rows, score z ≤ score best := fun z hz => List.le_of_mem_argmax hz hbest
    obtain ⟨rows', hperm, hworse⟩ := not_best_of_order nodup upward hy hcounted
      (List.argmax_mem hbest) (hyx.trans_le (hmax x hx)) hmax
      (Nat.pos_of_ne_zero hlimit) hpos hcut hbelow
    exact hworse (h rows' hperm)
  · rintro (hzero | h) rows' hperm
    · intro x _ _ y hy
      rw [cutTop, top, hzero, List.take_zero] at hy
      cases hy
    · exact cutTop_best upward hperm h

end Cut

section Orders

/-- Every order of the rows of a query is that of some order of the table. -/
theorem exists_perm_filterMap {α β : Type*} {f : α → Option β} (back : β → α)
    (hback : ∀ a b, f a = some b → back b = a) {l : List α} {r : List β}
    (h : r.Perm (l.filterMap f)) : ∃ l' : List α, l'.Perm l ∧ l'.filterMap f = r := by
  have hcome : ∀ b ∈ r, f (back b) = some b := by
    intro b hb
    obtain ⟨a, -, ha⟩ := List.mem_filterMap.mp (h.mem_iff.mp hb)
    rw [hback a b ha, ha]
  have hkept : (l.filterMap f).map back = l.filter fun a => (f a).isSome := by
    clear h hcome
    induction l with
    | nil => rfl
    | cons a l ih =>
        cases ha : f a with
        | none => simp [ha, ih]
        | some b => simp [ha, ih, hback a b ha]
  refine ⟨r.map back ++ l.filter fun a => !(f a).isSome, ?_, ?_⟩
  · have hmap := h.map back
    rw [hkept] at hmap
    exact (hmap.append_right _).trans (List.filter_append_perm _ _)
  · have hrest : (l.filter fun a => !(f a).isSome).filterMap f = [] := by
      apply List.filterMap_eq_nil_iff.mpr
      intro a ha
      simpa using (List.mem_filter.mp ha).2
    have hfront : (r.map back).filterMap f = r := by
      rw [List.filterMap_map]
      exact (List.filterMap_congr hcome).trans List.filterMap_some
    rw [List.filterMap_append, hrest, hfront, List.append_nil]

end Orders

end Ranking
