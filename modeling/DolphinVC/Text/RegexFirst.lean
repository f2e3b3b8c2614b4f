import DolphinVC.Text.Regex
import Mathlib.Data.List.TakeWhile

/-!
# The first match

A search takes the first cursor that a pattern yields. `First` says what it has consumed and
`Fails` that there is none; both follow the pattern. In the other direction every match consumes
a word that the pattern accepts, and the first match of a sequence is the first match of its
second part after some match of its first.
-/

namespace Regex

variable {α : Type} {r s : Pattern α} {c d e : Cursor α}

section Accepts

/-- The pattern may consume these symbols, whatever their neighbours are. -/
def Pattern.Accepts : Pattern α → List α → Prop
  | .empty, xs => xs = []
  | .repeated isIn lo hi _, xs =>
      lo ≤ xs.length ∧ (∀ h ∈ hi, xs.length ≤ h) ∧ ∀ x ∈ xs, isIn x = true
  | .boundary _, xs => xs = []
  | .seq r s, xs => ∃ ys zs, xs = ys ++ zs ∧ r.Accepts ys ∧ s.Accepts zs
  | .alt r s, xs => r.Accepts xs ∨ s.Accepts xs
  | .group r, xs => r.Accepts xs

theorem mem_counts {available lo n : Nat} {hi : Option Nat} {greedy : Bool}
    (h : n ∈ counts available lo hi greedy) : ∀ k ∈ hi, n ≤ k := by
  have hn : n ∈ counts available lo hi false := by
    cases greedy with
    | false => exact h
    | true => exact List.mem_reverse.mp h
  have hrange := List.mem_range.mp (List.mem_filter.mp hn).1
  intro k hk
  rw [Option.mem_def.mp hk] at hrange
  exact Nat.le_trans (Nat.le_of_lt_succ hrange) (Nat.min_le_left _ _)

/-- A match consumes a word of the pattern. -/
theorem Pattern.accepts_of_run (h : d ∈ r.run c) : ∃ xs, c.Moved d xs ∧ r.Accepts xs := by
  induction r generalizing c d with
  | empty =>
      rw [List.mem_singleton.mp h]
      exact ⟨[], .refl c, rfl⟩
  | repeated isIn lo hi greedy =>
      obtain ⟨n, hn, rfl⟩ := List.mem_map.mp h
      obtain ⟨hlo, havailable⟩ := le_of_mem_counts hn
      have hlength : (c.after.take n).length = n := by
        have := (List.takeWhile_prefix isIn (l := c.after)).length_le
        rw [List.length_take]
        omega
      refine ⟨_, c.moved_advance n, hlength.symm ▸ hlo, hlength.symm ▸ mem_counts hn, ?_⟩
      intro x hx
      have htaken : c.after.take n <+: c.after.takeWhile isIn :=
        List.prefix_of_prefix_length_le (List.take_prefix n _) (List.takeWhile_prefix isIn)
          (hlength.symm ▸ havailable)
      exact List.mem_takeWhile_imp (htaken.subset hx)
  | boundary isWord =>
      simp only [Pattern.run] at h
      split at h
      · cases h
      · rw [List.mem_singleton.mp h]
        exact ⟨[], .refl c, rfl⟩
  | seq r s ihr ihs =>
      obtain ⟨e, he, hd⟩ := List.mem_flatMap.mp h
      obtain ⟨xs, hxs, hr⟩ := ihr he
      obtain ⟨ys, hys, hs⟩ := ihs hd
      exact ⟨xs ++ ys, hxs.trans hys, xs, ys, rfl, hr, hs⟩
  | alt r s ihr ihs =>
      obtain h | h := List.mem_append.mp h
      · obtain ⟨xs, hxs, hr⟩ := ihr h
        exact ⟨xs, hxs, Or.inl hr⟩
      · obtain ⟨xs, hxs, hs⟩ := ihs h
        exact ⟨xs, hxs, Or.inr hs⟩
  | group r ih =>
      obtain ⟨e, he, rfl⟩ := List.mem_map.mp h
      obtain ⟨xs, hxs, hr⟩ := ih he
      exact ⟨xs, hxs, hr⟩

theorem accepts_maybe {isIn : α → Bool} {xs : List α} (h : (Pattern.maybe isIn).Accepts xs) :
    ∃ o : Option α, xs = o.toList ∧ ∀ x ∈ o, isIn x = true := by
  obtain ⟨-, hle, hall⟩ := h
  cases xs with
  | nil => exact ⟨none, rfl, by simp⟩
  | cons x xs =>
      have hnil : xs = [] := by
        have := hle 1 rfl
        simpa using this
      subst hnil
      exact ⟨some x, rfl, by simpa using hall x List.mem_cons_self⟩

theorem accepts_one {isIn : α → Bool} {xs : List α} (h : (Pattern.one isIn).Accepts xs) :
    ∃ x, xs = [x] ∧ isIn x = true := by
  obtain ⟨hlo, hle, hall⟩ := h
  obtain ⟨x, rfl⟩ := List.length_eq_one_iff.mp (Nat.le_antisymm (hle 1 rfl) hlo)
  exact ⟨x, rfl, hall x List.mem_cons_self⟩

end Accepts

section Head

theorem head_seq (hr : (r.run c).head? = some e) (hs : (s.run e).head? = some d) :
    ((Pattern.seq r s).run c).head? = some d := by
  obtain ⟨rest, hrest⟩ := List.head?_eq_some_iff.mp hr
  rw [Pattern.run, hrest, List.flatMap_cons, List.head?_append, hs]
  rfl

/-- Where the first match of a sequence comes from. -/
theorem exists_of_head_seq (h : ((Pattern.seq r s).run c).head? = some d) :
    ∃ e ∈ r.run c, (s.run e).head? = some d := by
  rw [Pattern.run] at h
  generalize r.run c = es at h ⊢
  induction es with
  | nil => cases h
  | cons e es ih =>
      rw [List.flatMap_cons, List.head?_append] at h
      cases hs : (s.run e).head? with
      | some d' =>
          rw [hs] at h
          exact ⟨e, List.mem_cons_self, hs.trans h⟩
      | none =>
          rw [hs] at h
          obtain ⟨e', he', hd⟩ := ih h
          exact ⟨e', List.mem_cons_of_mem e he', hd⟩

/-- Where the second part never fails, the first match of the first part is taken. -/
theorem head_of_head_seq (total : ∀ e, s.run e ≠ [])
    (h : ((Pattern.seq r s).run c).head? = some d) :
    ∃ e, (r.run c).head? = some e ∧ (s.run e).head? = some d := by
  rw [Pattern.run] at h
  cases hr : r.run c with
  | nil =>
      rw [hr] at h
      cases h
  | cons e es =>
      refine ⟨e, rfl, ?_⟩
      rw [hr, List.flatMap_cons] at h
      rwa [List.head?_append_of_ne_nil _ (total e)] at h

theorem exists_of_head_group (h : ((Pattern.group r).run c).head? = some d) :
    ∃ e, (r.run c).head? = some e ∧
      d = { e with captured := some (c.after.take (c.after.length - e.after.length)) } := by
  rw [Pattern.run, List.head?_map, Option.map_eq_some_iff] at h
  obtain ⟨e, he, rfl⟩ := h
  exact ⟨e, he, rfl⟩

/-- The cursor of a search that found something. -/
theorem Pattern.exists_of_search {input : List α} {m : Match α} (h : r.search input = some m) :
    ∃ c d, c.before.reverse ++ c.after = input ∧ (r.run c).head? = some d ∧
      m.captured = d.captured.getD [] ∧ m.after = d.after := by
  obtain ⟨c, hc, hm⟩ := List.exists_of_findSome?_eq_some h
  obtain ⟨i, -, rfl⟩ := List.mem_map.mp hc
  obtain ⟨d, hd, rfl⟩ := Option.map_eq_some_iff.mp hm
  refine ⟨_, d, ?_, hd, rfl, rfl⟩
  rw [List.reverse_reverse, List.take_append_drop]

theorem counts_maybe {available : Nat} :
    counts available 0 (some 1) true = if available = 0 then [0] else [1, 0] := by
  cases available with
  | zero => rfl
  | succ n =>
      have hmin : min 1 (n + 1) = 1 := by omega
      simp only [counts, hmin]
      rfl

/-- An optional symbol is taken where there is one. -/
theorem run_maybe {isIn : α → Bool} : (Pattern.maybe isIn).run c =
    if c.after.head?.any isIn then [c.advance 1, c] else [c] := by
  have hstay : c.advance 0 = c := rfl
  rw [Pattern.maybe, Pattern.run, counts_maybe]
  cases hafter : c.after with
  | nil => simp [hstay]
  | cons x xs => cases hx : isIn x <;> simp [hx, hstay]

theorem empty_total : Pattern.empty.run c ≠ [] := List.cons_ne_nil _ _

theorem maybe_total {isIn : α → Bool} : (Pattern.maybe isIn).run c ≠ [] := by
  rw [run_maybe]
  split
  · exact List.cons_ne_nil _ _
  · exact List.cons_ne_nil _ _

theorem seq_total (hr : ∀ e, r.run e ≠ []) (hs : ∀ e, s.run e ≠ []) :
    (Pattern.seq r s).run c ≠ [] := by
  obtain ⟨e, es, he⟩ := List.exists_cons_of_ne_nil (hr c)
  rw [Pattern.run, he, List.flatMap_cons]
  exact List.append_ne_nil_of_left_ne_nil (hs e) _

/-- The first match of an optional symbol takes it where it is there. -/
theorem exists_of_head_maybe {isIn : α → Bool} (h : ((Pattern.maybe isIn).run c).head? = some d) :
    ∃ o : Option α, c.after = o.toList ++ d.after ∧ (∀ x ∈ o, isIn x = true) ∧
      (o = none → d.after.head?.any isIn = false) := by
  rw [run_maybe] at h
  cases hc : c.after with
  | nil =>
      rw [hc] at h
      obtain rfl : c = d := Option.some.inj h
      exact ⟨none, hc.symm, by simp, by simp [hc]⟩
  | cons x xs =>
      cases hx : isIn x with
      | true =>
          simp only [hc, List.head?_cons, Option.any_some, hx, if_true, Option.some.injEq] at h
          subst h
          exact ⟨some x, by simp [Cursor.advance, hc], by simpa using hx, by simp⟩
      | false =>
          simp only [hc, List.head?_cons, Option.any_some, hx, Bool.false_eq_true, if_false,
            Option.some.injEq] at h
          subst h
          exact ⟨none, by simp [hc], by simp, by simpa [hc] using hx⟩

end Head

section First

/-- Behind `before`, the first match consumes `xs` and leaves `rest`. -/
def Pattern.First (r : Pattern α) (before xs rest : List α) : Prop :=
  ∀ captured, (r.run ⟨before, xs ++ rest, captured⟩).head? =
    some ⟨xs.reverse ++ before, rest, captured⟩

def Pattern.Fails (r : Pattern α) (before after : List α) : Prop :=
  ∀ captured, r.run ⟨before, after, captured⟩ = []

variable {before xs ys rest after : List α} {isIn : α → Bool} {x : α}

theorem First.seq (hr : r.First before xs (ys ++ rest))
    (hs : s.First (xs.reverse ++ before) ys rest) :
    (Pattern.seq r s).First before (xs ++ ys) rest := by
  intro captured
  rw [List.append_assoc, List.reverse_append, List.append_assoc]
  exact head_seq (hr captured) (hs captured)

/-- The first part consumes nothing. -/
theorem First.skip (hr : r.First before [] (ys ++ rest)) (hs : s.First before ys rest) :
    (Pattern.seq r s).First before ys rest := First.seq hr hs

theorem First.cons (hr : r.First before [x] (ys ++ rest)) (hs : s.First (x :: before) ys rest) :
    (Pattern.seq r s).First before (x :: ys) rest := First.seq hr hs

/-- Nothing is left for the second part. -/
theorem First.last (hr : r.First before xs rest) (hs : s.First (xs.reverse ++ before) [] rest) :
    (Pattern.seq r s).First before xs rest := by
  have := First.seq hr hs
  rwa [List.append_nil] at this

theorem First.empty : Pattern.empty.First before [] rest := fun _ => rfl

theorem First.boundary {isWord : α → Bool}
    (h : before.head?.any isWord ≠ rest.head?.any isWord) :
    (Pattern.boundary isWord).First before [] rest := by
  intro captured
  rw [Pattern.run, if_neg (by simpa using h)]
  rfl

theorem First.maybe_some (h : isIn x = true) : (Pattern.maybe isIn).First before [x] rest := by
  intro captured
  rw [run_maybe, if_pos (by simpa using h)]
  rfl

theorem First.maybe_none (h : rest.head?.any isIn = false) :
    (Pattern.maybe isIn).First before [] rest := by
  intro captured
  rw [run_maybe, if_neg (by simpa using h)]
  rfl

/-- A greedy repetition takes the whole run of symbols of its class. -/
theorem First.many1 (hne : xs ≠ []) (hall : ∀ x ∈ xs, isIn x = true)
    (hstop : rest.head?.any isIn = false) : (Pattern.many1 isIn).First before xs rest := by
  intro captured
  have htake : (xs ++ rest).takeWhile isIn = xs := by
    rw [List.takeWhile_append_of_pos hall]
    cases rest with
    | nil => simp
    | cons y ys =>
        have hy : isIn y = false := by simpa using hstop
        simp [hy]
  have hpos : 1 ≤ xs.length := List.length_pos_iff.mpr hne
  have hcounts : (counts xs.length 1 none true).head? = some xs.length := by
    simp only [counts, if_true, List.range_succ, List.filter_append, List.reverse_append]
    simp [hpos]
  rw [Pattern.many1, Pattern.run, List.head?_map, htake, hcounts]
  simp [Cursor.advance]

theorem First.one (h : isIn x = true) : (Pattern.one isIn).First before [x] rest := by
  intro captured
  have hcounts (n : Nat) : counts (n + 1) 1 (some 1) true = [1] := by
    have hmin : min 1 (n + 1) = 1 := by omega
    simp only [counts, hmin]
    rfl
  rw [Pattern.one, Pattern.run, List.singleton_append, List.takeWhile_cons, if_pos h,
    List.length_cons, hcounts]
  rfl

theorem First.word {same : α → α → Bool} {ws : List α}
    (h : List.Forall₂ (fun w x => same w x = true) ws xs) :
    (Pattern.word same ws).First before xs rest := by
  induction h generalizing before with
  | nil => exact First.empty
  | @cons w x ws xs hx _ ih => exact First.seq (First.one hx) ih

theorem First.opt_some (h : r.First before xs rest) : (Pattern.opt r).First before xs rest := by
  intro captured
  rw [Pattern.opt, Pattern.run, List.head?_append, h captured]
  rfl

theorem First.opt_none (h : r.Fails before rest) : (Pattern.opt r).First before [] rest := by
  intro captured
  rw [Pattern.opt, Pattern.run, List.nil_append, h captured]
  rfl

theorem Fails.seq_left (h : r.Fails before after) : (Pattern.seq r s).Fails before after := by
  intro captured
  rw [Pattern.run, h captured, List.flatMap_nil]

/-- A repetition that needs a symbol fails where none of its class follows. -/
theorem Fails.repeated {lo : Nat} {hi : Option Nat} {greedy : Bool} (hlo : 0 < lo)
    (h : after.head?.any isIn = false) :
    (Pattern.repeated isIn lo hi greedy).Fails before after := by
  intro captured
  have hnil : after.takeWhile isIn = [] := by
    cases after with
    | nil => rfl
    | cons y ys =>
        have hy : isIn y = false := by simpa using h
        simp [hy]
  rw [Pattern.run, hnil, List.map_eq_nil_iff, List.eq_nil_iff_forall_not_mem]
  intro n hn
  have := le_of_mem_counts hn
  rw [List.length_nil] at this
  omega

/-- An optional symbol does not help where the rest fails with and without it. -/
theorem Fails.maybe (htake : isIn x = true → s.Fails (x :: before) after)
    (hstay : s.Fails before (x :: after)) :
    (Pattern.seq (Pattern.maybe isIn) s).Fails before (x :: after) := by
  intro captured
  rw [Pattern.run, run_maybe]
  cases hx : isIn x with
  | true =>
      have htake' := htake hx captured
      simp [hx, Cursor.advance, htake', hstay captured]
  | false => simp [hx, hstay captured]

theorem Fails.group (h : r.Fails before after) : (Pattern.group r).Fails before after := by
  intro captured
  rw [Pattern.run, h captured, List.map_nil]

/-- A lazy repetition goes one symbol further where the rest fails. -/
theorem head_lazy {hi : Nat} {captured : Option (List α)} (hx : isIn x = true) (hhi : 1 ≤ hi)
    (hfail : s.Fails before (x :: after))
    (hfirst : (s.run ⟨x :: before, after, captured⟩).head? = some d) :
    ((Pattern.seq (.repeated isIn 0 (some hi) false) s).run
      ⟨before, x :: after, captured⟩).head? = some d := by
  have hcounts (n : Nat) : ∃ rest, counts (n + 1) 0 (some hi) false = 0 :: 1 :: rest := by
    obtain ⟨k, hk⟩ : ∃ k, min hi (n + 1) = k + 1 := ⟨min hi (n + 1) - 1, by omega⟩
    refine ⟨(List.range k).map (· + 2), ?_⟩
    simp [counts, hk, List.range_succ_eq_map, Function.comp_def]
  obtain ⟨rest, hrest⟩ := hcounts (after.takeWhile isIn).length
  rw [Pattern.run, Pattern.run, List.takeWhile_cons, if_pos hx, List.length_cons, hrest]
  rw [List.map_cons, List.map_cons, List.flatMap_cons, List.flatMap_cons]
  have hstay : s.run (Cursor.advance ⟨before, x :: after, captured⟩ 0) = [] := hfail captured
  rw [hstay, List.nil_append, List.head?_append]
  have hstep : (s.run (Cursor.advance ⟨before, x :: after, captured⟩ 1)).head? = some d := hfirst
  rw [hstep]
  rfl

theorem head_group (captured : Option (List α)) (h : r.First before xs rest) :
    ((Pattern.group r).run ⟨before, xs ++ rest, captured⟩).head? =
      some ⟨xs.reverse ++ before, rest, some xs⟩ := by
  rw [Pattern.run, List.head?_map, h captured]
  simp

theorem search_of_head {captured : List α}
    (h : (r.run ⟨[], xs ++ rest, none⟩).head? = some ⟨xs.reverse, rest, some captured⟩) :
    r.search (xs ++ rest) = some ⟨xs, captured, rest⟩ := by
  have hstarts : starts (xs ++ rest) = ⟨[], xs ++ rest, none⟩ ::
      (List.range (xs ++ rest).length).map fun i =>
        { before := ((xs ++ rest).take (i + 1)).reverse, after := (xs ++ rest).drop (i + 1) } := by
    simp [starts, List.range_succ_eq_map, Function.comp_def]
  rw [Pattern.search, hstarts, List.findSome?_cons, h]
  simp

end First

end Regex
