import Mathlib.Data.List.Nodup

/-!
# Tables with a primary key

A table is a list of rows no two of which share a key, so key uniqueness never
has to be proved again after a table is built. Inserting fails on a used key.
Updates rewrite the rows that a predicate selects; an update cannot change a key.
-/

namespace Relational

/-- Rows in insertion order, with pairwise distinct keys. -/
structure Table (κ ρ : Type) (key : ρ → κ) where
  rows : List ρ
  nodup : (rows.map key).Nodup

namespace Table

variable {κ ρ : Type} {key : ρ → κ}

instance : Membership ρ (Table κ ρ key) := ⟨fun t r => r ∈ t.rows⟩

instance : EmptyCollection (Table κ ρ key) := ⟨⟨[], List.nodup_nil⟩⟩

instance [DecidableEq ρ] (r : ρ) (t : Table κ ρ key) : Decidable (r ∈ t) :=
  inferInstanceAs (Decidable (r ∈ t.rows))

instance (p : ρ → Prop) [DecidablePred p] (t : Table κ ρ key) : Decidable (∃ r ∈ t, p r) :=
  inferInstanceAs (Decidable (∃ r ∈ t.rows, p r))

instance (p : ρ → Prop) [DecidablePred p] (t : Table κ ρ key) : Decidable (∀ r ∈ t, p r) :=
  inferInstanceAs (Decidable (∀ r ∈ t.rows, p r))

@[simp] theorem mem_rows {t : Table κ ρ key} {r : ρ} : r ∈ t.rows ↔ r ∈ t := Iff.rfl

@[simp] theorem rows_empty : (∅ : Table κ ρ key).rows = [] := rfl

@[simp] theorem not_mem_empty (r : ρ) : r ∉ (∅ : Table κ ρ key) := List.not_mem_nil

@[ext] theorem ext {t u : Table κ ρ key} (h : t.rows = u.rows) : t = u := by
  cases t
  cases u
  simpa using h

/-- Rows with equal keys are the same row. -/
theorem eq_of_key {t : Table κ ρ key} {r s : ρ} (hr : r ∈ t) (hs : s ∈ t)
    (h : key r = key s) : r = s :=
  List.inj_on_of_nodup_map t.nodup hr hs h

/-- A search finds the one row that it can find. -/
theorem find?_eq_some_of_unique {t : Table κ ρ key} {p : ρ → Bool} {r : ρ} (hr : r ∈ t)
    (hp : p r = true) (unique : ∀ s ∈ t, p s = true → s = r) : t.rows.find? p = some r := by
  cases hf : t.rows.find? p with
  | none => exact absurd hp (List.find?_eq_none.mp hf r hr)
  | some s => rw [unique s (List.mem_of_find?_eq_some hf) (List.find?_some hf)]

/-- The same key and an equal list leave no choice where the row stands. -/
theorem split_unique {t : Table κ ρ key} {r s : ρ} {before after before' after' : List ρ}
    (h : t.rows = before ++ r :: after) (h' : t.rows = before' ++ s :: after')
    (hkey : key r = key s) : before = before' ∧ r = s ∧ after = after' := by
  obtain rfl : r = s := eq_of_key (t := t) (by rw [← mem_rows, h]; simp)
    (by rw [← mem_rows, h']; simp) hkey
  have hnodup := List.Nodup.of_map _ t.nodup
  rw [h] at hnodup
  obtain ⟨-, hcons, hdisjoint⟩ := List.nodup_append.mp hnodup
  obtain ⟨hbefore, hafter⟩ := (List.append_cons_inj_of_notMem
    (fun hr => hdisjoint r hr r List.mem_cons_self rfl) (List.nodup_cons.mp hcons).1).mp
      (h.symm.trans h')
  exact ⟨hbefore, rfl, hafter.2⟩

section Lookup

variable [DecidableEq κ]

/-- The row with the given key, if there is one. -/
def find? (t : Table κ ρ key) (k : κ) : Option ρ := t.rows.find? (fun r => key r = k)

theorem find?_eq_some_iff {t : Table κ ρ key} {k : κ} {r : ρ} :
    t.find? k = some r ↔ r ∈ t ∧ key r = k := by
  constructor
  · intro h
    exact ⟨List.mem_of_find?_eq_some h, by simpa using List.find?_some h⟩
  · rintro ⟨hmem, rfl⟩
    cases hf : t.find? (key r) with
    | none =>
        have := List.find?_eq_none.mp hf r hmem
        simp at this
    | some s =>
        have hs : s ∈ t := List.mem_of_find?_eq_some hf
        have hk : key s = key r := by simpa using List.find?_some hf
        rw [eq_of_key hs hmem hk]

theorem mem_of_find? {t : Table κ ρ key} {k : κ} {r : ρ} (h : t.find? k = some r) : r ∈ t :=
  (find?_eq_some_iff.mp h).1

theorem key_of_find? {t : Table κ ρ key} {k : κ} {r : ρ} (h : t.find? k = some r) : key r = k :=
  (find?_eq_some_iff.mp h).2

theorem find?_of_mem {t : Table κ ρ key} {r : ρ} (h : r ∈ t) : t.find? (key r) = some r :=
  find?_eq_some_iff.mpr ⟨h, rfl⟩

theorem find?_eq_none_iff {t : Table κ ρ key} {k : κ} :
    t.find? k = none ↔ ∀ r ∈ t, key r ≠ k := by
  simp only [find?, List.find?_eq_none, decide_eq_true_eq, ne_eq, mem_rows]

/-- A search for a key and something else looks at one row. -/
theorem find?_and {t : Table κ ρ key} {k : κ} (q : ρ → Prop) [DecidablePred q] :
    (t.rows.find? fun r => key r = k ∧ q r) = (t.find? k).filter fun r => q r := by
  cases h : t.find? k with
  | none =>
      refine List.find?_eq_none.mpr fun r hr => ?_
      simp [find?_eq_none_iff.mp h r hr]
  | some r =>
      obtain ⟨hr, rfl⟩ := find?_eq_some_iff.mp h
      by_cases hq : q r
      · rw [Option.filter_some_pos (by simpa using hq)]
        refine find?_eq_some_of_unique hr (by simp [hq]) fun s hs hsq => ?_
        exact eq_of_key hs hr (of_decide_eq_true hsq).1
      · rw [Option.filter_some_neg (by simpa using hq)]
        refine List.find?_eq_none.mpr fun s hs hsq => hq ?_
        have hsq := of_decide_eq_true hsq
        rw [← eq_of_key hs hr hsq.1]
        exact hsq.2

end Lookup

section Insert

variable [DecidableEq κ]

/-- Append a row; `none` when its key is taken. -/
def insert? (t : Table κ ρ key) (r : ρ) : Option (Table κ ρ key) :=
  if h : key r ∈ t.rows.map key then none
  else some ⟨t.rows ++ [r], by
    rw [List.map_append, List.map_singleton]
    exact t.nodup.append (List.nodup_singleton _) (by simpa using h)⟩

theorem insert?_eq_some_iff {t u : Table κ ρ key} {r : ρ} :
    t.insert? r = some u ↔ t.find? (key r) = none ∧ u.rows = t.rows ++ [r] := by
  have used : t.find? (key r) = none ↔ key r ∉ t.rows.map key := by
    rw [find?_eq_none_iff]
    simp only [List.mem_map, not_exists, not_and, mem_rows, ne_eq]
  rw [used]
  unfold insert?
  split
  · simp_all
  · constructor
    · intro h
      cases h
      exact ⟨‹_›, rfl⟩
    · rintro ⟨-, h⟩
      exact congrArg some (Table.ext h.symm)

theorem exists_insert?_iff {t : Table κ ρ key} {r : ρ} :
    (∃ u, t.insert? r = some u) ↔ ∀ s ∈ t, key s ≠ key r := by
  rw [← find?_eq_none_iff]
  constructor
  · rintro ⟨u, hu⟩
    exact (insert?_eq_some_iff.mp hu).1
  · intro fresh
    unfold insert?
    rw [dif_neg]
    · exact ⟨_, rfl⟩
    · intro used
      obtain ⟨s, hs, hk⟩ := List.mem_map.mp used
      exact find?_eq_none_iff.mp fresh s hs hk

theorem mem_insert? {t u : Table κ ρ key} {r s : ρ} (h : t.insert? r = some u) :
    s ∈ u ↔ s ∈ t ∨ s = r := by
  rw [← mem_rows, (insert?_eq_some_iff.mp h).2, List.mem_append, List.mem_singleton, mem_rows]

theorem exists_insert? {t u : Table κ ρ key} {r : ρ} {p : ρ → Prop} (h : t.insert? r = some u) :
    (∃ s ∈ u, p s) ↔ (∃ s ∈ t, p s) ∨ p r := by
  simp only [mem_insert? h, or_and_right, exists_or, exists_eq_left]

/-- An inserted row has a new key. -/
theorem fresh_of_insert? {t u : Table κ ρ key} {r s : ρ} (h : t.insert? r = some u) (hs : s ∈ t) :
    key s ≠ key r := find?_eq_none_iff.mp (insert?_eq_some_iff.mp h).1 s hs

theorem find?_insert?_of_ne {t u : Table κ ρ key} {r : ρ} {k : κ} (h : t.insert? r = some u)
    (hk : key r ≠ k) : u.find? k = t.find? k := by
  simp [find?, (insert?_eq_some_iff.mp h).2, List.find?_append, hk]

theorem find?_of_insert? {t u : Table κ ρ key} {r s : ρ} {k : κ} (h : t.insert? r = some u)
    (hs : t.find? k = some s) : u.find? k = some s := by
  refine (find?_insert?_of_ne h ?_).trans hs
  intro hk
  rw [← hk, (insert?_eq_some_iff.mp h).1] at hs
  cases hs

end Insert

section Update

/-- Rewrite the selected rows in place. -/
def updateWhere (t : Table κ ρ key) (p : ρ → Bool) (f : ρ → ρ)
    (keeps : ∀ r, key (f r) = key r := by intros; rfl) : Table κ ρ key where
  rows := t.rows.map fun r => if p r then f r else r
  nodup := by
    have hkey : (t.rows.map fun r => if p r then f r else r).map key = t.rows.map key := by
      rw [List.map_map]
      apply List.map_congr_left
      intro r _
      simp only [Function.comp_apply]
      split
      · exact keeps r
      · rfl
    rw [hkey]
    exact t.nodup

variable {t : Table κ ρ key} {p : ρ → Bool} {f : ρ → ρ} {keeps : ∀ r, key (f r) = key r}

theorem mem_updateWhere {s : ρ} :
    s ∈ t.updateWhere p f keeps ↔ ∃ r ∈ t, (if p r then f r else r) = s := by
  simp only [← mem_rows, updateWhere, List.mem_map]

variable [DecidableEq κ]

theorem find?_updateWhere (k : κ) :
    (t.updateWhere p f keeps).find? k = (t.find? k).map fun r => if p r then f r else r := by
  simp only [find?, updateWhere, List.find?_map]
  congr 2
  funext r
  simp only [Function.comp_apply]
  split
  · rw [keeps]
  · rfl

/-- Rewrite the row with the given key, if there is one. -/
def update (t : Table κ ρ key) (k : κ) (f : ρ → ρ)
    (keeps : ∀ r, key (f r) = key r := by intros; rfl) : Table κ ρ key :=
  t.updateWhere (fun r => key r = k) f keeps

theorem mem_update {k : κ} {s : ρ} :
    s ∈ t.update k f keeps ↔ ∃ r ∈ t, (if key r = k then f r else r) = s := by
  simp only [update, mem_updateWhere, decide_eq_true_eq]

theorem mem_update_of_mem {r s : ρ} (hr : r ∈ t) :
    s ∈ t.update (key r) f keeps ↔ s = f r ∨ s ∈ t ∧ key s ≠ key r := by
  refine mem_update.trans ⟨?_, ?_⟩
  · rintro ⟨r', hr', hs⟩
    split at hs
    · rename_i hkey
      obtain rfl := eq_of_key hr' hr hkey
      exact Or.inl hs.symm
    · rename_i hkey
      subst hs
      exact Or.inr ⟨hr', hkey⟩
  · rintro (rfl | ⟨hs, hkey⟩)
    · exact ⟨r, hr, if_pos rfl⟩
    · exact ⟨s, hs, if_neg hkey⟩

/-- What the rewriting cannot tell apart is as it was. -/
theorem exists_update {k : κ} {p : ρ → Prop} (hp : ∀ r, p (f r) ↔ p r) :
    (∃ r ∈ t.update k f keeps, p r) ↔ ∃ r ∈ t, p r := by
  constructor
  · rintro ⟨s, hs, hps⟩
    obtain ⟨r, hr, rfl⟩ := mem_update.mp hs
    refine ⟨r, hr, ?_⟩
    split at hps
    · exact (hp r).mp hps
    · exact hps
  · rintro ⟨r, hr, hpr⟩
    refine ⟨_, mem_update.mpr ⟨r, hr, rfl⟩, ?_⟩
    split
    · exact (hp r).mpr hpr
    · exact hpr

/-- An update rewrites one row in its place. -/
theorem rows_update_of_eq {r : ρ} {before after : List ρ} (hrows : t.rows = before ++ r :: after) :
    (t.update (key r) f keeps).rows = before ++ f r :: after := by
  have hnodup := t.nodup
  rw [hrows, List.map_append, List.map_cons] at hnodup
  obtain ⟨-, hcons, hdisjoint⟩ := List.nodup_append.mp hnodup
  have same {xs : List ρ} (h : ∀ x ∈ xs, key x ≠ key r) :
      xs.map (fun x => if decide (key x = key r) then f x else x) = xs := by
    refine (List.map_congr_left fun x hx => ?_).trans (List.map_id xs)
    rw [decide_eq_false (h x hx)]
    rfl
  have hbefore : ∀ x ∈ before, key x ≠ key r := fun x hx =>
    hdisjoint _ (List.mem_map_of_mem hx) _ List.mem_cons_self
  have hafter : ∀ x ∈ after, key x ≠ key r := fun x hx heq =>
    (List.nodup_cons.mp hcons).1 (heq ▸ List.mem_map_of_mem hx)
  change t.rows.map (fun x => if decide (key x = key r) then f x else x) = _
  rw [hrows, List.map_append, List.map_cons, same hbefore, same hafter, decide_eq_true rfl]
  rfl

theorem rows_update {r : ρ} (hr : r ∈ t) :
    ∃ before after, t.rows = before ++ r :: after ∧
      (t.update (key r) f keeps).rows = before ++ f r :: after := by
  obtain ⟨before, after, hrows⟩ := List.append_of_mem (mem_rows.mpr hr)
  exact ⟨before, after, hrows, rows_update_of_eq hrows⟩

theorem find?_update_self (k : κ) : (t.update k f keeps).find? k = (t.find? k).map f := by
  rw [update, find?_updateWhere]
  cases h : t.find? k with
  | none => rfl
  | some r => simp [key_of_find? h]

theorem find?_update_of_ne {j k : κ} (h : j ≠ k) :
    (t.update j f keeps).find? k = t.find? k := by
  rw [update, find?_updateWhere]
  cases hk : t.find? k with
  | none => rfl
  | some r =>
      have : key r ≠ j := by
        rw [key_of_find? hk]
        exact h.symm
      simp [this]

end Update

section Selections

variable {t t' : Table κ ρ key} {r : ρ} {p : ρ → Bool}

/-- An UPDATE of other columns leaves a column alone. -/
theorem map_updateWhere {α : Type} {q : ρ → Bool} {f : ρ → ρ} {column : ρ → α}
    (keeps : ∀ r, key (f r) = key r) (h : ∀ r, column (f r) = column r) :
    (t.updateWhere q f keeps).rows.map column = t.rows.map column := by
  show (t.rows.map fun r => if q r then f r else r).map column = t.rows.map column
  rw [List.map_map]
  refine List.map_congr_left fun r _ => ?_
  simp only [Function.comp_apply]
  split
  · exact h r
  · rfl

/-- An UPDATE of rows outside a selection that stay outside of it leaves the selection alone. -/
theorem filter_updateWhere {q : ρ → Bool} {f : ρ → ρ}
    (h : ∀ r ∈ t, q r = true → p r = false ∧ p (f r) = false)
    (keeps : ∀ r, key (f r) = key r := by intros; rfl) :
    (t.updateWhere q f keeps).rows.filter p = t.rows.filter p := by
  show (t.rows.map fun r => if q r then f r else r).filter p = t.rows.filter p
  have hrows : ∀ r ∈ t.rows, q r = true → p r = false ∧ p (f r) = false := h
  generalize t.rows = rows at hrows ⊢
  induction rows with
  | nil => rfl
  | cons r rows ih =>
      have hrest := ih fun s hs => hrows s (List.mem_cons_of_mem r hs)
      rw [List.map_cons, List.filter_cons, List.filter_cons, hrest]
      split
      · rename_i hq
        obtain ⟨hr, hfr⟩ := hrows r List.mem_cons_self hq
        rw [hr, hfr]
        rfl
      · rfl

variable [DecidableEq κ]

theorem filter_update {k : κ} {f : ρ → ρ}
    (h : ∀ r ∈ t, key r = k → p r = false ∧ p (f r) = false)
    (keeps : ∀ r, key (f r) = key r := by intros; rfl) :
    (t.update k f keeps).rows.filter p = t.rows.filter p :=
  filter_updateWhere (fun r hr hq => h r hr (of_decide_eq_true hq)) keeps

theorem rows_insert? (h : t.insert? r = some t') : t'.rows = t.rows ++ [r] := by
  rw [(insert?_eq_some_iff.mp h).2]

theorem filter_insert? (h : t.insert? r = some t') (hp : p r = false) :
    t'.rows.filter p = t.rows.filter p := by
  rw [rows_insert? h]
  simp [hp]

end Selections

end Table
end Relational
