import Mathlib.Data.List.Basic

/-!
# The first rows of an ordered query

`page` filters rows, orders them and keeps the first ones. Rows that neither ranks before the
other stay in the order of the table. One row that is put into the table moves no other, so a
page is as it was unless the row itself is on it: `ahead` counts what comes before the row.
-/

namespace Relational

variable {α β : Type*}

/-- `WHERE`, `ORDER BY` and `LIMIT` -/
def page (passes : α → Bool) (le : α → α → Bool) (limit : Nat) (rows : List α) : List α :=
  ((rows.filter passes).mergeSort le).take limit

/-- The rows that pass and come before `x`, which has these rows before and after it in the
table. -/
def ahead (passes : α → Bool) (le : α → α → Bool) (before : List α) (x : α) (after : List α) :
    Nat :=
  before.countP (fun y => passes y && le y x) + after.countP (fun y => passes y && !le x y)

variable {passes : α → Bool} {le : α → α → Bool} {limit : Nat} {rows before after : List α} {x : α}

theorem mem_of_mem_page (h : x ∈ page passes le limit rows) : x ∈ rows ∧ passes x = true :=
  List.mem_filter.mp (List.mem_mergeSort.mp (List.mem_of_mem_take h))

section View

/-- A page of what the query can see of the rows is what it can see of the page. -/
theorem map_page {passes' : β → Bool} {le' : β → β → Bool} (view : α → β)
    (hpasses : ∀ x, passes' (view x) = passes x) (hle : ∀ x y, le' (view x) (view y) = le x y) :
    (page passes le limit rows).map view = page passes' le' limit (rows.map view) := by
  unfold page
  rw [List.map_take, List.map_mergeSort fun a _ b _ => (hle a b).symm, List.filter_map]
  congr 4
  funext x
  exact (hpasses x).symm

/-- Lists with equal views have equal images under what tells no such rows apart. -/
theorem map_eq_of_map_eq {γ : Type*} {view : α → β} {f : α → γ} {rows rows' : List α}
    (h : rows.map view = rows'.map view)
    (hf : ∀ x ∈ rows, ∀ y ∈ rows', view x = view y → f x = f y) : rows.map f = rows'.map f := by
  induction rows generalizing rows' with
  | nil =>
      obtain rfl := List.map_eq_nil_iff.mp h.symm
      rfl
  | cons x rows ih =>
      obtain ⟨y, rows', rfl, hxy, hrest⟩ := List.map_eq_cons_iff.mp h.symm
      rw [List.map_cons, List.map_cons, hf x List.mem_cons_self y List.mem_cons_self hxy.symm,
        ih hrest.symm fun x hx y hy => hf x (List.mem_cons_of_mem _ hx) y
          (List.mem_cons_of_mem _ hy)]

end View

section Order

/-- A list falls in only one way into rows that fail a test and rows that pass it. -/
theorem append_inj_of_test {q : α → Bool} {l₁ l₂ m₁ m₂ : List α} (h : l₁ ++ l₂ = m₁ ++ m₂)
    (hl₁ : ∀ z ∈ l₁, q z = false) (hl₂ : ∀ z ∈ l₂, q z = true) (hm₁ : ∀ z ∈ m₁, q z = false)
    (hm₂ : ∀ z ∈ m₂, q z = true) : l₁ = m₁ ∧ l₂ = m₂ := by
  have front {k₁ k₂ : List α} (hk₁ : ∀ z ∈ k₁, q z = false) (hk₂ : ∀ z ∈ k₂, q z = true) :
      (k₁ ++ k₂).filter (fun z => !q z) = k₁ := by
    rw [List.filter_append, List.filter_eq_self.mpr fun z hz => by simp [hk₁ z hz],
      List.filter_eq_nil_iff.mpr fun z hz => by simp [hk₂ z hz], List.append_nil]
  have heq : l₁ = m₁ := by rw [← front hl₁ hl₂, h, front hm₁ hm₂]
  subst heq
  exact ⟨rfl, List.append_cancel_left h⟩

variable (trans : ∀ a b c, le a b → le b c → le a c) (total : ∀ a b, le a b || le b a)

include trans total

/-- `mergeSort_cons`, with what follows. -/
theorem mergeSort_cons_split (x : α) (l : List α) : ∃ l₁ l₂,
    (x :: l).mergeSort le = l₁ ++ x :: l₂ ∧ l.mergeSort le = l₁ ++ l₂ ∧
      (∀ y ∈ l₁, le x y = false) ∧ ∀ y ∈ l₂, le x y = true := by
  obtain ⟨l₁, l₂, hsort, hl, hfirst⟩ := List.mergeSort_cons trans total x l
  have hsorted := List.pairwise_mergeSort trans total (x :: l)
  rw [hsort] at hsorted
  exact ⟨l₁, l₂, hsort, hl, fun y hy => by simpa using hfirst y hy,
    (List.pairwise_cons.mp (List.pairwise_append.mp hsorted).2.1).1⟩

/-- Sorting takes one row to where those that come before it end. -/
theorem mergeSort_split (before : List α) (x : α) (after : List α) : ∃ front rest,
    (before ++ x :: after).mergeSort le = front ++ x :: rest ∧
      (before ++ after).mergeSort le = front ++ rest ∧
      front.length = before.countP (fun y => le y x) + after.countP (fun y => !le x y) := by
  induction before with
  | nil =>
      obtain ⟨front, rest, hwith, hwithout, hfront, hrest⟩ :=
        mergeSort_cons_split trans total x after
      refine ⟨front, rest, hwith, hwithout, ?_⟩
      have hperm := List.mergeSort_perm after le
      rw [hwithout] at hperm
      rw [List.countP_nil, Nat.zero_add, ← hperm.countP_eq, List.countP_append,
        List.countP_eq_length.mpr fun y hy => by simp [hfront y hy],
        List.countP_eq_zero.mpr fun y hy => by simp [hrest y hy], Nat.add_zero]
  | cons y before ih =>
      obtain ⟨front, rest, hwith, hwithout, hlength⟩ := ih
      obtain ⟨l₁, l₂, hsort, hl, hl₁, hl₂⟩ :=
        mergeSort_cons_split trans total y (before ++ x :: after)
      obtain ⟨m₁, m₂, hsort', hm, hm₁, hm₂⟩ := mergeSort_cons_split trans total y (before ++ after)
      rw [hwith] at hl
      rw [hwithout] at hm
      rw [List.cons_append, List.cons_append, hsort, hsort', List.countP_cons]
      cases hyx : le y x with
      | true =>
          -- the new row goes before `x`, which is among those that follow it
          obtain ⟨c, rfl, rfl⟩ : ∃ c, front = l₁ ++ c ∧ l₂ = c ++ x :: rest := by
            obtain ⟨c, hfront, hl₂'⟩ | ⟨c, hl₁', hrest⟩ := List.append_eq_append_iff.mp hl
            · cases c with
              | nil => exact ⟨[], by simpa using hfront.symm, by simpa using hl₂'.symm⟩
              | cons z c =>
                  obtain ⟨rfl, -⟩ := List.cons.inj hl₂'
                  have := hl₁ x (by simp [hfront])
                  rw [hyx] at this
                  cases this
            · exact ⟨c, hl₁', hrest⟩
          have heq : l₁ ++ (c ++ rest) = m₁ ++ m₂ := by rw [← hm, List.append_assoc]
          have hrest : ∀ z ∈ c ++ rest, le y z = true := fun z hz => hl₂ z (by
            simp only [List.mem_append, List.mem_cons] at hz ⊢
            tauto)
          obtain ⟨rfl, rfl⟩ := append_inj_of_test heq hl₁ hrest hm₁ hm₂
          refine ⟨l₁ ++ y :: c, rest, by simp, by simp, ?_⟩
          simp only [List.length_append, List.length_cons, if_true] at hlength ⊢
          omega
      | false =>
          obtain ⟨c, rfl, rfl⟩ : ∃ c, l₁ = front ++ x :: c ∧ rest = c ++ l₂ := by
            have hx : x ∉ l₂ := fun hx => by
              rw [hl₂ x hx] at hyx
              cases hyx
            obtain ⟨c, hl₁', hrest⟩ | ⟨c, -, hl₂'⟩ := List.append_eq_append_iff.mp hl
            · cases c with
              | nil =>
                  rw [List.nil_append] at hrest
                  exact absurd (hrest ▸ List.mem_cons_self) hx
              | cons z c =>
                  obtain ⟨rfl, hc⟩ := List.cons.inj hrest
                  exact ⟨c, hl₁', hc⟩
            · exact absurd (hl₂' ▸ by simp) hx
          have heq : (front ++ c) ++ l₂ = m₁ ++ m₂ := by rw [← hm, List.append_assoc]
          have hfront : ∀ z ∈ front ++ c, le y z = false := fun z hz => hl₁ z (by
            simp only [List.mem_append, List.mem_cons] at hz ⊢
            tauto)
          obtain ⟨rfl, rfl⟩ := append_inj_of_test heq hfront hl₂ hm₁ hm₂
          refine ⟨front, c ++ y :: l₂, by simp, by simp, ?_⟩
          simp only [Bool.false_eq_true, if_false] at hlength ⊢
          omega

variable (passes limit)

/-- A page with a row and the page without it. -/
theorem page_split (hx : passes x = true) (before after : List α) : ∃ front rest,
    page passes le limit (before ++ x :: after) = (front ++ x :: rest).take limit ∧
      page passes le limit (before ++ after) = (front ++ rest).take limit ∧
      front.length = ahead passes le before x after := by
  obtain ⟨front, rest, hwith, hwithout, hlength⟩ :=
    mergeSort_split trans total (before.filter passes) x (after.filter passes)
  refine ⟨front, rest, ?_, ?_, ?_⟩
  · rw [page, List.filter_append, List.filter_cons_of_pos hx, hwith]
  · rw [page, List.filter_append, hwithout]
  · simp only [hlength, List.countP_filter, ahead, Bool.and_comm]

/-- A row that is not among the first leaves the page as it is without it. -/
theorem page_append_cons_of_le (before after : List α)
    (h : passes x = true → limit ≤ ahead passes le before x after) :
    page passes le limit (before ++ x :: after) = page passes le limit (before ++ after) := by
  cases hx : passes x with
  | false =>
      unfold page
      rw [List.filter_append, List.filter_cons_of_neg (by simp [hx]), ← List.filter_append]
  | true =>
      obtain ⟨front, rest, hwith, hwithout, hlength⟩ :=
        page_split passes limit trans total hx before after
      have hlimit : limit ≤ front.length := hlength ▸ h hx
      rw [hwith, hwithout, List.take_append_of_le_length hlimit,
        List.take_append_of_le_length hlimit]

theorem mem_page_of_ahead_lt (before after : List α) (hx : passes x = true)
    (h : ahead passes le before x after < limit) :
    x ∈ page passes le limit (before ++ x :: after) := by
  obtain ⟨front, rest, hwith, -, hlength⟩ := page_split passes limit trans total hx before after
  rw [hwith, List.take_append, hlength, List.take_cons (by omega)]
  simp

/-- A row that the table has once is on the page if fewer rows than the limit come before. -/
theorem mem_page_iff (hbefore : x ∉ before) (hafter : x ∉ after) :
    x ∈ page passes le limit (before ++ x :: after) ↔
      passes x = true ∧ ahead passes le before x after < limit := by
  constructor
  · intro h
    refine ⟨(mem_of_mem_page h).2, ?_⟩
    by_contra hle
    rw [page_append_cons_of_le passes limit trans total before after fun _ =>
      Nat.le_of_not_lt hle] at h
    have hmem := (mem_of_mem_page h).1
    exact (List.mem_append.mp hmem).elim hbefore hafter
  · intro h
    exact mem_page_of_ahead_lt passes limit trans total before after h.1 h.2

end Order

end Relational
