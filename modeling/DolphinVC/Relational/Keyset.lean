import Mathlib

/-!
# Reading an ordered list from a position

A reader keeps the key of the last row it was given and asks for the rows beyond it.
`Covers key l n read m` says that such a reader, which began at `n` and is now at `m`, has been
given exactly the rows in between. It goes on to hold when the reader advances and when rows are
added at the end.
-/

namespace Keyset

variable {α κ : Type*} [LinearOrder κ] (key : α → κ)

/-- The rows beyond a position. -/
def after (n : κ) (l : List α) : List α := l.filter fun r => n < key r

def Ascending (l : List α) : Prop := l.Pairwise fun a b => key a < key b

instance (l : List α) : Decidable (Ascending key l) :=
  inferInstanceAs (Decidable (l.Pairwise fun a b => key a < key b))

structure Covers (l : List α) (n : κ) (read : List α) (m : κ) : Prop where
  rows : read ++ after key m l = after key n l
  position : m = n ∨ n ≤ m ∧ ∃ r ∈ l, key r = m

variable {key} {l read part rest : List α} {n m k : κ} {x : α}

theorem mem_after : x ∈ after key n l ↔ x ∈ l ∧ n < key x := by
  simp [after]

theorem Ascending.after (h : Ascending key l) : Ascending key (after key n l) :=
  h.sublist List.filter_sublist

/-- Beyond a row there are the rows that follow it. -/
theorem after_key (asc : Ascending key l) (h : after key m l = part ++ x :: rest) :
    after key (key x) l = rest := by
  have hx : x ∈ after key m l := by
    rw [h]
    simp
  have hcut : after key (key x) l = (after key m l).filter fun r => key x < key r := by
    unfold after
    rw [List.filter_filter]
    refine List.filter_congr fun r _ => ?_
    have hm := (mem_after.mp hx).2
    by_cases hr : key x < key r
    · simp [hr, hm.trans hr]
    · simp [hr]
  have hasc : Ascending key (part ++ x :: rest) := h ▸ asc.after
  obtain ⟨-, hrest, hpart⟩ := List.pairwise_append.mp hasc
  rw [hcut, h, List.filter_append, List.filter_cons_of_neg (by simp)]
  have hnone : part.filter (fun r => key x < key r) = [] := by
    refine List.filter_eq_nil_iff.mpr fun r hr => ?_
    have := hpart r hr x List.mem_cons_self
    simpa using this.le
  have hall : rest.filter (fun r => key x < key r) = rest := by
    refine List.filter_eq_self.mpr fun r hr => ?_
    have := (List.pairwise_cons.mp hrest).1 r hr
    simpa using this
  rw [hnone, hall, List.nil_append]

theorem Covers.refl : Covers key l n [] n := ⟨List.nil_append _, Or.inl rfl⟩

theorem Covers.le (h : Covers key l n read m) : n ≤ m := by
  obtain rfl | ⟨hle, -⟩ := h.position
  · exact le_rfl
  · exact hle

/-- The reader is given the rows up to one of those beyond its position. -/
theorem Covers.advance (asc : Ascending key l) (h : Covers key l n read m)
    (hafter : after key m l = part ++ x :: rest) :
    Covers key l n (read ++ (part ++ [x])) (key x) := by
  have hx : x ∈ after key m l := by
    rw [hafter]
    simp
  refine ⟨?_, Or.inr ⟨h.le.trans (mem_after.mp hx).2.le, x, (mem_after.mp hx).1, rfl⟩⟩
  rw [after_key asc hafter, ← h.rows, hafter]
  simp

/-- The reader is given everything there is. -/
theorem Covers.drain (asc : Ascending key l) (h : Covers key l n read m) :
    Covers key l n (read ++ after key m l) (((after key m l).getLast?.map key).getD m) := by
  obtain hnil | ⟨part, x, hlast⟩ := List.eq_nil_or_concat (after key m l)
  · rw [hnil, List.append_nil]
    exact h
  · rw [List.concat_eq_append] at hlast
    have := h.advance asc (show after key m l = part ++ x :: [] from hlast)
    rw [hlast, List.getLast?_append_of_ne_nil _ (by simp)]
    simpa using this

/-- Rows pass from one reader to the next, which began where the first one stands. -/
theorem Covers.pass (asc : Ascending key l) (h : Covers key l n read m)
    (h' : Covers key l m (x :: rest) k) :
    Covers key l n (read ++ [x]) (key x) ∧ Covers key l (key x) rest k := by
  have hafter : after key m l = [] ++ x :: (rest ++ after key k l) := h'.rows.symm
  refine ⟨h.advance asc hafter, (after_key asc hafter).symm, ?_⟩
  have hx : x ∈ l ∧ m < key x := mem_after.mp (by
    rw [hafter]
    simp)
  have hle : key x ≤ k := by
    by_contra hlt
    have hasc : Ascending key (x :: (rest ++ after key k l)) := by
      have := asc.after (n := m)
      rwa [hafter] at this
    have hbeyond : x ∈ rest ++ after key k l :=
      List.mem_append_right _ (mem_after.mpr ⟨hx.1, lt_of_not_ge hlt⟩)
    exact lt_irrefl _ ((List.pairwise_cons.mp hasc).1 x hbeyond)
  obtain rfl | ⟨-, hrow⟩ := h'.position
  · exact absurd hle (not_le_of_gt hx.2)
  · exact Or.inr ⟨hle, hrow⟩

/-- A row that comes after all others comes for every reader. -/
theorem Covers.push (h : Covers key l n read m) (new : ∀ r ∈ l, key r < key x) :
    Covers key (l ++ [x]) n read m := by
  have hsame : n < key x ↔ m < key x := by
    obtain rfl | ⟨hle, r, hr, rfl⟩ := h.position
    · rfl
    · exact ⟨fun _ => new r hr, hle.trans_lt⟩
  constructor
  · have hrows := h.rows
    unfold after at hrows ⊢
    rw [List.filter_append, List.filter_append, ← List.append_assoc, hrows]
    simp [List.filter_cons, hsame]
  · exact h.position.imp_right fun ⟨hle, r, hr, hkey⟩ => ⟨hle, r, List.mem_append_left _ hr, hkey⟩

/-- A reader at the end has been given everything. -/
theorem Covers.complete_iff (h : Covers key l n read m) :
    read = after key n l ↔ after key m l = [] := by
  rw [← h.rows]
  simp

end Keyset
