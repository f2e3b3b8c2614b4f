import Mathlib.Data.List.Basic

/-!
# Regular expressions with backtracking

The matcher of a backtracking engine: a pattern maps a cursor to the cursors it can end at,
in the order in which the engine tries them, and a search takes the first match of the
leftmost start. Repetition is over classes of symbols only, so it needs no fuel. One group
can be captured.
-/

namespace Regex

variable {α : Type}

inductive Pattern (α : Type) where
  | empty
  /-- Between `lo` and `hi` symbols of the class, as many or as few as possible. -/
  | repeated (isIn : α → Bool) (lo : Nat) (hi : Option Nat) (greedy : Bool)
  /-- One neighbour is a word symbol and the other is not. -/
  | boundary (isWord : α → Bool)
  | seq (r s : Pattern α)
  | alt (r s : Pattern α)
  | group (r : Pattern α)

namespace Pattern

/-- `[...]` -/
def one (isIn : α → Bool) : Pattern α := .repeated isIn 1 (some 1) true

/-- `[...]+` -/
def many1 (isIn : α → Bool) : Pattern α := .repeated isIn 1 none true

/-- `[...]*` -/
def many (isIn : α → Bool) : Pattern α := .repeated isIn 0 none true

/-- `[...]?` -/
def maybe (isIn : α → Bool) : Pattern α := .repeated isIn 0 (some 1) true

/-- `(?:...)?` -/
def opt (r : Pattern α) : Pattern α := .alt r .empty

def all (rs : List (Pattern α)) : Pattern α := rs.foldr .seq .empty

/-- A word, with `same` for the equality of symbols. -/
def word (same : α → α → Bool) (xs : List α) : Pattern α := all (xs.map fun x => one (same x))

end Pattern

/-- A place in the input: what lies before it in reverse, what is left, what was captured. -/
structure Cursor (α : Type) where
  before : List α
  after : List α
  captured : Option (List α) := none

namespace Cursor

def advance (c : Cursor α) (n : Nat) : Cursor α :=
  { c with before := (c.after.take n).reverse ++ c.before, after := c.after.drop n }

/-- The later cursor of the same input has moved over these symbols. -/
def Moved (c d : Cursor α) (xs : List α) : Prop :=
  c.after = xs ++ d.after ∧ d.before = xs.reverse ++ c.before

theorem Moved.refl (c : Cursor α) : c.Moved c [] := ⟨rfl, rfl⟩

theorem Moved.trans {c d e : Cursor α} {xs ys : List α} (h : c.Moved d xs) (h' : d.Moved e ys) :
    c.Moved e (xs ++ ys) := by
  refine ⟨?_, ?_⟩
  · rw [h.1, h'.1, List.append_assoc]
  · rw [h'.2, h.2, List.reverse_append, List.append_assoc]

theorem moved_advance (c : Cursor α) (n : Nat) : c.Moved (c.advance n) (c.after.take n) :=
  ⟨(List.take_append_drop n c.after).symm, rfl⟩

end Cursor

/-- The numbers of symbols to try, in order. -/
def counts (available lo : Nat) (hi : Option Nat) (greedy : Bool) : List Nat :=
  let upTo := match hi with
    | none => available
    | some h => min h available
  let ns := (List.range (upTo + 1)).filter fun n => lo ≤ n
  if greedy then ns.reverse else ns

def Pattern.run : Pattern α → Cursor α → List (Cursor α)
  | .empty, c => [c]
  | .repeated isIn lo hi greedy, c =>
      (counts (c.after.takeWhile isIn).length lo hi greedy).map c.advance
  | .boundary isWord, c =>
      if c.before.head?.any isWord = c.after.head?.any isWord then [] else [c]
  | .seq r s, c => (r.run c).flatMap s.run
  | .alt r s, c => r.run c ++ s.run c
  | .group r, c => (r.run c).map fun d =>
      { d with captured := some (c.after.take (c.after.length - d.after.length)) }

/-- Matching moves the cursor forward in the input. -/
theorem Pattern.moved_run {r : Pattern α} {c d : Cursor α} (h : d ∈ r.run c) :
    ∃ xs, c.Moved d xs := by
  induction r generalizing c d with
  | empty =>
      rw [List.mem_singleton.mp h]
      exact ⟨[], .refl c⟩
  | repeated isIn lo hi greedy =>
      obtain ⟨n, -, rfl⟩ := List.mem_map.mp h
      exact ⟨_, c.moved_advance n⟩
  | boundary isWord =>
      simp only [Pattern.run] at h
      split at h
      · cases h
      · rw [List.mem_singleton.mp h]
        exact ⟨[], .refl c⟩
  | seq r s ihr ihs =>
      obtain ⟨e, he, hd⟩ := List.mem_flatMap.mp h
      obtain ⟨xs, hxs⟩ := ihr he
      obtain ⟨ys, hys⟩ := ihs hd
      exact ⟨xs ++ ys, hxs.trans hys⟩
  | alt r s ihr ihs =>
      obtain h | h := List.mem_append.mp h
      · exact ihr h
      · exact ihs h
  | group r ih =>
      obtain ⟨e, he, rfl⟩ := List.mem_map.mp h
      obtain ⟨xs, hxs⟩ := ih he
      exact ⟨xs, hxs⟩

/-- What was matched, what the group captured and what follows the match. -/
structure Match (α : Type) where
  text : List α
  captured : List α
  after : List α

/-- Every place of the input, from left to right. -/
def starts (input : List α) : List (Cursor α) :=
  (List.range (input.length + 1)).map fun i =>
    { before := (input.take i).reverse, after := input.drop i }

/-- `pattern.search(input)` -/
def Pattern.search (r : Pattern α) (input : List α) : Option (Match α) :=
  (starts input).findSome? fun c => (r.run c).head?.map fun d =>
    { text := c.after.take (c.after.length - d.after.length), captured := d.captured.getD []
      after := d.after }

/-- A match is literally in the input. -/
theorem Pattern.search_infix {r : Pattern α} {input : List α} {m : Match α}
    (h : r.search input = some m) : m.text <:+: input := by
  obtain ⟨c, hc, hm⟩ := List.exists_of_findSome?_eq_some h
  obtain ⟨i, -, rfl⟩ := List.mem_map.mp hc
  obtain ⟨d, -, rfl⟩ := Option.map_eq_some_iff.mp hm
  exact (List.take_prefix _ _).isInfix.trans (List.drop_suffix i input).isInfix

/-- Every match of the pattern has at least one symbol. -/
def Pattern.consumes : Pattern α → Bool
  | .empty | .boundary _ => false
  | .repeated _ lo _ _ => 0 < lo
  | .seq r s => r.consumes || s.consumes
  | .alt r s => r.consumes && s.consumes
  | .group r => r.consumes

theorem le_of_mem_counts {available lo n : Nat} {hi : Option Nat} {greedy : Bool}
    (h : n ∈ counts available lo hi greedy) : lo ≤ n ∧ n ≤ available := by
  have hn : n ∈ counts available lo hi false := by
    cases greedy with
    | false => exact h
    | true => exact List.mem_reverse.mp h
  obtain ⟨hrange, hlo⟩ := List.mem_filter.mp hn
  refine ⟨of_decide_eq_true hlo, ?_⟩
  have hlt := List.mem_range.mp hrange
  cases hi with
  | none => exact Nat.le_of_lt_succ hlt
  | some hi => exact Nat.le_trans (Nat.le_of_lt_succ hlt) (Nat.min_le_right _ _)

theorem Pattern.length_run {r : Pattern α} {c d : Cursor α} (h : d ∈ r.run c) :
    d.after.length ≤ c.after.length := by
  obtain ⟨xs, hmoved⟩ := Pattern.moved_run h
  rw [hmoved.1, List.length_append]
  omega

/-- A pattern that consumes leaves less of the input. -/
theorem Pattern.length_run_lt {r : Pattern α} {c d : Cursor α} (consumes : r.consumes = true)
    (h : d ∈ r.run c) : d.after.length < c.after.length := by
  induction r generalizing c d with
  | empty => cases consumes
  | boundary isWord => cases consumes
  | repeated isIn lo hi greedy =>
      obtain ⟨n, hn, rfl⟩ := List.mem_map.mp h
      obtain ⟨hlo, havailable⟩ := le_of_mem_counts hn
      have hpos : 0 < lo := of_decide_eq_true consumes
      have htake : (c.after.takeWhile isIn).length ≤ c.after.length :=
        (List.takeWhile_prefix isIn).length_le
      simp only [Cursor.advance, List.length_drop]
      omega
  | seq r s ihr ihs =>
      obtain ⟨e, he, hd⟩ := List.mem_flatMap.mp h
      obtain hr | hs := Bool.or_eq_true_iff.mp consumes
      · exact Nat.lt_of_le_of_lt (Pattern.length_run hd) (ihr hr he)
      · exact Nat.lt_of_lt_of_le (ihs hs hd) (Pattern.length_run he)
  | alt r s ihr ihs =>
      obtain ⟨hr, hs⟩ := Bool.and_eq_true_iff.mp consumes
      obtain h | h := List.mem_append.mp h
      · exact ihr hr h
      · exact ihs hs h
  | group r ih =>
      obtain ⟨e, he, rfl⟩ := List.mem_map.mp h
      exact ih (d := e) consumes he

theorem Pattern.search_ne_nil {r : Pattern α} {input : List α} {m : Match α}
    (consumes : r.consumes = true) (h : r.search input = some m) : m.text ≠ [] := by
  obtain ⟨c, -, hm⟩ := List.exists_of_findSome?_eq_some h
  obtain ⟨d, hd, rfl⟩ := Option.map_eq_some_iff.mp hm
  have hlt := Pattern.length_run_lt consumes (List.mem_of_mem_head? hd)
  rw [← List.length_pos_iff, List.length_take]
  omega

end Regex
