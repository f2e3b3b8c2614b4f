import Mathlib.Data.List.Infix
import Mathlib.Logic.Function.Basic

/-!
# Registers and their trails

A register holds at most one value a key, and each recording overwrites the one before. A
trail is a log that is only appended to: some of its entries say what was recorded for which
key, the others are about something else. Replaying the trail gives the register back: for each
key it tells what the last entry about that key says.
-/

namespace Transition

variable {κ ν τ : Type*} [DecidableEq κ]

/-- The register with this recording. -/
def record (register : κ → Option ν) (k : κ) (v : ν) : κ → Option ν :=
  Function.update register k (some v)

variable {register : κ → Option ν} {k k' : κ} {v : ν}

@[simp] theorem record_self : record register k v k = some v := Function.update_self ..

@[simp] theorem record_of_ne (h : k' ≠ k) : record register k v k' = register k' :=
  Function.update_of_ne h ..

variable (tells : τ → Option (κ × ν))

/-- What an entry does to the register. -/
def enter (register : κ → Option ν) (e : τ) : κ → Option ν :=
  match tells e with
  | none => register
  | some (k, v) => record register k v

/-- The register that a trail tells of. -/
def replay (trail : List τ) : κ → Option ν := trail.foldl (enter tells) fun _ => none

/-- What an entry says of one key. -/
def saysOf (k : κ) (e : τ) : Option ν :=
  (tells e).bind fun told => if told.1 = k then some told.2 else none

variable {tells} {trail : List τ} {e : τ}

theorem replay_concat : replay tells (trail ++ [e]) = enter tells (replay tells trail) e := by
  simp [replay]

theorem replay_silent (h : tells e = none) : replay tells (trail ++ [e]) = replay tells trail := by
  rw [replay_concat, enter, h]

theorem replay_told (h : tells e = some (k, v)) :
    replay tells (trail ++ [e]) = record (replay tells trail) k v := by
  rw [replay_concat, enter, h]

theorem enter_apply : enter tells register e k = (saysOf tells k e).or (register k) := by
  unfold enter saysOf
  cases tells e with
  | none => rfl
  | some told =>
      obtain ⟨k', v⟩ := told
      by_cases hk : k' = k
      · subst hk
        simp
      · simp [hk, record_of_ne (Ne.symm hk)]

/-- The last entry that says something decides. -/
theorem replay_apply : replay tells trail k = trail.reverse.findSome? (saysOf tells k) := by
  induction trail using List.reverseRecOn with
  | nil => rfl
  | append_singleton trail e ih =>
      rw [replay_concat, enter_apply, ih, List.reverse_concat, List.findSome?_cons]
      cases saysOf tells k e with
      | none => rfl
      | some v => rfl

theorem saysOf_eq_some : saysOf tells k e = some v ↔ tells e = some (k, v) := by
  unfold saysOf
  cases tells e with
  | none => simp
  | some told =>
      obtain ⟨k', v'⟩ := told
      by_cases hk : k' = k
      · simp [hk]
      · simp [hk]

/-- An entry about a key is heard: the trail tells something of it. -/
theorem replay_isSome (he : e ∈ trail) (htells : tells e = some (k, v)) :
    (replay tells trail k).isSome := by
  rw [replay_apply, List.findSome?_isSome_iff]
  exact ⟨e, List.mem_reverse.mpr he, by rw [saysOf_eq_some.mpr htells]; rfl⟩

/-- What the trail tells of a key is what the last entry about it says. -/
theorem replay_eq_some : replay tells trail k = some v ↔
    ∃ before e after, trail = before ++ e :: after ∧ tells e = some (k, v) ∧
      ∀ e' ∈ after, ∀ v', tells e' ≠ some (k, v') := by
  have hsilent {e : τ} : saysOf tells k e = none ↔ ∀ v', tells e ≠ some (k, v') := by
    rw [Option.eq_none_iff_forall_ne_some]
    exact forall_congr' fun v' => not_congr saysOf_eq_some
  rw [replay_apply, List.findSome?_eq_some_iff]
  simp only [saysOf_eq_some, hsilent]
  constructor
  · rintro ⟨after, e, before, hsplit, hsays, hrest⟩
    refine ⟨before.reverse, e, after.reverse, ?_, hsays, fun e' he' =>
      hrest e' (List.mem_reverse.mp he')⟩
    rw [← List.reverse_reverse trail, hsplit]
    simp
  · rintro ⟨before, e, after, rfl, hsays, hrest⟩
    exact ⟨after.reverse, e, before.reverse, by simp, hsays, fun e' he' =>
      hrest e' (List.mem_reverse.mp he')⟩

end Transition
