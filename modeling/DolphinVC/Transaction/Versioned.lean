import DolphinVC.Transaction.World
import DolphinVC.Transition.Run

/-!
# Optimistic concurrency over one row

A row carries a version. A writer that has read version `v` means to replace just what it
read: it asks for version `v + 1` and hopes that nobody updates the row before it commits.
Nothing checks this, so everything depends on what the updates do to the version. When each
of them raises the version it finds by one, versions only grow, and two states that show
the same version show the same row with no update between them.
-/

namespace Transaction

open Transition

variable {σ ω ε μ ρ τ : Type}

namespace Backend

/-- Every write meets the condition at the store it is applied to. -/
def Each (B : Backend σ ω ε) (C : σ → ω → Prop) : σ → List ω → Prop
  | _, [] => True
  | db, w :: ws => C db w ∧ ∀ db', B.apply db w = .ok db' → B.Each C db' ws

variable {B : Backend σ ω ε} {C D : σ → ω → Prop} {db db' mid : σ} {w : ω} {ws vs : List ω}

theorem Each.mono (h : B.Each C db ws) (weaken : ∀ db w, C db w → D db w) : B.Each D db ws := by
  induction ws generalizing db with
  | nil => trivial
  | cons w ws ih => exact ⟨weaken db w h.1, fun db' happly => ih (h.2 db' happly)⟩

theorem Each.take (h : B.Each C db (vs ++ ws)) : B.Each C db vs := by
  induction vs generalizing db with
  | nil => trivial
  | cons v vs ih => exact ⟨h.1, fun db' hv => ih (h.2 db' hv)⟩

/-- What is left after some of the writes. -/
theorem Each.drop (h : B.Each C db (vs ++ ws)) (happly : B.applyAll db vs = .ok mid) :
    B.Each C mid ws := by
  induction vs generalizing db with
  | nil =>
      cases happly
      exact h
  | cons v vs ih =>
      obtain ⟨db', hv, hvs⟩ := applyAll_cons_eq_ok.mp happly
      exact ih (h.2 db' hv) hvs

end Backend

/-- A row of the store with its version, and the writes that update it. -/
structure Versioned (σ ω τ : Type) where
  row : σ → Option τ
  version : τ → Nat
  Updates : ω → Prop

namespace Versioned

variable (V : Versioned σ ω τ) (B : Backend σ ω ε)

/-- A write that is no update leaves the row alone, once that is there. -/
def Framed : Prop :=
  ∀ db w db' x, ¬ V.Updates w → B.apply db w = .ok db' → V.row db = some x →
    V.row db' = some x

/-- An update finds the row and leaves it with the next version. -/
def Raises (db : σ) (w : ω) : Prop :=
  V.Updates w → ∃ x, V.row db = some x ∧ ∀ db', B.apply db w = .ok db' →
    ∃ y, V.row db' = some y ∧ V.version y = V.version x + 1

/-- The write leaves the row with version `n`, whatever it finds. -/
def Sets (w : ω) (n : Nat) : Prop :=
  ∀ db db' y, B.apply db w = .ok db' → V.row db' = some y → V.version y = n

/-- The row is the same or has a higher version. -/
def Ahead (db db' : σ) : Prop :=
  ∀ x, V.row db = some x →
    ∃ y, V.row db' = some y ∧ (y = x ∨ V.version x < V.version y)

variable {V B} {db db' db'' mid : σ} {x y : τ} {w : ω} {ws : List ω}

theorem Ahead.refl (db : σ) : V.Ahead db db := fun x hx => ⟨x, hx, Or.inl rfl⟩

theorem Ahead.le (h : V.Ahead db db') (hx : V.row db = some x) (hy : V.row db' = some y) :
    V.version x ≤ V.version y := by
  obtain ⟨z, hz, hle⟩ := h x hx
  obtain rfl := Option.some.inj (hy.symm.trans hz)
  cases hle with
  | inl hsame => exact Nat.le_of_eq (by rw [hsame])
  | inr hlt => omega

theorem Ahead.trans (h : V.Ahead db db') (h' : V.Ahead db' db'') : V.Ahead db db'' := by
  intro x hx
  obtain ⟨y, hy, hxy⟩ := h x hx
  obtain ⟨z, hz, hyz⟩ := h' y hy
  have hle : V.version y ≤ V.version z := h'.le hy hz
  refine ⟨z, hz, ?_⟩
  cases hxy with
  | inl hsame => exact hsame ▸ hyz
  | inr hlt => exact Or.inr (by omega)

/-- Equal versions show equal rows. -/
theorem Ahead.same (h : V.Ahead db db') (hx : V.row db = some x) (hy : V.row db' = some y)
    (hversion : V.version y ≤ V.version x) : y = x := by
  obtain ⟨z, hz, hxz⟩ := h x hx
  obtain rfl := Option.some.inj (hy.symm.trans hz)
  exact hxz.resolve_right (Nat.not_lt.mpr hversion)

section Writes

variable (framed : V.Framed B)
include framed

theorem ahead_apply (h : V.Raises B db w) (happly : B.apply db w = .ok db') : V.Ahead db db' := by
  intro x hx
  by_cases hw : V.Updates w
  · obtain ⟨x', hx', raised⟩ := h hw
    obtain ⟨y, hy, hversion⟩ := raised db' happly
    obtain rfl := Option.some.inj (hx.symm.trans hx')
    exact ⟨y, hy, Or.inr (by omega)⟩
  · exact ⟨x, framed db w db' x hw happly hx, Or.inl rfl⟩

theorem ahead_applyAll (h : B.Each (V.Raises B) db ws) (happly : B.applyAll db ws = .ok db') :
    V.Ahead db db' := by
  induction ws generalizing db with
  | nil =>
      cases happly
      exact .refl _
  | cons w ws ih =>
      obtain ⟨mid, hw, hws⟩ := Backend.applyAll_cons_eq_ok.mp happly
      exact (ahead_apply framed h.1 hw).trans (ih (h.2 mid hw) hws)

/-- An update in a write set finds a row that nothing before it has taken away, and leaves a
higher version behind. -/
theorem update_applyAll {u : ω} (h : B.Each (V.Raises B) db ws)
    (happly : B.applyAll db ws = .ok db') (hu : u ∈ ws) (updates : V.Updates u) :
    ∃ mid mid' x y, V.Ahead db mid ∧ V.row mid = some x ∧ B.apply mid u = .ok mid' ∧
      V.row mid' = some y ∧ V.version y = V.version x + 1 ∧ V.Ahead mid' db' := by
  obtain ⟨vs, ts, rfl⟩ := List.append_of_mem hu
  obtain ⟨mid, hvs, hrest⟩ := Backend.applyAll_append_eq_ok.mp happly
  obtain ⟨mid', hmid, hts⟩ := Backend.applyAll_cons_eq_ok.mp hrest
  have hleft : B.Each (V.Raises B) mid (u :: ts) := h.drop hvs
  obtain ⟨x, hx, raised⟩ := hleft.1 updates
  obtain ⟨y, hy, hversion⟩ := raised mid' hmid
  exact ⟨mid, mid', x, y, ahead_applyAll framed h.take hvs, hx, hmid, hy, hversion,
    ahead_applyAll framed (hleft.2 mid' hmid) hts⟩

end Writes

section Runs

variable {w : World σ ω ε μ ρ} {a : Act σ ω ε μ ρ} {as : List (Act σ ω ε μ ρ)}

/-- Every update that the action commits raises the version. -/
def CommitsRaise (V : Versioned σ ω τ) (B : Backend σ ω ε) (w : World σ ω ε μ ρ)
    (a : Act σ ω ε μ ρ) : Prop :=
  ∀ ws, w.writeSet a = some ws → B.Each (V.Raises B) w.db ws

/-- The action commits no update of the row. -/
def Spares (V : Versioned σ ω τ) (B : Backend σ ω ε) (w : World σ ω ε μ ρ)
    (a : Act σ ω ε μ ρ) : Prop :=
  ∀ ws db', w.writeSet a = some ws → B.applyAll w.db ws = .ok db' →
    ∀ u ∈ ws, ¬ V.Updates u

/-- The row stays as it is all along, and nobody updates it. -/
def Undisturbed (V : Versioned σ ω τ) (B : Backend σ ω ε) (w : World σ ω ε μ ρ)
    (as : List (Act σ ω ε μ ρ)) : Prop :=
  Along (World.act B) (fun w' => V.row w'.db = V.row w.db) w as ∧
    Meets (World.act B) (V.Spares B) w as

variable (framed : V.Framed B)
include framed

theorem ahead_act (h : V.CommitsRaise B w a) : V.Ahead w.db (w.act B a).db := by
  obtain hdb | ⟨ws, hw, happly⟩ := World.db_act (B := B) (w := w) (a := a)
  · rw [hdb]
    exact .refl w.db
  · exact ahead_applyAll framed (h ws hw) happly

theorem ahead_run (run : Meets (World.act B) (V.CommitsRaise B) w as) :
    V.Ahead w.db (as.foldl (World.act B) w).db := by
  induction as generalizing w with
  | nil => exact .refl w.db
  | cons a as ih => exact (ahead_act framed run.1).trans (ih run.2)

/-- An action after which the row shows the version it had before has not touched it. -/
theorem spares_of_same (h : V.CommitsRaise B w a) (hx : V.row w.db = some x)
    (ahead : V.Ahead (w.act B a).db db') (hx' : V.row db' = some y)
    (hversion : V.version y ≤ V.version x) :
    V.row (w.act B a).db = some x ∧ V.Spares B w a := by
  obtain ⟨z, hz, -⟩ := ahead_act framed h x hx
  have hzy : V.version z ≤ V.version y := ahead.le hz hx'
  have hsame : z = x := (ahead_act framed h).same hx hz (by omega)
  refine ⟨hsame ▸ hz, fun ws mid hw happly u hu updates => ?_⟩
  obtain ⟨m, m', x', y', before, hm, -, hm', hnext, after⟩ :=
    update_applyAll framed (h ws hw) happly hu updates
  have hmid : (w.act B a).db = mid := World.db_act_of_writeSet hw happly
  have hle : V.version x ≤ V.version x' := before.le hx hm
  have hle' : V.version y' ≤ V.version z := after.le hm' (hmid ▸ hz)
  rw [hsame] at hle'
  omega

/-- Nothing happens to the row between two states that show the same version. -/
theorem undisturbed_of_same (run : Meets (World.act B) (V.CommitsRaise B) w as)
    (hx : V.row w.db = some x) (ahead : V.Ahead (as.foldl (World.act B) w).db db')
    (hx' : V.row db' = some y) (hversion : V.version y ≤ V.version x) :
    V.Undisturbed B w as := by
  induction as generalizing w with
  | nil => exact ⟨rfl, trivial⟩
  | cons a as ih =>
      obtain ⟨hrow, hspares⟩ := spares_of_same framed run.1 hx
        ((ahead_run framed run.2).trans ahead) hx' hversion
      obtain ⟨hsame, hmeets⟩ := ih run.2 hrow ahead
      refine ⟨⟨rfl, hsame.mono fun w' h => ?_⟩, hspares, hmeets⟩
      rw [h, hrow, hx]

/-- The write set replaces version `n` of the row. -/
def Replaces (V : Versioned σ ω τ) (B : Backend σ ω ε) (n : Nat) (ws : List ω) : Prop :=
  ∃ u ∈ ws, V.Updates u ∧ V.Sets B u (n + 1)

omit framed in
/-- What a commit that replaces version `n` goes through. -/
theorem Replaces.finds {n : Nat} {ws : List ω} (framed : V.Framed B) (h : V.Replaces B n ws)
    (raises : B.Each (V.Raises B) db ws) (happly : B.applyAll db ws = .ok db') :
    ∃ mid mid' x y, V.Ahead db mid ∧ V.row mid = some x ∧ V.version x = n ∧
      V.row mid' = some y ∧ V.version y = n + 1 ∧ V.Ahead mid' db' := by
  obtain ⟨u, hu, updates, sets⟩ := h
  obtain ⟨mid, mid', x, y, before, hx, hmid, hy, hnext, after⟩ :=
    update_applyAll framed raises happly hu updates
  have hversion : V.version y = n + 1 := sets mid mid' y hmid hy
  exact ⟨mid, mid', x, y, before, hx, by omega, hy, hversion, after⟩

/-- A commit replaces a version that nobody has touched since anyone read it. -/
theorem undisturbed_of_replaces {n : Nat} {ws : List ω}
    (run : Meets (World.act B) (V.CommitsRaise B) w as)
    (raises : B.Each (V.Raises B) (as.foldl (World.act B) w).db ws)
    (happly : B.applyAll (as.foldl (World.act B) w).db ws = .ok db')
    (replaces : V.Replaces B n ws) (hx : V.row w.db = some x) (hversion : V.version x = n) :
    V.Undisturbed B w as := by
  obtain ⟨mid, -, x', -, before, hx', hn, -, -, -⟩ := replaces.finds framed raises happly
  exact undisturbed_of_same framed run hx before hx' (by omega)

/-- A version is replaced once. -/
theorem not_replaces_again {n : Nat} {ws ws' : List ω} (raises : B.Each (V.Raises B) db ws)
    (happly : B.applyAll db ws = .ok w.db) (replaces : V.Replaces B n ws)
    (run : Meets (World.act B) (V.CommitsRaise B) w as)
    (raises' : B.Each (V.Raises B) (as.foldl (World.act B) w).db ws')
    (happly' : B.applyAll (as.foldl (World.act B) w).db ws' = .ok db') :
    ¬ V.Replaces B n ws' := by
  intro again
  obtain ⟨-, mid, -, y, -, -, -, hy, hnext, after⟩ := replaces.finds framed raises happly
  obtain ⟨mid', -, x, -, before, hx, hn, -, -, -⟩ := again.finds framed raises' happly'
  have hle : V.version y ≤ V.version x :=
    (after.trans ((ahead_run framed run).trans before)).le hy hx
  omega

end Runs

end Versioned
end Transaction
