import DolphinVC.Transaction.Atomic

/-!
# Invariants of a store whose requests are served one by one

`Session.Leads B I db s` says that the store has the property `I` and would have it with
the session's pending writes committed. A request that keeps this relation keeps the
property, whether it raises or not: `Follows.atomically`.

Most statements keep `I` from any store that has it. An INSERT that is sent because a
look-up found nothing does so only in the view of that look-up, which is the store with
the pending writes as long as nothing waits to be flushed. `Settles` is about parts that
start and end with such a clean session, `Follows` about what may follow them, and
`settles_query` and `settled_create` about a look-up and the INSERT behind it.
-/

namespace Transaction

variable {σ ω ε μ α β γ : Type}

/-- The statement keeps the property in every store that has it. -/
def Backend.Neutral (B : Backend σ ω ε) (I : σ → Prop) (w : ω) : Prop :=
  ∀ db db', I db → B.apply db w = .ok db' → I db'

namespace Session

variable (B : Backend σ ω ε) (I : σ → Prop) (db : σ) (s : Session ω)

def Leads : Prop := I db ∧ s.Holds fun ws => ∀ db', B.applyAll db ws = .ok db' → I db'

/-- Nothing waits to be flushed. -/
def Clean : Prop := s.Leads B I db ∧ s.dirty = []

variable {B I db s}

theorem clean_start (h : I db) : ({} : Session ω).Clean B I db := by
  refine ⟨⟨h, Or.inr fun db' happly => ?_⟩, rfl⟩
  cases happly
  exact h

theorem Leads.stage {w : ω} (h : s.Leads B I db) (hw : B.Neutral I w) :
    (s.stage w).Leads B I db := by
  refine ⟨h.1, h.2.stage fun ws hws db' happly => ?_⟩
  obtain ⟨mid, hmid, hlast⟩ := Backend.applyAll_append_eq_ok.mp happly
  exact hw mid db' (hws mid hmid) (by simpa using hlast)

theorem Leads.failed (h : I db) : ({ s with failed := true } : Session ω).Leads B I db :=
  ⟨h, Or.inl rfl⟩

/-- What a clean session sees has the property. -/
theorem Clean.view {view : σ} (h : s.Clean B I db) (hq : s.query B db none = .ok view) :
    I view ∧ s.failed = false ∧ B.applyAll db s.pending = .ok view := by
  have hpending : s.pending = s.flushed := by
    simp [pending, h.2]
  unfold query at hq
  cases hf : s.failed with
  | true =>
      rw [hf] at hq
      cases hq
  | false =>
      rw [hf] at hq
      have happly : B.applyAll db s.pending = .ok view := by
        rw [hpending]
        exact hq
      exact ⟨(h.1.2.resolve_left (by simp [hf])) view happly, rfl, happly⟩

end Session

namespace Tx

variable {B : Backend σ ω ε} {I : σ → Prop}

/-- The part keeps a clean session clean unless it raises. -/
def Settles (B : Backend σ ω ε) (I : σ → Prop) (p : Tx σ ω ε μ α) : Prop :=
  ∀ db s, s.Clean B I db →
    WP B (fun r db' s' => s'.Leads B I db' ∧ ∀ a, r = .ok a → s'.dirty = []) p db s

/-- The part can follow one that ends with a clean session. -/
def Follows (B : Backend σ ω ε) (I : σ → Prop) (p : Tx σ ω ε μ α) : Prop :=
  ∀ db s, s.Clean B I db → WP B (fun _ db' s' => s'.Leads B I db') p db s

theorem Follows.atomically {p : Tx σ ω ε μ α} (h : Follows B I p) {db : σ} (start : I db) :
    I (p.atomically B db).2 :=
  (atomically_iff (P := fun _ db' => I db')).mpr
    ((h db {} (Session.clean_start start)).mono fun _ _ _ h' => h'.1)

theorem Settles.pure (a : α) : Settles B I (pure a : Tx σ ω ε μ α) :=
  fun _ _ h => ⟨h.1, fun _ _ => h.2⟩

theorem Settles.bind {p : Tx σ ω ε μ α} {f : α → Tx σ ω ε μ β} (hp : Settles B I p)
    (hf : ∀ a, Settles B I (f a)) : Settles B I (p >>= f) := by
  refine fun db s h => wp_bind.mpr ((hp db s h).mono fun r db' s' h' => ?_)
  cases r with
  | error e => exact ⟨h'.1, fun _ he => by cases he⟩
  | ok a => exact hf a db' s' ⟨h'.1, h'.2 a rfl⟩

theorem Settles.follows_bind {p : Tx σ ω ε μ α} {f : α → Tx σ ω ε μ β} (hp : Settles B I p)
    (hf : ∀ a, Follows B I (f a)) : Follows B I (p >>= f) := by
  refine fun db s h => wp_bind.mpr ((hp db s h).mono fun r db' s' h' => ?_)
  cases r with
  | error e => exact h'.1
  | ok a => exact hf a db' s' ⟨h'.1, h'.2 a rfl⟩

theorem Settles.follows {p : Tx σ ω ε μ α} (hp : Settles B I p) : Follows B I p :=
  fun db s h => (hp db s h).mono fun _ _ _ h' => h'.1

theorem Reads.settles {p : Tx σ ω ε μ α} (h : Reads p) : Settles B I p :=
  fun _ _ hs => h.wp.mpr ⟨hs.1, fun _ _ => hs.2⟩

theorem settles_call {m : μ} : Settles B I (call m : Tx σ ω ε μ Unit) :=
  fun _ _ hs => ⟨hs.1, fun _ _ => hs.2⟩

/-- After a flush nothing waits. -/
theorem wp_flush_leads {db : σ} {s : Session ω} (h : s.Leads B I db) :
    WP B (fun r db' s' => s'.Leads B I db' ∧ ∀ a, r = .ok a → s'.dirty = [])
      (flush : Tx σ ω ε μ Unit) db s := by
  refine wp_flush_cases ⟨⟨h.1, h.2.imp_right fun hws => ?_⟩, fun _ _ => rfl⟩ fun e =>
    ⟨Session.Leads.failed h.1, fun _ he => by cases he⟩
  simpa [Session.pending] using hws

/-- Send one statement and go on. -/
theorem wp_send {db : σ} {s : Session ω} {w : ω} (h : (s.stage w).Leads B I db)
    {k : Tx σ ω ε μ α} (hk : Settles B I k) :
    WP B (fun r db' s' => s'.Leads B I db' ∧ ∀ a, r = .ok a → s'.dirty = [])
      (stage w >>= fun _ => flush >>= fun _ => k) db s := by
  refine wp_bind.mpr (wp_stage.mpr (wp_bind.mpr ((wp_flush_leads h).mono fun r db' s' h' => ?_)))
  cases r with
  | error e => exact ⟨h'.1, fun _ he => by cases he⟩
  | ok u => exact hk db' s' ⟨h'.1, h'.2 u rfl⟩

theorem settles_send {w : ω} (hw : B.Neutral I w) {k : Tx σ ω ε μ α} (hk : Settles B I k) :
    Settles B I (stage w >>= fun _ => flush >>= fun _ => k) :=
  fun _ _ h => wp_send (h.1.stage hw) hk

/-- The part is one look-up in what the session sees. -/
def Looks (B : Backend σ ω ε) (p : Tx σ ω ε μ γ) (look : σ → γ) : Prop :=
  ∀ (db : σ) (s : Session ω) (Q : Except ε γ → σ → Session ω → Prop),
    WP B Q p db s ↔ Q ((s.query B db none).map look) db s

theorem looks_query (look : σ → γ) : Looks B (query look : Tx σ ω ε μ γ) look :=
  fun _ _ _ => wp_query

/-- A look-up that falls back on another one. -/
theorem looks_or {g h : σ → Option γ} {f : Option γ → Tx σ ω ε μ (Option γ)}
    (found : ∀ r, f (some r) = pure (some r)) (missed : f none = query h) :
    Looks B (query g >>= f) fun view => (g view).or (h view) := by
  intro db s Q
  rw [wp_bind, wp_query]
  cases hq : s.query B db none with
  | error e => rfl
  | ok view =>
      show WP B Q (f (g view)) db s ↔ _
      cases hg : g view with
      | some r =>
          rw [found, wp_pure]
          simp only [Except.map, hg, Option.some_or]
      | none =>
          rw [missed, wp_query, hq]
          simp only [Except.map, hg, Option.none_or]

/-- Served alone, a look-up answers from the store. -/
theorem Looks.atomically {p : Tx σ ω ε μ γ} {look : σ → γ} (h : Looks B p look) (db : σ) :
    p.atomically B db = (.ok (look db), db) := by
  have hwp : WP B (fun r db' _ => (r, db') = (.ok (look db), db)) p db {} := by
    rw [h]
    rfl
  exact hwp

/-- Served alone, a request goes on from what its look-up found. -/
theorem Looks.atomically_bind {p : Tx σ ω ε μ γ} {look : σ → γ} {f : γ → Tx σ ω ε μ α}
    (h : Looks B p look) (db : σ) :
    (p >>= f).atomically B db = (f (look db)).atomically B db := by
  have hwp : WP B (fun r db' _ => (r, db') = (f (look db)).atomically B db) (p >>= f) db {} := by
    rw [wp_bind, h]
    exact (rfl : (f (look db)).atomically B db = _)
  exact hwp

/-- A look-up in front of a clean session answers with what a commit would leave. -/
theorem settles_lookup {p : Tx σ ω ε μ (Option γ)} {look : σ → Option γ}
    {f : Option γ → Tx σ ω ε μ α} (hp : Looks B p look) (found : ∀ r, Settles B I (f (some r)))
    (missed : ∀ db s view, s.Clean B I db → s.query B db none = .ok view → look view = none →
      WP B (fun r db' s' => s'.Leads B I db' ∧ ∀ a, r = .ok a → s'.dirty = []) (f none) db s) :
    Settles B I (p >>= f) := by
  refine fun db s hs => wp_bind.mpr ((hp db s _).mpr ?_)
  cases hq : s.query B db none with
  | error e => exact ⟨hs.1, fun _ he => by cases he⟩
  | ok view =>
      show WP B _ (f (look view)) db s
      cases hlook : look view with
      | some r => exact found r db s hs
      | none => exact missed db s view hs hq hlook

theorem follows_lookup {p : Tx σ ω ε μ (Option γ)} {look : σ → Option γ}
    {f : Option γ → Tx σ ω ε μ α} (hp : Looks B p look) (found : ∀ r, Follows B I (f (some r)))
    (missed : ∀ db s view, s.Clean B I db → s.query B db none = .ok view → look view = none →
      WP B (fun _ db' s' => s'.Leads B I db') (f none) db s) :
    Follows B I (p >>= f) := by
  refine fun db s hs => wp_bind.mpr ((hp db s _).mpr ?_)
  cases hq : s.query B db none with
  | error e => exact hs.1
  | ok view =>
      show WP B _ (f (look view)) db s
      cases hlook : look view with
      | some r => exact found r db s hs
      | none => exact missed db s view hs hq hlook

/-- The statement that a look-up asks for keeps the property if it does so in the view. -/
theorem leads_create {db view : σ} {s : Session ω} {w : ω} (h : s.Clean B I db)
    (hq : s.query B db none = .ok view) (hw : ∀ db', B.apply view w = .ok db' → I db') :
    (s.stage w).Leads B I db := by
  refine ⟨h.1.1, Or.inr fun db' happly => ?_⟩
  rw [Session.pending_stage] at happly
  obtain ⟨mid, hmid, hlast⟩ := Backend.applyAll_append_eq_ok.mp happly
  rw [(h.view hq).2.2] at hmid
  cases hmid
  exact hw db' (by simpa using hlast)

/-- A part that commits nothing and sends such statements only may stand anywhere. -/
theorem Stages.preserves {p : Tx σ ω ε μ α} (h : Stages (B.Neutral I) p) :
    Preserves B (fun db s => s.Leads B I db) p := by
  refine fun db s hs => h.wp.mono fun r db' s' hgrows => ?_
  obtain ⟨rfl, hgrows⟩ := hgrows
  refine ⟨hs.1, hs.2.grows hgrows fun ws w hw hws after happly => ?_⟩
  obtain ⟨mid, hmid, hlast⟩ := Backend.applyAll_append_eq_ok.mp happly
  exact hw mid after (hws mid hmid) (by simpa using hlast)

theorem Preserves.follows {p : Tx σ ω ε μ α} (h : Preserves B (fun db s => s.Leads B I db) p) :
    Follows B I p := fun db s hs => h db s hs.1

theorem Follows.bind {p : Tx σ ω ε μ α} {f : α → Tx σ ω ε μ β} (hp : Follows B I p)
    (hf : ∀ a, Preserves B (fun db s => s.Leads B I db) (f a)) : Follows B I (p >>= f) := by
  refine fun db s hs => wp_bind.mpr ((hp db s hs).mono fun r db' s' h' => ?_)
  cases r with
  | error e => exact h'
  | ok a => exact hf a db' s' h'

theorem preserves_stage {w : ω} (hw : B.Neutral I w) :
    Preserves B (fun db s => s.Leads B I db) (stage w : Tx σ ω ε μ Unit) :=
  fun _ _ h => h.stage hw

theorem preserves_commit :
    Preserves B (fun db s => s.Leads B I db) (commit : Tx σ ω ε μ Unit) := by
  intro db s h
  rw [wp_commit]
  unfold Session.commit
  split
  · rename_i after hsend
    obtain ⟨hf, -, happly⟩ := Session.send_eq_ok_iff.mp hsend
    have hafter : I after := (h.2.resolve_left (by simp [hf])) after happly
    exact (Session.clean_start hafter).1
  · exact Session.Leads.failed h.1

end Tx
end Transaction
