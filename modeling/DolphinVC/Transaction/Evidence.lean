import DolphinVC.Transaction.Rely

/-!
# What a session knows about other rows

A row that refers to others is in order when what it refers to is there. A session learns
that from its reads, and no later write takes it away again; or it writes the other row
itself, earlier in the same write set. `Evidence` names the facts, the writes that bring
them about and the facts a write has to be backed by. The rules of `Shows` carry a list of
known facts through a program, whatever other sessions commit meanwhile.
-/

namespace Transaction

variable {σ ω ε μ φ α β : Type}

structure Evidence (σ ω φ : Type) where
  Holds : φ → σ → Prop
  Provides : ω → φ → Prop
  /-- The facts that satisfy the references of the write. -/
  Fits : (φ → Prop) → ω → Prop
  /-- No store accepts the write. -/
  Doomed : ω → Prop

namespace Evidence

variable (V : Evidence σ ω φ) (B : Backend σ ω ε)

/-- Facts come about by the writes that provide them and stay. -/
structure Lawful : Prop where
  keeps : ∀ db w db' f, B.apply db w = .ok db' → V.Holds f db → V.Holds f db'
  provides : ∀ db w db' f, B.apply db w = .ok db' → V.Provides w f → V.Holds f db'
  origin : ∀ db w db' f, B.apply db w = .ok db' → V.Holds f db' → V.Holds f db ∨ V.Provides w f
  doomed : ∀ db w db', V.Doomed w → B.apply db w ≠ .ok db'
  fits : ∀ (K K' : φ → Prop) w, (∀ f, K f → K' f) → V.Fits K w → V.Fits K' w

/-- Each write is backed by known facts and by the writes before it. -/
def Backed : (φ → Prop) → List ω → Prop
  | _, [] => True
  | K, w :: ws => V.Fits K w ∧ Backed (fun f => K f ∨ V.Provides w f) ws

def Refused (ws : List ω) : Prop := ∃ w ∈ ws, V.Doomed w

/-- A write set that is backed by the store, unless every store refuses it. -/
def Sound (db : σ) (ws : List ω) : Prop :=
  V.Refused ws ∨ V.Backed (fun f => V.Holds f db) ws

/-- A fact that will hold once the pending writes are committed. -/
def After (db : σ) (ws : List ω) (f : φ) : Prop := V.Holds f db ∨ ∃ w ∈ ws, V.Provides w f

/-- The pending writes are sound and the facts are known. -/
def Knows (fs : List φ) (db : σ) (s : Session ω) : Prop :=
  s.Holds fun ws => V.Refused ws ∨
    V.Backed (fun f => V.Holds f db) ws ∧ ∀ f ∈ fs, V.After db ws f

variable {V B} {K K' : φ → Prop} {db db' view : σ} {w : ω} {ws vs : List ω} {f : φ}
variable {fs gs : List φ} {s : Session ω}

theorem Backed.mono (lawful : V.Lawful B) (h : V.Backed K ws) (weaken : ∀ f, K f → K' f) :
    V.Backed K' ws := by
  induction ws generalizing K K' with
  | nil => trivial
  | cons w ws ih =>
      exact ⟨lawful.fits K K' w weaken h.1, ih h.2 fun f hf => hf.imp_left (weaken f)⟩

theorem backed_snoc (lawful : V.Lawful B) :
    V.Backed K (ws ++ [w]) ↔
      V.Backed K ws ∧ V.Fits (fun f => K f ∨ ∃ v ∈ ws, V.Provides v f) w := by
  induction ws generalizing K with
  | nil =>
      simp only [List.nil_append, Backed, and_true, true_and]
      exact ⟨lawful.fits _ _ w fun f hf => Or.inl hf, lawful.fits _ _ w fun f hf =>
        hf.resolve_right fun ⟨v, hv, _⟩ => absurd hv List.not_mem_nil⟩
  | cons v ws ih =>
      simp only [List.cons_append, Backed, ih, and_assoc]
      refine and_congr_right fun _ => and_congr_right fun _ => ?_
      simp only [List.mem_cons, exists_eq_or_imp, or_assoc]

theorem not_refused (lawful : V.Lawful B) (happly : B.applyAll db ws = .ok db') :
    ¬ V.Refused ws := by
  rintro ⟨w, hw, hdoomed⟩
  obtain ⟨pre, post, rfl⟩ := List.append_of_mem hw
  obtain ⟨mid, -, hrest⟩ := Backend.applyAll_append_eq_ok.mp happly
  obtain ⟨mid', hmid, -⟩ := Backend.applyAll_cons_eq_ok.mp hrest
  exact lawful.doomed mid w mid' hdoomed hmid

/-- The rule for invariants: what every backed write keeps, a sound write set keeps. -/
theorem Sound.keeps {I : σ → Prop} (lawful : V.Lawful B)
    (keep : ∀ db w db', I db → V.Fits (fun f => V.Holds f db) w → B.apply db w = .ok db' → I db')
    (h : V.Sound db ws) (hI : I db) (happly : B.applyAll db ws = .ok db') : I db' := by
  have hbacked := h.resolve_left (not_refused lawful happly)
  clear h
  induction ws generalizing db with
  | nil =>
      cases happly
      exact hI
  | cons w ws ih =>
      obtain ⟨mid, hw, hws⟩ := Backend.applyAll_cons_eq_ok.mp happly
      refine ih (keep db w mid hI hbacked.1 hw) hws (hbacked.2.mono lawful ?_)
      rintro f (hf | hf)
      · exact lawful.keeps db w mid f hw hf
      · exact lawful.provides db w mid f hw hf

theorem holds_applyAll (lawful : V.Lawful B) (happly : B.applyAll db ws = .ok db') :
    V.Holds f db' ↔ V.After db ws f := by
  induction ws generalizing db with
  | nil =>
      cases happly
      simp [After]
  | cons w ws ih =>
      obtain ⟨mid, hw, hws⟩ := Backend.applyAll_cons_eq_ok.mp happly
      rw [ih hws]
      simp only [After, List.mem_cons, exists_eq_or_imp, ← or_assoc]
      refine or_congr_left ⟨lawful.origin db w mid f hw, ?_⟩
      rintro (hf | hf)
      · exact lawful.keeps db w mid f hw hf
      · exact lawful.provides db w mid f hw hf

theorem After.append (h : V.After db ws f) (vs : List ω) : V.After db (ws ++ vs) f :=
  h.imp_right fun ⟨w, hw, hf⟩ => ⟨w, List.mem_append_left vs hw, hf⟩

/-- Nothing is pending, and what is known is stored. -/
theorem Knows.start {committed : List (List ω)} (stored : ∀ f ∈ fs, V.Holds f db) :
    V.Knows fs db { committed } := Or.inr (Or.inr ⟨trivial, fun f hf => Or.inl (stored f hf)⟩)

/-- Forget some of the facts. -/
theorem Knows.weaken (h : V.Knows fs db s) (weaken : ∀ g ∈ gs, g ∈ fs) : V.Knows gs db s :=
  h.mono fun _ h => h.imp_right fun ⟨hbacked, hfs⟩ => ⟨hbacked, fun g hg => hfs g (weaken g hg)⟩

theorem stable_knows (lawful : V.Lawful B) (fs : List φ) : Stable B (V.Knows fs) := by
  refine stable_holds fun ws db w db' h happly => h.imp_right ?_
  rintro ⟨hbacked, hfs⟩
  exact ⟨hbacked.mono lawful fun f hf => lawful.keeps db w db' f happly hf, fun f hf =>
    (hfs f hf).imp_left (lawful.keeps db w db' f happly)⟩

theorem Knows.sound (h : V.Knows fs db s) (hf : s.failed = false) : V.Sound db s.pending :=
  (h.resolve_left (by simp [hf])).imp_right And.left

theorem Knows.stage (lawful : V.Lawful B) (h : V.Knows fs db s)
    (fits : V.Fits (fun f => f ∈ fs) w) (provides : ∀ g ∈ gs, g ∈ fs ∨ V.Provides w g) :
    V.Knows gs db (s.stage w) := by
  refine Session.Holds.stage h fun ws hws => ?_
  obtain ⟨v, hv, hdoomed⟩ | ⟨hbacked, hfs⟩ := hws
  · exact Or.inl ⟨v, List.mem_append_left _ hv, hdoomed⟩
  · refine Or.inr ⟨(backed_snoc lawful).mpr ⟨hbacked, lawful.fits _ _ w hfs fits⟩, ?_⟩
    intro g hg
    obtain hmem | hprovides := provides g hg
    · exact (hfs g hmem).append [w]
    · exact Or.inr ⟨w, by simp, hprovides⟩

/-- After a write that no store accepts, nothing that happens matters. -/
theorem Knows.refuse (h : V.Knows fs db s) (hdoomed : V.Doomed w) : V.Knows gs db (s.stage w) :=
  Session.Holds.stage h fun _ _ => Or.inl ⟨w, by simp, hdoomed⟩

theorem Knows.flush {fault : Option ε} (h : V.Knows fs db s) :
    V.Knows fs db (s.flush B db fault).2 := by
  simp only [Session.flush]
  split
  · simpa [Knows, Session.Holds, Session.pending] using h
  · exact Or.inl rfl

theorem Knows.commit {fault : Option ε} (lawful : V.Lawful B) (h : V.Knows fs db s) :
    V.Knows fs (s.commit B db fault).2.2 (s.commit B db fault).2.1 := by
  simp only [Session.commit]
  split
  · rename_i db' hs
    obtain ⟨hf, -, happly⟩ := Session.send_eq_ok_iff.mp hs
    have hlive := h.resolve_left (by simp [hf])
    obtain ⟨-, hfs⟩ := hlive.resolve_left (not_refused lawful happly)
    exact .start fun f hf => (holds_applyAll lawful happly).mpr (hfs f hf)
  · exact Or.inl rfl

/-- The same facts, when no write has to be backed. -/
def lax (V : Evidence σ ω φ) : Evidence σ ω φ := { V with Fits := fun _ _ => True }

theorem Lawful.lax (lawful : V.Lawful B) : V.lax.Lawful B where
  keeps := lawful.keeps
  provides := lawful.provides
  origin := lawful.origin
  doomed := lawful.doomed
  fits _ _ _ _ h := h

theorem backed_lax : V.lax.Backed K ws := by
  induction ws generalizing K with
  | nil => trivial
  | cons w ws ih => exact ⟨trivial, ih⟩

theorem Knows.lax (h : V.Knows fs db s) : V.lax.Knows fs db s :=
  h.mono fun _ hws => hws.imp_right fun ⟨_, hfs⟩ => ⟨backed_lax, hfs⟩

theorem Knows.join (h : V.Knows gs db s) (hlax : V.lax.Knows fs db s) :
    V.Knows (gs ++ fs) db s := by
  obtain hf | hrefused | ⟨hbacked, hgs⟩ := h
  · exact Or.inl hf
  · exact Or.inr (Or.inl hrefused)
  · obtain hf | hrefused | ⟨-, hfs⟩ := hlax
    · exact Or.inl hf
    · exact Or.inr (Or.inl hrefused)
    · exact Or.inr (Or.inr ⟨hbacked, fun f hf => (List.mem_append.mp hf).elim (hgs f) (hfs f)⟩)

end Evidence

/-- Facts are not forgotten, however the program goes on. -/
theorem Program.Relies.remember {V : Evidence σ ω φ} {B : Backend σ ω ε} {fs : List φ}
    (lawful : V.Lawful B) {C : σ → List ω → Prop} {Q : α → σ → Session ω → Prop}
    {p : Program σ ω ε μ α} {db : σ} {s : Session ω} (h : p.Relies B C Q db s)
    (hk : V.lax.Knows fs db s) :
    p.Relies B C (fun a db s => Q a db s ∧ V.lax.Knows fs db s) db s := by
  have moved {db db' : σ} {s : Session ω} (hr : B.Reaches db db') (hk : V.lax.Knows fs db s) :
      V.lax.Knows fs db' s := Evidence.stable_knows lawful.lax fs db db' s hr hk
  induction p generalizing db s with
  | done a => exact ⟨h, hk⟩
  | query k ih => exact fun db' hr fault => ih _ (h db' hr fault) (moved hr hk)
  | stage w k ih => exact ih h (hk.stage lawful.lax trivial fun _ hg => Or.inl hg)
  | flush k ih => exact fun db' hr fault => ih _ (h db' hr fault) (moved hr hk).flush
  | commit k ih =>
      exact fun db' hr => ⟨(h db' hr).1, fun fault =>
        ih _ ((h db' hr).2 fault) ((moved hr hk).commit lawful.lax)⟩
  | call m k ih => exact fun r => ih _ (h r) hk

namespace Tx

variable {V : Evidence σ ω φ} {B : Backend σ ω ε} {fs fs' : List φ}

/-- Started with some known facts, the program commits sound write sets and ends with the
facts that its value makes known. -/
def Shows (V : Evidence σ ω φ) (B : Backend σ ω ε) (fs : List φ) (p : Tx σ ω ε μ α)
    (G : α → List φ) : Prop :=
  Contract B V.Sound (V.Knows []) (V.Knows fs) p fun a => V.Knows (G a)

variable {G G' : α → List φ} {p : Tx σ ω ε μ α}

theorem knows_nil {fs : List φ} {db : σ} {s : Session ω} (h : V.Knows fs db s) :
    V.Knows [] db s := h.weaken fun _ hf => absurd hf List.not_mem_nil

theorem Shows.consequence (h : Shows V B fs p G) (pre : ∀ f ∈ fs, f ∈ fs')
    (post : ∀ a, ∀ f ∈ G' a, f ∈ G a) : Shows V B fs' p G' :=
  Contract.consequence h (fun _ _ hk => hk.weaken pre) (fun _ _ hk => hk)
    fun a _ _ hk => hk.weaken (post a)

/-- Forget everything. -/
theorem Shows.drop (h : Shows V B fs p G) : Shows V B fs p fun _ => [] :=
  h.consequence (fun _ hf => hf) fun _ _ hf => absurd hf List.not_mem_nil

theorem Shows.pure {a : α} (h : ∀ f ∈ G a, f ∈ fs) :
    Shows V B fs (pure a : Tx σ ω ε μ α) G := Contract.pure fun _ _ hk => hk.weaken h

theorem Shows.throw {e : ε} : Shows V B fs (throw e : Tx σ ω ε μ α) G :=
  Contract.throw fun _ _ hk => knows_nil hk

theorem Shows.bind {f : α → Tx σ ω ε μ β} {G' : β → List φ} (hp : Shows V B fs p G)
    (hf : ∀ a, Shows V B (G a) (f a) G') : Shows V B fs (p >>= f) G' := Contract.bind hp hf

/-- Go on after a part with what is known about its value. -/
theorem Shows.andThen {f : α → Tx σ ω ε μ β} {G' : β → List φ} {Φ : ω → Prop} {P : α → Prop}
    (hp : Shows V B fs p G) (he : EmitsTo Φ P p) (hf : ∀ a, P a → Shows V B (G a) (f a) G') :
    Shows V B fs (p >>= f) G' := by
  intro db s hk
  refine Program.relies_bind.mpr (((hp db s hk).returns he).mono ?_)
  rintro (e | a) db s ⟨hk, hP⟩
  · exact hk
  · exact hf a (hP a rfl) db s hk

theorem Shows.ite {c : Prop} [Decidable c] {q : Tx σ ω ε μ α} (hp : c → Shows V B fs p G)
    (hq : ¬c → Shows V B fs q G) : Shows V B fs (if c then p else q) G := Contract.ite hp hq

theorem Shows.attempt (hp : Shows V B fs p G) :
    Shows V B fs (attempt p) fun r => match r with
      | .ok a => G a
      | .error _ => [] := by
  refine (Contract.attempt hp).consequence (fun _ _ hk => hk) (fun _ _ hk => hk) ?_
  rintro (e | a) db s hk
  · exact hk
  · exact hk

theorem Shows.tryCatch {handler : ε → Tx σ ω ε μ α} (hp : Shows V B fs p G)
    (hh : ∀ e, Shows V B [] (handler e) G) : Shows V B fs (tryCatch p handler) G :=
  Contract.tryCatch hp hh

theorem Shows.call (m : μ) : Shows V B fs (Tx.call m : Tx σ ω ε μ Unit) fun _ => fs :=
  Contract.call fun _ _ hk => knows_nil hk

section Lawful

variable (lawful : V.Lawful B)
include lawful

/-- A read makes known what holds of every store that gives this answer. -/
theorem Shows.query {q : σ → α} (h : ∀ view, ∀ f ∈ G (q view), f ∈ fs ∨ V.Holds f view) :
    Shows V B fs (Tx.query q : Tx σ ω ε μ α) G := by
  refine Contract.query (Evidence.stable_knows lawful fs) (fun _ _ hk => knows_nil hk) ?_
  intro db s view hk _ hview
  refine hk.imp_right fun hws => hws.imp_right fun ⟨hbacked, hfs⟩ => ⟨hbacked, fun f hf => ?_⟩
  obtain hmem | hholds := h view f hf
  · exact hfs f hmem
  · exact ((Evidence.holds_applyAll lawful hview).mp hholds).append s.dirty

/-- A look-up makes known what holds of the row that it finds. -/
theorem Shows.find {ρ : Type} {q : σ → Option ρ} (facts : ρ → List φ)
    (h : ∀ view r, q view = some r → ∀ f ∈ facts r, V.Holds f view) :
    Shows V B fs (Tx.query q : Tx σ ω ε μ (Option ρ)) fun r => r.elim [] facts ++ fs := by
  refine Shows.query lawful fun view f hf => ?_
  obtain hf | hf := List.mem_append.mp hf
  · cases hq : q view with
    | none => simp [hq] at hf
    | some r =>
        rw [hq] at hf
        exact Or.inr (h view r hq f hf)
  · exact Or.inl hf

/-- A look-up that raises when it finds nothing. -/
theorem Shows.found {ρ : Type} {q : σ → Option ρ}
    {k : Option ρ → Tx σ ω ε μ ρ} (facts : ρ → List φ) (hnone : ∃ e, k none = MonadExcept.throw e)
    (hsome : ∀ r, k (some r) = Pure.pure r)
    (h : ∀ view r, q view = some r → ∀ f ∈ facts r, V.Holds f view) :
    Shows V B fs (Tx.query q >>= k) fun r => facts r ++ fs := by
  refine Shows.bind (Shows.find lawful facts h) fun r? => ?_
  cases r? with
  | none =>
      obtain ⟨e, he⟩ := hnone
      rw [he]
      exact Shows.throw
  | some r =>
      rw [hsome r]
      exact Shows.pure fun _ hf => hf

theorem Shows.stage {w : ω} {G : Unit → List φ} (fits : V.Fits (fun f => f ∈ fs) w)
    (provides : ∀ g ∈ G (), g ∈ fs ∨ V.Provides w g) :
    Shows V B fs (Tx.stage w : Tx σ ω ε μ Unit) G :=
  Contract.stage fun _ _ hk => hk.stage lawful fits provides

omit lawful in
theorem Shows.refuse {w : ω} {G : Unit → List φ} (hdoomed : V.Doomed w) :
    Shows V B fs (Tx.stage w : Tx σ ω ε μ Unit) G :=
  Contract.stage fun _ _ hk => hk.refuse hdoomed

/-- A program whose writes refer to what is known from the start. -/
theorem Emits.shows {p : Tx σ ω ε μ α} (h : Emits (fun w => V.Fits (fun f => f ∈ fs) w) p) :
    Shows V B fs p fun _ => fs := by
  intro db s hk
  unfold Emits at h
  generalize p.run = prog at h
  have moved {db db' : σ} {s : Session ω} (hr : B.Reaches db db') (hk : V.Knows fs db s) :
      V.Knows fs db' s := Evidence.stable_knows lawful fs db db' s hr hk
  induction prog generalizing db s with
  | done r =>
      cases r with
      | error e => exact knows_nil hk
      | ok a => exact hk
  | query k ih => exact fun db' hr fault => ih _ db' s (moved hr hk) (h _)
  | stage w k ih => exact ih db _ (hk.stage lawful h.1 fun _ hg => Or.inl hg) h.2
  | flush k ih => exact fun db' hr fault => ih _ db' _ (moved hr hk).flush (h _)
  | commit k ih =>
      exact fun db' hr => ⟨(moved hr hk).sound, fun fault => ih _ _ _
        ((moved hr hk).commit lawful) (h _)⟩
  | call m k ih => exact fun r => ih _ db s hk (h r)

/-- Where writes need no backing, every program keeps what is known. -/
theorem Shows.any (free : ∀ K w, V.Fits K w) : Shows V B fs p fun _ => fs :=
  Emits.shows lawful (Emits.any.weaken fun w _ => free _ w)

theorem Shows.flush : Shows V B fs (Tx.flush : Tx σ ω ε μ Unit) fun _ => fs :=
  Emits.shows lawful Emits.flush

theorem Shows.commit : Shows V B fs (Tx.commit : Tx σ ω ε μ Unit) fun _ => fs :=
  Emits.shows lawful Emits.commit

/-- What is known of the pending writes is stored with them. -/
theorem Shows.stored {E : σ → Session ω → Prop} (failed : ∀ db s, s.failed = true → E db s) :
    Contract B V.Sound E (V.Knows fs) (Tx.commit : Tx σ ω ε μ Unit)
      fun _ db _ => ∀ f ∈ fs, V.Holds f db := by
  refine Contract.commit (Evidence.stable_knows lawful fs) failed (fun _ _ h hf => h.sound hf) ?_
  intro db s db' h hf happly f hmem
  have hlive := h.resolve_left (by simp [hf])
  obtain ⟨-, hfs⟩ := hlive.resolve_left (Evidence.not_refused lawful happly)
  exact (Evidence.holds_applyAll lawful happly).mpr (hfs f hmem)

theorem Shows.finally' {finalizer : Tx σ ω ε μ Unit} (hp : Shows V B fs p G)
    (hf : Emits (fun _ => False) finalizer) : Shows V B fs (finally' p finalizer) G := by
  have final (fs : List φ) : Shows V B fs finalizer fun _ => fs :=
    Emits.shows lawful (hf.weaken fun _ h => h.elim)
  intro db s hk
  refine Program.relies_bind.mpr ((hp db s hk).mono ?_)
  rintro (e | a) db s hk
  · refine Program.relies_bind.mpr ((final [] db s hk).mono ?_)
    rintro (e' | u) db s hk
    · exact hk
    · exact hk
  · refine Program.relies_bind.mpr ((final (G a) db s hk).mono ?_)
    rintro (e' | u) db s hk
    · exact knows_nil hk
    · exact hk

/-- What is known before a part is known after it, also when it raises. -/
theorem Shows.remember (h : Shows V B fs p G) :
    Contract B V.Sound (V.Knows fs) (V.Knows fs) p fun a => V.Knows (G a ++ fs) := by
  intro db s hk
  refine ((h db s hk).remember lawful hk.lax).mono ?_
  rintro (e | a) db s ⟨hr, hlax⟩
  · exact hr.join hlax
  · exact hr.join hlax

theorem Shows.attempted (h : Shows V B fs p G) :
    Shows V B fs (Tx.attempt p) fun _ => fs := by
  refine (Contract.attempt (h.remember lawful)).consequence (fun _ _ hk => hk) (fun _ _ hk => hk) ?_
  rintro (e | a) db s hk
  · exact hk
  · exact hk.weaken fun _ hf => List.mem_append_right _ hf

/-- The handler knows what was known before. -/
theorem Shows.handled {handler : ε → Tx σ ω ε μ α} (hp : Shows V B fs p G)
    (hh : ∀ e, Shows V B fs (handler e) G) : Shows V B fs (MonadExcept.tryCatch p handler) G :=
  Contract.tryCatch ((hp.remember lawful).consequence (fun _ _ hk => hk) (fun _ _ hk => hk)
    fun _ _ _ hk => hk.weaken fun _ hf => List.mem_append_left _ hf) hh

/-- What backed writes keep, a request served alone keeps. -/
theorem Shows.atomically {I : σ → Prop} {db : σ} (h : Shows V B fs p G)
    (known : ∀ f ∈ fs, V.Holds f db)
    (keep : ∀ db w db', I db → V.Fits (fun f => V.Holds f db) w → B.apply db w = .ok db' → I db')
    (hI : I db) : I (p.atomically B db).2 :=
  Program.Relies.exec (h db {} (.start known))
    (fun _ _ _ sound hI happly => sound.keeps lawful keep hI happly) hI

end Lawful

end Tx
end Transaction
