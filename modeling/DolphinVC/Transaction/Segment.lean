import DolphinVC.Transaction.World

/-!
# Programs that interleave at their commits

A coarser schedule than that of `Transaction.World`: a thread runs from one commit to
the next without interference, so what it has read since its last commit still holds
when it commits. `Thread.toCommit` is such a step and `Thread.due` the write set it
tries to commit.

`Program.Blocks B C Q p db s` says that every commit which `p` reaches that way, from
store `db` and session `s`, happens on a live session only with a write set related by
`C` to the store at that moment; `Q` is the postcondition. After a commit the store is
arbitrary. What is known about the write sets alone carries over by `Commits.blocks`.
-/

namespace Transaction

variable {σ ω ε μ α β : Type}

namespace Session

variable {Φ : ω → Prop} {s s' s'' : Session ω}

/-- The session is dead, or it is the earlier one with more such writes pending. -/
def Grows (Φ : ω → Prop) (s s' : Session ω) : Prop :=
  s'.failed = true ∨ s.failed = false ∧ ∃ ws, s'.pending = s.pending ++ ws ∧ ∀ w ∈ ws, Φ w

theorem Grows.refl (s : Session ω) : Grows Φ s s := by
  cases hf : s.failed with
  | true => exact Or.inl hf
  | false => exact Or.inr ⟨hf, [], by simp, by simp⟩

theorem Grows.trans (h : Grows Φ s s') (h' : Grows Φ s' s'') : Grows Φ s s'' := by
  obtain h' | ⟨hf', vs, hvs, hv⟩ := h'
  · exact Or.inl h'
  · obtain h | ⟨hf, ws, hws, hw⟩ := h
    · rw [h] at hf'
      cases hf'
    · refine Or.inr ⟨hf, ws ++ vs, by rw [hvs, hws, List.append_assoc], ?_⟩
      simpa [or_imp, forall_and] using ⟨hw, hv⟩

theorem Grows.stage {w : ω} (hw : Φ w) : Grows Φ s (s.stage w) := by
  cases hf : s.failed with
  | true => exact Or.inl hf
  | false => exact Or.inr ⟨hf, [w], s.pending_stage w, by simpa using hw⟩

theorem Grows.flush {B : Backend σ ω ε} {db : σ} {fault : Option ε} :
    Grows Φ s (s.flush B db fault).2 := by
  simp only [Session.flush]
  split
  · rename_i hs
    exact Or.inr ⟨(send_eq_ok_iff.mp hs).1, [], by simp [pending], by simp⟩
  · exact Or.inl rfl

/-- The session is dead or its pending writes are as `R` says. -/
def Holds (R : List ω → Prop) (s : Session ω) : Prop := s.failed = true ∨ R s.pending

theorem Holds.mono {R R' : List ω → Prop} (h : s.Holds R) (weaken : ∀ ws, R ws → R' ws) :
    s.Holds R' := h.imp_right (weaken _)

theorem Holds.stage {R R' : List ω → Prop} {w : ω} (h : s.Holds R)
    (step : ∀ ws, R ws → R' (ws ++ [w])) : (s.stage w).Holds R' := by
  refine h.imp_right fun h => ?_
  rw [pending_stage]
  exact step _ h

theorem Holds.grows {R : List ω → Prop} (h : s.Holds R) (hg : Grows Φ s s')
    (keep : ∀ ws w, Φ w → R ws → R (ws ++ [w])) : s'.Holds R := by
  obtain hf | ⟨hf, ws, hpending, hws⟩ := hg
  · exact Or.inl hf
  · have run : ∀ vs, R vs → R (vs ++ ws) := by
      clear hpending
      induction ws with
      | nil => exact fun vs hvs => by simpa using hvs
      | cons w ws ih =>
          intro vs hvs
          rw [← List.singleton_append, ← List.append_assoc]
          exact ih (fun v hv => hws v (List.mem_cons_of_mem w hv)) _
            (keep vs w (hws w List.mem_cons_self) hvs)
    refine Or.inr ?_
    rw [hpending]
    exact run _ (h.resolve_left (by simp [hf]))

end Session

namespace Program

/-- Run up to the next commit, without executing it. -/
def pause (B : Backend σ ω ε) (db : σ) :
    Program σ ω ε μ α → List (Option ε) → Session ω → Thread σ ω ε μ α × List (Option ε)
  | .done a, fs, s => (⟨.done a, s⟩, fs)
  | .query k, fs, s => pause B db (k (s.query B db fs.head?.join)) fs.tail s
  | .stage w k, fs, s => pause B db k fs (s.stage w)
  | .flush k, fs, s =>
      pause B db (k (s.flush B db fs.head?.join).1) fs.tail (s.flush B db fs.head?.join).2
  | .commit k, fs, s => (⟨.commit k, s⟩, fs)
  | .call _ k, fs, s => pause B db (k (Session.call fs.head?.join)) fs.tail s

def Blocks (B : Backend σ ω ε) (C : σ → List ω → Prop) (Q : α → σ → Session ω → Prop) :
    Program σ ω ε μ α → σ → Session ω → Prop
  | .done a, db, s => Q a db s
  | .query k, db, s => ∀ fault, Blocks B C Q (k (s.query B db fault)) db s
  | .stage w k, db, s => Blocks B C Q k db (s.stage w)
  | .flush k, db, s => ∀ fault, Blocks B C Q (k (s.flush B db fault).1) db (s.flush B db fault).2
  | .commit k, db, s =>
      (s.failed = false → C db s.pending) ∧
      (∀ db', Blocks B C Q (k (.ok ())) db' { committed := s.committed ++ [s.pending] }) ∧
      ∀ e db', Blocks B C Q (k (.error e)) db' { s with failed := true }
  | .call _ k, db, s => ∀ r, Blocks B C Q (k r) db s

variable {B : Backend σ ω ε} {C C' : σ → List ω → Prop} {Q Q' : α → σ → Session ω → Prop}
variable {db : σ} {s : Session ω}

theorem Blocks.weaken {p : Program σ ω ε μ α} (h : p.Blocks B C Q db s)
    (hC : ∀ db ws, C db ws → C' db ws) (hQ : ∀ a db s, Q a db s → Q' a db s) :
    p.Blocks B C' Q' db s := by
  induction p generalizing db s with
  | done a => exact hQ a db s h
  | query k ih => exact fun fault => ih _ (h fault)
  | stage w k ih => exact ih h
  | flush k ih => exact fun fault => ih _ (h fault)
  | commit k ih =>
      exact ⟨fun hf => hC db _ (h.1 hf), fun db' => ih _ (h.2.1 db'),
        fun e db' => ih _ (h.2.2 e db')⟩
  | call m k ih => exact fun r => ih _ (h r)

theorem Blocks.mono {p : Program σ ω ε μ α} (h : p.Blocks B C Q db s)
    (weaken : ∀ a db s, Q a db s → Q' a db s) : p.Blocks B C Q' db s :=
  h.weaken (fun _ _ hC => hC) weaken

theorem blocks_bind {p : Program σ ω ε μ α} {f : α → Program σ ω ε μ β}
    {P : β → σ → Session ω → Prop} :
    (p.bind f).Blocks B C P db s ↔ p.Blocks B C (fun a db s => (f a).Blocks B C P db s) db s := by
  induction p generalizing db s with
  | done a => rfl
  | query k ih => exact forall_congr' fun fault => ih _
  | stage w k ih => exact ih
  | flush k ih => exact forall_congr' fun fault => ih _
  | commit k ih =>
      exact and_congr Iff.rfl (and_congr (forall_congr' fun db' => ih _)
        (forall_congr' fun e => forall_congr' fun db' => ih _))
  | call m k ih => exact forall_congr' fun r => ih _

/-- What holds of the write sets of a program whatever it reads holds of its blocks. -/
theorem Commits.blocks {R : Journal ω → Prop} {P : α → Journal ω → Prop}
    {p : Program σ ω ε μ α} (h : p.Commits R P s.journal)
    (hC : ∀ db (j : Journal ω), R j → C db j.pending)
    (hQ : ∀ a db (s : Session ω), P a s.journal → Q a db s) : p.Blocks B C Q db s := by
  induction p generalizing db s with
  | done a => exact hQ a db s h
  | query k ih => exact fun fault => ih _ (h _)
  | stage w k ih => exact ih (by rw [Session.journal_stage]; exact h)
  | flush k ih =>
      intro fault
      simp only [Session.flush]
      split
      · exact ih _ (by simpa [Session.journal, Session.pending] using h (.ok ()))
      · exact ih _ (h _)
  | commit k ih =>
      exact ⟨fun _ => hC db _ h.1, fun db' => ih _ h.2.1, fun e db' => ih _ (h.2.2 e)⟩
  | call m k ih => exact fun r => ih _ (h r)

/-- A program that commits nothing stays in the block and adds to the pending writes. -/
theorem Stages.blocks {Φ : ω → Prop} {p : Program σ ω ε μ α} (h : p.Stages Φ) :
    p.Blocks B C (fun _ db' s' => db' = db ∧ s.Grows Φ s') db s := by
  have run : ∀ s', s.Grows Φ s' →
      p.Blocks B C (fun _ db' s'' => db' = db ∧ s.Grows Φ s'') db s' := by
    induction p with
    | done a => exact fun s' hs => ⟨rfl, hs⟩
    | query k ih => exact fun s' hs fault => ih _ (h _) s' hs
    | stage w k ih => exact fun s' hs => ih h.2 _ (hs.trans (.stage h.1))
    | flush k ih => exact fun s' hs fault => ih _ (h _) _ (hs.trans .flush)
    | commit k ih => exact h.elim
    | call m k ih => exact fun s' hs r => ih _ (h r) s' hs
  exact run s (.refl s)

/-- Pausing stays inside the block and stops at a commit or at the end. -/
theorem Blocks.pause {p : Program σ ω ε μ α} (h : p.Blocks B C Q db s)
    (fs : List (Option ε)) :
    (p.pause B db fs s).1.prog.Blocks B C Q db (p.pause B db fs s).1.session ∧
      ((∃ a, (p.pause B db fs s).1.prog = .done a) ∨
        ∃ k, (p.pause B db fs s).1.prog = .commit k) := by
  induction p generalizing fs s with
  | done a => exact ⟨h, Or.inl ⟨a, rfl⟩⟩
  | query k ih => exact ih _ (h _) _
  | stage w k ih => exact ih h _
  | flush k ih => exact ih _ (h _) _
  | commit k ih => exact ⟨h, Or.inr ⟨k, rfl⟩⟩
  | call m k ih => exact ih _ (h _) _

/-- What the commits of a program keep, the program keeps when it runs alone, whatever fails. -/
theorem Blocks.exec {I : σ → Prop} {p : Program σ ω ε μ α} (h : p.Blocks B C Q db s)
    (keep : ∀ db ws db', C db ws → I db → B.applyAll db ws = .ok db' → I db') (hI : I db)
    (fs : List (Option ε)) : I (p.exec B fs db s).db := by
  induction p generalizing fs db s with
  | done a => exact hI
  | query k ih => exact ih _ (h _) hI _
  | stage w k ih => exact ih h hI _
  | flush k ih => exact ih _ (h _) hI _
  | commit k ih =>
      simp only [Program.exec, Session.commit]
      split
      · rename_i db' hs
        obtain ⟨hf, -, ha⟩ := Session.send_eq_ok_iff.mp hs
        exact ih _ (h.2.1 db') (keep db _ db' (h.1 hf) hI ha) _
      · exact ih _ (h.2.2 _ db) hI _
  | call m k ih => exact ih _ (h _) hI _

end Program

/-- What a session invariant has to satisfy so that single statements keep it and
commits are as `C` asks. `N` singles out the writes that may be staged anywhere. -/
structure SessionInvariant (B : Backend σ ω ε) (C : σ → List ω → Prop) (N : ω → Prop)
    (J : σ → Session ω → Prop) : Prop where
  clean : ∀ db committed, J db { committed }
  failed : ∀ db s, s.failed = true → J db s
  stage : ∀ db s w, N w → J db s → J db (s.stage w)
  flush : ∀ db s, J db s → J db { s with flushed := s.pending, dirty := [] }
  commit : ∀ db s, J db s → s.failed = false → C db s.pending

/-- The invariant that says no more than that every pending write has the property. -/
theorem SessionInvariant.ofWrites {B : Backend σ ω ε} {C : σ → List ω → Prop} {Φ : ω → Prop}
    (hC : ∀ db ws, (∀ w ∈ ws, Φ w) → C db ws) :
    SessionInvariant B C Φ fun _ s => s.failed = true ∨ ∀ w ∈ s.pending, Φ w where
  clean := fun _ _ => Or.inr (by simp [Session.pending])
  failed := fun _ _ h => Or.inl h
  stage := fun _ s w hw hj => hj.imp id fun hj => by
    simpa [or_imp, forall_and, hw] using hj
  flush := fun _ s hj => hj.imp id fun hj => by simpa [Session.pending] using hj
  commit := fun db s hj hf => hC db _ (hj.resolve_left (by simp [hf]))

/-- An invariant that is about the pending writes only. -/
theorem SessionInvariant.ofPending {B : Backend σ ω ε} {C R : σ → List ω → Prop} {N : ω → Prop}
    (nil : ∀ db, R db []) (stage : ∀ db ws w, N w → R db ws → R db (ws ++ [w]))
    (hC : ∀ db ws, R db ws → C db ws) :
    SessionInvariant B C N fun db s => s.Holds (R db) where
  clean := fun db _ => Or.inr (nil db)
  failed := fun _ _ h => Or.inl h
  stage := fun db _ w hw hj => hj.stage fun ws => stage db ws w hw
  flush := fun _ s hj => hj.imp id fun hj => by simpa [Session.pending] using hj
  commit := fun db _ hj hf => hC db _ (hj.resolve_left (by simp [hf]))

namespace Tx

variable {B : Backend σ ω ε} {C : σ → List ω → Prop} {N : ω → Prop} {J : σ → Session ω → Prop}

/-- Started under the invariant, the program keeps it and commits as `C` asks. -/
def Keeps (B : Backend σ ω ε) (C : σ → List ω → Prop) (J : σ → Session ω → Prop)
    (p : Tx σ ω ε μ α) : Prop :=
  ∀ db s, J db s → p.run.Blocks B C (fun _ db s => J db s) db s

theorem Keeps.pure (a : α) : Keeps B C J (pure a : Tx σ ω ε μ α) := fun _ _ h => h

theorem Keeps.throw (e : ε) : Keeps B C J (throw e : Tx σ ω ε μ α) := fun _ _ h => h

theorem Keeps.query (f : σ → α) : Keeps B C J (Tx.query f : Tx σ ω ε μ α) := fun _ _ h _ => h

theorem Keeps.call (m : μ) : Keeps B C J (Tx.call m : Tx σ ω ε μ Unit) := fun _ _ h _ => h

theorem Keeps.bind {p : Tx σ ω ε μ α} {f : α → Tx σ ω ε μ β} (hp : Keeps B C J p)
    (hf : ∀ a, Keeps B C J (f a)) : Keeps B C J (p >>= f) := by
  intro db s hj
  refine Program.blocks_bind.mpr ((hp db s hj).mono ?_)
  rintro (e | a) db s hj
  · exact hj
  · exact hf a db s hj

theorem Keeps.attempt {p : Tx σ ω ε μ α} (hp : Keeps B C J p) : Keeps B C J (attempt p) :=
  fun db s hj => Program.blocks_bind.mpr (hp db s hj)

theorem Keeps.finally' {p : Tx σ ω ε μ α} {finalizer : Tx σ ω ε μ Unit} (hp : Keeps B C J p)
    (hf : Keeps B C J finalizer) : Keeps B C J (finally' p finalizer) := by
  intro db s hj
  refine Program.blocks_bind.mpr ((hp db s hj).mono fun r db s hj => ?_)
  refine Program.blocks_bind.mpr ((hf db s hj).mono ?_)
  rintro (e | u) db s hj
  · exact hj
  · exact hj

theorem Keeps.tryCatch {p : Tx σ ω ε μ α} {handler : ε → Tx σ ω ε μ α} (hp : Keeps B C J p)
    (hh : ∀ e, Keeps B C J (handler e)) : Keeps B C J (tryCatch p handler) := by
  intro db s hj
  refine Program.blocks_bind.mpr ((hp db s hj).mono ?_)
  rintro (e | a) db s hj
  · exact hh e db s hj
  · exact hj

theorem Keeps.ite {c : Prop} [Decidable c] {p q : Tx σ ω ε μ α} (hp : c → Keeps B C J p)
    (hq : ¬c → Keeps B C J q) : Keeps B C J (if c then p else q) := by
  by_cases h : c
  · rw [if_pos h]
    exact hp h
  · rw [if_neg h]
    exact hq h

theorem Keeps.stage (inv : SessionInvariant B C N J) {w : ω} (hw : N w) :
    Keeps B C J (Tx.stage w : Tx σ ω ε μ Unit) := fun db s hj => inv.stage db s w hw hj

theorem Keeps.flush (inv : SessionInvariant B C N J) :
    Keeps B C J (Tx.flush : Tx σ ω ε μ Unit) := by
  intro db s hj fault
  simp only [Session.flush]
  split
  · exact inv.flush db s hj
  · exact inv.failed db _ rfl

theorem Keeps.commit (inv : SessionInvariant B C N J) :
    Keeps B C J (Tx.commit : Tx σ ω ε μ Unit) :=
  fun db s hj => ⟨inv.commit db s hj, fun db' => inv.clean db' _, fun _ db' =>
    inv.failed db' _ rfl⟩

theorem Keeps.void {p : Tx σ ω ε μ α} (hp : Keeps B C J p) : Keeps B C J (void p) :=
  hp.bind fun _ => Keeps.pure ()

/-- Started under `J`, the program commits as `C` asks and ends under `K`, or under `E`
when it raises. -/
def Triple (B : Backend σ ω ε) (C : σ → List ω → Prop) (E J : σ → Session ω → Prop)
    (p : Tx σ ω ε μ α) (K : α → σ → Session ω → Prop) : Prop :=
  ∀ db s, J db s → p.run.Blocks B C (fun r db s => match r with
    | .ok a => K a db s
    | .error _ => E db s) db s

section Triple

variable {E E' : σ → Session ω → Prop} {K : α → σ → Session ω → Prop}

theorem Triple.pure {a : α} : Triple B C E (K a) (pure a : Tx σ ω ε μ α) K := fun _ _ h => h

theorem Triple.throw {e : ε} : Triple B C E E (throw e : Tx σ ω ε μ α) K := fun _ _ h => h

theorem Triple.bind {p : Tx σ ω ε μ α} {f : α → Tx σ ω ε μ β} {K' : β → σ → Session ω → Prop}
    (hp : Triple B C E J p K) (hf : ∀ a, Triple B C E (K a) (f a) K') :
    Triple B C E J (p >>= f) K' := by
  intro db s hj
  refine Program.blocks_bind.mpr ((hp db s hj).mono ?_)
  rintro (e | a) db s h
  · exact h
  · exact hf a db s h

theorem Triple.stage {w : ω} {K : Unit → σ → Session ω → Prop}
    (h : ∀ db s, J db s → K () db (s.stage w)) :
    Triple B C E J (Tx.stage w : Tx σ ω ε μ Unit) K := fun db s hj => h db s hj

/-- A program that commits nothing keeps what its writes keep. -/
theorem Stages.triple {Φ : ω → Prop} {R : σ → List ω → Prop} {p : Tx σ ω ε μ α}
    (h : Stages Φ p) (keep : ∀ db ws w, Φ w → R db ws → R db (ws ++ [w]))
    (weaken : ∀ db ws, R db ws → ∀ s : Session ω, s.pending = ws → E db s)
    (failed : ∀ db s, s.failed = true → E db s) :
    Triple B C E (fun db s => s.Holds (R db)) p fun _ db s => s.Holds (R db) := by
  intro db s hj
  refine (Program.Stages.blocks h).mono ?_
  rintro (e | a) db' s' ⟨rfl, hg⟩
  · obtain hf | hr := hj.grows hg (keep db')
    · exact failed db' s' hf
    · exact weaken db' _ hr s' rfl
  · exact hj.grows hg (keep db')

theorem Triple.attempt {p : Tx σ ω ε μ α} (hp : Triple B C E' J p K) :
    Triple B C E J (attempt p) fun r db s => match r with
      | .ok a => K a db s
      | .error _ => E' db s :=
  fun db s hj => Program.blocks_bind.mpr ((hp db s hj).mono fun _ _ _ h => h)

theorem Keeps.triple {p : Tx σ ω ε μ α} (h : Keeps B C J p) :
    Triple B C J J p fun _ => J := by
  intro db s hj
  refine (h db s hj).mono ?_
  rintro (e | a) db s h
  · exact h
  · exact h

theorem Triple.keeps {p : Tx σ ω ε μ α} (h : Triple B C J J p fun _ => J) : Keeps B C J p := by
  intro db s hj
  refine (h db s hj).mono ?_
  rintro (e | a) db s h
  · exact h
  · exact h

end Triple

/-- A transaction of one statement, and what follows it. -/
theorem blocks_stage_commit {Q : Except ε α → σ → Session ω → Prop} {w : ω}
    {k : Tx σ ω ε μ α} {db : σ} (first : C db [w]) (raised : ∀ e db s, Q (.error e) db s)
    (rest : ∀ db', k.run.Blocks B C Q db' { committed := [[w]] }) :
    (Tx.stage w >>= fun _ => Tx.commit >>= fun _ => k).run.Blocks B C Q db {} := by
  obtain ⟨f, hrun, hok, herror⟩ : ∃ f : Except ε Unit → Program σ ω ε μ (Except ε α),
      (Tx.stage w >>= fun _ => Tx.commit >>= fun _ => k : Tx σ ω ε μ α).run =
        .stage w (.commit f) ∧ f (.ok ()) = k.run ∧ ∀ e, f (.error e) = .done (.error e) :=
    ⟨_, rfl, rfl, fun _ => rfl⟩
  rw [hrun]
  refine ⟨fun _ => first, fun db' => ?_, fun e db' => ?_⟩
  · rw [hok]
    exact rest db'
  · rw [herror]
    exact raised e db' _

/-- Go on after a read with what it saw: the session's writes on top of the store. -/
theorem blocks_query_bind {γ : Type} {f : σ → γ} {k : γ → Tx σ ω ε μ α}
    {Q : Except ε α → σ → Session ω → Prop} {db : σ} {s : Session ω}
    (herr : ∀ e, Q (.error e) db s)
    (hok : ∀ view, s.failed = false → B.applyAll db s.flushed = .ok view →
      (k (f view)).run.Blocks B C Q db s) :
    (Tx.query f >>= k).run.Blocks B C Q db s := by
  intro fault
  simp only [Session.query]
  cases hf : s.failed with
  | true => exact herr _
  | false =>
      cases fault with
      | some e => exact herr e
      | none =>
          cases hv : B.applyAll db s.flushed with
          | error e => exact herr e
          | ok view => exact hok view hf hv

/-- A program that stages only such writes keeps the invariant. -/
theorem Emits.keeps (inv : SessionInvariant B C N J) {p : Tx σ ω ε μ α} (h : Emits N p) :
    Keeps B C J p := by
  intro db s hj
  unfold Emits at h
  generalize p.run = prog at h
  induction prog generalizing db s with
  | done r => exact hj
  | query k ih => exact fun fault => ih _ _ _ hj (h _)
  | stage w k ih => exact ih _ _ (inv.stage db s w h.1 hj) h.2
  | flush k ih =>
      intro fault
      refine ih _ _ _ ?_ (h _)
      simp only [Session.flush]
      split
      · exact inv.flush db s hj
      · exact inv.failed db _ rfl
  | commit k ih =>
      exact ⟨inv.commit db s hj, fun db' => ih _ _ _ (inv.clean db' _) (h _),
        fun e db' => ih _ _ _ (inv.failed db' _ rfl) (h _)⟩
  | call m k ih => exact fun r => ih _ _ _ hj (h r)

/-- What the invariant's commits keep, a request served alone keeps. -/
theorem Keeps.atomically (inv : SessionInvariant B C N J) {I : σ → Prop} {p : Tx σ ω ε μ α}
    {db : σ} (h : Keeps B C J p)
    (keep : ∀ db ws db', C db ws → I db → B.applyAll db ws = .ok db' → I db') (hI : I db) :
    I (p.atomically B db).2 := (h db {} (inv.clean db [])).exec keep hI []

end Tx

namespace Thread

variable {ρ : Type} (B : Backend σ ω ε) (db : σ) (fs : List (Option ε)) (t : Thread σ ω ε μ ρ)

/-- The write set that the thread tries to commit next, on a live session. -/
def due : Option (List ω) := (t.prog.pause B db fs t.session).1.ready

/-- Run to the next commit and execute it. -/
def toCommit : σ × Thread σ ω ε μ ρ :=
  let paused := t.prog.pause B db fs t.session
  let r := paused.1.advance B db paused.2.head?.join
  (r.1, r.2.1)

/-- Every block that is left of the thread is as `C` says. -/
def Blocks (C : σ → List ω → Prop) : Prop :=
  ∀ db, t.prog.Blocks B C (fun _ _ _ => True) db t.session

variable {B db fs t} {C : σ → List ω → Prop}

/-- A block leaves the store alone or commits the due write set. -/
theorem toCommit_cases (B : Backend σ ω ε) (db : σ) (fs : List (Option ε))
    (t : Thread σ ω ε μ ρ) :
    (t.toCommit B db fs).1 = db ∨
    ∃ ws, t.due B db fs = some ws ∧ B.applyAll db ws = .ok (t.toCommit B db fs).1 := by
  rcases advance_cases B db (t.prog.pause B db fs t.session).2.head?.join
      (t.prog.pause B db fs t.session).1 with ⟨h, -⟩ | ⟨ws, hr, -, ha, -⟩
  · exact Or.inl h
  · exact Or.inr ⟨ws, hr, ha⟩

theorem due_of_blocks {ws : List ω} (h : t.prog.Blocks B C (fun _ _ _ => True) db t.session)
    (hw : t.due B db fs = some ws) : C db ws := by
  obtain ⟨hb, hend⟩ := h.pause fs
  unfold Thread.due Thread.ready at hw
  obtain ⟨a, hp⟩ | ⟨k, hp⟩ := hend
  · simp [hp] at hw
  · rw [hp] at hb hw
    cases hf : (t.prog.pause B db fs t.session).1.session.failed with
    | true => simp [hf] at hw
    | false =>
        simp only [hf, Bool.false_eq_true, if_false, Option.some.injEq] at hw
        rw [← hw]
        exact hb.1 hf

theorem Blocks.due {ws : List ω} (h : t.Blocks B C) (hw : t.due B db fs = some ws) : C db ws :=
  due_of_blocks (h db) hw

/-- After its block a thread meets any store, so what was known of it at one is enough. -/
theorem blocks_toCommit (h : t.prog.Blocks B C (fun _ _ _ => True) db t.session) :
    (t.toCommit B db fs).2.Blocks B C := by
  obtain ⟨hb, hend⟩ := h.pause fs
  intro db'
  simp only [Thread.toCommit]
  generalize t.prog.pause B db fs t.session = paused at hb hend
  obtain ⟨⟨prog, s⟩, fs'⟩ := paused
  obtain ⟨a, rfl⟩ | ⟨k, rfl⟩ := hend
  · trivial
  · simp only [Thread.advance, Session.commit]
    split
    · exact hb.2.1 db'
    · exact hb.2.2 _ db'

theorem Blocks.toCommit (h : t.Blocks B C) : (t.toCommit B db fs).2.Blocks B C :=
  blocks_toCommit (h db)

end Thread
end Transaction
