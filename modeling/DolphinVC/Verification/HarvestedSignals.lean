import DolphinVC.Verification.LiveOpportunity

/-!
# Harvested signals

A harvest flushes a signal before it resolves it and commits once per source, so the
write sets it commits are made of whole items: a signal, its company, an opportunity of
the fund for it and a screening job. `openSignal` is the item that a write set leaves
unfinished. The `except` branch commits whatever was flushed so far, finished or not;
every other commit of a run finds no item open.
-/

namespace DolphinVC

open Transaction Transition Relational

/-- The key of the screening job of a signal. -/
def screeningKey (signalId : Uuid) : String := "outbound-signal:" ++ toString signalId

/-- The signal belongs to an opportunity of its fund. -/
def Matched (db : Db) (s : Signal) : Prop :=
  ∃ orgId companyId, s.orgId = some orgId ∧ s.companyId = some companyId ∧
    ∃ o ∈ db.opportunities, o.orgId = orgId ∧ o.companyId = companyId

/-- The signal is matched and has its screening job. -/
def Screened (db : Db) (s : Signal) : Prop :=
  Matched db s ∧ ∃ j ∈ db.jobs, j.kind = "screen" ∧ j.orgId = s.orgId ∧
    j.idempotencyKey = some (screeningKey s.id)

/-- Every signal that was not there at first is screened. -/
def NoOrphans (base db : Db) : Prop :=
  ∀ s ∈ db.signals, (∃ s₀ ∈ base.signals, s₀.id = s.id) ∨ Screened db s

def nextOpen (current : Option Uuid) : Write → Option Uuid
  | .insertSignal row => some row.id
  | .insertJob _ => none
  | _ => current

/-- The signal that the write set inserts without a screening job after it. -/
def openSignal (ws : List Write) : Option Uuid := ws.foldl nextOpen none

/-- The write set comes from the `except` branch. -/
def Degrades (ws : List Write) : Prop :=
  ∃ id at' error, Write.sourceDegraded id at' error ∈ ws

/-- The write leaves the signals and the open item as they are. -/
def Write.Steady (w : Write) : Prop := w.target ≠ .signals ∧ ∀ row, w ≠ .insertJob row

section Rows

variable {db db' : Db} {w : Write} {ws vs : List Write} {s : Signal}

theorem Matched.apply (h : Matched db s) (happly : db.apply w = .ok db') : Matched db' s := by
  obtain ⟨orgId, companyId, horg, hcompany, o, ho, hoorg, hocompany⟩ := h
  obtain ⟨o', ho', keeps⟩ := opportunity_persists ho happly
  exact ⟨orgId, companyId, horg, hcompany, o', ho', keeps.orgId.trans hoorg,
    keeps.companyId.trans hocompany⟩

theorem Screened.apply (h : Screened db s) (happly : db.apply w = .ok db') : Screened db' s := by
  obtain ⟨hmatched, j, hj, hkind, horg, hkey⟩ := h
  obtain ⟨j', hj', keeps⟩ := job_persists hj happly
  exact ⟨hmatched.apply happly, j', hj', keeps.kind.trans hkind, keeps.orgId.trans horg,
    keeps.idempotencyKey.trans hkey⟩

theorem Screened.applyAll (h : Screened db s) (happly : backend.applyAll db ws = .ok db') :
    Screened db' s :=
  Backend.applyAll_inv (P := fun db => Screened db s) (Φ := fun _ => True)
    (fun _ _ _ _ hs ha => hs.apply ha) (fun _ _ => trivial) h happly

theorem openSignal_append : openSignal (ws ++ [w]) = nextOpen (openSignal ws) w := by
  simp [openSignal]

theorem Write.Steady.nextOpen {current : Option Uuid} (h : w.Steady) :
    nextOpen current w = current := by
  cases w with
  | insertSignal row => exact absurd rfl h.1
  | insertJob row => exact absurd rfl (h.2 row)
  | _ => rfl

theorem Write.Steady.signals (h : w.Steady) (happly : db.apply w = .ok db') :
    db'.signals = db.signals := (apply_frame happly).2.2.2.2.2 h.1

theorem steady_of_target (hsignals : w.target ≠ .signals) (hjobs : w.target ≠ .jobs) :
    w.Steady := by
  refine ⟨hsignals, ?_⟩
  rintro row rfl
  exact hjobs rfl

theorem steady_of_decide (hsignals : decide (w.target = .signals) = false)
    (hjobs : decide (w.target = .jobs) = false) : w.Steady :=
  steady_of_target (of_decide_eq_false hsignals) (of_decide_eq_false hjobs)

theorem steady_update (id : Uuid) (set : JobPatch) : (Write.updateJob id set).Steady := by
  refine ⟨of_decide_eq_false rfl, ?_⟩
  intro row h
  cases h

theorem Write.Elsewhere.steady (h : w.Elsewhere) : w.Steady := by
  have htarget : w.target = .other := h
  exact steady_of_target (by simp [htarget]) (by simp [htarget])

end Rows

section Tracked

variable {db db' : Db} {w : Write} {ws : List Write} {id : Uuid}

/-- On every store that accepts the write set, a signal is an old one, the open one or
screened. -/
def Tracked (db : Db) (ws : List Write) : Prop :=
  ∀ view, backend.applyAll db ws = .ok view → ∀ s ∈ view.signals,
    s ∈ db.signals ∨ openSignal ws = some s.id ∨ Screened view s

theorem Tracked.nil : Tracked db [] := by
  intro view hview s hs
  cases hview
  exact Or.inl hs

theorem applyAll_snoc {view : Db} :
    backend.applyAll db (ws ++ [w]) = .ok view ↔
      ∃ mid, backend.applyAll db ws = .ok mid ∧ mid.apply w = .ok view := by
  rw [Backend.applyAll_append_eq_ok]
  simp only [Backend.applyAll_singleton]
  rfl

/-- A steady write lets the signals be what they are. -/
theorem Tracked.steady (h : Tracked db ws) (hw : w.Steady) : Tracked db (ws ++ [w]) := by
  intro view hview s hs
  obtain ⟨mid, hmid, hlast⟩ := applyAll_snoc.mp hview
  rw [openSignal_append, hw.nextOpen]
  rw [hw.signals hlast] at hs
  exact (h mid hmid s hs).imp_right (.imp_right fun hscreened => hscreened.apply hlast)

theorem Tracked.insertSignal {row : Signal} (h : Tracked db ws) (closed : openSignal ws = none) :
    Tracked db (ws ++ [.insertSignal row]) := by
  intro view hview s hs
  obtain ⟨mid, hmid, hlast⟩ := applyAll_snoc.mp hview
  rw [openSignal_append]
  obtain ⟨row', hrow, hins⟩ | ⟨_, _, _, hrow, -⟩ | ⟨hrow, -⟩ := signals_apply hlast
  · cases hrow
    obtain hs | rfl := (Table.mem_insert? hins).mp hs
    · obtain hold | hopen | hscreened := h mid hmid s hs
      · exact Or.inl hold
      · rw [closed] at hopen
        cases hopen
      · exact Or.inr (Or.inr (hscreened.apply hlast))
    · exact Or.inr (Or.inl rfl)
  · cases hrow
  · exact absurd rfl hrow

theorem Tracked.assignSignal {companyId : Uuid} {personId : Option Uuid} (h : Tracked db ws)
    (hopen : openSignal ws = some id) :
    Tracked db (ws ++ [.assignSignal id companyId personId]) := by
  intro view hview s hs
  obtain ⟨mid, hmid, hlast⟩ := applyAll_snoc.mp hview
  rw [openSignal_append]
  obtain ⟨_, hrow, -⟩ | ⟨_, _, _, hrow, hupd⟩ | ⟨hrow, -⟩ := signals_apply hlast
  · cases hrow
  · cases hrow
    rw [hupd] at hs
    obtain ⟨r, hr, rfl⟩ := Table.mem_update.mp hs
    split
    · rename_i hid
      exact Or.inr (Or.inl (hopen.trans (congrArg some hid.symm)))
    · obtain hold | hropen | hscreened := h mid hmid r hr
      · exact Or.inl hold
      · exact Or.inr (Or.inl hropen)
      · exact Or.inr (Or.inr (hscreened.apply hlast))
  · exact absurd rfl hrow

/-- The screening job closes an item that is matched. -/
theorem Tracked.insertJob {row : Job} (h : Tracked db ws) (hopen : openSignal ws = some id)
    (hmatched : ∀ view, backend.applyAll db ws = .ok view →
      ∃ s ∈ view.signals, s.id = id ∧ Matched view s ∧ row.orgId = s.orgId)
    (hkind : row.kind = "screen") (hkey : row.idempotencyKey = some (screeningKey id)) :
    Tracked db (ws ++ [.insertJob row]) := by
  intro view hview s hs
  obtain ⟨mid, hmid, hlast⟩ := applyAll_snoc.mp hview
  have hsignals : view.signals = mid.signals :=
    (apply_frame hlast).2.2.2.2.2 (of_decide_eq_false rfl)
  rw [hsignals] at hs
  obtain hold | hsopen | hscreened := h mid hmid s hs
  · exact Or.inl hold
  · obtain ⟨r, hr, hrid, hrmatched, horg⟩ := hmatched mid hmid
    have hsid : s.id = id := Option.some.inj (hsopen.symm.trans hopen)
    obtain rfl := Table.eq_of_key hs hr (hsid.trans hrid.symm)
    refine Or.inr (Or.inr ⟨hrmatched.apply hlast, row, ?_, hkind, horg, hsid ▸ hkey⟩)
    obtain ⟨row', hrow, hins⟩ | ⟨_, _, hrow, -⟩ | ⟨hrow, -⟩ := jobs_apply hlast
    · cases hrow
      exact (Table.mem_insert? hins).mpr (Or.inr rfl)
    · cases hrow
    · exact absurd rfl hrow
  · exact Or.inr (Or.inr (hscreened.apply hlast))

/-- A write set that leaves no item open makes no orphan. -/
theorem NoOrphans.commit {base : Db} (h : NoOrphans base db) (htracked : Tracked db ws)
    (closed : openSignal ws = none) (happly : backend.applyAll db ws = .ok db') :
    NoOrphans base db' := by
  intro s hs
  obtain hold | hopen | hscreened := htracked db' happly s hs
  · exact (h s hold).imp_right fun hscreened => hscreened.applyAll happly
  · rw [closed] at hopen
    cases hopen
  · exact Or.inr hscreened

end Tracked

section Items

open Tx

variable {db : Db} {ws : List Write} {id : Uuid} {P P' : Db → Signal → Prop}
variable {run : RunEnv} {job : Job} {item : NormalizedSignal} {source : Source}

/-- The write set is made of whole items. -/
def Closed (db : Db) (ws : List Write) : Prop := Tracked db ws ∧ openSignal ws = none

/-- The write set leaves one item open, whose signal is as `P` says. -/
def Open (id : Uuid) (P : Db → Signal → Prop) (db : Db) (ws : List Write) : Prop :=
  Tracked db ws ∧ openSignal ws = some id ∧
    ∀ view, backend.applyAll db ws = .ok view → ∃ s ∈ view.signals, s.id = id ∧ P view s

/-- What no statement makes false. -/
def Lasting (P : Db → Signal → Prop) : Prop :=
  ∀ db db' w s, P db s → db.apply w = .ok db' → P db' s

theorem Open.steady (h : Open id P db ws) (lasting : Lasting P) {w : Write} (hw : w.Steady) :
    Open id P db (ws ++ [w]) := by
  obtain ⟨htracked, hopen, hrow⟩ := h
  refine ⟨htracked.steady hw, by rw [openSignal_append, hw.nextOpen, hopen], fun view hview => ?_⟩
  obtain ⟨mid, hmid, hlast⟩ := applyAll_snoc.mp hview
  obtain ⟨s, hs, hid, hP⟩ := hrow mid hmid
  exact ⟨s, hw.signals hlast ▸ hs, hid, lasting _ _ _ _ hP hlast⟩

theorem Closed.insertSignal {row : Signal} (h : Closed db ws) :
    Open row.id (fun _ s => s.orgId = row.orgId) db (ws ++ [.insertSignal row]) := by
  refine ⟨h.1.insertSignal h.2, openSignal_append, fun view hview => ?_⟩
  obtain ⟨mid, -, hlast⟩ := applyAll_snoc.mp hview
  obtain ⟨row', hrow, hins⟩ | ⟨_, _, _, hrow, -⟩ | ⟨hrow, -⟩ := signals_apply hlast
  · cases hrow
    exact ⟨row, (Table.mem_insert? hins).mpr (Or.inr rfl), rfl, rfl⟩
  · cases hrow
  · exact absurd rfl hrow

theorem Open.assignSignal {orgId : Option Uuid} {companyId : Uuid} {personId : Option Uuid}
    (h : Open id (fun _ s => s.orgId = orgId) db ws) :
    Open id (fun _ s => s.orgId = orgId ∧ s.companyId = some companyId) db
      (ws ++ [.assignSignal id companyId personId]) := by
  obtain ⟨htracked, hopen, hrow⟩ := h
  refine ⟨htracked.assignSignal hopen, openSignal_append.trans hopen, fun view hview => ?_⟩
  obtain ⟨mid, hmid, hlast⟩ := applyAll_snoc.mp hview
  obtain ⟨s, hs, hid, horg⟩ := hrow mid hmid
  obtain ⟨_, h, -⟩ | ⟨_, _, _, h, hupd⟩ | ⟨h, -⟩ := signals_apply hlast
  · cases h
  · cases h
    refine ⟨{ s with companyId := some companyId, personId := personId.or s.personId }, ?_, hid,
      horg, rfl⟩
    rw [hupd]
    exact Table.mem_update.mpr ⟨s, hs, if_pos hid⟩
  · exact absurd rfl h

theorem Open.insertJob {row : Job}
    (h : Open id (fun db s => Matched db s ∧ s.orgId = row.orgId) db ws)
    (hkind : row.kind = "screen") (hkey : row.idempotencyKey = some (screeningKey id)) :
    Closed db (ws ++ [.insertJob row]) := by
  obtain ⟨htracked, hopen, hrow⟩ := h
  refine ⟨htracked.insertJob hopen (fun view hview => ?_) hkind hkey, openSignal_append⟩
  obtain ⟨s, hs, hid, hmatched, horg⟩ := hrow view hview
  exact ⟨s, hs, hid, hmatched, horg.symm⟩

/-- The write sets that a harvest commits. -/
def HarvestBlock (db : Db) (ws : List Write) : Prop :=
  Tracked db ws ∧ (openSignal ws = none ∨ Degrades ws)

/-- A part of an item: it commits nothing, and where it raises the item stays open. -/
def Resolves {α : Type} (R : Db → List Write → Prop) (p : DolphinVC.Tx α)
    (R' : α → Db → List Write → Prop) : Prop :=
  Triple backend HarvestBlock (fun db s => s.Holds (Tracked db)) (fun db s => s.Holds (R db)) p
    fun a db s => s.Holds (R' a db)

theorem resolves_of_stages {α : Type} {R : Db → List Write → Prop} {Φ : Write → Prop}
    {p : DolphinVC.Tx α} (h : Stages Φ p)
    (keep : ∀ db ws w, Φ w → R db ws → R db (ws ++ [w]))
    (tracked : ∀ db ws, R db ws → Tracked db ws) :
    Resolves R p fun _ => R :=
  h.triple keep (fun db _ hr _ hs => Or.inr (hs ▸ tracked db _ hr)) fun _ _ hf => Or.inl hf

theorem resolves_of_elsewhere {α : Type} {p : DolphinVC.Tx α} (h : Stages Write.Elsewhere p)
    (lasting : Lasting P) : Resolves (Open id P) p fun _ => Open id P :=
  resolves_of_stages h (fun _ _ _ hw hopen => hopen.steady lasting hw.steady) fun _ _ h => h.1

theorem resolves_pure {α : Type} {a : α} {R : Db → List Write → Prop} :
    Resolves R (pure a) fun _ => R := fun _ _ h => h

theorem resolves_stage {R R' : Db → List Write → Prop} {w : Write}
    (h : ∀ db ws, R db ws → R' db (ws ++ [w])) :
    Resolves R (Tx.stage w) fun _ => R' :=
  Triple.stage fun db _ hj => hj.stage (h db)

theorem resolves_flush {R : Db → List Write → Prop} (tracked : ∀ db ws, R db ws → Tracked db ws) :
    Resolves R Tx.flush fun _ => R :=
  resolves_of_stages (Φ := fun _ => False) Stages.flush (fun _ _ _ h => h.elim) tracked

theorem Open.matched {orgId companyId : Uuid}
    (h : Open id (fun _ s => s.orgId = some orgId ∧ s.companyId = some companyId) db ws)
    (ho : ∀ view, backend.applyAll db ws = .ok view →
      ∃ o ∈ view.opportunities, o.orgId = orgId ∧ o.companyId = companyId) :
    Open id (fun db s => Matched db s ∧ s.orgId = some orgId) db ws := by
  obtain ⟨htracked, hopen, hrow⟩ := h
  refine ⟨htracked, hopen, fun view hview => ?_⟩
  obtain ⟨s, hs, hid, horg, hcompany⟩ := hrow view hview
  exact ⟨s, hs, hid, ⟨orgId, companyId, horg, hcompany, ho view hview⟩, horg⟩

/-- A row that the session sees is there when its pending writes are applied. -/
theorem opportunity_of_view {s : Session Write} {view after : Db} {orgId companyId : Uuid}
    (hview : backend.applyAll db s.flushed = .ok view)
    (hafter : backend.applyAll db s.pending = .ok after)
    (h : ∃ o ∈ view.opportunities, o.orgId = orgId ∧ o.companyId = companyId) :
    ∃ o ∈ after.opportunities, o.orgId = orgId ∧ o.companyId = companyId := by
  obtain ⟨mid, hmid, hrest⟩ := Backend.applyAll_append_eq_ok.mp hafter
  obtain rfl := Except.ok.inj (hview.symm.trans hmid)
  refine Backend.applyAll_inv (Φ := fun _ => True)
    (P := fun db => ∃ o ∈ db.opportunities, o.orgId = orgId ∧ o.companyId = companyId)
    (fun _ _ _ _ ⟨o, ho, horg, hcompany⟩ happly => ?_) (fun _ _ => trivial) h hrest
  obtain ⟨o', ho', keeps⟩ := opportunity_persists ho happly
  exact ⟨o', ho', keeps.orgId.trans horg, keeps.companyId.trans hcompany⟩

/-- The opportunity that the look-up found or that is inserted matches the signal. -/
theorem resolveOpportunity_resolves {env : Env} {orgId : Option Uuid} {company : Company}
    {channel? : Option SourcingChannel} {opportunityId : Uuid} {now : Timestamp} :
    Resolves (Open id fun _ s => s.orgId = orgId ∧ s.companyId = some company.id)
      (resolveOpportunity env orgId company item channel? opportunityId now)
      fun _ => Open id fun db s => Matched db s ∧ s.orgId = orgId := by
  have lasting : Lasting fun _ s => s.orgId = orgId ∧ s.companyId = some company.id :=
    fun _ _ _ _ h _ => h
  have counted : Resolves
      (Open id fun _ s => s.orgId = orgId ∧ s.companyId = some company.id)
      (advanceChannel channel?)
      fun _ => Open id fun _ s => s.orgId = orgId ∧ s.companyId = some company.id :=
    resolves_of_elsewhere (elsewhere_of_stages (candidate_of_linking advanceChannel_stages)) lasting
  have flushed : Resolves (Open id fun db s => Matched db s ∧ s.orgId = orgId) Tx.flush
      fun _ => Open id fun db s => Matched db s ∧ s.orgId = orgId :=
    resolves_flush fun _ _ h => h.1
  cases orgId with
  | none =>
      -- no store accepts the null column
      refine counted.bind fun _ => (resolves_stage fun db ws hopen => ?_).bind fun _ =>
        flushed.bind fun _ => resolves_pure
      have hnull : (Write.refused (.integrity "opportunities.org_id")).Elsewhere := rfl
      obtain ⟨htracked, hopen, -⟩ := hopen.steady lasting hnull.steady
      refine ⟨htracked, hopen, fun view hview => ?_⟩
      obtain ⟨mid, -, hlast⟩ := applyAll_snoc.mp hview
      cases hlast
  | some orgId =>
      intro db s hj
      refine blocks_query_bind (fun _ => hj.mono fun _ h => h.1) fun view _ hview => ?_
      cases hfound : liveOpportunity? orgId company.id view with
      | some o =>
          have ho := List.mem_of_find?_eq_some hfound
          have hpair := List.find?_some hfound
          simp only [decide_eq_true_eq] at hpair
          refine (flushed.bind fun _ => resolves_pure) db s (hj.imp_right fun hopen =>
            hopen.matched fun after hafter => opportunity_of_view hview hafter
              ⟨o, ho, hpair.1, hpair.2.1⟩)
      | none =>
          refine (counted.bind fun _ => (resolves_stage fun db ws hopen => ?_).bind fun _ =>
            flushed.bind fun _ => resolves_pure) db s hj
          refine Open.matched (hopen.steady lasting (steady_of_decide rfl rfl)) fun view hview => ?_
          obtain ⟨mid, -, hlast⟩ := applyAll_snoc.mp hview
          obtain ⟨row, hrow, hins⟩ | ⟨_, _, hrow, -⟩ | ⟨hrow, -⟩ := opportunities_apply hlast
          · cases hrow
            exact ⟨_, (Table.mem_insert? hins).mpr (Or.inr rfl), rfl, rfl⟩
          · cases hrow
          · exact absurd rfl hrow

theorem linkCandidates_resolves {env : Env} {orgId : Option Uuid} {person? : Option Person}
    {company : Company} {ids : CandidateIds} {now : Timestamp} :
    Resolves (Open ids.signal fun _ s => s.orgId = orgId)
      (linkCandidates env person? company item ids now)
      fun _ => Open ids.signal fun _ s => s.orgId = orgId ∧ s.companyId = some company.id := by
  have lasting : Lasting fun _ s => s.orgId = orgId ∧ s.companyId = some company.id :=
    fun _ _ _ _ h _ => h
  exact Triple.bind (resolves_stage fun _ _ h => Open.assignSignal h) fun _ =>
    resolves_of_elsewhere (elsewhere_of_stages (candidate_of_linking linkPerson_stages)) lasting

theorem resolveOutboundSignal_resolves {env : Env} {orgId : Option Uuid} {sourceId : Uuid}
    {channel? : Option SourcingChannel} {ids : CandidateIds} {now : Timestamp} :
    Resolves (Open ids.signal fun _ s => s.orgId = orgId)
      (resolveOutboundSignal env orgId item sourceId channel? ids now)
      fun _ => Open ids.signal fun db s => Matched db s ∧ s.orgId = orgId := by
  have lasting : Lasting fun _ s => s.orgId = orgId := fun _ _ _ _ h _ => h
  refine Triple.bind (resolves_of_elsewhere (Stages.call _) lasting) fun _ =>
    Triple.bind (resolves_of_elsewhere (elsewhere_of_stages ensureCompany_stages) lasting)
      fun company => Triple.bind
        (resolves_of_elsewhere (elsewhere_of_stages ensureSignalPerson_stages) lasting)
        fun person? => Triple.bind linkCandidates_resolves fun _ => Triple.bind ?_ fun _ =>
          Triple.bind resolveOpportunity_resolves fun _ => resolves_pure
  exact resolves_of_elsewhere (elsewhere_of_stages (candidate_of_linking recordMemory_stages))
    fun _ _ _ _ h _ => h

theorem Closed.steady (h : Closed db ws) {w : Write} (hw : w.Steady) : Closed db (ws ++ [w]) :=
  ⟨h.1.steady hw, by rw [openSignal_append, hw.nextOpen, h.2]⟩

theorem resolves_closed {α : Type} {p : DolphinVC.Tx α} (h : Stages Write.Elsewhere p) :
    Resolves Closed p fun _ => Closed :=
  resolves_of_stages h (fun _ _ _ hw hclosed => hclosed.steady hw.steady) fun _ _ h => h.1

/-- An item that ends without an exception is whole. -/
theorem ingestItem_resolves {channel : SourcingChannel} {seq index : Nat} :
    Resolves Closed (ingestItem run job source channel seq index item) fun _ => Closed := by
  have screens {opportunityId : Uuid} : Resolves
      (Open (candidateIds run seq index).signal fun db s => Matched db s ∧ s.orgId = job.orgId)
      (Tx.stage (.insertJob
        (screeningJob run job seq index (candidateIds run seq index).signal opportunityId)))
      fun _ => Closed :=
    resolves_stage fun _ _ h => Open.insertJob h rfl rfl
  refine Triple.bind (resolves_closed (Stages.call _)) fun _ =>
    Triple.bind (resolves_stage fun _ _ h => h.insertSignal) fun _ =>
      Triple.bind (resolves_flush fun _ _ h => h.1) fun _ =>
        Triple.bind resolveOutboundSignal_resolves fun r => Triple.bind screens fun _ => ?_
  exact Triple.bind (resolves_closed Stages.flush) fun _ =>
    Triple.bind (resolves_closed (Stages.stage (by rfl))) fun _ => resolves_pure

theorem harvestItem_resolves {channel : SourcingChannel} {seq index : Nat} :
    Resolves Closed (harvestItem run job source channel seq index item) fun _ => Closed := by
  refine Triple.bind (resolves_closed (Stages.query _)) fun duplicate => ?_
  split
  · exact resolves_pure
  · exact Triple.bind ingestItem_resolves fun _ => resolves_pure

/-- What a part of a source's `try` body leaves behind with its outcome. -/
def Handed {α : Type} (r : α × Except Exc Unit) (db : Db) (ws : List Write) : Prop :=
  match r.2 with
  | .ok () => Closed db ws
  | .error _ => Tracked db ws

/-- A part that raises nothing, because it hands its exceptions on as values. -/
def Hands {α : Type} (p : DolphinVC.Tx (α × Except Exc Unit)) : Prop :=
  Triple backend HarvestBlock (fun _ _ => False) (fun db s => s.Holds (Closed db)) p
    fun r db s => s.Holds (Handed r db)

theorem harvestItems_hands {seq : Nat} {items : List NormalizedSignal} {index : Nat}
    {channel : SourcingChannel} {children : List Uuid} :
    Hands (harvestItems run job source seq items index channel children) := by
  induction items generalizing index channel children with
  | nil => exact fun _ _ h => h
  | cons item items ih =>
      refine Triple.bind (Triple.attempt harvestItem_resolves) fun r => ?_
      cases r with
      | error e => exact fun _ _ h => h
      | ok child? =>
          cases child? with
          | none => exact ih
          | some child => exact ih

/-- Between two sources of a harvest the pending write set is made of whole items. -/
def Settled (db : Db) (s : Session Write) : Prop := s.Holds (Closed db)

theorem settled_invariant : SessionInvariant backend HarvestBlock Write.Steady Settled :=
  SessionInvariant.ofPending (fun _ => ⟨Tracked.nil, rfl⟩) (fun _ _ _ hw h => h.steady hw)
    fun _ _ h => ⟨h.1, Or.inl h.2⟩

theorem ingestSource_hands {key : String} {seq : Nat} {source? : Option Source} :
    Hands (ingestSource run job key seq source?) := by
  refine Triple.bind (Triple.attempt (resolves_closed (elsewhere_of_stages ensureSource_stages)))
    fun ensured => ?_
  cases ensured with
  | error e => exact fun _ _ h => h
  | ok channel =>
      refine Triple.bind harvestItems_hands ?_
      rintro ⟨children, ingested⟩
      cases ingested with
      | error e => exact fun _ _ h => h
      | ok u =>
          have marks : Keeps backend HarvestBlock Settled (do
              Tx.stage (.sourceOk (source?.getD (newSource run key seq)).id (run.now (.source seq)))
              Tx.commit : DolphinVC.Tx Unit) :=
            (Keeps.stage settled_invariant (Write.Elsewhere.steady (by rfl))).bind fun _ =>
              Keeps.commit settled_invariant
          refine Triple.bind (Triple.attempt marks.triple) fun committed => ?_
          cases committed with
          | ok u => exact fun _ _ h => h
          | error e => exact fun _ _ h => h.mono fun _ h => h.1

/-- The `except` branch commits the unfinished item, if there is one. -/
theorem degradeSource_settles {seq : Nat} {source : Source} {e : Exc} {db : Db}
    {s : Session Write} (h : s.Holds (Tracked db)) :
    (degradeSource run seq (some source) e).run.Blocks backend HarvestBlock
      (fun _ db s => Settled db s) db s := by
  have hdegrades : (s.stage (.sourceDegraded source.id (run.now (.source seq))
      (String.ofList (e.text.toList.take 500)))).Holds (HarvestBlock db) :=
    h.stage fun ws hws => ⟨hws.steady (Write.Elsewhere.steady rfl), Or.inr ⟨_, _, _,
      List.mem_append_right ws List.mem_cons_self⟩⟩
  exact ⟨fun hf => hdegrades.resolve_left (by simpa using hf),
    fun db' => settled_invariant.clean db' _, fun _ db' => settled_invariant.failed db' _ rfl⟩

end Items

section Pipeline

open Tx

variable {run : RunEnv} {job : Job} {item : NormalizedSignal} {source : Source}

theorem settles_of_steady {α : Type} {p : DolphinVC.Tx α} (h : Emits Write.Steady p) :
    Keeps backend HarvestBlock Settled p := h.keeps settled_invariant

theorem settles_of_elsewhere {α : Type} {p : DolphinVC.Tx α} (h : Emits Write.Elsewhere p) :
    Keeps backend HarvestBlock Settled p := settles_of_steady (h.weaken fun _ hw => hw.steady)

theorem harvestEnabled_settles {key : String} {seq : Nat} {source? : Option Source} :
    Keeps backend HarvestBlock Settled (harvestEnabled run job key seq source?) := by
  refine (Keeps.call _).attempt.bind fun answered => ?_
  cases answered with
  | error e => exact (settles_of_elsewhere degradeSource_emits).bind fun _ => Keeps.pure _
  | ok u =>
      intro db s hj
      refine Program.blocks_bind.mpr ((ingestSource_hands db s hj).mono ?_)
      rintro (e | ⟨children, ingested⟩) db s h
      · exact h.elim
      · cases ingested with
        | ok u => exact h
        | error e =>
            refine Program.blocks_bind.mpr ((degradeSource_settles h).mono ?_)
            rintro (e | u) db s hs
            · exact hs
            · exact hs

theorem harvestSource_settles {total : Nat} {key : String} {seq : Nat} {h : Harvest} :
    Keeps backend HarvestBlock Settled (harvestSource run job total key seq h) :=
  (Keeps.query _).bind fun _ => Keeps.ite
    (fun _ => (Keeps.call _).bind fun _ => Keeps.pure _)
    fun _ => (harvestEnabled_settles.finally' (Keeps.call _)).bind fun _ =>
      settles_of_elsewhere (Emits.bind (Emits.stage (by rfl)) fun _ =>
        Emits.bind Emits.commit fun _ => Emits.pure _)

theorem harvestSources_settles {total : Nat} {keys : List String} {seq : Nat} {h : Harvest} :
    Keeps backend HarvestBlock Settled (harvestSources run job total keys seq h) := by
  induction keys generalizing seq h with
  | nil => exact Keeps.pure _
  | cons key keys ih => exact harvestSource_settles.bind fun _ => ih

theorem harvestBody_settles : Keeps backend HarvestBlock Settled (do
    let children ← processHarvest run job
    dispatchChildren run children) := by
  refine Keeps.bind ?_ fun _ => settles_of_steady dispatchChildren_emits
  have finish {w : Write} (hw : w.Steady) : Emits Write.Steady (Tx.stage w : DolphinVC.Tx Unit) :=
    Emits.stage hw
  exact (Keeps.call _).bind fun _ => harvestSources_settles.bind fun _ =>
    settles_of_steady (Emits.bind (finish (steady_update _ _)) fun _ =>
      Emits.bind Emits.commit fun _ => Emits.pure _)

theorem Write.OfAnalysis.steady {w : Write} (h : w.OfAnalysis job) : w.Steady := by
  cases w with
  | insertOpportunity row => cases h
  | insertJob row => cases h
  | insertSignal row => cases h
  | assignSignal id companyId personId => cases h
  | updateOpportunity id set => exact steady_of_decide rfl rfl
  | updateApplication id status => exact steady_of_decide rfl rfl
  | updateJob id set => exact steady_update id set
  | insertClaim row => exact steady_of_target (by simp [Write.target]) (by simp [Write.target])
  | insertMemo row => exact steady_of_target (by simp [Write.target]) (by simp [Write.target])
  | insertOpportunityScore row =>
      exact steady_of_target (by simp [Write.target]) (by simp [Write.target])
  | _ => exact Write.Elsewhere.steady h

theorem startJob_settles (guard : job.status ≠ .cancelled) :
    Keeps backend HarvestBlock Settled (startJob run job) := by
  by_cases hkind : job.kind = "ingest.harvest"
  · refine (Keeps.stage settled_invariant (steady_update _ _)).bind fun _ =>
      (Keeps.commit settled_invariant).bind fun _ => Keeps.tryCatch ?_ fun e =>
        settles_of_steady (Emits.bind (Emits.stage (steady_update _ _)) fun _ => Emits.commit)
    exact Keeps.ite (fun _ => harvestBody_settles) fun hne => absurd hkind hne
  · exact settles_of_steady ((startJob_ofAnalysis guard hkind).weaken fun _ hw => hw.steady)

theorem processJob_settles (run : RunEnv) (jobId : Uuid) :
    Keeps backend HarvestBlock Settled (processJob run jobId) := by
  refine (Keeps.query _).bind fun job? => ?_
  cases job? with
  | none => exact Keeps.pure _
  | some job => exact Keeps.ite (fun _ => Keeps.pure _) fun guard => startJob_settles guard

end Pipeline

section System

open Tx

variable {env : Env} {db db' base : Db} {credentials : Option Credentials} {d : DealDraws}

/-- The write leaves the signals alone. -/
def Write.OffSignals (w : Write) : Prop := w.target ≠ .signals

theorem NoOrphans.apply {w : Write} (h : NoOrphans base db) (hw : w.OffSignals)
    (happly : db.apply w = .ok db') : NoOrphans base db' := by
  intro s hs
  rw [(apply_frame happly).2.2.2.2.2 hw] at hs
  exact (h s hs).imp_right fun hscreened => hscreened.apply happly

theorem NoOrphans.atomically {α : Type} {p : DolphinVC.Tx α} (h : NoOrphans base db)
    (hp : Emits Write.OffSignals p) : NoOrphans base (p.atomically backend db).2 :=
  Commits.atomically (I := fun db => NoOrphans base db) (hp.commits Journal.all_empty)
    (fun _ _ _ hw hdb happly => hdb.apply hw happly) h

theorem Write.Elsewhere.offSignals {w : Write} (h : w.Elsewhere) : w.OffSignals := h.steady.1

theorem Write.OfQueue.offSignals {w : Write} (h : w.OfQueue) : w.OffSignals := by
  unfold Write.OffSignals
  rw [show w.target = .jobs from h]
  decide

/-- An UPDATE of an opportunity decides it at one of the times, or does not decide it. -/
def Write.Decides (decided : Timestamp → Prop) : Write → Prop
  | .updateOpportunity _ set => ∀ t, set.decidedAt = some t → decided t
  | _ => True

/-- What a request served at this time may write. -/
def Write.OfRequest (now : Timestamp) (w : Write) : Prop := w.OffSignals ∧ w.Decides (· = now)

/-- The write takes no decision and records none. -/
def Write.Undeciding : Write → Prop
  | .updateOpportunity _ set =>
      set.decision = none ∧ set.decisionRationale = none ∧ set.decisionBy = none
  | .insertAuditLog row => row.action ≠ "opportunity.decide"
  | _ => True

/-- What a request other than a decision may write. -/
def Write.OfPlain (now : Timestamp) (w : Write) : Prop := w.OfRequest now ∧ w.Undeciding

theorem Write.Quiet.decides {w : Write} (h : w.Quiet) (decided : Timestamp → Prop) :
    w.Decides decided := by
  cases w with
  | updateOpportunity id set => exact absurd rfl h
  | _ => trivial

theorem Write.Elsewhere.ofRequest {w : Write} (h : w.Elsewhere) (now : Timestamp) :
    w.OfRequest now := by
  have quiet : w.Quiet := by
    unfold Write.Quiet
    rw [show w.target = .other from h]
    decide
  exact ⟨h.offSignals, quiet.decides _⟩

theorem Write.OfQueue.ofRequest {w : Write} (h : w.OfQueue) (now : Timestamp) : w.OfRequest now :=
  ⟨h.offSignals, h.quiet.decides _⟩

theorem Write.undeciding_of_target {w : Write} (hopportunities : w.target ≠ .opportunities)
    (haudit : w.target ≠ .audit) : w.Undeciding := by
  cases w with
  | updateOpportunity id set => exact absurd rfl hopportunities
  | insertAuditLog row => exact absurd rfl haudit
  | _ => trivial

theorem Write.Elsewhere.undeciding {w : Write} (h : w.Elsewhere) : w.Undeciding := by
  have htarget : w.target = .other := h
  exact Write.undeciding_of_target (by simp [htarget]) (by simp [htarget])

theorem Write.OfQueue.undeciding {w : Write} (h : w.OfQueue) : w.Undeciding := by
  have htarget : w.target = .jobs := h
  exact Write.undeciding_of_target (by simp [htarget]) (by simp [htarget])

theorem Write.Elsewhere.ofPlain {w : Write} (h : w.Elsewhere) (now : Timestamp) : w.OfPlain now :=
  ⟨h.ofRequest now, h.undeciding⟩

theorem Write.OfRun.undeciding {w : Write} (h : w.OfRun) : w.Undeciding := by
  cases w with
  | updateOpportunity id set => exact ⟨h.2.1, h.2.2.1, h.2.2.2.1⟩
  | insertAuditLog row => cases h
  | _ => trivial

theorem Write.OfAuth.undeciding {w : Write} (h : w.OfAuth) : w.Undeciding := by
  cases w with
  | updateOpportunity id set => exact absurd rfl h.target_ne.1
  | insertAuditLog row =>
      unfold Write.OfAuth at h
      rw [Bool.and_eq_true] at h
      have hrecords := h.2
      simp only [Write.recordsDecision, Bool.not_eq_true', decide_eq_false_iff_not] at hrecords
      exact hrecords
  | _ => trivial

theorem decides_of_same {o o' : Opportunity} {decided : Timestamp → Prop}
    (h : o'.decidedAt = o.decidedAt) :
    (Write.updateOpportunity o.id (o.changes o')).Decides decided := by
  intro t ht
  simp [Opportunity.changes, h] at ht

theorem undeciding_of_same {o o' : Opportunity} (hdecision : o'.decision = o.decision)
    (hrationale : o'.decisionRationale = o.decisionRationale)
    (hby : o'.decisionBy = o.decisionBy) :
    (Write.updateOpportunity o.id (o.changes o')).Undeciding := by
  simp [Write.Undeciding, Opportunity.changes, hdecision, hrationale, hby]

theorem decides_assign (body : DecisionRequest) (principal : Principal) (now : Timestamp)
    (o : Opportunity) :
    (Write.updateOpportunity o.id (o.changes (body.assign principal now o))).Decides (· = now) := by
  intro t ht
  have hset : (changed o.decidedAt (some now)).join = some t := ht
  unfold changed at hset
  split at hset
  · cases hset
  · exact (Option.some.inj hset).symm

theorem emits_ofRequest {w : Write} {now : Timestamp} (t : Target) (h : w.target = t)
    (off : t ≠ .signals) (decides : w.Decides (· = now)) :
    Emits (Write.OfRequest now) (Tx.stage w : DolphinVC.Tx Unit) :=
  Emits.stage ⟨h.trans_ne off, decides⟩

theorem emits_ofPlain {w : Write} {now : Timestamp} (t : Target) (h : w.target = t)
    (off : t ≠ .signals) (decides : w.Decides (· = now)) (undeciding : w.Undeciding) :
    Emits (Write.OfPlain now) (Tx.stage w : DolphinVC.Tx Unit) :=
  Emits.stage ⟨⟨h.trans_ne off, decides⟩, undeciding⟩

theorem createApplication_writes {form : ApplicationForm} {submission : Submission} :
    Emits (Write.OfPlain d.now) (createApplication env form submission d) := by
  refine Emits.bind validateApplication_reads.emits fun _ =>
    Emits.bind (Emits.query _) fun prior? => ?_
  cases prior? with
  | some prior => exact Emits.pure _
  | none =>
      refine Emits.bind (applicationCompany_stages.emits.weaken fun _ h => h.ofPlain _)
        fun company => Emits.bind
          (applicationDocument_stages.emits.weaken fun _ h => h.ofPlain _)
          fun documentId => Emits.bind ?_ fun opportunityId => ?_
      · refine Emits.bind (Emits.query _) fun opportunity? => ?_
        cases opportunity? with
        | some o => exact Emits.pure _
        | none =>
            exact Emits.bind (Emits.query _) fun _ =>
              Emits.bind (emits_ofPlain .opportunities rfl (by decide) trivial trivial) fun _ =>
              Emits.bind Emits.flush fun _ => Emits.pure _
      · exact Emits.bind (ensureApplicationFounder_stages.emits.weaken fun _ h =>
            h.elsewhere.ofPlain _) fun _ =>
          Emits.bind (emits_ofPlain .applications rfl (by decide) trivial trivial) fun _ =>
            Emits.bind Emits.flush fun _ =>
              Emits.bind (emits_ofPlain .jobs rfl (by decide) trivial trivial) fun _ =>
                Emits.bind Emits.flush fun _ => Emits.pure _

theorem createOpportunity_writes {body : OpportunityCreate} :
    Emits (Write.OfPlain d.now) (createOpportunityEndpoint env credentials d body) := by
  refine Emits.bind (reads_require _ _ _ _).emits fun principal => Emits.bind ?_ fun _ =>
    Emits.bind Emits.commit fun _ => (reads_refreshedDetail _).emits
  refine Emits.bind (manualCompany_stages.emits.weaken fun _ h => h.ofPlain _) fun company =>
    Emits.bind (Emits.query _) fun existing => Emits.ite (fun _ => Emits.throw _) fun _ => ?_
  exact Emits.bind (emits_ofPlain .opportunities rfl (by decide) trivial trivial) fun _ =>
    Emits.bind Emits.flush fun _ => Emits.pure _

theorem submitApplication_writes {form : ApplicationForm}
    {submittedIp idempotencyKey : Option String} :
    Emits (Write.OfPlain d.now)
      (submitApplicationEndpoint env credentials d form submittedIp idempotencyKey) := by
  refine Emits.bind (reads_require _ _ _ _).emits fun principal => ?_
  unfold submitApplication
  cases given idempotencyKey with
  | none => exact Emits.throw _
  | some key =>
      refine Emits.bind (Emits.call _) fun _ => Emits.bind createApplication_writes fun result =>
        Emits.bind Emits.commit fun _ => ?_
      cases result.replayed with
      | true => exact Emits.pure _
      | false => exact Emits.bind dispatchJob_emits fun _ => Emits.pure _

theorem publicApply_writes {orgSlug : String} {form : ApplicationForm}
    {submittedIp : Option String} :
    Emits (Write.OfPlain d.now) (publicApplyEndpoint env d orgSlug form submittedIp) := by
  refine Emits.bind (Emits.query _) fun org? => ?_
  cases org? with
  | none => exact Emits.throw _
  | some org =>
      exact Emits.bind (Emits.call _) fun _ => Emits.bind createApplication_writes fun result =>
        Emits.bind Emits.commit fun _ => Emits.bind dispatchJob_emits fun _ => Emits.pure _

theorem updateOpportunity_writes {opportunityId : Uuid} {body : OpportunityUpdate}
    {ifMatch : Option String} :
    Emits (Write.OfPlain d.now)
      (updateOpportunityEndpoint env credentials d opportunityId body ifMatch) := by
  refine Emits.bind (reads_require _ _ _ _).emits fun principal =>
    Emits.bind (reads_getOpportunity _ _).emits fun o => Emits.ite (fun _ => Emits.throw _) fun _ =>
      Emits.bind (emits_ofPlain .opportunities rfl (by decide) (decides_of_same rfl)
        (undeciding_of_same rfl rfl rfl)) fun _ => ?_
  split
  · exact Emits.bind (emits_ofPlain .other rfl (by decide) trivial trivial) fun _ =>
      Emits.bind Emits.commit fun _ => (reads_refreshedDetail _).emits
  · exact Emits.bind Emits.commit fun _ => (reads_refreshedDetail _).emits

theorem recordDecision_writes {principal : Principal} {o : Opportunity} {body : DecisionRequest}
    {key : String} : Emits (Write.OfRequest d.now) (recordDecision d principal o body key) := by
  refine Emits.bind (emits_ofRequest .opportunities rfl (by decide) (decides_assign _ _ _ _))
    fun _ => Emits.bind (emits_ofRequest .audit rfl (by decide) trivial) fun _ =>
      Emits.bind (Emits.bind (Emits.query _) fun application? => ?_) fun _ =>
        Emits.bind Emits.commit fun _ => (reads_refreshedDetail _).emits
  cases application? with
  | none => exact Emits.pure _
  | some application =>
      exact Emits.ite (fun _ => Emits.pure _) fun _ =>
        emits_ofRequest .applications rfl (by decide) trivial

theorem decide_writes {opportunityId : Uuid} {body : DecisionRequest}
    {idempotencyKey : Option String} :
    Emits (Write.OfRequest d.now)
      (decideEndpoint env credentials d opportunityId body idempotencyKey) := by
  refine Emits.bind (reads_require _ _ _ _).emits fun principal => ?_
  cases given idempotencyKey with
  | none => exact Emits.throw _
  | some key =>
      exact Emits.bind (reads_getOpportunity _ _).emits fun o =>
        Emits.ite (fun _ => Emits.throw _) fun _ => Emits.bind (Emits.query _) fun _ =>
          Emits.ite (fun _ => (reads_buildDetail o).emits) fun _ => Emits.bind (Emits.query _)
            fun _ => Emits.ite (fun _ => Emits.throw _) fun _ => recordDecision_writes

/-- Every request but a decision. -/
theorem serve_plain (r : DealRequest)
    (other : ∀ opportunityId body idempotencyKey, r ≠ .decide opportunityId body idempotencyKey) :
    Emits (Write.OfPlain d.now) (r.serve env credentials d) := by
  have queue {p : DolphinVC.Tx Unit} (hp : Emits Write.OfQueue p) : Emits (Write.OfPlain d.now) p :=
    hp.weaken fun _ hw => ⟨hw.ofRequest _, hw.undeciding⟩
  cases r with
  | createOpportunity body => exact createOpportunity_writes.void
  | updateOpportunity opportunityId body ifMatch => exact updateOpportunity_writes.void
  | startJob kind opportunityId idempotencyKey => exact queue startJob_queues.void
  | decide opportunityId body idempotencyKey => exact absurd rfl (other _ _ _)
  | archive opportunityId =>
      exact Emits.void (Emits.bind (reads_require _ _ _ _).emits fun _ =>
        Emits.bind (reads_getOpportunity _ _).emits fun o =>
          Emits.bind (emits_ofPlain .opportunities rfl (by decide) (decides_of_same rfl)
            (undeciding_of_same rfl rfl rfl)) fun _ =>
              Emits.bind Emits.commit fun _ => (reads_buildExpiredDetail _).emits)
  | submitApplication form submittedIp idempotencyKey => exact submitApplication_writes.void
  | publicApply orgSlug form submittedIp => exact publicApply_writes.void
  | regenerateSection memoId idempotencyKey => exact queue regenerateSection_queues.void
  | harvest channels => exact queue harvest_queues.void
  | cancelJob jobId => exact queue cancelJob_queues
  | retryJob jobId => exact queue retryJob_queues.void

theorem serve_writes (r : DealRequest) :
    Emits (Write.OfRequest d.now) (r.serve env credentials d) := by
  by_cases other :
      ∀ opportunityId body idempotencyKey, r ≠ .decide opportunityId body idempotencyKey
  · exact (serve_plain r other).weaken fun _ hw => hw.1
  · simp only [ne_eq, not_forall, not_not] at other
    obtain ⟨opportunityId, body, idempotencyKey, rfl⟩ := other
    exact decide_writes.void

/-- No exception in the middle of an item is followed by a commit of its signal: the
`except` branch of a source commits whole items only. -/
def ItemsWhole (s : DealState) : DealEvent → Prop
  | .run i faults => ∀ ws, s.due (.run i faults) = some ws → Degrades ws → openSignal ws = none
  | _ => True

theorem noOrphans_step {s : DealState} (a : DealEvent) (hb : s.Blocks HarvestBlock)
    (h : NoOrphans base s.db) (hc : ItemsWhole s a) : NoOrphans base (dealStep env s a).db := by
  cases a with
  | request credentials d r => exact h.atomically ((serve_writes r).weaken fun _ hw => hw.1)
  | auth r d => exact h.atomically ((auth_writes r).weaken fun _ hw => hw.target_ne.2.2.2)
  | reap now => exact h.atomically (reapStaleJobs_queues.weaken fun _ hw => hw.offSignals)
  | deliver run jobId => exact h
  | run i faults =>
      obtain heq | ⟨ws, hdue, ⟨htracked, hclosed⟩, happly⟩ := run_cases env hb i faults
      · rw [heq]
        exact h
      · exact h.commit htracked (hclosed.elim id (hc ws hdue)) happly

/-- As long as no source fails in the middle of an item, every signal that a harvest
commits has its company, an opportunity of its fund for it and its screening job. -/
theorem no_harvested_orphans (env : Env) (db : Db) (events : List DealEvent)
    (run : Meets (dealStep env) ItemsWhole { db } events) :
    Along (dealStep env) (fun s => NoOrphans db s.db) { db } events := by
  have delivered (run : RunEnv) (jobId : Uuid) (db : Db) :
      (processJob run jobId).run.Blocks backend HarvestBlock (fun _ _ _ => True) db {} :=
    (processJob_settles run jobId db {} (settled_invariant.clean db [])).mono
      fun _ _ _ _ => trivial
  have keep : Along (dealStep env) (fun s => s.Blocks HarvestBlock ∧ NoOrphans db s.db)
      { db } events :=
    along_of_meets
      (fun _ a hI hc => ⟨blocks_step hI.1 a delivered, noOrphans_step a hI.1 hI.2 hc⟩)
      ⟨nofun, fun s hs => Or.inl ⟨s, hs, rfl⟩⟩ run
  exact keep.mono fun _ hI => hI.2

end System

section LakeFund

/-- A fund whose harvest of one launch post is queued. -/
def lakeDb : Db where
  orgs := ⟨[{ id := 8, name := "Lake Fund", slug := "lake-fund" }], by decide⟩
  sources := ⟨[{ id := 3, key := "hackernews", displayName := "Hackernews" }], by decide⟩
  channels := ⟨[{ id := 9, key := "hackernews", label := "Hackernews", kind := "source" }],
    by decide⟩
  jobs := ⟨[
    { id := 40, orgId := some 8, kind := "ingest.harvest", createdAt := 0
      input := { channels := .names ["hackernews"] } }], by decide⟩

def launchPost : NormalizedSignal where
  kind := .launchPost
  title := some "Show HN: Kite"
  url := some "http://[kite"
  contentHash := "kite"
  observedAt := 0

def noAnalysis : Analysis where
  parseDeck _ := []
  extractClaims _ := []
  scoreAxis _ _ _ _ := ⟨0, 0, ""⟩
  thesisFit _ _ := .ok (0, none)
  recommend _ _ _ _ := ⟨.needsHuman, ""⟩

def lakeIds : Draw → Uuid
  | .signal _ item => 100 + item
  | .company _ item => 200 + item
  | .opportunity _ item => 300 + item
  | .child _ item => 400 + item
  | _ => 500

def lakeRun : RunEnv where
  env := plainEnv
  analysis := noAnalysis
  now _ := 0
  id := lakeIds
  enabled _ := true
  harvested _ := [launchPost]

/-- The worker takes the job up to RUNNING and then works on its source; `urlsplit` finds
the url of the post malformed or not. -/
def lakeHarvest (url : Option Exc) : List DealEvent :=
  [.deliver lakeRun 40, .run 0 [], .run 0 (List.replicate 7 none ++ [url])]

/-- The signal of a post with a malformed url is committed without its company. -/
theorem malformed_url_orphans_signal :
    ¬ Along (dealStep plainEnv) (fun s => NoOrphans lakeDb s.db) { db := lakeDb }
      (lakeHarvest (some (Exc.raised "ValueError" "Invalid IPv6 URL"))) := by
  intro run
  have rows : (((lakeHarvest (some (Exc.raised "ValueError" "Invalid IPv6 URL"))).foldl
      (dealStep plainEnv) { db := lakeDb }).db.signals.rows.map fun s => (s.id, s.companyId)) =
      [(100, none)] := by decide +kernel
  obtain ⟨s, hs, hrow⟩ := List.mem_map.mp (rows ▸ List.mem_singleton_self _)
  simp only [Prod.mk.injEq] at hrow
  obtain ⟨s₀, hs₀, -⟩ | ⟨⟨_, companyId, -, hcompany, -⟩, -⟩ := run.last s hs
  · exact Table.not_mem_empty s₀ hs₀
  · rw [hrow.2] at hcompany
    cases hcompany

theorem itemsWhole_of_due {s : DealState} {a : DealEvent}
    (h : (s.due a).map openSignal = some none) : ItemsWhole s a := by
  cases a with
  | run i faults =>
      intro ws hws _
      rw [hws] at h
      exact Option.some.inj h
  | _ => trivial

/-- With a url that parses, the harvest leaves no orphan. -/
theorem well_formed_url_leaves_no_orphan :
    Along (dealStep plainEnv) (fun s => NoOrphans lakeDb s.db) { db := lakeDb }
      (lakeHarvest none) :=
  no_harvested_orphans plainEnv lakeDb (lakeHarvest none)
    ⟨trivial, itemsWhole_of_due (by decide +kernel), itemsWhole_of_due (by decide +kernel), trivial⟩

end LakeFund

end DolphinVC
