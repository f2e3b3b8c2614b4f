import DolphinVC.Verification.PipelineWrites
import DolphinVC.Services.Connectors
import DolphinVC.Transaction.Atomic

/-!
# Harvesting the same response twice

An item is recognised by its source, its content hash and the time at which it was
observed. The hash depends on the item alone; the time is the item's own where it carries
one, and otherwise the present. So a second harvest of the same response adds nothing
exactly when each item is dated, or the clock reads as before, or a signal that was
observed just now is there already. Items found on the web are never dated.
-/

namespace DolphinVC

open Transaction Relational

section Known

variable {key : String} {item : NormalizedSignal} {source source' : Source} {db db' : Db}
variable {w : Write}

def sourceOf (key : String) (db : Db) : Option Source :=
  db.sources.rows.find? fun s => s.key = key

/-- The check that a harvest makes finds the item. -/
def Known (key : String) (item : NormalizedSignal) (db : Db) : Prop :=
  ∃ source, sourceOf key db = some source ∧ isDuplicate source item db = true

instance : Decidable (Known key item db) :=
  match h : sourceOf key db with
  | none => .isFalse fun ⟨_, hsource, _⟩ => by cases h.symm.trans hsource
  | some source =>
      if hd : isDuplicate source item db = true then .isTrue ⟨source, h, hd⟩
      else .isFalse fun ⟨_, hsource, hd'⟩ => hd (by cases h.symm.trans hsource; exact hd')

theorem isDuplicate_congr (h : source'.id = source.id) :
    isDuplicate source' item db = isDuplicate source item db := by
  unfold isDuplicate
  rw [h]

theorem isDuplicate_iff : isDuplicate source item db = true ↔ ∃ s ∈ db.signals,
    s.sourceId = source.id ∧ s.contentHash = item.contentHash ∧ s.observedAt = item.observedAt := by
  simp [isDuplicate]

/-- A signal keeps what it is recognised by. -/
theorem isDuplicate_apply (h : isDuplicate source item db = true) (happly : db.apply w = .ok db') :
    isDuplicate source item db' = true := by
  obtain ⟨s, hs, hkeys⟩ := isDuplicate_iff.mp h
  refine isDuplicate_iff.mpr ?_
  rcases signals_apply happly with
    ⟨row, rfl, hins⟩ | ⟨id, companyId, personId, rfl, hupd⟩ | ⟨-, heq⟩
  · exact ⟨s, (Table.mem_insert? hins).mpr (Or.inl hs), hkeys⟩
  · rw [hupd]
    refine ⟨_, Table.mem_update.mpr ⟨s, hs, rfl⟩, ?_⟩
    split
    · exact hkeys
    · exact hkeys
  · exact ⟨s, heq ▸ hs, hkeys⟩

theorem find?_key_map {f : Source → Source} (hf : ∀ s, (f s).key = s.key) {rows : List Source} :
    (rows.map f).find? (fun s => s.key = key) = (rows.find? fun s => s.key = key).map f := by
  rw [List.find?_map]
  congr 2
  funext s
  simp [hf]

/-- A statement inserts a source or leaves id and key of each as they are. -/
theorem sources_apply (happly : db.apply w = .ok db') :
    (∃ row, w = .insertSource row ∧ db.sources.insert? row = some db'.sources) ∨
      ∃ f : Source → Source, (∀ s, (f s).id = s.id ∧ (f s).key = s.key) ∧
        db'.sources.rows = db.sources.rows.map f := by
  have kept {p : Source → Bool} {f : Source → Source}
      (hf : ∀ s, (f s).id = s.id ∧ (f s).key = s.key)
      (s : Source) : (if p s then f s else s).id = s.id ∧ (if p s then f s else s).key = s.key := by
    split
    · exact hf s
    · exact ⟨rfl, rfl⟩
  cases w with
  | insertSource row =>
      obtain ⟨t, ht, rfl⟩ := map_eq_ok.mp happly
      exact Or.inl ⟨row, rfl, (insertRow_eq_ok.mp ht).2⟩
  | sourceOk id at' =>
      cases happly
      refine Or.inr ⟨_, ?_, rfl⟩
      exact kept fun s => ⟨rfl, rfl⟩
  | sourceDegraded id at' error =>
      cases happly
      refine Or.inr ⟨_, ?_, rfl⟩
      exact kept fun s => ⟨rfl, rfl⟩
  | refused e => cases happly
  | _ =>
      have hsources : db'.sources = db.sources := by
        simp only [Db.apply, map_eq_ok, ite_error_eq_ok, Except.ok.injEq] at happly
        first
        | (subst happly; rfl)
        | (obtain ⟨t, -, rfl⟩ := happly; rfl)
        | (obtain ⟨-, t, -, rfl⟩ := happly; rfl)
      exact Or.inr ⟨id, fun s => ⟨rfl, rfl⟩, by rw [hsources, List.map_id]⟩

/-- The source of a connector stays what it is. -/
theorem sourceOf_apply (h : sourceOf key db = some source) (happly : db.apply w = .ok db') :
    ∃ source', sourceOf key db' = some source' ∧ source'.id = source.id := by
  unfold sourceOf at h ⊢
  obtain ⟨row, -, hins⟩ | ⟨f, hf, hrows⟩ := sources_apply happly
  · refine ⟨source, ?_, rfl⟩
    rw [(Table.insert?_eq_some_iff.mp hins).2, List.find?_append, h]
    rfl
  · rw [hrows, find?_key_map fun s => (hf s).2, h]
    exact ⟨f source, rfl, (hf source).1⟩

/-- What is known stays known, whatever is written. -/
theorem Known.apply (h : Known key item db) (happly : db.apply w = .ok db') :
    Known key item db' := by
  obtain ⟨source, hsource, hdup⟩ := h
  obtain ⟨source', hsource', hid⟩ := sourceOf_apply hsource happly
  refine ⟨source', hsource', ?_⟩
  rw [isDuplicate_congr hid]
  exact isDuplicate_apply hdup happly

theorem Known.applyAll {ws : List Write} (h : Known key item db)
    (happly : backend.applyAll db ws = .ok db') : Known key item db' :=
  Backend.applyAll_inv (Φ := fun _ => True) (fun _ _ _ _ h ha => h.apply ha) (fun _ _ => trivial)
    h happly

end Known

/-- The connectors that the harvest asks. -/
def Asks (run : RunEnv) (job : Job) (key : String) : Prop :=
  key ∈ harvestKeys run job ∧ run.enabled key = true

/-- The job recorded that the source was harvested without a failure. -/
def Processed (jobId : Uuid) (key : String) (db : Db) : Prop :=
  ∃ step ∈ db.agentSteps, step.jobId = jobId ∧ step.action = "ingest." ++ key ∧
    step.status = "succeeded"

section Recorded

open Tx

variable {run : RunEnv} {job : Job} {key : String} {source : Source} {channel : SourcingChannel}
variable {item : NormalizedSignal} {items done : List NormalizedSignal} {seq index : Nat}
variable {db db' : Db} {s : Session Write} {w : Write} {ws : List Write}

def Write.Stepless : Write → Prop
  | .insertAgentStep _ => False
  | _ => True

theorem Write.Candidate.stepless (h : w.Candidate) : w.Stepless := by
  cases w with
  | insertAgentStep row => exact h
  | _ => trivial

/-- The source of the connector is there, with a signal for each of the items. -/
def Recorded (key : String) (source : Source) (items : List NormalizedSignal) (db : Db) : Prop :=
  (∃ source', sourceOf key db = some source' ∧ source'.id = source.id) ∧
    ∀ item ∈ items, isDuplicate source item db = true

theorem Recorded.apply (h : Recorded key source items db) (happly : db.apply w = .ok db') :
    Recorded key source items db' := by
  obtain ⟨⟨source', hsource', hid⟩, hitems⟩ := h
  obtain ⟨source'', hsource'', hid'⟩ := sourceOf_apply hsource' happly
  exact ⟨⟨source'', hsource'', hid'.trans hid⟩, fun item hitem =>
    isDuplicate_apply (hitems item hitem) happly⟩

theorem Recorded.applyAll (h : Recorded key source items db)
    (happly : backend.applyAll db ws = .ok db') : Recorded key source items db' :=
  Backend.applyAll_inv (Φ := fun _ => True) (fun _ _ _ _ h ha => h.apply ha) (fun _ _ => trivial)
    h happly

theorem Recorded.known (h : Recorded key source items db) (hitem : item ∈ items) :
    Known key item db := by
  obtain ⟨⟨source', hsource', hid⟩, hitems⟩ := h
  exact ⟨source', hsource', (isDuplicate_congr hid).trans (hitems item hitem)⟩

theorem Recorded.snoc (h : Recorded key source items db)
    (hdup : isDuplicate source item db = true) : Recorded key source (items ++ [item]) db := by
  refine ⟨h.1, fun item' hitem' => ?_⟩
  obtain hitem' | hitem' := List.mem_append.mp hitem'
  · exact h.2 item' hitem'
  · obtain rfl := List.mem_singleton.mp hitem'
    exact hdup

/-- When the pending writes go through, the items are recorded. -/
def Drafts (key : String) (source : Source) (items : List NormalizedSignal) (db : Db)
    (ws : List Write) : Prop :=
  (∀ w ∈ ws, w.Stepless) ∧
    ∀ view, backend.applyAll db ws = .ok view → Recorded key source items view

def Stepless (ws : List Write) : Prop := ∀ w ∈ ws, w.Stepless

theorem Stepless.snoc (h : Stepless ws) (hw : w.Stepless) : Stepless (ws ++ [w]) :=
  fun v hv => (List.mem_append.mp hv).elim (h v) fun hv => List.mem_singleton.mp hv ▸ hw

theorem applyAll_snoc_eq_ok : backend.applyAll db (ws ++ [w]) = .ok db' ↔
    ∃ mid, backend.applyAll db ws = .ok mid ∧ mid.apply w = .ok db' := by
  rw [Backend.applyAll_append_eq_ok]
  simp only [Backend.applyAll_singleton]
  rfl

theorem Drafts.snoc (h : Drafts key source items db ws) (hw : w.Stepless) :
    Drafts key source items db (ws ++ [w]) := by
  refine ⟨Stepless.snoc h.1 hw, fun view hview => ?_⟩
  obtain ⟨mid, hmid, hlast⟩ := applyAll_snoc_eq_ok.mp hview
  exact (h.2 mid hmid).apply hlast

/-- A part that only stages keeps what is drafted, whether it raises or not. -/
theorem wp_drafts {α : Type} {p : DolphinVC.Tx α} (h : Stages Write.Stepless p)
    (hs : s.Holds (Drafts key source items db)) :
    WP backend (fun _ db' s' => db' = db ∧ s'.Holds (Drafts key source items db)) p db s :=
  h.wp.mono fun _ _ _ hgrows =>
    ⟨hgrows.1, hs.grows hgrows.2 fun _ _ hw hdrafts => hdrafts.snoc hw⟩

theorem resolveOutboundSignal_stages {env : Env} {orgId : Option Uuid} {sourceId : Uuid}
    {channel? : Option SourcingChannel} {ids : CandidateIds} {now : Timestamp} :
    Stages Write.Stepless (resolveOutboundSignal env orgId item sourceId channel? ids now) := by
  have stepless {α : Type} {p : DolphinVC.Tx α} (h : Stages Write.Candidate p) :
      Stages Write.Stepless p := h.weaken fun _ hw => hw.stepless
  refine Stages.bind (Stages.call _) fun _ =>
    Stages.bind (stepless ensureCompany_stages) fun company =>
      Stages.bind (stepless ensureSignalPerson_stages) fun person? => ?_
  refine Stages.bind (Stages.bind (Stages.stage (by trivial)) fun _ =>
    stepless (candidate_of_linking linkPerson_stages)) fun _ => ?_
  exact Stages.bind (stepless (candidate_of_linking recordMemory_stages)) fun _ =>
    Stages.bind (resolveOpportunity_stages (fun _ _ _ => by trivial) (fun _ => by trivial)
      fun _ => by trivial) fun _ => Stages.pure _

theorem Drafts.insertSignal {id : Uuid} (h : Drafts key source done db ws) :
    Drafts key source (done ++ [item]) db
      (ws ++ [.insertSignal (newSignal job source id item)]) := by
  refine ⟨Stepless.snoc h.1 trivial, fun view hview => ?_⟩
  obtain ⟨mid, hmid, hlast⟩ := applyAll_snoc_eq_ok.mp hview
  refine ((h.2 mid hmid).apply hlast).snoc (isDuplicate_iff.mpr ?_)
  obtain ⟨t, ht, rfl⟩ := map_eq_ok.mp hlast
  exact ⟨_, (Table.mem_insert? (insertRow_eq_ok.mp ht).2).mpr (Or.inr rfl), rfl, rfl, rfl⟩

theorem wp_ingestItem (hs : s.Holds (Drafts key source done db)) :
    WP backend (fun _ db' s' => db' = db ∧ s'.Holds (Drafts key source (done ++ [item]) db))
      (ingestItem run job source channel seq index item) db s := by
  refine Tx.wp_bind.mpr (Tx.wp_call.mpr (Tx.wp_bind.mpr (Tx.wp_stage.mpr ?_)))
  refine wp_drafts ?_ (hs.stage fun _ h => h.insertSignal)
  refine Stages.bind Stages.flush fun _ => Stages.bind resolveOutboundSignal_stages fun r => ?_
  exact Stages.bind (Stages.stage (by trivial)) fun _ => Stages.bind Stages.flush fun _ =>
    Stages.bind (Stages.stage (by trivial)) fun _ => Stages.pure _

/-- After an item that ended without an exception, the item is recorded. -/
theorem wp_harvestItem (hs : s.Holds (Drafts key source done db)) :
    WP backend (fun r db' s' => db' = db ∧ match r with
      | .ok _ => s'.Holds (Drafts key source (done ++ [item]) db)
      | .error _ => s'.Holds Stepless)
      (harvestItem run job source channel seq index item) db s := by
  refine Tx.wp_bind.mpr (Tx.wp_query_cases (fun view hview => ?_) fun e =>
    ⟨rfl, hs.mono fun _ h => h.1⟩)
  dsimp only
  rw [Tx.wp_ite]
  split
  · rename_i hdup
    refine Tx.wp_pure.mpr ⟨rfl, hs.imp_right fun h => ⟨h.1, fun after hafter => ?_⟩⟩
    refine (h.2 after hafter).snoc ?_
    obtain ⟨mid, hmid, hrest⟩ := Backend.applyAll_append_eq_ok.mp hafter
    obtain rfl := Except.ok.inj (hview.symm.trans hmid)
    exact Backend.applyAll_inv (P := fun db => isDuplicate source item db = true)
      (Φ := fun _ => True) (fun _ _ _ _ h ha => isDuplicate_apply h ha) (fun _ _ => trivial)
      hdup hrest
  · refine Tx.wp_bind.mpr ((wp_ingestItem hs).mono ?_)
    rintro (e | ingested) db' s' ⟨rfl, hs'⟩
    · exact ⟨rfl, hs'.mono fun _ h => h.1⟩
    · exact Tx.wp_pure.mpr ⟨rfl, hs'⟩

/-- After the loop ended without an exception, all its items are recorded. -/
theorem wp_harvestItems {children : List Uuid} (hs : s.Holds (Drafts key source done db)) :
    WP backend (fun r db' s' => db' = db ∧ match r with
      | .ok (_, .ok ()) => s'.Holds (Drafts key source (done ++ items) db)
      | _ => s'.Holds Stepless)
      (harvestItems run job source seq items index channel children) db s := by
  induction items generalizing s index channel children done with
  | nil => exact Tx.wp_pure.mpr ⟨rfl, by simpa using hs⟩
  | cons item items ih =>
      refine Tx.wp_bind.mpr (Tx.wp_attempt.mpr ((wp_harvestItem hs).mono ?_))
      rintro (e | ingested?) db' s' ⟨rfl, hs'⟩
      · exact Tx.wp_pure.mpr ⟨rfl, hs'⟩
      · rw [show done ++ item :: items = done ++ [item] ++ items by simp]
        cases ingested? with
        | none => exact ih hs'
        | some ingested => exact ih hs'

theorem ensureChannel_stepless : Stages Write.Stepless (ensureChannel run source seq) :=
  ensureChannel_stages.weaken fun _ hw => hw.stepless

/-- The source that the harvest goes on with is there, once it is. -/
theorem wp_ensureSource {source? : Option Source} (hsource : source? = sourceOf key db)
    (hs : s.Holds fun ws => ws = []) :
    WP backend (fun _ db' s' => db' = db ∧
      s'.Holds (Drafts key (source?.getD (newSource run key seq)) [] db))
      (ensureSource run key seq source?) db s := by
  cases source? with
  | some source =>
      refine wp_drafts ensureChannel_stepless (hs.mono ?_)
      rintro _ rfl
      refine ⟨fun w hw => absurd hw List.not_mem_nil, fun view hview => ?_⟩
      cases hview
      exact ⟨⟨source, hsource.symm, rfl⟩, fun _ h => absurd h List.not_mem_nil⟩
  | none =>
      refine Tx.wp_bind.mpr (Tx.wp_stage.mpr ?_)
      refine wp_drafts (Stages.bind Stages.flush fun _ => ensureChannel_stepless) (hs.stage ?_)
      rintro _ rfl
      refine ⟨Stepless.snoc (fun w hw => absurd hw List.not_mem_nil) trivial, fun view hview => ?_⟩
      obtain ⟨t, ht, rfl⟩ := map_eq_ok.mp (Backend.applyAll_singleton.symm.trans hview)
      refine ⟨⟨newSource run key seq, ?_, rfl⟩, fun _ h => absurd h List.not_mem_nil⟩
      unfold sourceOf at hsource ⊢
      rw [(Table.insert?_eq_some_iff.mp (insertRow_eq_ok.mp ht).2).2, List.find?_append, ← hsource]
      simp [newSource]

end Recorded

section Steps

open Tx

variable {run : RunEnv} {job : Job} {key : String} {source? : Option Source} {seq total : Nat}
variable {db db' : Db} {s : Session Write} {w : Write} {ws : List Write}

theorem agentSteps_apply (hw : w.Stepless) (happly : db.apply w = .ok db') :
    db'.agentSteps = db.agentSteps := by
  cases w with
  | insertAgentStep row => exact hw.elim
  | refused e => cases happly
  | _ =>
      simp only [Db.apply, map_eq_ok, ite_error_eq_ok, Except.ok.injEq] at happly
      first
      | (subst happly; rfl)
      | (obtain ⟨t, -, rfl⟩ := happly; rfl)
      | (obtain ⟨-, t, -, rfl⟩ := happly; rfl)

/-- A source that the job recorded as harvested was asked, and its items are known. -/
def Tallied (run : RunEnv) (job : Job) (db : Db) : Prop :=
  ∀ key, Processed job.id key db →
    Asks run job key ∧ ∀ item ∈ run.harvested key, Known key item db

theorem Tallied.apply (h : Tallied run job db) (hw : w.Stepless)
    (happly : db.apply w = .ok db') : Tallied run job db' := by
  intro key hprocessed
  unfold Processed at hprocessed
  rw [agentSteps_apply hw happly] at hprocessed
  exact (h key hprocessed).imp_right fun hknown item hitem => (hknown item hitem).apply happly

theorem Tallied.applyAll (h : Tallied run job db) (hws : Stepless ws)
    (happly : backend.applyAll db ws = .ok db') : Tallied run job db' :=
  Backend.applyAll_inv (Φ := Write.Stepless) (fun _ _ _ hw h ha => h.apply hw ha) hws h happly

/-- A commit ends with a clean session or raises. -/
theorem wp_commit_tallied (h : Tallied run job db) (hs : s.Holds Stepless) :
    WP backend (fun r db' s' => Tallied run job db' ∧ match r with
      | .ok _ => s'.Holds fun ws => ws = []
      | .error _ => s'.Holds Stepless) (Tx.commit : DolphinVC.Tx Unit) db s := by
  obtain hf | hws := hs
  · rw [Tx.wp_commit]
    have hsend : s.send backend db none = .error backend.dead := by simp [Session.send, hf]
    simp only [Session.commit, hsend]
    exact ⟨h, Or.inl rfl⟩
  · exact Tx.wp_commit_cases (fun db' happly => ⟨h.applyAll hws happly, Or.inr rfl⟩)
      fun e => ⟨h, Or.inl rfl⟩

theorem wp_ingestSource (h : Tallied run job db) (hsource : source? = sourceOf key db)
    (hs : s.Holds fun ws => ws = []) :
    WP backend (fun r db' s' => Tallied run job db' ∧ match r with
      | .ok (_, .ok ()) => (s'.Holds fun ws => ws = []) ∧
          ∀ item ∈ run.harvested key, Known key item db'
      | _ => s'.Holds Stepless)
      (ingestSource run job key seq source?) db s := by
  refine Tx.wp_bind.mpr (Tx.wp_attempt.mpr ((wp_ensureSource hsource hs).mono ?_))
  rintro (e | channel) db' s₁ ⟨rfl, hs₁⟩
  · exact Tx.wp_pure.mpr ⟨h, hs₁.mono fun _ h => h.1⟩
  refine Tx.wp_bind.mpr ((wp_harvestItems hs₁).mono ?_)
  rintro (e | ⟨children, e | u⟩) db' s₂ ⟨rfl, hs₂⟩
  · exact ⟨h, hs₂⟩
  · exact Tx.wp_pure.mpr ⟨h, hs₂⟩
  · have hs₂' : (s₂.stage (.sourceOk (source?.getD (newSource run key seq)).id
        (run.now (.source seq)))).Holds
          (Drafts key (source?.getD (newSource run key seq)) (run.harvested key) db') :=
      hs₂.stage fun _ h => h.snoc trivial
    refine Tx.wp_bind.mpr (Tx.wp_attempt.mpr (Tx.wp_bind.mpr (Tx.wp_stage.mpr ?_)))
    obtain hf | ⟨hstepless, hrecorded⟩ := hs₂'
    · rw [Tx.wp_commit]
      have hsend : (s₂.stage (.sourceOk (source?.getD (newSource run key seq)).id
          (run.now (.source seq)))).send backend db' none = .error backend.dead := by
        unfold Session.send
        rw [if_pos hf]
      simp only [Session.commit, hsend]
      exact ⟨h, Or.inl rfl⟩
    · refine Tx.wp_commit_cases (fun db₃ happly => ?_) fun e => ⟨h, Or.inl rfl⟩
      exact ⟨h.applyAll hstepless happly, Or.inr rfl, fun item hitem =>
        (hrecorded db₃ happly).known hitem⟩

theorem wp_degradeSource {source : Source} {e : Exc} (h : Tallied run job db)
    (hs : s.Holds Stepless) :
    WP backend (fun r db' s' => Tallied run job db' ∧ match r with
      | .ok _ => s'.Holds fun ws => ws = []
      | .error _ => s'.Holds Stepless) (degradeSource run seq (some source) e) db s :=
  Tx.wp_bind.mpr (Tx.wp_stage.mpr (wp_commit_tallied h (hs.stage fun _ h => h.snoc trivial)))

theorem wp_harvestEnabled (h : Tallied run job db) (hsource : source? = sourceOf key db)
    (hs : s.Holds fun ws => ws = []) :
    WP backend (fun r db' s' => Tallied run job db' ∧ match r with
      | .ok (_, failure) => (s'.Holds fun ws => ws = []) ∧
          (failure = none → ∀ item ∈ run.harvested key, Known key item db')
      | .error _ => s'.Holds Stepless)
      (harvestEnabled run job key seq source?) db s := by
  refine Tx.wp_bind.mpr (Tx.wp_attempt.mpr (Tx.wp_call.mpr ?_))
  refine Tx.wp_bind.mpr ((wp_ingestSource h hsource hs).mono ?_)
  rintro (e | ⟨children, e | u⟩) db' s₁ ⟨h₁, hs₁⟩
  · exact ⟨h₁, hs₁⟩
  · refine Tx.wp_bind.mpr ((wp_degradeSource h₁ hs₁).mono ?_)
    rintro (e' | u) db₂ s₂ ⟨h₂, hs₂⟩
    · exact ⟨h₂, hs₂⟩
    · exact Tx.wp_pure.mpr ⟨h₂, hs₂, fun hnone => by cases hnone⟩
  · exact Tx.wp_pure.mpr ⟨h₁, hs₁.1, fun _ => hs₁.2⟩

/-- The step of a source says `succeeded` only if the source did not fail. -/
theorem Tallied.insertStep {h₀ : Harvest} {children : List Uuid} {failure : Option Exc}
    (h : Tallied run job db) (hasks : Asks run job key)
    (hknown : failure = none → ∀ item ∈ run.harvested key, Known key item db)
    (happly : db.apply (.insertAgentStep (harvestStep job key seq total
      { children := h₀.children ++ children
        failures := h₀.failures ++ (failure.map fun e => (key, e.className)).toList })) = .ok db') :
    Tallied run job db' := by
  have persists {key' : String} {item : NormalizedSignal} (h : Known key' item db) :
      Known key' item db' := h.apply happly
  obtain ⟨t, ht, rfl⟩ := map_eq_ok.mp happly
  rintro key' ⟨step, hstep, hjob, haction, hstatus⟩
  obtain hold | rfl := (Table.mem_insert? (insertRow_eq_ok.mp ht).2).mp hstep
  · exact (h key' ⟨step, hold, hjob, haction, hstatus⟩).imp_right fun hknown item hitem =>
      persists (hknown item hitem)
  · obtain rfl : key = key' := String.append_right_inj "ingest." |>.mp haction
    cases failure with
    | none => exact ⟨hasks, fun item hitem => persists (hknown rfl item hitem)⟩
    | some e => simp [harvestStep] at hstatus

theorem wp_harvestSource {h₀ : Harvest} (h : Tallied run job db) (hkey : key ∈ harvestKeys run job)
    (hs : s.Holds fun ws => ws = []) :
    WP backend (fun r db' s' => Tallied run job db' ∧ match r with
      | .ok _ => s'.Holds fun ws => ws = []
      | .error _ => s'.Holds Stepless)
      (harvestSource run job total key seq h₀) db s := by
  have stepless (s' : Session Write) (hs' : s'.Holds fun ws => ws = []) : s'.Holds Stepless :=
    hs'.mono fun _ h w hw => absurd (h ▸ hw) List.not_mem_nil
  obtain hf | hclean := hs
  · refine Tx.wp_bind.mpr (Tx.wp_query.mpr ?_)
    rw [show s.query backend db none = .error backend.dead by simp [Session.query, hf]]
    exact ⟨h, Or.inl hf⟩
  refine Tx.wp_bind.mpr (Tx.wp_query_cases (fun view hview => ?_) fun e =>
    ⟨h, stepless s (Or.inr hclean)⟩)
  rw [(List.append_eq_nil_iff.mp hclean).1] at hview
  cases hview
  dsimp only
  rw [Tx.wp_ite]
  split
  · exact Tx.wp_bind.mpr (Tx.wp_call.mpr (Tx.wp_pure.mpr ⟨h, Or.inr hclean⟩))
  · rename_i henabled
    have hasks : Asks run job key := ⟨hkey, by simpa using henabled⟩
    refine Tx.wp_bind.mpr (Tx.wp_finally'.mpr ((wp_harvestEnabled h rfl (Or.inr hclean)).mono ?_))
    rintro (e | ⟨children, failure⟩) db₁ s₁ ⟨h₁, hs₁⟩
    · exact Tx.wp_call.mpr ⟨h₁, hs₁⟩
    · refine Tx.wp_call.mpr (Tx.wp_bind.mpr (Tx.wp_stage.mpr (Tx.wp_bind.mpr ?_)))
      obtain hf | hclean₁ := hs₁.1
      · rw [Tx.wp_commit]
        have hsend (w : Write) : (s₁.stage w).send backend db₁ none = .error backend.dead := by
          simp [Session.send, hf]
        simp only [Session.commit, hsend]
        exact ⟨h₁, Or.inl rfl⟩
      · refine Tx.wp_commit_cases (fun db₂ happly => ?_) fun e => ⟨h₁, Or.inl rfl⟩
        rw [Session.pending_stage, hclean₁, List.nil_append] at happly
        exact Tx.wp_pure.mpr ⟨h₁.insertStep hasks hs₁.2
          (Backend.applyAll_singleton.symm.trans happly), Or.inr rfl⟩

theorem wp_harvestSources {keys : List String} {h₀ : Harvest} (h : Tallied run job db)
    (hkeys : ∀ key ∈ keys, key ∈ harvestKeys run job) (hs : s.Holds fun ws => ws = []) :
    WP backend (fun r db' s' => Tallied run job db' ∧ match r with
      | .ok _ => s'.Holds fun ws => ws = []
      | .error _ => s'.Holds Stepless)
      (harvestSources run job total keys seq h₀) db s := by
  induction keys generalizing db s seq h₀ with
  | nil => exact Tx.wp_pure.mpr ⟨h, hs⟩
  | cons key keys ih =>
      refine Tx.wp_bind.mpr ((wp_harvestSource h (hkeys key List.mem_cons_self) hs).mono ?_)
      rintro (e | h₁) db' s' ⟨h', hs'⟩
      · exact ⟨h', hs'⟩
      · exact ih h' (fun key hkey => hkeys key (List.mem_cons_of_mem _ hkey)) hs'

/-- A job that is harvesting tallies what it has processed, however it ends. -/
theorem wp_processHarvest (h : Tallied run job db) (hs : s.Holds fun ws => ws = []) :
    WP backend (fun _ db' s' => Tallied run job db' ∧ s'.Holds Stepless)
      (processHarvest run job) db s := by
  refine Tx.wp_bind.mpr (Tx.wp_call.mpr (Tx.wp_bind.mpr
    ((wp_harvestSources h (fun _ hkey => hkey) hs).mono ?_)))
  rintro (e | harvest) db₁ s₁ ⟨h₁, hs₁⟩
  · exact ⟨h₁, hs₁⟩
  have hs₁' : s₁.Holds Stepless := hs₁.mono fun _ h w hw => absurd (h ▸ hw) List.not_mem_nil
  refine Tx.wp_bind.mpr (Tx.wp_stage.mpr (Tx.wp_bind.mpr
    ((wp_commit_tallied h₁ (hs₁'.stage fun _ h => h.snoc (by trivial))).mono ?_)))
  rintro (e | u) db₂ s₂ ⟨h₂, hs₂⟩
  · exact ⟨h₂, hs₂⟩
  · exact Tx.wp_pure.mpr ⟨h₂, hs₂.mono fun _ h w hw => absurd (h ▸ hw) List.not_mem_nil⟩

/-- A queued harvest that has not been taken up. -/
structure Waits (job : Job) (db : Db) : Prop where
  stored : job ∈ db.jobs
  queued : job.status = .queued
  kind : job.kind = "ingest.harvest"
  unstarted : ∀ step ∈ db.agentSteps, step.jobId ≠ job.id

/-- The store after the job has been processed. -/
def harvest (run : RunEnv) (job : Job) (db : Db) : Db :=
  ((processJob run job.id).atomically backend db).2

/-- When a harvest has recorded that a source is processed, each of its items is known. -/
theorem known_of_processed (h : Waits job db)
    (hprocessed : Processed job.id key (harvest run job db)) :
    Asks run job key ∧ ∀ item ∈ run.harvested key, Known key item (harvest run job db) := by
  suffices hwp : WP backend (fun _ db' _ => Tallied run job db')
      (processJob run job.id) db {} from hwp key hprocessed
  have h₀ : Tallied run job db := fun key ⟨step, hstep, hjob, _⟩ =>
    absurd hjob (h.unstarted step hstep)
  refine Tx.wp_bind.mpr (Tx.wp_query_cases (fun view hview => ?_) fun e => h₀)
  cases hview
  rw [Table.find?_of_mem h.stored]
  dsimp only
  rw [if_neg (by simp [h.queued])]
  refine Tx.wp_bind.mpr (Tx.wp_stage.mpr (Tx.wp_bind.mpr
    (Tx.wp_commit_cases (fun db₁ happly => ?_) fun e => h₀)))
  have h₁ : Tallied run (job.started (run.now .start)) db₁ :=
    h₀.apply (w := .updateJob job.id (job.changes (job.started (run.now .start)))) trivial
      (Backend.applyAll_singleton.symm.trans happly)
  have fails {db₂ : Db} {s₂ : Session Write} {e : Exc} (h₂ : Tallied run job db₂)
      (hs₂ : s₂.Holds Stepless) : WP backend (fun _ db' _ => Tallied run job db')
        (failJob run (job.started (run.now .start)) e) db₂ s₂ :=
    Tx.wp_bind.mpr (Tx.wp_stage.mpr ((wp_commit_tallied h₂
      (hs₂.stage fun _ h => h.snoc (by trivial))).mono fun _ _ _ h => h.1))
  refine Tx.wp_tryCatch.mpr ?_
  unfold runBody
  rw [Tx.wp_ite, if_pos (show (job.started (run.now .start)).kind = "ingest.harvest" from h.kind)]
  refine Tx.wp_bind.mpr ((wp_processHarvest h₁ (Or.inr rfl)).mono ?_)
  rintro (e | children) db₂ s₂ ⟨h₂, hs₂⟩
  · exact fails h₂ hs₂
  · refine (dispatchChildren_emits.to.wp (Φ := Write.Stepless) (I := Tallied run job)
      (fun _ _ _ hw h ha => h.apply hw ha) hs₂ h₂).mono ?_
    rintro (e | u) db₃ s₃ ⟨-, h₃, hs₃⟩
    · exact fails h₃ hs₃
    · exact h₃

end Steps

section Again

open Tx

variable {run : RunEnv} {job : Job} {key : String} {source : Source} {source? : Option Source}
variable {base db db' : Db} {w : Write} {seq total index : Nat} {items : List NormalizedSignal}

/-- No signal, event, opportunity or job is new, and no channel counts anything more. -/
structure NothingNew (base db : Db) : Prop where
  signals : db.signals = base.signals
  founderScoreEvents : db.founderScoreEvents = base.founderScoreEvents
  opportunities : db.opportunities = base.opportunities
  jobs : ∀ j ∈ db.jobs, ∃ j₀ ∈ base.jobs, j₀.id = j.id
  channels : ∀ c ∈ base.channels, c ∈ db.channels
  uncounted : ∀ c ∈ db.channels, c ∈ base.channels ∨ c.discoveredCount = 0 ∧ c.advancedCount = 0

theorem NothingNew.refl (db : Db) : NothingNew db db :=
  ⟨rfl, rfl, rfl, fun j hj => ⟨j, hj, rfl⟩, fun _ hc => hc, fun _ hc => Or.inl hc⟩

/-- What a harvest of known items writes. -/
def Write.Bookkeeping : Write → Prop
  | .insertAgentStep _ | .updateJob _ _ | .insertSource _ | .sourceOk _ _
  | .sourceDegraded _ _ _ => True
  | .insertChannel row => row.discoveredCount = 0 ∧ row.advancedCount = 0
  | _ => False

theorem NothingNew.apply (h : NothingNew base db) (hw : w.Bookkeeping)
    (happly : db.apply w = .ok db') : NothingNew base db' := by
  cases w with
  | insertAgentStep row =>
      obtain ⟨t, -, rfl⟩ := map_eq_ok.mp happly
      exact ⟨h.1, h.2, h.3, h.4, h.5, h.6⟩
  | insertSource row =>
      obtain ⟨t, -, rfl⟩ := map_eq_ok.mp happly
      exact ⟨h.1, h.2, h.3, h.4, h.5, h.6⟩
  | sourceOk id at' =>
      cases happly
      exact ⟨h.1, h.2, h.3, h.4, h.5, h.6⟩
  | sourceDegraded id at' error =>
      cases happly
      exact ⟨h.1, h.2, h.3, h.4, h.5, h.6⟩
  | updateJob id set =>
      cases happly
      refine ⟨h.1, h.2, h.3, fun j hj => ?_, h.5, h.6⟩
      have hj' : j ∈ db.jobs.update id (Job.patch set) := hj
      obtain ⟨j₁, hj₁, rfl⟩ := Table.mem_update.mp hj'
      obtain ⟨j₀, hj₀, hid⟩ := h.jobs j₁ hj₁
      refine ⟨j₀, hj₀, hid.trans ?_⟩
      split
      · rfl
      · rfl
  | insertChannel row =>
      obtain ⟨t, ht, rfl⟩ := map_eq_ok.mp happly
      have hins := (insertRow_eq_ok.mp ht).2
      refine ⟨h.1, h.2, h.3, h.4, fun c hc => (Table.mem_insert? hins).mpr (Or.inl (h.5 c hc)), ?_⟩
      intro c hc
      obtain hold | rfl := (Table.mem_insert? hins).mp hc
      · exact h.6 c hold
      · exact Or.inr hw
  | _ => exact hw.elim

/-- Nothing is new so far, and all that the harvest will be given is known. -/
def Again (run : RunEnv) (job : Job) (base db : Db) : Prop :=
  NothingNew base db ∧
    ∀ key, Asks run job key → ∀ item ∈ run.harvested key, Known key item db

theorem Again.apply (h : Again run job base db) (hw : w.Bookkeeping)
    (happly : db.apply w = .ok db') : Again run job base db' :=
  ⟨h.1.apply hw happly, fun key hasks item hitem => (h.2 key hasks item hitem).apply happly⟩

/-- The store is as `I` says and only bookkeeping is pending. -/
def Booked (I : Db → Prop) (db : Db) (s : Session Write) : Prop :=
  I db ∧ s.Holds fun ws => ∀ w ∈ ws, w.Bookkeeping

theorem again_preserves {α : Type} {p : DolphinVC.Tx α} (h : Emits Write.Bookkeeping p) :
    Preserves backend (Booked (Again run job base)) p :=
  h.preserves fun _ _ _ hw hI happly => hI.apply hw happly

theorem ensureSource_bookkeeping :
    Emits Write.Bookkeeping (ensureSource run key seq source?) := by
  have channel {source : Source} : Emits Write.Bookkeeping (ensureChannel run source seq) := by
    refine Emits.bind (Emits.query _) fun channel? => ?_
    cases channel? with
    | some channel => exact Emits.pure _
    | none => exact Emits.bind (Emits.stage ⟨rfl, rfl⟩) fun _ => Emits.pure _
  cases source? with
  | some source => exact channel
  | none =>
      exact Emits.bind (Emits.stage trivial) fun _ => Emits.bind Emits.flush fun _ => channel

theorem degradeSource_bookkeeping {e : Exc} :
    Emits Write.Bookkeeping (degradeSource run seq source? e) := by
  cases source? with
  | none => exact Emits.pure _
  | some source => exact Emits.bind (Emits.stage trivial) fun _ => Emits.commit

/-- Items that are all duplicates are passed over. -/
theorem preserves_harvestItems {I : Db → Prop} {channel : SourcingChannel} {children : List Uuid}
    (hdup : ∀ db, I db → ∀ item ∈ items, isDuplicate source item db = true) :
    Preserves backend (Booked I)
      (harvestItems run job source seq items index channel children) := by
  intro db s h
  induction items generalizing index channel children with
  | nil => exact h
  | cons item items ih =>
      refine Tx.wp_bind.mpr (Tx.wp_attempt.mpr (Tx.wp_bind.mpr (Tx.wp_query_cases ?_ fun e => ?_)))
      · intro view hview
        have hview' : isDuplicate source item view = true :=
          Backend.applyAll_inv (P := fun db => isDuplicate source item db = true)
            (Φ := fun _ => True) (fun _ _ _ _ h ha => isDuplicate_apply h ha) (fun _ _ => trivial)
            (hdup db h.1 item List.mem_cons_self) hview
        dsimp only
        rw [Tx.wp_ite, if_pos hview']
        exact ih fun db hI item hitem => hdup db hI item (List.mem_cons_of_mem _ hitem)
      · exact Tx.wp_pure.mpr h

/-- The store of a harvest whose items from this source are duplicates. -/
def Repeats (run : RunEnv) (job : Job) (base : Db) (key : String) (source : Source) (db : Db) :
    Prop :=
  Again run job base db ∧ ∀ item ∈ run.harvested key, isDuplicate source item db = true

theorem Repeats.apply (h : Repeats run job base key source db) (hw : w.Bookkeeping)
    (happly : db.apply w = .ok db') : Repeats run job base key source db' :=
  ⟨h.1.apply hw happly, fun item hitem => isDuplicate_apply (h.2 item hitem) happly⟩

theorem preserves_ingestSource :
    Preserves backend (Booked (Repeats run job base key (source?.getD (newSource run key seq))))
      (ingestSource run job key seq source?) := by
  have part {α : Type} {p : DolphinVC.Tx α} (h : Emits Write.Bookkeeping p) :
      Preserves backend (Booked (Repeats run job base key (source?.getD (newSource run key seq))))
        p := h.preserves fun _ _ _ hw hI happly => hI.apply hw happly
  refine (part (Emits.attempt ensureSource_bookkeeping)).bind fun ensured => ?_
  cases ensured with
  | error e => exact .pure _
  | ok channel =>
      refine (preserves_harvestItems fun _ hI => hI.2).bind ?_
      rintro ⟨children, e | u⟩
      · exact .pure _
      · exact part (Emits.bind (Emits.attempt (Emits.bind (Emits.stage (by trivial)) fun _ =>
          Emits.commit)) fun _ => Emits.pure _)

theorem preserves_harvestEnabled (hasks : Asks run job key) (db : Db) (s : Session Write)
    (h : Booked (Again run job base) db s) {view : Db}
    (hview : backend.applyAll db s.flushed = .ok view) :
    WP backend (fun _ db' s' => Booked (Again run job base) db' s')
      (harvestEnabled run job key seq (sourceOf key view)) db s := by
  have repeats : Booked (Repeats run job base key
      ((sourceOf key view).getD (newSource run key seq))) db s := by
    refine ⟨⟨h.1, fun item hitem => ?_⟩, h.2⟩
    obtain ⟨source, hsource, hdup⟩ := h.1.2 key hasks item hitem
    have hrecorded : Recorded key source [] view :=
      Recorded.applyAll ⟨⟨source, hsource, rfl⟩, by simp⟩ hview
    obtain ⟨⟨source', hsource', hid⟩, -⟩ := hrecorded
    rw [hsource', Option.getD_some, isDuplicate_congr hid]
    exact hdup
  refine Tx.wp_bind.mpr (Tx.wp_attempt.mpr (Tx.wp_call.mpr ?_))
  refine Tx.wp_bind.mpr ((preserves_ingestSource db s repeats).mono ?_)
  rintro (e | ⟨children, e | u⟩) db' s' ⟨⟨hagain, -⟩, hs'⟩
  · exact ⟨hagain, hs'⟩
  · exact again_preserves (Emits.bind degradeSource_bookkeeping fun _ => Emits.pure _) db' s'
      ⟨hagain, hs'⟩
  · exact ⟨hagain, hs'⟩

theorem preserves_harvestSource {h₀ : Harvest} (hkey : key ∈ harvestKeys run job) :
    Preserves backend (Booked (Again run job base)) (harvestSource run job total key seq h₀) := by
  refine preserves_query_bind fun db s view h hview => ?_
  rw [Tx.wp_ite]
  split
  · exact Tx.wp_bind.mpr (Tx.wp_call.mpr h)
  · rename_i henabled
    have hasks : Asks run job key := ⟨hkey, by simpa using henabled⟩
    refine Tx.wp_bind.mpr
      (Tx.wp_finally'.mpr ((preserves_harvestEnabled hasks db s h hview).mono ?_))
    rintro (e | ⟨children, failure⟩) db' s' h'
    · exact Tx.wp_call.mpr h'
    · exact Tx.wp_call.mpr (again_preserves (Emits.bind (Emits.stage (by trivial)) fun _ =>
        Emits.bind Emits.commit fun _ => Emits.pure _) db' s' h')

theorem preserves_harvestSources {keys : List String} {h₀ : Harvest}
    (hkeys : ∀ key ∈ keys, key ∈ harvestKeys run job) :
    Preserves backend (Booked (Again run job base))
      (harvestSources run job total keys seq h₀) := by
  induction keys generalizing seq h₀ with
  | nil => exact .pure _
  | cons key keys ih =>
      exact (preserves_harvestSource (hkeys key List.mem_cons_self)).bind fun _ =>
        ih fun key hkey => hkeys key (List.mem_cons_of_mem _ hkey)

theorem preserves_processHarvest :
    Preserves backend (Booked (Again run job base)) (processHarvest run job) :=
  (again_preserves (Emits.call _)).bind fun _ =>
    (preserves_harvestSources fun _ hkey => hkey).bind fun _ =>
      again_preserves (Emits.bind (Emits.stage (by trivial)) fun _ =>
        Emits.bind Emits.commit fun _ => Emits.pure _)

theorem preserves_startJob (hkind : job.kind = "ingest.harvest") :
    Preserves backend (Booked (Again run job base)) (startJob run job) := by
  have body : Preserves backend (Booked (Again run job base))
      (runBody run (job.started (run.now .start))) := by
    unfold runBody
    rw [if_pos (show (job.started (run.now .start)).kind = "ingest.harvest" from hkind)]
    have harvesting : Preserves backend (Booked (Again run (job.started (run.now .start)) base))
        (processHarvest run (job.started (run.now .start))) := preserves_processHarvest
    exact harvesting.bind fun _ => again_preserves dispatchChildren_emits
  refine (again_preserves (Emits.stage (by trivial))).bind fun _ =>
    (again_preserves Emits.commit).bind fun _ => body.tryCatch fun e => ?_
  exact again_preserves (Emits.bind (Emits.stage (by trivial)) fun _ => Emits.commit)

/-- A harvest that is given known items only adds nothing. -/
theorem nothingNew_of_known (hjob : job ∈ db.jobs) (hkind : job.kind = "ingest.harvest")
    (hknown : ∀ key, Asks run job key → ∀ item ∈ run.harvested key, Known key item db) :
    NothingNew db (harvest run job db) := by
  have start : Booked (Again run job db) db {} :=
    ⟨⟨.refl db, hknown⟩, Or.inr fun _ hw => absurd hw List.not_mem_nil⟩
  suffices hwp : WP backend (fun _ db' s' => Booked (Again run job db) db' s')
      (processJob run job.id) db {} from hwp.1.1
  refine Tx.wp_bind.mpr (Tx.wp_query_cases (fun view hview => ?_) fun e => start)
  cases hview
  rw [Table.find?_of_mem hjob]
  dsimp only
  rw [Tx.wp_ite]
  split
  · exact start
  · exact preserves_startJob hkind db {} start

end Again

section Response

variable {sha256 : String → String} {fromIsoformat : String → Except Exc Timestamp}
variable {response : String → List RawItem} {t₁ t₂ now : Timestamp} {run run₁ run₂ : RunEnv}
variable {job job₁ job₂ : Job} {key : String} {item : NormalizedSignal}
variable {raw : RawItem} {db db' : Db}

/-- The connectors that the harvest asks answer with the response at that time. -/
def Receives (sha256 : String → String) (fromIsoformat : String → Except Exc Timestamp)
    (response : String → List RawItem) (now : Timestamp) (run : RunEnv) (job : Job) : Prop :=
  ∀ key, Asks run job key →
    normalizeAll sha256 fromIsoformat now (response key) = .ok (run.harvested key)

/-- The item has a timestamp, or the clock reads as it did, or the item as observed now is
stored already. -/
def Recognised (sha256 : String → String) (fromIsoformat : String → Except Exc Timestamp)
    (key : String) (t₁ t₂ : Timestamp) (db : Db) (raw : RawItem) : Prop :=
  raw.timestamp ≠ none ∨ t₁ = t₂ ∨
    ∀ item, raw.normalize sha256 fromIsoformat t₂ = .ok item → Known key item db

/-- Once the clock has moved on to where nothing was observed, only dated items are
recognised. -/
theorem recognised_iff_dated (later : t₁ ≠ t₂) (fresh : ∀ s ∈ db.signals, s.observedAt ≠ t₂) :
    Recognised sha256 fromIsoformat key t₁ t₂ db raw ↔ raw.timestamp ≠ none := by
  constructor
  · rintro (hdated | hsame | hstored)
    · exact hdated
    · exact absurd hsame later
    · intro hundated
      obtain ⟨item, hitem, hobserved⟩ := normalize_of_undated hundated
      obtain ⟨source, -, hdup⟩ := hstored item hitem
      obtain ⟨s, hs, -, -, htime⟩ := isDuplicate_iff.mp hdup
      exact fresh s hs (htime.trans hobserved)
  · exact Or.inl

/-- What a harvest does to the store is what it commits. -/
theorem exists_writes (run : RunEnv) (job : Job) (db : Db) :
    ∃ ws, backend.applyAll db ws = .ok (harvest run job db) :=
  ⟨_, Program.exec_committed backend (processJob run job.id).run [] db {} rfl⟩

theorem known_of_recognised (received₁ : Receives sha256 fromIsoformat response t₁ run₁ job₁)
    (received₂ : Receives sha256 fromIsoformat response t₂ run₂ job₂)
    (hasks₁ : Asks run₁ job₁ key) (hasks₂ : Asks run₂ job₂ key)
    (hknown : ∀ item ∈ run₁.harvested key, Known key item db)
    (h : ∀ raw ∈ response key, Recognised sha256 fromIsoformat key t₁ t₂ db raw)
    (hitem : item ∈ run₂.harvested key) : Known key item db := by
  obtain ⟨raw, hraw, hnormalize⟩ := (mem_of_normalizeAll (received₂ key hasks₂)).mp hitem
  have before (hsame : raw.normalize sha256 fromIsoformat t₁ =
      raw.normalize sha256 fromIsoformat t₂) : Known key item db :=
    hknown item ((mem_of_normalizeAll (received₁ key hasks₁)).mpr
      ⟨raw, hraw, hsame.trans hnormalize⟩)
  obtain hdated | rfl | hstored := h raw hraw
  · exact before (normalize_of_dated hdated)
  · exact before rfl
  · exact hstored item hnormalize

/-- If a harvest records an item without adding a signal, the item was known before. -/
theorem known_of_nothingNew {source : Source} (hsource : sourceOf key db = some source)
    (h : Known key item (harvest run job db)) (hnew : NothingNew db (harvest run job db)) :
    Known key item db := by
  obtain ⟨source', hsource', hdup⟩ := h
  obtain ⟨ws, hws⟩ := exists_writes run job db
  have hrecorded : Recorded key source [] (harvest run job db) :=
    Recorded.applyAll ⟨⟨source, hsource, rfl⟩, by simp⟩ hws
  obtain ⟨⟨source'', hsource'', hid⟩, -⟩ := hrecorded
  obtain rfl : source' = source'' := Option.some.inj (hsource'.symm.trans hsource'')
  refine ⟨source, hsource, ?_⟩
  rw [isDuplicate_congr hid] at hdup
  unfold isDuplicate at hdup ⊢
  rw [← hnew.signals]
  exact hdup

/-- A later harvest of the same response adds nothing if each of its items has a timestamp,
or the clock reads as before, or a signal just like it is stored already; and if the later
harvest processes its sources without adding anything, that is so. -/
theorem second_harvest_adds_nothing_iff (sha256 : String → String)
    (fromIsoformat : String → Except Exc Timestamp) (response : String → List RawItem)
    (t₁ t₂ : Timestamp) (run₁ run₂ : RunEnv) (job₁ job₂ : Job) (db db' : Db) (ws : List Write)
    (waits₁ : Waits job₁ db) (received₁ : Receives sha256 fromIsoformat response t₁ run₁ job₁)
    (later : backend.applyAll (harvest run₁ job₁ db) ws = .ok db')
    (waits₂ : Waits job₂ db') (received₂ : Receives sha256 fromIsoformat response t₂ run₂ job₂)
    (processed : ∀ key, Asks run₂ job₂ key → Processed job₁.id key (harvest run₁ job₁ db)) :
    ((∀ key, Asks run₂ job₂ key → ∀ raw ∈ response key,
        Recognised sha256 fromIsoformat key t₁ t₂ db' raw) →
      NothingNew db' (harvest run₂ job₂ db')) ∧
    ((∀ key, Asks run₂ job₂ key → Processed job₂.id key (harvest run₂ job₂ db')) →
      NothingNew db' (harvest run₂ job₂ db') →
      ∀ key, Asks run₂ job₂ key → ∀ raw ∈ response key,
        Recognised sha256 fromIsoformat key t₁ t₂ db' raw) := by
  have first (key : String) (hasks : Asks run₂ job₂ key) : Asks run₁ job₁ key ∧
      ∀ item ∈ run₁.harvested key, Known key item db' :=
    (known_of_processed waits₁ (processed key hasks)).imp_right fun hknown item hitem =>
      (hknown item hitem).applyAll later
  constructor
  · intro hrecognised
    refine nothingNew_of_known waits₂.stored waits₂.kind fun key hasks item hitem => ?_
    obtain ⟨hasks₁, hknown⟩ := first key hasks
    exact known_of_recognised received₁ received₂ hasks₁ hasks hknown (hrecognised key hasks) hitem
  · intro processed₂ hnew key hasks raw hraw
    obtain ⟨hasks₁, hknown⟩ := first key hasks
    obtain ⟨item₁, hitem₁⟩ := exists_of_normalizeAll (received₁ key hasks₁) hraw
    obtain ⟨source, hsource, -⟩ := hknown item₁
      ((mem_of_normalizeAll (received₁ key hasks₁)).mpr ⟨raw, hraw, hitem₁⟩)
    refine Or.inr (Or.inr fun item hitem => ?_)
    exact known_of_nothingNew hsource ((known_of_processed waits₂ (processed₂ key hasks)).2 item
      ((mem_of_normalizeAll (received₂ key hasks)).mpr ⟨raw, hraw, hitem⟩)) hnew

end Response

section FjordFund

def secondsAfterEpoch (timestamp : String) : Except Exc Timestamp :=
  if timestamp = "1970-01-01T00:00:01+00:00" then .ok (Timestamp.seconds 1)
  else .error (Exc.raised "ValueError" "Invalid isoformat string")

def fjordJob (id : Uuid) (key : String) : Job where
  id
  orgId := some 1
  kind := "ingest.harvest"
  input := { channels := .names [key] }
  createdAt := 0

/-- A fund that has queued two harvests of the same source. -/
def fjordDb (key : String) : Db where
  orgs := ⟨[{ id := 1, name := "Fjord Fund", slug := "fjord-fund" }], by decide⟩
  jobs := ⟨[fjordJob 10 key, fjordJob 11 key], by simp [fjordJob]⟩

def fjordIds (jobId : Uuid) : Draw → Uuid
  | .signal _ item => 1000 * jobId + item
  | .child _ item => 1000 * jobId + 500 + item
  | _ => 1000 * jobId + 900

def fjordRun (raw : RawItem) (now : Timestamp) (jobId : Uuid) : RunEnv where
  env := plainEnv
  analysis :=
    { parseDeck := fun _ => [], extractClaims := fun _ => [], scoreAxis := fun _ _ _ _ => ⟨0, 0, ""⟩
      thesisFit := fun _ _ => .ok (0, none), recommend := fun _ _ _ _ => ⟨.needsHuman, ""⟩ }
  now _ := now
  id := fjordIds jobId
  enabled _ := true
  harvested _ := ((raw.normalize id secondsAfterEpoch now).toOption).toList

/-- What the web search found: it carries no date. -/
def pressItem : RawItem :=
  .tavily { url := none, title := some "Tern raises a round", content := none }

/-- A repository with the time of its last push. -/
def repository : RawItem :=
  .github { id := some "7", htmlUrl := none, fullName := some "tern/kite", name := none
            description := none, language := none, ownerLogin := none
            pushedAt := some "1970-01-01T00:00:01Z", updatedAt := none }

theorem asks_fjord {raw : RawItem} {now : Timestamp} {jobId id : Uuid} {key key' : String}
    (h : Asks (fjordRun raw now jobId) (fjordJob id key') key) : key = key' := by
  have hkey : key ∈ [key'].filter (· ∈ connectorTypes) := h.1
  exact List.mem_singleton.mp (List.mem_filter.mp hkey).1

theorem waits_fjord {db : Db} {id : Uuid} {key : String} (stored : fjordJob id key ∈ db.jobs)
    (unstarted : ∀ step ∈ db.agentSteps, step.jobId ≠ id) : Waits (fjordJob id key) db :=
  ⟨stored, rfl, rfl, unstarted⟩

/-- The search result is stored again when it is found a second later. -/
theorem press_is_stored_again :
    Waits (fjordJob 10 "tavily") (fjordDb "tavily") ∧
    Receives id secondsAfterEpoch (fun _ => [pressItem]) 0 (fjordRun pressItem 0 10)
      (fjordJob 10 "tavily") ∧
    Waits (fjordJob 11 "tavily")
      (harvest (fjordRun pressItem 0 10) (fjordJob 10 "tavily") (fjordDb "tavily")) ∧
    Receives id secondsAfterEpoch (fun _ => [pressItem]) 1000000 (fjordRun pressItem 1000000 11)
      (fjordJob 11 "tavily") ∧
    Processed 10 "tavily"
      (harvest (fjordRun pressItem 0 10) (fjordJob 10 "tavily") (fjordDb "tavily")) ∧
    ¬ NothingNew (harvest (fjordRun pressItem 0 10) (fjordJob 10 "tavily") (fjordDb "tavily"))
      (harvest (fjordRun pressItem 1000000 11) (fjordJob 11 "tavily")
        (harvest (fjordRun pressItem 0 10) (fjordJob 10 "tavily") (fjordDb "tavily"))) := by
  refine ⟨waits_fjord (by decide +kernel) (by decide +kernel), fun _ _ => rfl,
    waits_fjord (by decide +kernel) (by decide +kernel), fun _ _ => rfl, ?_, fun hnew => ?_⟩
  · unfold Processed
    decide +kernel
  · have hlength := congrArg (fun t => t.rows.length) hnew.signals
    revert hlength
    decide +kernel

/-- The repository is recognised a second later. -/
theorem repository_is_recognised :
    NothingNew (harvest (fjordRun repository 0 10) (fjordJob 10 "github") (fjordDb "github"))
      (harvest (fjordRun repository 1000000 11) (fjordJob 11 "github")
        (harvest (fjordRun repository 0 10) (fjordJob 10 "github") (fjordDb "github"))) := by
  have received (now : Timestamp) (jobId id' : Uuid) : Receives id secondsAfterEpoch
      (fun _ => [repository]) now (fjordRun repository now jobId) (fjordJob id' "github") :=
    fun _ _ => rfl
  refine (second_harvest_adds_nothing_iff id secondsAfterEpoch (fun _ => [repository]) 0 1000000
    (fjordRun repository 0 10) (fjordRun repository 1000000 11) (fjordJob 10 "github")
    (fjordJob 11 "github") (fjordDb "github") _ []
    (waits_fjord (by decide +kernel) (by decide +kernel)) (received 0 10 10) rfl
    (waits_fjord (by decide +kernel) (by decide +kernel)) (received 1000000 11 11)
    (fun key hasks => ?_)).1 fun key _ raw hraw => Or.inl ?_
  · obtain rfl := asks_fjord hasks
    unfold Processed
    decide +kernel
  · obtain rfl := List.mem_singleton.mp hraw
    decide +kernel

end FjordFund

end DolphinVC
