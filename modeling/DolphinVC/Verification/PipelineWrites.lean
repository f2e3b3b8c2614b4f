import DolphinVC.Services.Pipeline
import DolphinVC.Db.Frame

/-!
# What a job run writes

`Write.OfAnalysis job` and `Write.OfHarvest job` describe every write the two bodies of
a run can stage, whatever the run reads and wherever it fails. An analysis updates its
own opportunity and application only, moves the stage to SCREENING or DECISION and never
touches the decision; a harvest inserts opportunities and screening jobs and updates
none. Both update no job but their own.
-/

namespace DolphinVC

open Transaction

/-- The status column of a patch that the worker sends: RUNNING over what the guard let
pass, or the end of a run over RUNNING. -/
def JobPatch.Worker (set : JobPatch) : Prop :=
  ∀ s, set.status = some s →
    s = .running ∧ set.statusFrom ≠ .cancelled ∨
    s ∈ [JobStatus.succeeded, .failed, .partialSuccess] ∧ set.statusFrom = .running

/-- A patch that a machine may send: it leaves the decision alone. -/
def OpportunityPatch.Machine (set : OpportunityPatch) : Prop :=
  (∀ s, set.stage = some s → s = .screening ∨ s = .decision) ∧ set.decision = none ∧
    set.decisionRationale = none ∧ set.decisionBy = none ∧ set.decidedAt = none

/-- The opportunity a job analyses. -/
def Job.opportunityId (job : Job) : Option Uuid := job.targetId.or job.input.opportunityId

/-- Other tables than those that some invariant speaks about. -/
def Write.Elsewhere (w : Write) : Prop := w.target = .other

/-- Such a write that is no step of a job. -/
def Write.Candidate : Write → Prop
  | .insertAgentStep _ => False
  | w => w.Elsewhere

theorem Write.Candidate.elsewhere {w : Write} (h : w.Candidate) : w.Elsewhere := by
  cases w with
  | insertAgentStep row => exact h.elim
  | _ => exact h

/-- The statement neither inserts a company or a person nor changes who is live under which
name. -/
def Write.Nameless : Write → Prop
  | .insertCompany _ | .insertPerson _ | .mergePerson _ _ | .erasePerson _ => False
  | _ => True

/-- A statement about candidates that are there. -/
def Write.Linking (w : Write) : Prop := w.Candidate ∧ w.Nameless

/-- The statement keeps the score of a founder, with what it is made of. -/
def Write.Scoring : Write → Prop
  | .insertFounderScoreEvent _ | .insertFounderScore _ | .updateFounderScore _
  | .insertFounderScoreSnapshot _ | .updateFounderScoreSnapshot _ _ _ _ => True
  | _ => False

theorem Write.Scoring.linking {w : Write} (h : w.Scoring) : w.Linking := by
  cases w with
  | insertFounderScoreEvent row => exact ⟨rfl, trivial⟩
  | insertFounderScore row => exact ⟨rfl, trivial⟩
  | updateFounderScore row => exact ⟨rfl, trivial⟩
  | insertFounderScoreSnapshot row => exact ⟨rfl, trivial⟩
  | updateFounderScoreSnapshot personId day score confidence => exact ⟨rfl, trivial⟩
  | _ => exact h.elim

theorem linking_of_scoring {α : Type} {p : DolphinVC.Tx α}
    (h : Transaction.Tx.Stages Write.Scoring p) : Transaction.Tx.Stages Write.Linking p :=
  h.weaken fun _ hw => hw.linking

theorem candidate_of_linking {α : Type} {p : DolphinVC.Tx α}
    (h : Transaction.Tx.Stages Write.Linking p) : Transaction.Tx.Stages Write.Candidate p :=
  h.weaken fun _ hw => hw.1

theorem elsewhere_of_stages {α : Type} {p : DolphinVC.Tx α}
    (h : Transaction.Tx.Stages Write.Candidate p) : Transaction.Tx.Stages Write.Elsewhere p :=
  h.weaken fun _ hw => hw.elsewhere

theorem emits_of_candidate {α : Type} {p : DolphinVC.Tx α}
    (h : Transaction.Tx.Stages Write.Candidate p) : Transaction.Tx.Emits Write.Elsewhere p :=
  (elsewhere_of_stages h).emits

theorem emits_of_linking {α : Type} {p : DolphinVC.Tx α}
    (h : Transaction.Tx.Stages Write.Linking p) : Transaction.Tx.Emits Write.Elsewhere p :=
  emits_of_candidate (candidate_of_linking h)

def Write.OfAnalysis (job : Job) : Write → Prop
  | .updateOpportunity id set => job.opportunityId = some id ∧ set.Machine
  | .updateApplication id status =>
      job.input.applicationId = some id ∧ (status = .parsing ∨ status = .inDiligence)
  | .updateJob id set => id = job.id ∧ set.Worker
  | .insertClaim _ | .insertMemo _ | .insertOpportunityScore _ => True
  | w => w.Elsewhere

/-- Claims and memos are about the opportunity, and nobody is assigned to any. -/
def Write.About (orgId opportunityId : Uuid) : Write → Prop
  | .insertClaim row => row.orgId = orgId ∧ row.opportunityId = some opportunityId
  | .insertMemo row => row.orgId = orgId ∧ row.opportunityId = opportunityId
  | .updateOpportunity _ set => set.assignedTo = none
  | _ => True

/-- The writes of a job run that analyses this opportunity. -/
def Write.Analyses (job : Job) (o : Opportunity) (w : Write) : Prop :=
  w.OfAnalysis job ∧ w.About o.orgId o.id

theorem Write.Analyses.of_copy {job : Job} {o o' : Opportunity} {w : Write}
    (h : w.Analyses job o') (horg : o'.orgId = o.orgId) (hid : o'.id = o.id) : w.Analyses job o :=
  ⟨h.1, horg ▸ hid ▸ h.2⟩

/-- The copy that is RUNNING names the same rows. -/
theorem Write.OfAnalysis.of_started {job : Job} {now : Timestamp} {w : Write}
    (h : w.OfAnalysis (job.started now)) : w.OfAnalysis job := by
  cases w with
  | _ => exact h

/-- A screening job as a harvest creates it. -/
def Job.Screening (j : Job) : Prop :=
  j.kind = "screen" ∧ j.status = .queued ∧ j.attempts = 0 ∧ j.maxAttempts = 2

def Write.OfHarvest (job : Job) : Write → Prop
  | .insertSignal row => row.orgId = job.orgId ∧ row.companyId = none
  | .assignSignal _ _ _ => True
  | .insertOpportunity row => row.stage = .sourced ∧ row.decision = none
  | .insertJob row => row.Screening
  | .updateJob id set => id = job.id ∧ set.Worker
  | w => w.Elsewhere

theorem changed_eq_some {α : Type} [DecidableEq α] {loaded assigned a : α} :
    changed loaded assigned = some a ↔ loaded ≠ assigned ∧ assigned = a := by
  unfold changed
  by_cases h : loaded = assigned <;> simp [h]

@[simp] theorem changed_self {α : Type} [DecidableEq α] (a : α) : changed a a = none := by
  simp [changed]

section Patches

variable {job : Job} {now : Timestamp} {o : Opportunity}

theorem worker_of_status_eq {assigned : Job} (h : assigned.status = job.status) :
    (job.changes assigned).Worker := by
  intro s hs
  obtain ⟨hne, -⟩ := changed_eq_some.mp hs
  exact absurd h.symm hne

theorem worker_of_running {assigned : Job} (running : job.status = .running)
    (ended : assigned.status ∈ [JobStatus.succeeded, .failed, .partialSuccess]) :
    (job.changes assigned).Worker := by
  intro s hs
  obtain ⟨-, rfl⟩ := changed_eq_some.mp hs
  exact Or.inr ⟨ended, running⟩

theorem worker_started (guard : job.status ≠ .cancelled) :
    (job.changes (job.started now)).Worker := by
  intro s hs
  obtain ⟨-, rfl⟩ := changed_eq_some.mp hs
  exact Or.inl ⟨rfl, guard⟩

theorem machine_screening : (o.changes { o with stage := .screening }).Machine := by
  refine ⟨fun s hs => Or.inl ?_, ?_⟩
  · exact (changed_eq_some.mp hs).2.symm
  · simp [Opportunity.changes]

theorem machine_scored (fit : Rat) :
    (o.changes { o with thesisFit := some fit }).Machine := by
  refine ⟨fun s hs => ?_, ?_⟩
  · exact absurd rfl (changed_eq_some.mp hs).1
  · simp [Opportunity.changes]

theorem machine_memoReady : (o.changes (o.memoReady now)).Machine := by
  refine ⟨fun s hs => Or.inr ?_, ?_⟩
  · exact (changed_eq_some.mp hs).2.symm
  · simp [Opportunity.changes, Opportunity.memoReady]

end Patches

section Analysis

variable {run : RunEnv} {job : Job} {o : Opportunity}

open Tx

/-- The session's copy of the job in the middle of a run. -/
def Job.Copy (original copy : Job) : Prop := copy.id = original.id ∧ copy.status = .running

theorem recordStep_emits {copy : Job} {seq : Nat} {action message : String} {progress : Rat}
    (h : job.Copy copy) :
    EmitsTo (Write.Analyses job o) (job.Copy) (recordStep run copy seq action progress message) :=
  EmitsTo.bind (Emits.stage ⟨by rfl, trivial⟩).to fun _ _ =>
    EmitsTo.bind (Emits.stage ⟨⟨h.1, worker_of_status_eq rfl⟩, trivial⟩).to fun _ _ =>
      EmitsTo.bind Emits.commit.to fun _ _ => EmitsTo.pure h

theorem loadTarget_returns {Φ : Write → Prop} :
    EmitsTo Φ (fun r => job.opportunityId = some r.1.id) (loadTarget job) := by
  unfold loadTarget
  cases hid : job.targetId.or job.input.opportunityId with
  | none => exact EmitsTo.throw _
  | some id =>
      refine EmitsTo.bind (P := fun found => ∀ o, found = some o → o.id = id)
        (EmitsTo.query fun db o ho => (db.opportunities.find?_eq_some_iff.mp ho).2)
        fun found hfound => ?_
      cases found with
      | none => exact EmitsTo.throw _
      | some o =>
          refine EmitsTo.bind (Emits.query _).to fun company? _ => ?_
          cases company? with
          | none => exact EmitsTo.throw _
          | some company =>
              refine EmitsTo.pure ?_
              rw [Job.opportunityId, hid, hfound o rfl]

theorem assignStatus_emits {a : Application} {status : ApplicationStatus}
    (ha : job.input.applicationId = some a.id)
    (hs : status = .parsing ∨ status = .inDiligence) :
    Emits (Write.Analyses job o) (assignStatus a status) :=
  Emits.ite (fun _ => Emits.pure _) fun _ => Emits.stage ⟨⟨ha, hs⟩, trivial⟩

theorem beginApplication_emits :
    EmitsTo (Write.Analyses job o)
      (fun r => ∀ a, r = some a → job.input.applicationId = some a.id) (beginApplication job) := by
  unfold beginApplication
  cases hid : job.input.applicationId with
  | none => exact EmitsTo.pure (by simp)
  | some id =>
      refine EmitsTo.bind (P := fun found => ∀ a, found = some a → a.id = id)
        (EmitsTo.query fun db a ha => (db.applications.find?_eq_some_iff.mp ha).2)
        fun found hfound => ?_
      cases found with
      | none => exact EmitsTo.pure (by simp)
      | some a =>
          have ha : job.input.applicationId = some a.id := by rw [hid, hfound a rfl]
          refine EmitsTo.bind (assignStatus_emits ha (Or.inl rfl)).to fun _ _ => EmitsTo.pure ?_
          rintro b hb
          cases hb
          rw [hfound a rfl]

theorem ensurePrescreen_emits {id : Uuid} :
    Emits (Write.Analyses job o) (ensurePrescreen id) := by
  refine Emits.bind (Emits.query _) fun prescreen? => ?_
  cases prescreen? with
  | some p => exact Emits.pure _
  | none => exact Emits.bind (Emits.stage ⟨by rfl, trivial⟩) fun _ => Emits.commit

theorem ensureDeckSource_emits : Emits (Write.Analyses job o) (ensureDeckSource run) := by
  refine Emits.bind (Emits.query _) fun source? => ?_
  cases source? with
  | some source => exact Emits.pure _
  | none =>
      exact Emits.bind (Emits.stage ⟨by rfl, trivial⟩) fun _ =>
        Emits.bind Emits.flush fun _ => Emits.pure _

theorem addPages_emits {document : Document} {pages : List ParsedPage} :
    Emits (Write.Analyses job o) (addPages document pages) := by
  induction pages with
  | nil => exact Emits.pure _
  | cons page pages ih => exact Emits.bind (Emits.stage ⟨by rfl, trivial⟩) fun _ => ih

theorem documentPages_emits {document : Document} :
    Emits (Write.Analyses job o) (documentPages run document) :=
  Emits.bind (Emits.query _) fun _ => Emits.ite (fun _ => Emits.pure _) fun _ =>
    Emits.bind (Emits.call _) fun _ => Emits.bind addPages_emits fun _ =>
      Emits.bind Emits.flush fun _ => Emits.pure _

theorem addClaims_emits {document : Document} {items : List ExtractedClaim} {index : Nat}
    {created : List Claim} :
    Emits (Write.Analyses job o) (addClaims run document o items index created) := by
  induction items generalizing index created with
  | nil => exact Emits.pure _
  | cons item items ih =>
      exact Emits.bind (Emits.call _) fun _ => Emits.bind (Emits.stage ⟨trivial, rfl, rfl⟩) fun _ =>
        Emits.bind Emits.flush fun _ => Emits.bind (Emits.stage ⟨by rfl, trivial⟩) fun _ => ih

theorem parseAndExtract_emits {document : Document} :
    Emits (Write.Analyses job o) (parseAndExtract run document o) :=
  Emits.bind documentPages_emits fun _ => Emits.bind (Emits.query _) fun _ =>
    Emits.ite (fun _ => Emits.pure _) fun _ => Emits.bind ensureDeckSource_emits fun _ =>
      Emits.bind (Emits.call _) fun _ => Emits.bind addClaims_emits fun _ =>
        Emits.bind Emits.flush fun _ => Emits.pure _

theorem gatherClaims_emits {copy : Job} :
    Emits (Write.Analyses job o) (gatherClaims run copy o) := by
  refine Emits.bind (Emits.query _) fun claims => ?_
  cases copy.input.documentId with
  | none => exact Emits.pure _
  | some id =>
      refine Emits.bind (Emits.query _) fun document? => ?_
      cases document? with
      | none => exact Emits.pure _
      | some document =>
          exact Emits.bind parseAndExtract_emits fun _ =>
            Emits.bind Emits.commit fun _ => Emits.pure _

theorem addScores_emits {claims : List Claim} {axes : List AxisKind}
    {created : List OpportunityScore} :
    Emits (Write.Analyses job o) (addScores run o claims axes created) := by
  induction axes generalizing created with
  | nil => exact Emits.pure _
  | cons axis axes ih =>
      exact Emits.bind (Emits.query _) fun _ =>
        Emits.bind (Emits.stage ⟨trivial, trivial⟩) fun _ => ih

theorem scoreAxes_emits {claims : List Claim} :
    Emits (Write.Analyses job o) (scoreAxes run o claims) :=
  Emits.bind (Emits.call _) fun _ => Emits.bind addScores_emits fun _ =>
    Emits.bind Emits.flush fun _ => Emits.pure _

theorem thesisFit_emits {company : Company} :
    Emits (Write.Analyses job o) (thesisFit run o company) :=
  Emits.bind (Emits.query _) fun _ => Emits.bind (Emits.call _) fun _ => Emits.ofExcept _

theorem writeMemo_emits {application? : Option Application} {recommendation : Recommendation}
    {sections : List MemoSection}
    (ho : job.opportunityId = some o.id)
    (ha : ∀ a, application? = some a → job.input.applicationId = some a.id) :
    Emits (Write.Analyses job o) (writeMemo run o application? recommendation sections) := by
  refine Emits.bind (Emits.call _) fun _ => Emits.bind (Emits.query _) fun latest =>
    Emits.bind (Emits.stage ⟨trivial, rfl, rfl⟩) fun _ =>
      Emits.bind (Emits.stage ⟨⟨ho, machine_memoReady⟩, changed_self _⟩) fun _ => ?_
  cases application? with
  | none => exact Emits.commit
  | some a =>
      exact Emits.bind (assignStatus_emits (ha a rfl) (Or.inr rfl)) fun _ => Emits.commit

theorem finishAnalysis_emits {copy : Job} {result : JobResult} (h : job.Copy copy) :
    Emits (Write.Analyses job o) (finishAnalysis run copy result) :=
  Emits.bind (Emits.stage ⟨⟨h.1, worker_of_running h.2 (by simp [Job.analysisDone])⟩, trivial⟩)
    fun _ => Emits.bind (Emits.stage ⟨by rfl, trivial⟩) fun _ => Emits.commit

theorem analyse_emits {copy : Job} {company : Company} {application? : Option Application}
    (h : job.Copy copy) (ho : job.opportunityId = some o.id)
    (ha : ∀ a, application? = some a → job.input.applicationId = some a.id) :
    Emits (Write.Analyses job o) (analyse run copy o company application?) := by
  have memo (scored : Opportunity) (recommendation : Recommendation)
      (sections : List MemoSection) (horg : scored.orgId = o.orgId) (hid : scored.id = o.id) :
      Emits (Write.Analyses job o) (writeMemo run scored application? recommendation sections) :=
    (writeMemo_emits (hid ▸ ho) ha).weaken fun _ hw => hw.of_copy horg hid
  exact EmitsTo.andThen (recordStep_emits h) fun _ h => Emits.bind ensurePrescreen_emits fun _ =>
    Emits.bind gatherClaims_emits fun _ => EmitsTo.andThen (recordStep_emits h) fun _ h =>
      Emits.bind scoreAxes_emits fun _ => Emits.bind Emits.commit fun _ =>
        EmitsTo.andThen (recordStep_emits h) fun _ h => Emits.bind thesisFit_emits fun _ =>
          Emits.bind (Emits.stage ⟨⟨ho, machine_scored _⟩, changed_self _⟩) fun _ =>
            Emits.bind (Emits.call _) fun _ => EmitsTo.andThen (recordStep_emits h) fun _ h =>
              Emits.bind (memo _ _ _ rfl rfl) fun _ =>
                EmitsTo.andThen (recordStep_emits h) fun _ h => finishAnalysis_emits h

/-- What follows the choice of the opportunity. -/
theorem analysisOf_emits {company : Company} (running : job.status = .running)
    (ho : job.opportunityId = some o.id) :
    Emits (Write.Analyses job o) (do
      let screening := { o with stage := .screening }
      Tx.stage (.updateOpportunity o.id (o.changes screening))
      let application? ← beginApplication job
      Tx.commit
      analyse run job screening company application?) := by
  have body (screening : Opportunity) (application? : Option Application)
      (horg : screening.orgId = o.orgId) (hid : screening.id = o.id)
      (ha : ∀ a, application? = some a → job.input.applicationId = some a.id) :
      Emits (Write.Analyses job o) (analyse run job screening company application?) :=
    (analyse_emits ⟨rfl, running⟩ (hid ▸ ho) ha).weaken fun _ hw => hw.of_copy horg hid
  exact Emits.bind (Emits.stage ⟨⟨ho, machine_screening⟩, changed_self _⟩) fun _ =>
    EmitsTo.andThen beginApplication_emits fun application? ha =>
      Emits.bind Emits.commit fun _ => body _ application? rfl rfl ha

theorem processAnalysis_emits (running : job.status = .running) :
    Emits (Write.OfAnalysis job) (processAnalysis run job) :=
  EmitsTo.andThen loadTarget_returns fun _ ho =>
    (analysisOf_emits running ho).weaken fun _ hw => hw.1

end Analysis

section Harvest

variable {run : RunEnv} {job : Job} {item : NormalizedSignal} {source : Source}

open Tx

theorem dispatchJob_emits {Φ : Write → Prop} {queueEager : Bool} {id : Uuid} :
    Emits Φ (dispatchJob queueEager id) :=
  Emits.void (Emits.attempt (Emits.call _))

theorem Write.Elsewhere.ofHarvest {w : Write} (h : w.Elsewhere) : w.OfHarvest job := by
  cases w with
  | insertOpportunity row => cases h
  | updateOpportunity id set => cases h
  | insertJob row => cases h
  | updateJob id set => cases h
  | insertSignal row => cases h
  | assignSignal id companyId personId => cases h
  | insertClaim row => cases h
  | insertMemo row => cases h
  | _ => exact h

theorem harvest_of_elsewhere {α : Type} {p : DolphinVC.Tx α} (h : Emits Write.Elsewhere p) :
    Emits (Write.OfHarvest job) p := h.weaken fun _ hw => hw.ofHarvest

theorem insertCompany_stages {company : Company} :
    Stages Write.Candidate (insertCompany company) :=
  Stages.bind (Stages.stage (by rfl)) fun _ => Stages.bind Stages.flush fun _ => Stages.pure _

theorem ensureCompany_stages {env : Env} {id : Uuid} :
    Stages Write.Candidate (ensureCompany env item id) := by
  refine Stages.bind (reads_findLiveCompany env item).stages fun company? => ?_
  cases company? with
  | some company => exact Stages.pure _
  | none => exact insertCompany_stages

theorem personOfIdentity_stages {env : Env} {provider value : String} {id : Uuid} :
    Stages Write.Candidate (personOfIdentity env provider value id) := by
  refine Stages.bind (Stages.query _) fun person? => ?_
  cases person? with
  | some person => exact Stages.pure _
  | none =>
      exact Stages.bind (Stages.stage (by rfl)) fun _ =>
        Stages.bind Stages.flush fun _ => Stages.pure _

theorem countSignalOnce_stages {person : Person} {signalId : Uuid} :
    Stages Write.Linking (countSignalOnce person item signalId) :=
  Stages.bind (Stages.query _) fun _ =>
    Stages.ite (fun _ => Stages.pure _) fun _ => Stages.stage (by exact ⟨rfl, trivial⟩)

theorem ensureSignalPerson_stages {env : Env} {signalId id : Uuid} :
    Stages Write.Candidate (ensureSignalPerson env item signalId id) := by
  unfold ensureSignalPerson
  cases bestHint item.identities with
  | none => exact Stages.pure _
  | some hint =>
      exact Stages.bind personOfIdentity_stages fun _ =>
        Stages.bind (candidate_of_linking countSignalOnce_stages) fun _ => Stages.pure _

theorem ensureAffiliation_stages {personId companyId : Uuid} {confidence : Rat} :
    Stages Write.Linking (ensureAffiliation personId companyId confidence) := by
  refine Stages.bind (Stages.query _) fun existing? => ?_
  cases existing? with
  | none => exact Stages.stage (by exact ⟨rfl, trivial⟩)
  | some existing => exact Stages.stage (by exact ⟨rfl, trivial⟩)

theorem addFounderEvents_stages {personId signalId : Uuid} {occurredAt : Timestamp}
    {events : List (String × Rat × Rat × String)} :
    Stages Write.Scoring (addFounderEvents personId signalId occurredAt events) := by
  induction events with
  | nil => exact Stages.pure _
  | cons event events ih =>
      exact Stages.bind (Stages.query _) fun _ => Stages.ite (fun _ => ih) fun _ =>
        Stages.bind (Stages.stage trivial) fun _ => ih

theorem storeFounderScore_stages {personId : Uuid} {r : FounderScoreResult Rat}
    {now : Timestamp} : Stages Write.Scoring (storeFounderScore personId r now) := by
  refine Stages.bind (Stages.query _) fun current? => Stages.bind (Stages.stage ?_) fun _ =>
    Stages.bind (Stages.query _) fun snapshot? => Stages.bind (Stages.stage ?_) fun _ =>
      Stages.flush
  · cases current? <;> trivial
  · cases snapshot? <;> trivial

theorem recomputeFounderScore_stages {env : Env} {personId : Uuid} {now : Timestamp} :
    Stages Write.Scoring (recomputeFounderScore env personId now) := by
  refine Stages.bind (Stages.query _) fun events => Stages.bind (Stages.call _) fun _ => ?_
  cases computeFounderScore env.maths .standard (events.map FounderScoreEvent.scored) now with
  | none => exact (Reads.throw _).stages
  | some result => exact storeFounderScore_stages

theorem recordFounderEvents_stages {env : Env} {personId signalId : Uuid} {now : Timestamp} :
    Stages Write.Scoring (recordFounderEvents env personId signalId item now) :=
  Stages.bind addFounderEvents_stages fun _ => Stages.bind Stages.flush fun _ =>
    recomputeFounderScore_stages

theorem linkPerson_stages {env : Env} {person? : Option Person} {companyId signalId : Uuid}
    {now : Timestamp} :
    Stages Write.Linking (match person? with
      | none => pure ()
      | some person => do
          ensureAffiliation person.id companyId (65 / 100)
          recordFounderEvents env person.id signalId item now : DolphinVC.Tx Unit) := by
  cases person? with
  | none => exact Stages.pure _
  | some person =>
      exact Stages.bind ensureAffiliation_stages fun _ =>
        linking_of_scoring recordFounderEvents_stages

theorem linkCandidates_emits {env : Env} {person? : Option Person} {company : Company}
    {ids : CandidateIds} {now : Timestamp} :
    Emits (Write.OfHarvest job) (linkCandidates env person? company item ids now) :=
  Emits.bind (Emits.stage trivial) fun _ =>
    harvest_of_elsewhere (emits_of_linking linkPerson_stages)

theorem recordMemory_stages {env : Env} {orgId : Option Uuid} {sourceId : Uuid}
    {person? : Option Person} {companyId : Uuid} {channel? : Option SourcingChannel}
    {ids : CandidateIds} :
    Stages Write.Linking
      (recordMemory env orgId item sourceId person? companyId channel? ids) := by
  refine Stages.bind (Stages.call _) fun _ => Stages.bind
    (Stages.ite (fun _ => Stages.pure _) fun _ => Stages.bind (Stages.query _) fun _ =>
      Stages.ite (fun _ => Stages.pure _) fun _ => Stages.stage (by exact ⟨rfl, trivial⟩))
    fun _ => ?_
  cases channel? with
  | none => exact Stages.pure _
  | some channel =>
      exact Stages.bind (Stages.query _) fun _ =>
        Stages.ite (fun _ => Stages.pure _) fun _ => Stages.stage (by exact ⟨rfl, trivial⟩)

theorem advanceChannel_stages {channel? : Option SourcingChannel} :
    Stages Write.Linking (advanceChannel channel?) := by
  cases channel? with
  | none => exact Stages.pure _
  | some channel =>
      exact Stages.bind (Stages.stage (by exact ⟨rfl, trivial⟩)) fun _ => Stages.pure _

/-- Resolving an opportunity counts it on the channel and inserts it, or fails to. -/
theorem resolveOpportunity_stages {Φ : Write → Prop}
    (hcount : ∀ id discovered advanced, Φ (.countChannel id discovered advanced))
    (hnull : ∀ e, Φ (.refused e)) (hinsert : ∀ row, Φ (.insertOpportunity row))
    {env : Env} {orgId : Option Uuid} {company : Company} {channel? : Option SourcingChannel}
    {id : Uuid} {now : Timestamp} :
    Stages Φ (resolveOpportunity env orgId company item channel? id now) := by
  have counted : Stages Φ (advanceChannel channel?) := by
    cases channel? with
    | none => exact Stages.pure _
    | some channel => exact Stages.bind (Stages.stage (hcount _ _ _)) fun _ => Stages.pure _
  cases orgId with
  | none =>
      exact Stages.bind counted fun _ => Stages.bind (Stages.stage (hnull _)) fun _ =>
        Stages.bind Stages.flush fun _ => Stages.pure _
  | some orgId =>
      refine Stages.bind (Stages.query _) fun opportunity? => ?_
      cases opportunity? with
      | some o => exact Stages.bind Stages.flush fun _ => Stages.pure _
      | none =>
          exact Stages.bind counted fun _ => Stages.bind (Stages.stage (hinsert _)) fun _ =>
            Stages.bind Stages.flush fun _ => Stages.pure _

theorem resolveOpportunity_emits {env : Env} {orgId : Option Uuid} {company : Company}
    {channel? : Option SourcingChannel} {id : Uuid} {now : Timestamp} :
    Emits (Write.OfHarvest job) (resolveOpportunity env orgId company item channel? id now) := by
  have counted : Emits (Write.OfHarvest job) (advanceChannel channel?) :=
    harvest_of_elsewhere (emits_of_linking advanceChannel_stages)
  cases orgId with
  | none =>
      exact Emits.bind counted fun _ => Emits.bind (Emits.stage (by rfl)) fun _ =>
        Emits.bind Emits.flush fun _ => Emits.pure _
  | some orgId =>
      refine Emits.bind (Emits.query _) fun opportunity? => ?_
      cases opportunity? with
      | some o => exact Emits.bind Emits.flush fun _ => Emits.pure _
      | none =>
          exact Emits.bind counted fun _ =>
            Emits.bind (Emits.stage (by exact ⟨rfl, rfl⟩)) fun _ =>
              Emits.bind Emits.flush fun _ => Emits.pure _

theorem resolveOutboundSignal_emits {env : Env} {orgId : Option Uuid} {sourceId : Uuid}
    {channel? : Option SourcingChannel} {ids : CandidateIds} {now : Timestamp} :
    Emits (Write.OfHarvest job)
      (resolveOutboundSignal env orgId item sourceId channel? ids now) :=
  Emits.bind (Emits.call _) fun _ => Emits.bind
    (harvest_of_elsewhere (emits_of_candidate ensureCompany_stages)) fun _ => Emits.bind
    (harvest_of_elsewhere (emits_of_candidate ensureSignalPerson_stages)) fun _ =>
      Emits.bind linkCandidates_emits fun _ =>
        Emits.bind (harvest_of_elsewhere (emits_of_linking recordMemory_stages)) fun _ =>
          Emits.bind resolveOpportunity_emits fun _ => Emits.pure _

theorem ingestItem_emits {channel : SourcingChannel} {seq index : Nat} :
    Emits (Write.OfHarvest job) (ingestItem run job source channel seq index item) :=
  Emits.bind (Emits.call _) fun _ => Emits.bind (Emits.stage (by exact ⟨rfl, rfl⟩)) fun _ =>
    Emits.bind Emits.flush fun _ => Emits.bind resolveOutboundSignal_emits fun _ =>
      Emits.bind (Emits.stage (by exact ⟨rfl, rfl, rfl, rfl⟩)) fun _ =>
        Emits.bind Emits.flush fun _ => Emits.bind (Emits.stage (by rfl)) fun _ => Emits.pure _

theorem harvestItem_emits {channel : SourcingChannel} {seq index : Nat} :
    Emits (Write.OfHarvest job) (harvestItem run job source channel seq index item) :=
  Emits.bind (Emits.query _) fun _ => Emits.ite (fun _ => Emits.pure _) fun _ =>
    Emits.bind ingestItem_emits fun _ => Emits.pure _

theorem harvestItems_emits {seq : Nat} {items : List NormalizedSignal} {index : Nat}
    {channel : SourcingChannel} {children : List Uuid} :
    Emits (Write.OfHarvest job)
      (harvestItems run job source seq items index channel children) := by
  induction items generalizing index channel children with
  | nil => exact Emits.pure _
  | cons item items ih =>
      refine Emits.bind (Emits.attempt harvestItem_emits) fun r => ?_
      cases r with
      | error e => exact Emits.pure _
      | ok child? =>
          cases child? with
          | none => exact ih
          | some child => exact ih

theorem ensureChannel_stages {seq : Nat} :
    Stages Write.Candidate (ensureChannel run source seq) := by
  refine Stages.bind (Stages.query _) fun channel? => ?_
  cases channel? with
  | some channel => exact Stages.pure _
  | none => exact Stages.bind (Stages.stage (by rfl)) fun _ => Stages.pure _

theorem ensureSource_stages {key : String} {seq : Nat} {source? : Option Source} :
    Stages Write.Candidate (ensureSource run key seq source?) := by
  cases source? with
  | some source => exact ensureChannel_stages
  | none =>
      exact Stages.bind (Stages.stage (by rfl)) fun _ => Stages.bind Stages.flush fun _ =>
        ensureChannel_stages

theorem ingestSource_emits {key : String} {seq : Nat} {source? : Option Source} :
    Emits (Write.OfHarvest job) (ingestSource run job key seq source?) := by
  refine Emits.bind (Emits.attempt (harvest_of_elsewhere
    (emits_of_candidate ensureSource_stages))) fun ensured => ?_
  cases ensured with
  | error e => exact Emits.pure _
  | ok u =>
      refine Emits.bind harvestItems_emits ?_
      rintro ⟨children, ingested⟩
      cases ingested with
      | error e => exact Emits.pure _
      | ok u =>
          exact Emits.bind (Emits.attempt (Emits.bind (Emits.stage (by rfl)) fun _ =>
            Emits.commit)) fun _ => Emits.pure _

theorem degradeSource_emits {seq : Nat} {source? : Option Source} {e : Exc} :
    Emits Write.Elsewhere (degradeSource run seq source? e) := by
  cases source? with
  | none => exact Emits.pure _
  | some source => exact Emits.bind (Emits.stage (by rfl)) fun _ => Emits.commit

theorem harvestEnabled_emits {key : String} {seq : Nat} {source? : Option Source} :
    Emits (Write.OfHarvest job) (harvestEnabled run job key seq source?) := by
  refine Emits.bind (Emits.attempt (Emits.call _)) fun answered => ?_
  cases answered with
  | error e => exact Emits.bind (harvest_of_elsewhere degradeSource_emits) fun _ => Emits.pure _
  | ok u =>
      refine Emits.bind ingestSource_emits ?_
      rintro ⟨children, ingested⟩
      cases ingested with
      | error e => exact Emits.bind (harvest_of_elsewhere degradeSource_emits) fun _ => Emits.pure _
      | ok u => exact Emits.pure _

theorem harvestSource_emits {total : Nat} {key : String} {seq : Nat} {h : Harvest} :
    Emits (Write.OfHarvest job) (harvestSource run job total key seq h) :=
  Emits.bind (Emits.query _) fun _ => Emits.ite
    (fun _ => Emits.bind (Emits.call _) fun _ => Emits.pure _)
    fun _ => Emits.bind (Emits.finally' harvestEnabled_emits (Emits.call _)) fun _ =>
      Emits.bind (Emits.stage (by rfl)) fun _ => Emits.bind Emits.commit fun _ => Emits.pure _

theorem harvestSources_emits {total : Nat} {keys : List String} {seq : Nat} {h : Harvest} :
    Emits (Write.OfHarvest job) (harvestSources run job total keys seq h) := by
  induction keys generalizing seq h with
  | nil => exact Emits.pure _
  | cons key keys ih => exact Emits.bind harvestSource_emits fun _ => ih

theorem harvestDone_ends {h : Harvest} {now : Timestamp} :
    (job.harvestDone h now).status ∈ [JobStatus.succeeded, .failed, .partialSuccess] := by
  unfold Job.harvestDone
  split <;> simp

theorem processHarvest_emits (running : job.status = .running) :
    Emits (Write.OfHarvest job) (processHarvest run job) :=
  Emits.bind (Emits.call _) fun _ => Emits.bind harvestSources_emits fun _ =>
    Emits.bind (Emits.stage (by exact ⟨rfl, worker_of_running running harvestDone_ends⟩))
      fun _ => Emits.bind Emits.commit fun _ => Emits.pure _

theorem dispatchChildren_emits {Φ : Write → Prop} {children : List Uuid} :
    Emits Φ (dispatchChildren run children) := by
  induction children with
  | nil => exact Emits.pure _
  | cons child children ih => exact Emits.bind dispatchJob_emits fun _ => ih

end Harvest

section Run

variable {run : RunEnv} {job : Job} {w : Write}

/-- A write that some job run can stage. -/
def Write.OfRun : Write → Prop
  | .updateOpportunity _ set => set.Machine
  | .updateApplication _ status => status = .parsing ∨ status = .inDiligence
  | .insertSignal row => row.companyId = none
  | .assignSignal _ _ _ => True
  | .insertOpportunity row => row.stage = .sourced ∧ row.decision = none
  | .insertJob row => row.Screening
  | .updateJob _ set => set.Worker
  | .insertClaim _ | .insertMemo _ | .insertOpportunityScore _ => True
  | w => w.Elsewhere

theorem Write.OfAnalysis.ofRun (h : w.OfAnalysis job) : w.OfRun := by
  cases w with
  | updateOpportunity id set => exact h.2
  | updateApplication id status => exact h.2
  | updateJob id set => exact h.2
  | insertOpportunity row => cases h
  | insertJob row => cases h
  | insertSignal row => cases h
  | assignSignal id companyId personId => cases h
  | _ => exact h

theorem Write.OfHarvest.ofRun (h : w.OfHarvest job) : w.OfRun := by
  cases w with
  | updateOpportunity id set => cases h
  | updateApplication id status => cases h
  | updateJob id set => exact h.2
  | insertOpportunity row => exact h
  | insertJob row => exact h
  | insertSignal row => exact h.2
  | insertClaim row => trivial
  | insertMemo row => trivial
  | insertOpportunityScore row => trivial
  | _ => exact h

open Tx

theorem runBody_emits (running : job.status = .running) : Emits Write.OfRun (runBody run job) :=
  Emits.ite
    (fun _ => Emits.bind ((processHarvest_emits running).weaken fun _ h => h.ofRun) fun _ =>
      dispatchChildren_emits)
    fun _ => (processAnalysis_emits running).weaken fun _ h => h.ofRun

theorem startJob_emits {Φ : Write → Prop} (guard : job.status ≠ .cancelled)
    (ofWorker : ∀ set : JobPatch, set.Worker → Φ (.updateJob job.id set))
    (body : Emits Φ (runBody run (job.started (run.now .start)))) :
    Emits Φ (startJob run job) :=
  Emits.bind (Emits.stage (ofWorker _ (worker_started guard))) fun _ =>
    Emits.bind Emits.commit fun _ => Emits.tryCatch body fun _ =>
      Emits.bind (Emits.stage (ofWorker _ (worker_of_running rfl (by simp [Job.failed]))))
        fun _ => Emits.commit

theorem processJob_emits {id : Uuid} : Emits Write.OfRun (processJob run id) := by
  refine Emits.bind (Emits.query _) fun job? => ?_
  cases job? with
  | none => exact Emits.pure _
  | some job =>
      exact Emits.ite (fun _ => Emits.pure _) fun guard =>
        startJob_emits guard (fun _ h => h) (runBody_emits rfl)

end Run
end DolphinVC
