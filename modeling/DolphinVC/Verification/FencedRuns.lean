import DolphinVC.Verification.FencedRequests

/-!
# Job runs stay within a fund

A run knows the row of its job and where that leads, and keeps to it: a harvest writes for the
job's fund, an analysis about the opportunity, the application and the deck that the job leads to.
What it creates on the way, it refers to later as its own.
-/

namespace DolphinVC

open Relational Transaction Transition Tx

section Runs

variable {run : RunEnv} {job : Job} {item : NormalizedSignal} {source : Source}

/-- What a run knows of its job: whose it is and where it leads. -/
def Job.facts (job : Job) : List FundFact := .row (.jobs, job.id) job.orgId :: job.links.map .link

theorem traced_job : Traced job.orgId (fun f => f ∈ job.facts) (.jobs, job.id) :=
  .row List.mem_cons_self

theorem traced_led {r : RowRef} (hr : r ∈ job.leads) :
    Traced job.orgId (fun f => f ∈ job.facts) r :=
  .link traced_job (List.mem_cons_of_mem _ (List.mem_map_of_mem (List.mem_map_of_mem hr)))

theorem resolveOpportunity_fenced {env : Env} {orgId : Option Uuid} {fs : List FundFact}
    {company : Company} {channel? : Option SourcingChannel} {id : Uuid} {now : Timestamp} :
    Fenced orgId fs (resolveOpportunity env orgId company item channel? id now) fun r =>
      .row (.opportunities, r.1) orgId :: fs := by
  have counted : Fenced orgId fs (advanceChannel channel?) fun _ => fs :=
    fenced_of_pooled advanceChannel_pooled.emits
  cases orgId with
  | none =>
      exact Shows.bind counted fun _ => Shows.bind
        (G := fun _ => .row (.opportunities, id) none :: fs) (Shows.refuse ⟨_, rfl⟩) fun _ =>
          Shows.bind fenced_flush fun _ => Shows.pure fun _ hf => hf
  | some orgId =>
      refine Shows.bind (Shows.find (fenced_lawful _)
        (fun o : Opportunity => [.row (.opportunities, o.id) (some orgId)]) ?_)
          fun opportunity? => ?_
      · intro view o ho f hf
        obtain rfl := List.mem_singleton.mp hf
        obtain ⟨hmem, rfl, -⟩ := of_find? ho
        exact List.mem_map_of_mem hmem
      · cases opportunity? with
        | some o => exact Shows.bind fenced_flush fun _ => Shows.pure fun _ hf => hf
        | none =>
            refine Shows.bind counted fun _ => Shows.bind (fenced_stage
              (G := fun _ => .row (.opportunities, id) (some orgId) :: fs) (Or.inl rfl) ?_)
                fun _ => Shows.bind fenced_flush fun _ => Shows.pure fun _ hf => hf
            intro g hg
            obtain rfl | hg := List.mem_cons.mp hg
            · exact Or.inr rfl
            · exact Or.inl hg

/-- A signal that is the fund's is linked, recorded and resolved within the fund. -/
theorem resolveOutboundSignal_fenced {env : Env} {orgId : Option Uuid} {fs : List FundFact}
    {sourceId : Uuid} {channel? : Option SourcingChannel} {ids : CandidateIds} {now : Timestamp}
    (hsignal : FundFact.row (.signals, ids.signal) orgId ∈ fs) :
    Fenced orgId fs (resolveOutboundSignal env orgId item sourceId channel? ids now) fun r =>
      .row (.opportunities, r.opportunityId) orgId :: fs := by
  refine Shows.bind (Shows.call _) fun _ => Shows.bind (fenced_of_pooled ensureCompany_pooled.emits)
    fun _ => Shows.bind (fenced_of_pooled ensureSignalPerson_pooled.emits) fun person? =>
      Shows.bind (Shows.bind (fenced_write (.row hsignal)) fun _ =>
        fenced_of_pooled linkPerson_pooled.emits) fun _ => Shows.bind (G := fun _ => fs) ?_ fun _ =>
          Shows.bind resolveOpportunity_fenced fun _ => Shows.pure fun _ hf => hf
  refine Shows.bind (Shows.call _) fun _ => Shows.bind (G := fun _ => fs) (Shows.ite
    (fun _ => Shows.pure fun _ hf => hf) fun _ => Shows.bind (fenced_of_reads (Reads.query _))
      fun _ => Shows.ite (fun _ => Shows.pure fun _ hf => hf) fun _ => fenced_write (Or.inl rfl))
        fun _ => ?_
  cases channel? with
  | none => exact Shows.pure fun _ hf => hf
  | some channel => exact fenced_of_pooled recordEdge_pooled.emits

theorem ingestItem_fenced {fs : List FundFact} {channel : SourcingChannel} {seq index : Nat} :
    Fenced job.orgId fs (ingestItem run job source channel seq index item) fun _ => fs := by
  let signal : FundFact := .row (.signals, (candidateIds run seq index).signal) job.orgId
  refine Shows.bind (Shows.call _) fun _ => Shows.bind (fenced_stage (G := fun _ => signal :: fs)
    (Or.inl rfl) ?_) fun _ => Shows.bind fenced_flush fun _ => Shows.bind
      (resolveOutboundSignal_fenced List.mem_cons_self) fun r => ?_
  · intro g hg
    obtain rfl | hg := List.mem_cons.mp hg
    · exact Or.inr rfl
    · exact Or.inl hg
  · refine Shows.bind (fenced_write ⟨Or.inl rfl, fun led hled => ?_, fun _ h => nomatch h⟩) fun _ =>
      Shows.bind fenced_flush fun _ => Shows.bind
        (fenced_of_pooled (Emits.stage fun _ _ => trivial)) fun _ => Shows.pure fun _ hf =>
          List.mem_cons_of_mem _ (List.mem_cons_of_mem _ hf)
    obtain ⟨-, ⟨id, hid, rfl⟩ | ⟨id, hid, -⟩ | ⟨id, hid, -⟩⟩ :=
      (Job.mem_leads (Job.forWorkers_of_opportunity rfl)).mp hled
    · cases hid
      exact .row List.mem_cons_self
    · cases hid
    · cases hid

theorem harvestItems_fenced {fs : List FundFact} {seq : Nat} {items : List NormalizedSignal}
    {index : Nat} {channel : SourcingChannel} {children : List Uuid} :
    Fenced job.orgId fs (harvestItems run job source seq items index channel children)
      fun _ => fs := by
  induction items generalizing index channel children with
  | nil => exact Shows.pure fun _ hf => hf
  | cons item items ih =>
      have once : Fenced job.orgId fs (harvestItem run job source channel seq index item)
          fun _ => fs :=
        Shows.bind (fenced_of_reads (Reads.query _)) fun _ => Shows.ite
          (fun _ => Shows.pure fun _ hf => hf) fun _ => Shows.bind ingestItem_fenced fun _ =>
            Shows.pure fun _ hf => hf
      refine Shows.bind (once.attempted (fenced_lawful _)) fun r => ?_
      cases r with
      | error e => exact Shows.pure fun _ hf => hf
      | ok child? =>
          cases child? with
          | none => exact ih
          | some child => exact ih

theorem ingestSource_fenced {fs : List FundFact} {key : String} {seq : Nat}
    {source? : Option Source} :
    Fenced job.orgId fs (ingestSource run job key seq source?) fun _ => fs := by
  refine Shows.bind ((fenced_of_pooled ensureSource_pooled.emits).attempted (fenced_lawful _))
    fun ensured => ?_
  cases ensured with
  | error e => exact Shows.pure fun _ hf => hf
  | ok u =>
      refine Shows.bind harvestItems_fenced ?_
      rintro ⟨children, ingested⟩
      cases ingested with
      | error e => exact Shows.pure fun _ hf => hf
      | ok u =>
          exact fenced_of_pooled (Emits.bind (Emits.attempt (Emits.bind
            (Emits.stage fun _ _ => trivial) fun _ => Emits.commit)) fun _ => Emits.pure _)

theorem harvestEnabled_fenced {fs : List FundFact} {key : String} {seq : Nat}
    {source? : Option Source} :
    Fenced job.orgId fs (harvestEnabled run job key seq source?) fun _ => fs := by
  refine Shows.bind ((Shows.call _).attempted (fenced_lawful _)) fun answered => ?_
  cases answered with
  | error e =>
      exact Shows.bind (fenced_of_pooled degradeSource_pooled) fun _ => Shows.pure fun _ hf => hf
  | ok u =>
      refine Shows.bind ingestSource_fenced ?_
      rintro ⟨children, ingested⟩
      cases ingested with
      | error e =>
          exact Shows.bind (fenced_of_pooled degradeSource_pooled) fun _ =>
            Shows.pure fun _ hf => hf
      | ok u => exact Shows.pure fun _ hf => hf

theorem harvestSources_fenced {total : Nat} {keys : List String} {seq : Nat} {h : Harvest} :
    Fenced job.orgId job.facts (harvestSources run job total keys seq h) fun _ => job.facts := by
  have step (key : String) (seq : Nat) (h : Harvest) :
      Fenced job.orgId job.facts (harvestSource run job total key seq h) fun _ => job.facts :=
    Shows.bind (fenced_of_reads (Reads.query _)) fun _ => Shows.ite
      (fun _ => Shows.bind (Shows.call _) fun _ => Shows.pure fun _ hf => hf) fun _ =>
        Shows.bind (Shows.finally' (fenced_lawful _) harvestEnabled_fenced (Emits.call _))
          fun _ => Shows.bind (fenced_write traced_job) fun _ => Shows.bind fenced_commit fun _ =>
            Shows.pure fun _ hf => hf
  induction keys generalizing seq h with
  | nil => exact Shows.pure fun _ hf => hf
  | cons key keys ih => exact Shows.bind (step key seq h) fun _ => ih

theorem processHarvest_fenced :
    Fenced job.orgId job.facts (processHarvest run job) fun _ => job.facts :=
  Shows.bind (Shows.call _) fun _ => Shows.bind harvestSources_fenced fun _ =>
    Shows.bind (fenced_write traced_job) fun _ => Shows.bind fenced_commit fun _ =>
      Shows.pure fun _ hf => hf

end Runs

section Analyses

variable {run : RunEnv} {job : Job} {o : Opportunity} {owner : Option Uuid} {fs : List FundFact}

/-- What is known once the opportunity has been loaded. -/
def Job.analysisFacts (job : Job) (o : Opportunity) : List FundFact :=
  .row (.opportunities, o.id) (some o.orgId) :: job.facts

/-- The opportunity is the one that the job leads to. -/
theorem loadTarget_fenced : Fenced job.orgId job.facts (loadTarget job) fun r =>
    job.analysisFacts r.1 := by
  unfold loadTarget
  cases job.targetId.or job.input.opportunityId with
  | none => exact Shows.throw
  | some id =>
      refine Shows.bind (Shows.find (fenced_lawful _)
        (fun o : Opportunity => [.row (.opportunities, o.id) (some o.orgId)]) ?_)
          fun opportunity? => ?_
      · intro view o ho f hf
        obtain rfl := List.mem_singleton.mp hf
        exact List.mem_map_of_mem (Table.mem_of_find? ho)
      · cases opportunity? with
        | none => exact Shows.throw
        | some o =>
            refine Shows.bind (fenced_of_reads (Reads.query _)) fun company? => ?_
            cases company? with
            | none => exact Shows.throw
            | some company => exact Shows.pure fun _ hf => hf

/-- The facts are about the rows of an analysis: that of the job, those that it leads to, and the
opportunity with its fund. -/
structure Anchored (owner : Option Uuid) (fs : List FundFact) (job : Job) (o : Opportunity) :
    Prop where
  own : Traced owner (fun f => f ∈ fs) (.jobs, job.id)
  opportunity : Traced owner (fun f => f ∈ fs) (.opportunities, o.id)
  named : .row (.opportunities, o.id) (some o.orgId) ∈ fs
  application : ∀ id, job.input.applicationId = some id →
    Traced owner (fun f => f ∈ fs) (.applications, id)
  document : ∀ id, job.input.documentId = some id → Traced owner (fun f => f ∈ fs) (.documents, id)

theorem Anchored.ofOwner (h : Anchored owner fs job o) :
    OfOwner owner (fun f => f ∈ fs) (some o.orgId) := Or.inr ⟨_, h.opportunity, h.named⟩

theorem job_anchored (hworkers : job.ForWorkers) (hkind : job.kind ≠ "ingest.harvest")
    (ho : job.opportunityId = some o.id) :
    Anchored job.orgId (job.analysisFacts o) job o := by
  have led {r : RowRef} (hr : (∃ id, job.opportunityId = some id ∧ (.opportunities, id) = r) ∨
      (∃ id, job.input.applicationId = some id ∧ (.applications, id) = r) ∨
        ∃ id, job.input.documentId = some id ∧ (.documents, id) = r) :
      Traced job.orgId (fun f => f ∈ job.analysisFacts o) r :=
    (traced_led ((Job.mem_leads hworkers).mpr ⟨hkind, hr⟩)).mono
      fun _ hf => List.mem_cons_of_mem _ hf
  constructor
  case own => exact traced_job.mono fun _ hf => List.mem_cons_of_mem _ hf
  case opportunity => exact led (Or.inl ⟨o.id, ho, rfl⟩)
  case named => exact List.mem_cons_self
  case application => exact fun id hid => led (Or.inr (Or.inl ⟨id, hid, rfl⟩))
  case document => exact fun id hid => led (Or.inr (Or.inr ⟨id, hid, rfl⟩))

/-- The copy that a step leaves is that of the same job. -/
theorem recordStep_fenced {seq : Nat} {action message : String} {progress : Rat}
    (h : Anchored owner fs job o) :
    EmitsTo (fun w => w.Within owner fun f => f ∈ fs) (fun copy => Anchored owner fs copy o)
      (recordStep run job seq action progress message) :=
  EmitsTo.bind (Emits.stage (by exact h.own)).to fun _ _ =>
    EmitsTo.bind (Emits.stage (by exact h.own)).to fun _ _ => EmitsTo.bind Emits.commit.to
      fun _ _ => EmitsTo.pure ⟨h.own, h.opportunity, h.named, h.application, h.document⟩

theorem assignStatus_fenced {a : Application} {status : ApplicationStatus}
    (ha : Traced owner (fun f => f ∈ fs) (.applications, a.id)) :
    Emits (fun w => w.Within owner fun f => f ∈ fs) (assignStatus a status) :=
  Emits.ite (fun _ => Emits.pure _) fun _ => Emits.stage (by exact ha)

theorem beginApplication_fenced (h : Anchored owner fs job o) :
    EmitsTo (fun w => w.Within owner fun f => f ∈ fs)
      (fun r => ∀ a, r = some a → Traced owner (fun f => f ∈ fs) (.applications, a.id))
      (beginApplication job) := by
  unfold beginApplication
  cases hid : job.input.applicationId with
  | none => exact EmitsTo.pure (by simp)
  | some id =>
      refine EmitsTo.bind (P := fun found => ∀ a, found = some a → a.id = id)
        (EmitsTo.query fun db a ha => (db.applications.find?_eq_some_iff.mp ha).2)
          fun found hfound => ?_
      cases found with
      | none => exact EmitsTo.pure (by simp)
      | some a =>
          have ha : Traced owner (fun f => f ∈ fs) (.applications, a.id) :=
            hfound a rfl ▸ h.application id hid
          refine EmitsTo.bind (assignStatus_fenced ha).to fun _ _ => EmitsTo.pure ?_
          rintro b hb
          cases hb
          exact ha

theorem ensurePrescreen_fenced {id : Uuid}
    (h : Traced owner (fun f => f ∈ fs) (.opportunities, id)) :
    Emits (fun w => w.Within owner fun f => f ∈ fs) (ensurePrescreen id) := by
  refine Emits.bind (Emits.query _) fun prescreen? => ?_
  cases prescreen? with
  | some p => exact Emits.pure _
  | none => exact Emits.bind (Emits.stage (by exact h)) fun _ => Emits.commit

theorem documentPages_fenced {document : Document}
    (h : Traced owner (fun f => f ∈ fs) (.documents, document.id)) :
    Emits (fun w => w.Within owner fun f => f ∈ fs) (documentPages run document) := by
  have pages (pages : List ParsedPage) :
      Emits (fun w => w.Within owner fun f => f ∈ fs) (addPages document pages) := by
    induction pages with
    | nil => exact Emits.pure _
    | cons page pages ih => exact Emits.bind (Emits.stage (by exact h)) fun _ => ih
  exact Emits.bind (Emits.query _) fun _ => Emits.ite (fun _ => Emits.pure _) fun _ =>
    Emits.bind (Emits.call _) fun _ => Emits.bind (pages _) fun _ =>
      Emits.bind Emits.flush fun _ => Emits.pure _

/-- The evidence is of a claim that names the fund of the opportunity. -/
theorem addClaims_fenced {document : Document} {items : List ExtractedClaim} {index : Nat}
    {created : List Claim} (h : Anchored owner fs job o) :
    Fenced owner fs (addClaims run document o items index created) fun _ => fs := by
  induction items generalizing index created with
  | nil => exact Shows.pure fun _ hf => hf
  | cons item items ih =>
      let claim : FundFact := .row (.claims, run.id (.claim index)) (some o.orgId)
      refine Shows.bind (Shows.call _) fun _ => Shows.bind (fenced_stage (G := fun _ => claim :: fs)
        h.ofOwner ?_) fun _ => Shows.bind fenced_flush fun _ => Shows.bind (fenced_stage
          (G := fun _ => fs) ?_ fun _ hf => Or.inl (List.mem_cons_of_mem _ hf)) fun _ => ih
      · intro g hg
        obtain rfl | hg := List.mem_cons.mp hg
        · exact Or.inr rfl
        · exact Or.inl hg
      · exact .alike (h.opportunity.mono fun _ hf => List.mem_cons_of_mem _ hf)
          (List.mem_cons_of_mem _ h.named) List.mem_cons_self

theorem parseAndExtract_fenced {document : Document} (h : Anchored owner fs job o)
    (hdocument : Traced owner (fun f => f ∈ fs) (.documents, document.id)) :
    Fenced owner fs (parseAndExtract run document o) fun _ => fs :=
  Shows.bind (Emits.shows (fenced_lawful owner) (documentPages_fenced hdocument)) fun _ =>
    Shows.bind (fenced_of_reads (Reads.query _)) fun _ => Shows.ite
      (fun _ => Shows.pure fun _ hf => hf) fun _ =>
        Shows.bind (fenced_of_pooled ensureDeckSource_pooled.emits) fun _ =>
          Shows.bind (Shows.call _) fun _ => Shows.bind (addClaims_fenced h) fun _ =>
            Shows.bind fenced_flush fun _ => Shows.pure fun _ hf => hf

/-- The document is the one that the job names. -/
theorem gatherClaims_fenced (h : Anchored owner fs job o) :
    Fenced owner fs (gatherClaims run job o) fun _ => fs := by
  refine Shows.bind (fenced_of_reads (Reads.query _)) fun claims => ?_
  cases hid : job.input.documentId with
  | none => exact Shows.pure fun _ hf => hf
  | some id =>
      refine Shows.andThen (P := fun found => ∀ r, found = some r → r.id = id)
        (fenced_of_reads (Reads.query _)) (EmitsTo.query (Φ := fun _ => True)
          fun db r hr => (db.documents.find?_eq_some_iff.mp hr).2) fun document? hfound => ?_
      cases document? with
      | none => exact Shows.pure fun _ hf => hf
      | some document =>
          refine Shows.bind (parseAndExtract_fenced h ?_) fun _ => Shows.bind fenced_commit
            fun _ => Shows.pure fun _ hf => hf
          rw [hfound document rfl]
          exact h.document id hid

theorem scoreAxes_fenced {claims : List Claim}
    (h : Traced owner (fun f => f ∈ fs) (.opportunities, o.id)) :
    Emits (fun w => w.Within owner fun f => f ∈ fs) (scoreAxes run o claims) := by
  have scores (axes : List AxisKind) (created : List OpportunityScore) :
      Emits (fun w => w.Within owner fun f => f ∈ fs) (addScores run o claims axes created) := by
    induction axes generalizing created with
    | nil => exact Emits.pure _
    | cons axis axes ih =>
        exact Emits.bind (Emits.query _) fun _ => Emits.bind (Emits.stage (by exact h))
          fun _ => ih _
  exact Emits.bind (Emits.call _) fun _ => Emits.bind (scores _ _) fun _ =>
    Emits.bind Emits.flush fun _ => Emits.pure _

theorem writeMemo_fenced {application? : Option Application} {recommendation : Recommendation}
    {sections : List MemoSection} (h : Anchored owner fs job o)
    (ha : ∀ a, application? = some a → Traced owner (fun f => f ∈ fs) (.applications, a.id)) :
    Emits (fun w => w.Within owner fun f => f ∈ fs)
      (writeMemo run o application? recommendation sections) := by
  refine Emits.bind (Emits.call _) fun _ => Emits.bind (Emits.query _) fun latest =>
    Emits.bind (Emits.stage ⟨h.ofOwner, h.opportunity⟩) fun _ =>
      Emits.bind (Emits.stage h.opportunity) fun _ => ?_
  cases application? with
  | none => exact Emits.commit
  | some a => exact Emits.bind (assignStatus_fenced (ha a rfl)) fun _ => Emits.commit

theorem analyse_fenced {company : Company} {application? : Option Application}
    (h : Anchored owner fs job o)
    (ha : ∀ a, application? = some a → Traced owner (fun f => f ∈ fs) (.applications, a.id)) :
    Fenced owner fs (analyse run job o company application?) fun _ => fs := by
  have within {α : Type} {p : DolphinVC.Tx α}
      (hp : Emits (fun w => w.Within owner fun f => f ∈ fs) p) :
      Fenced owner fs p fun _ => fs := Emits.shows (fenced_lawful owner) hp
  have step {α : Type} {copy : Job} {seq : Nat} {action message : String} {progress : Rat}
      {rest : Job → DolphinVC.Tx α} (h : Anchored owner fs copy o)
      (hrest : ∀ copy, Anchored owner fs copy o → Fenced owner fs (rest copy) fun _ => fs) :
      Fenced owner fs (recordStep run copy seq action progress message >>= rest) fun _ => fs :=
    Shows.andThen (within (recordStep_fenced h).emits) (recordStep_fenced h) hrest
  refine step h fun copy h => ?_
  refine Shows.bind (within (ensurePrescreen_fenced h.opportunity)) fun _ =>
    Shows.bind (gatherClaims_fenced h) fun claims => step h fun copy h => ?_
  refine Shows.bind (within (scoreAxes_fenced h.opportunity)) fun axes =>
    Shows.bind fenced_commit fun _ => step h fun copy h => ?_
  refine Shows.bind (within (Emits.bind (Emits.query _) fun _ => Emits.bind (Emits.call _)
    fun _ => Emits.ofExcept _)) fun fit =>
    Shows.bind (fenced_write h.opportunity) fun _ => Shows.bind (Shows.call _) fun _ =>
      step h fun copy h => ?_
  have scored {fit : Option Rat} : Anchored owner fs copy { o with thesisFit := fit } :=
    ⟨h.own, h.opportunity, h.named, h.application, h.document⟩
  refine Shows.bind (within (writeMemo_fenced scored ha)) fun _ => step h fun copy h => ?_
  exact Shows.bind (fenced_write h.own) fun _ => Shows.bind (fenced_write h.own) fun _ =>
    fenced_commit

theorem processAnalysis_fenced (hworkers : job.ForWorkers)
    (hkind : job.kind ≠ "ingest.harvest") :
    Fenced job.orgId job.facts (processAnalysis run job) fun _ => [] := by
  refine Shows.andThen loadTarget_fenced (loadTarget_returns (Φ := fun _ => True)) fun r ho => ?_
  obtain ⟨o, company⟩ := r
  have anchored : Anchored job.orgId (job.analysisFacts o) job o := job_anchored hworkers hkind ho
  have screening : Anchored job.orgId (job.analysisFacts o) job { o with stage := .screening } :=
    ⟨anchored.own, anchored.opportunity, anchored.named, anchored.application, anchored.document⟩
  refine Shows.bind (fenced_write anchored.opportunity) fun _ => Shows.andThen
    (Emits.shows (fenced_lawful _) (beginApplication_fenced anchored).emits)
      (beginApplication_fenced anchored) fun application? ha => ?_
  exact Shows.bind fenced_commit fun _ => Shows.drop (analyse_fenced screening ha)

end Analyses

section Jobs

variable {run : RunEnv} {job : Job}

theorem runBody_fenced (hworkers : job.ForWorkers) :
    Fenced job.orgId job.facts (runBody run job) fun _ => [] :=
  Shows.ite (fun _ => Shows.bind processHarvest_fenced fun _ =>
    Shows.drop (fenced_of_pooled dispatchChildren_emits)) fun hkind =>
      processAnalysis_fenced hworkers hkind

theorem facts_started {now : Timestamp} : (job.started now).facts = job.facts := rfl

/-- A run that has failed still knows its job. -/
theorem startJob_fenced (hworkers : job.ForWorkers) :
    Fenced job.orgId job.facts (startJob run job) fun _ => [] := by
  let started := job.started (run.now .start)
  have body : Fenced started.orgId started.facts (runBody run started) fun _ => [] :=
    runBody_fenced hworkers
  have failed (e : Exc) : Fenced started.orgId started.facts (failJob run started e) fun _ => [] :=
    Shows.drop (Shows.bind (fenced_write traced_job) fun _ => fenced_commit)
  rw [facts_started] at body
  refine Shows.bind (fenced_write traced_job) fun _ => Shows.bind fenced_commit fun _ =>
    Shows.handled (fenced_lawful _) body fun e => ?_
  have handler := failed e
  rwa [facts_started] at handler

/-- The job is stored, and it is for workers. -/
def Db.ForWorkers (db : Db) (jobId : Uuid) : Prop := ∃ j ∈ db.jobs, j.id = jobId ∧ j.ForWorkers

theorem Db.ForWorkers.reaches {db db' : Db} {jobId : Uuid} (h : db.ForWorkers jobId)
    (hr : backend.Reaches db db') : db'.ForWorkers jobId := by
  refine hr.keeps (P := fun db => db.ForWorkers jobId) (fun db w db' h happly => ?_) h
  have kept (j j' : Job) (keeps : j.Keeps j') :
      (j'.id = jobId ∧ j'.ForWorkers) ↔ (j.id = jobId ∧ j.ForWorkers) := by
    rw [Job.ForWorkers, Job.ForWorkers, keeps.id, keeps.targetType]
  exact (jobs_held kept happly).mpr (Or.inl h)

/-- What a run of this job commits is within the fund of the job. -/
def RunWithin (jobId : Uuid) (db : Db) (ws : List Write) : Prop :=
  ∃ owner, db.Owns (.jobs, jobId) owner ∧ (fenced owner).Sound db ws

theorem processJob_within (run : RunEnv) {jobId : Uuid} {db : Db} (given : db.ForWorkers jobId) :
    (processJob run jobId).run.Relies backend (RunWithin jobId) (fun _ _ _ => True) db {} := by
  refine relies_query_bind (fun _ _ => trivial) fun db view hr _ hview => ?_
  obtain rfl : db = view := Except.ok.inj hview
  cases hfind : db.jobs.find? jobId with
  | none => trivial
  | some job =>
      dsimp only
      split
      · trivial
      · obtain rfl := Table.key_of_find? hfind
        have hmem := Table.mem_of_find? hfind
        have hworkers : job.ForWorkers := by
          obtain ⟨j, hj, hid, h⟩ := given.reaches hr
          rwa [Table.eq_of_key hj hmem hid] at h
        have own : db.Owns (.jobs, job.id) job.orgId := List.mem_map_of_mem hmem
        have known : (fenced job.orgId).Knows job.facts db ({} : Session Write) := by
          refine .start fun f hf => ?_
          obtain rfl | hf := List.mem_cons.mp hf
          · exact own
          · obtain ⟨l, hl, rfl⟩ := List.mem_map.mp hf
            exact Or.inr (Or.inr ⟨job, hmem, hl⟩)
        have fits : Fenced job.orgId job.facts (startJob run job) fun _ => [] :=
          startJob_fenced hworkers
        have committed := (fits db {} known).holding
          (S := fun db => db.Owns (.jobs, job.id) job.orgId)
          (fun _ _ _ happly h => (owns_apply happly).mpr (Or.inl h)) own
        exact (committed.weaken fun _ _ h => ⟨job.orgId, h⟩).mono fun _ _ _ _ => trivial

end Jobs

end DolphinVC
