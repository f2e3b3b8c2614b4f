import DolphinVC.Routers.Applications
import DolphinVC.Routers.Founders
import DolphinVC.Routers.Memos
import DolphinVC.Routers.Operations
import DolphinVC.Verification.FundRows
import DolphinVC.Verification.JobWrites
import DolphinVC.Verification.References

/-!
# Requests stay within a fund

Whatever a request writes is about rows that a principal's fund owns, or that rows of the fund
lead to: it has looked them up by fund, or created them. So in a database whose links stay within
funds, a request changes rows of that fund only, and adds no link that leaves it.
-/

namespace DolphinVC

open Relational Transaction Transition Tx

section Pooled

variable {env : Env} {run : RunEnv} {item : NormalizedSignal} {d : DealDraws}
variable {form : ApplicationForm} {company : Company} {now : Timestamp}

/-- The write is about no row of a fund. -/
def Write.Pooled (w : Write) : Prop := ∀ owner K, w.Within owner K

theorem insertCompany_pooled : Stages Write.Pooled (insertCompany company) :=
  Stages.bind (Stages.stage fun _ _ => trivial) fun _ => Stages.bind Stages.flush fun _ =>
    Stages.pure _

theorem insertPerson_pooled {person : Person} : Stages Write.Pooled (insertPerson person) :=
  Stages.bind (Stages.stage fun _ _ => trivial) fun _ => Stages.bind Stages.flush fun _ =>
    Stages.pure _

theorem ensureCompany_pooled {id : Uuid} : Stages Write.Pooled (ensureCompany env item id) := by
  refine Stages.bind (reads_findLiveCompany env item).stages fun company? => ?_
  cases company? with
  | some company => exact Stages.pure _
  | none => exact insertCompany_pooled

theorem ensureSignalPerson_pooled {signalId id : Uuid} :
    Stages Write.Pooled (ensureSignalPerson env item signalId id) := by
  unfold ensureSignalPerson
  cases bestHint item.identities with
  | none => exact Stages.pure _
  | some hint =>
      refine Stages.bind (Stages.bind (Stages.query _) fun person? => ?_) fun person =>
        Stages.bind (Stages.bind (Stages.query _) fun _ => Stages.ite (fun _ => Stages.pure _)
          fun _ => Stages.stage fun _ _ => trivial) fun _ => Stages.pure _
      cases person? with
      | some person => exact Stages.pure _
      | none => exact insertPerson_pooled

theorem ensureAffiliation_pooled {personId companyId : Uuid} {confidence : Rat} :
    Stages Write.Pooled (ensureAffiliation personId companyId confidence) := by
  refine Stages.bind (Stages.query _) fun existing? => ?_
  cases existing? with
  | none => exact Stages.stage fun _ _ => trivial
  | some existing => exact Stages.stage fun _ _ => trivial

theorem pooled_of_scoring {α : Type} {p : DolphinVC.Tx α} (h : Stages Write.Scoring p) :
    Stages Write.Pooled p := by
  refine h.weaken fun w hw owner K => ?_
  cases w with
  | _ => first | exact trivial | exact hw.elim

theorem linkPerson_pooled {person? : Option Person} {companyId signalId : Uuid} :
    Stages Write.Pooled (match person? with
      | none => pure ()
      | some person => do
          ensureAffiliation person.id companyId (65 / 100)
          recordFounderEvents env person.id signalId item now : DolphinVC.Tx Unit) := by
  cases person? with
  | none => exact Stages.pure _
  | some person =>
      exact Stages.bind ensureAffiliation_pooled fun _ =>
        pooled_of_scoring recordFounderEvents_stages

theorem recordEdge_pooled {channelId companyId id : Uuid} {person? : Option Person} :
    Stages Write.Pooled (recordEdge channelId person? companyId id) :=
  Stages.bind (Stages.query _) fun _ => Stages.ite (fun _ => Stages.pure _) fun _ =>
    Stages.stage fun _ _ => trivial

theorem advanceChannel_pooled {channel? : Option SourcingChannel} :
    Stages Write.Pooled (advanceChannel channel?) := by
  cases channel? with
  | none => exact Stages.pure _
  | some channel => exact Stages.bind (Stages.stage fun _ _ => trivial) fun _ => Stages.pure _

theorem ensureSource_pooled {key : String} {seq : Nat} {source? : Option Source} :
    Stages Write.Pooled (ensureSource run key seq source?) := by
  have channel {source : Source} : Stages Write.Pooled (ensureChannel run source seq) := by
    refine Stages.bind (Stages.query _) fun channel? => ?_
    cases channel? with
    | some channel => exact Stages.pure _
    | none => exact Stages.bind (Stages.stage fun _ _ => trivial) fun _ => Stages.pure _
  cases source? with
  | some source => exact channel
  | none =>
      exact Stages.bind (Stages.stage fun _ _ => trivial) fun _ => Stages.bind Stages.flush fun _ =>
        channel

theorem degradeSource_pooled {seq : Nat} {source? : Option Source} {e : Exc} :
    Emits Write.Pooled (degradeSource run seq source? e) := by
  cases source? with
  | none => exact Emits.pure _
  | some source => exact Emits.bind (Emits.stage fun _ _ => trivial) fun _ => Emits.commit

theorem ensureDeckSource_pooled : Stages Write.Pooled (ensureDeckSource run) := by
  refine Stages.bind (Stages.query _) fun source? => ?_
  cases source? with
  | some source => exact Stages.pure _
  | none =>
      exact Stages.bind (Stages.stage fun _ _ => trivial) fun _ => Stages.bind Stages.flush fun _ =>
        Stages.pure _

theorem applicationCompany_pooled {id : Uuid} :
    Stages Write.Pooled (applicationCompany env form id) := by
  refine Stages.bind (reads_findCompany _ _).stages fun company? => ?_
  cases company? with
  | some company => exact Stages.pure _
  | none => exact insertCompany_pooled

theorem applicationFounder_pooled {id : Uuid} :
    Stages Write.Pooled (applicationFounder env company form id) := by
  refine Stages.bind (reads_findFounder _ _ _).stages fun person? => ?_
  cases person? with
  | none => exact insertPerson_pooled
  | some person =>
      refine Stages.bind ?_ fun _ => Stages.pure _
      unfold addContactEmail
      cases (given form.contactEmail).map env.casefold with
      | none => exact Stages.pure _
      | some email =>
          exact Stages.ite (fun _ => Stages.pure _) fun _ => Stages.stage fun _ _ => trivial

theorem ensureApplicationFounder_pooled :
    Stages Write.Pooled (ensureApplicationFounder env company form d) :=
  Stages.bind (Stages.call _) fun _ => Stages.bind applicationFounder_pooled fun _ =>
    Stages.bind ensureAffiliation_pooled fun _ => Stages.bind Stages.flush fun _ =>
      Stages.bind (Stages.ite (fun _ => Stages.pure _) fun _ => Stages.bind (Stages.query _)
        fun _ => Stages.ite (fun _ => Stages.pure _) fun _ => Stages.stage fun _ _ => trivial)
        fun _ => Stages.bind Stages.flush fun _ =>
          Stages.bind (pooled_of_scoring recomputeFounderScore_stages) fun _ => Stages.pure _

theorem manualCompany_pooled {ref : CompanyRef} {id : Uuid} :
    Stages Write.Pooled (manualCompany env ref id) := by
  cases ref with
  | id companyId =>
      refine Stages.bind (Stages.query _) fun company? => ?_
      cases company? with
      | none => exact (Reads.throw _).stages
      | some company => exact Stages.pure _
  | name companyName =>
      refine Stages.bind (Stages.query _) fun company? => ?_
      cases company? with
      | some company => exact Stages.pure _
      | none => exact insertCompany_pooled

end Pooled

section Fenced

variable {α : Type} {owner : Option Uuid} {fs : List FundFact} {p : DolphinVC.Tx α}
variable {G : α → List FundFact} {db db' base : Db} {w : Write}

/-- The program writes within the owner's fund, as far as it writes rows of funds. -/
abbrev Fenced (owner : Option Uuid) (fs : List FundFact) (p : DolphinVC.Tx α)
    (G : α → List FundFact) : Prop := Shows (fenced owner) backend fs p G

theorem fenced_of_pooled (h : Emits Write.Pooled p) : Fenced owner fs p fun _ => fs :=
  Emits.shows (fenced_lawful owner) (h.weaken fun _ hw => hw owner _)

theorem fenced_of_reads (h : Reads p) : Fenced owner fs p fun _ => fs := fenced_of_pooled h.emits

theorem fenced_stage {G : Unit → List FundFact} (fits : w.Within owner fun f => f ∈ fs)
    (provides : ∀ g ∈ G (), g ∈ fs ∨ w.Attests g) : Fenced owner fs (Tx.stage w) G :=
  Shows.stage (fenced_lawful owner) fits provides

theorem fenced_write (fits : w.Within owner fun f => f ∈ fs) :
    Fenced owner fs (Tx.stage w) fun _ => fs := fenced_stage fits fun _ hg => Or.inl hg

theorem fenced_flush : Fenced owner fs (Tx.flush : DolphinVC.Tx Unit) fun _ => fs :=
  fenced_of_pooled Emits.flush

theorem fenced_commit : Fenced owner fs (Tx.commit : DolphinVC.Tx Unit) fun _ => fs :=
  fenced_of_pooled Emits.commit

theorem fenced_dispatch {queueEager : Bool} {id : Uuid} :
    Fenced owner fs (dispatchJob queueEager id) fun _ => fs := fenced_of_pooled dispatchJob_emits

/-- No link leaves a fund, and what other funds than the owner have is as it was. -/
structure KeepsOthers (owner : Option Uuid) (base db : Db) : Prop where
  linked : Linked db
  funds : ∀ other, owner ≠ some other → db.fund other = base.fund other

theorem KeepsOthers.apply (h : KeepsOthers owner base db) (hw : w.Within owner fun f => f.Holds db)
    (happly : db.apply w = .ok db') : KeepsOthers owner base db' :=
  ⟨h.linked.apply hw happly, fun other hother =>
    (within_apply h.linked hw hother happly).trans (h.funds other hother)⟩

theorem Linked.keepsOthers (linked : Linked db) : KeepsOthers owner db db :=
  ⟨linked, fun _ _ => rfl⟩

theorem Fenced.keeps (h : Fenced owner fs p G) (known : ∀ f ∈ fs, f.Holds db) (linked : Linked db) :
    KeepsOthers owner db (p.atomically backend db).2 :=
  Shows.atomically (fenced_lawful owner) h known
    (fun _ _ _ hI fits happly => hI.apply fits happly) linked.keepsOthers

end Fenced

section Lookups

variable {owner : Option Uuid} {fs : List FundFact} {orgId : Uuid}

theorem of_find? {ρ : Type} {rows : List ρ} {p : ρ → Prop} [DecidablePred p] {r : ρ}
    (h : rows.find? (fun r => decide (p r)) = some r) : r ∈ rows ∧ p r :=
  ⟨List.mem_of_find?_eq_some h, of_decide_eq_true (List.find?_some (p := fun r => decide (p r)) h)⟩

theorem getOpportunity_fenced {opportunityId : Uuid} :
    Fenced owner fs (getOpportunity orgId opportunityId) fun o =>
      .row (.opportunities, o.id) (some orgId) ::
        .row (.opportunities, opportunityId) (some orgId) :: fs := by
  refine Shows.found (fenced_lawful owner) (fun o : Opportunity =>
    [.row (.opportunities, o.id) (some orgId), .row (.opportunities, opportunityId) (some orgId)])
    ⟨_, rfl⟩ (fun _ => rfl) ?_
  intro view o ho f hf
  obtain ⟨hmem, rfl, rfl⟩ := of_find? ho
  simp only [List.mem_cons, List.not_mem_nil, or_false, or_self] at hf
  subst hf
  exact List.mem_map_of_mem hmem

theorem getMemo_fenced {memoId : Uuid} :
    Fenced owner fs (getMemo orgId memoId) fun m =>
      .row (.memos, m.id) (some orgId) ::
        .link ((.memos, m.id), (.opportunities, m.opportunityId)) :: fs := by
  refine Shows.found (fenced_lawful owner) (fun m : Memo => [.row (.memos, m.id) (some orgId),
    .link ((.memos, m.id), (.opportunities, m.opportunityId))]) ⟨_, rfl⟩ (fun _ => rfl) ?_
  intro view m hm f hf
  obtain ⟨hmem, -, rfl⟩ := of_find? hm
  simp only [List.mem_cons, List.not_mem_nil, or_false] at hf
  obtain rfl | rfl := hf
  · exact List.mem_map_of_mem hmem
  · exact Or.inr (Or.inl ⟨m, hmem, List.mem_singleton.mpr rfl⟩)

theorem getApplication_fenced {applicationId : Uuid} :
    Fenced owner fs (getApplication orgId applicationId) fun a =>
      .row (.applications, a.id) (some orgId) :: fs := by
  refine Shows.found (fenced_lawful owner)
    (fun a : Application => [.row (.applications, a.id) (some orgId)]) ⟨_, rfl⟩ (fun _ => rfl) ?_
  intro view a ha f hf
  obtain rfl := List.mem_singleton.mp hf
  obtain ⟨hmem, -, rfl⟩ := of_find? ha
  exact List.mem_map_of_mem hmem

theorem getJob_fenced {jobId : Uuid} :
    Fenced owner fs (getJob orgId jobId) fun j => .row (.jobs, j.id) (some orgId) :: fs := by
  refine Shows.found (fenced_lawful owner) (fun j : Job => [.row (.jobs, j.id) (some orgId)])
    ⟨_, rfl⟩ (fun _ => rfl) ?_
  intro view j hj f hf
  obtain rfl := List.mem_singleton.mp hf
  obtain ⟨hmem, -, horg⟩ := of_find? hj
  exact horg ▸ List.mem_map_of_mem hmem

theorem getThesis_fenced {thesisId : Uuid} :
    Fenced owner fs (getThesis orgId thesisId) fun t =>
      .row (.theses, t.id) (some orgId) :: fs := by
  refine Shows.found (fenced_lawful owner) (fun t : Thesis => [.row (.theses, t.id) (some orgId)])
    ⟨_, rfl⟩ (fun _ => rfl) ?_
  intro view t ht f hf
  obtain rfl := List.mem_singleton.mp hf
  obtain ⟨hmem, -, rfl⟩ := of_find? ht
  exact List.mem_map_of_mem hmem

theorem getOutreach_fenced {outreachId : Uuid} :
    Fenced owner fs (getOutreach orgId outreachId) fun o =>
      .row (.outreach, o.id) (some orgId) :: fs := by
  refine Shows.found (fenced_lawful owner)
    (fun o : Outreach => [.row (.outreach, o.id) (some orgId)]) ⟨_, rfl⟩ (fun _ => rfl) ?_
  intro view o ho f hf
  obtain rfl := List.mem_singleton.mp hf
  obtain ⟨hmem, -, rfl⟩ := of_find? ho
  exact List.mem_map_of_mem hmem

end Lookups

section Creators

variable {owner : Option Uuid} {fs : List FundFact} {env : Env} {orgId : Uuid} {company : Company}
variable {d : DealDraws} {form : ApplicationForm} {submission : Submission}

theorem applicationDocument_fenced {deck? : Option Deck} {companyId id : Uuid} :
    Fenced (some submission.orgId) fs (applicationDocument submission deck? companyId id) fun r =>
      (r.map fun id => FundFact.row (.documents, id) (some submission.orgId)).toList ++ fs := by
  cases deck? with
  | none => exact Shows.pure (by simp)
  | some deck =>
      refine Shows.bind (Shows.call _) fun _ => Shows.bind (Shows.find (fenced_lawful _)
        (fun r : Document => [.row (.documents, r.id) (some submission.orgId)]) ?_)
          fun document? => ?_
      · intro view r hr f hf
        obtain rfl := List.mem_singleton.mp hf
        obtain ⟨hmem, horg, -⟩ := of_find? hr
        exact horg ▸ List.mem_map_of_mem hmem
      · cases document? with
        | some document => exact Shows.pure fun _ hf => hf
        | none =>
            refine Shows.bind (Shows.call _) fun _ => Shows.bind (fenced_stage
              (G := fun _ => .row (.documents, id) (some submission.orgId) :: fs) ?_ ?_) fun _ =>
                Shows.bind fenced_flush fun _ => Shows.pure fun _ hf => hf
            · exact Or.inl rfl
            · intro g hg
              obtain rfl | hg := List.mem_cons.mp hg
              · exact Or.inr rfl
              · exact Or.inl hg

theorem applicationOpportunity_fenced :
    Fenced (some orgId) fs (applicationOpportunity env orgId company d) fun id =>
      .row (.opportunities, id) (some orgId) :: fs := by
  refine Shows.bind (Shows.find (fenced_lawful _)
    (fun o : Opportunity => [.row (.opportunities, o.id) (some orgId)]) ?_) fun opportunity? => ?_
  · intro view o ho f hf
    obtain rfl := List.mem_singleton.mp hf
    obtain ⟨hmem, rfl, -⟩ := of_find? ho
    exact List.mem_map_of_mem hmem
  · cases opportunity? with
    | some o => exact Shows.pure fun _ hf => hf
    | none =>
        refine Shows.bind (fenced_of_reads (Reads.query _)) fun thesis? => Shows.bind (fenced_stage
          (G := fun _ => .row (.opportunities, d.opportunityId) (some orgId) :: fs) ?_ ?_)
            fun _ => Shows.bind fenced_flush fun _ => Shows.pure fun _ hf => hf
        · exact Or.inl rfl
        · intro g hg
          obtain rfl | hg := List.mem_cons.mp hg
          · exact Or.inr rfl
          · exact Or.inl hg

theorem createApplication_fenced (horg : submission.orgId = orgId) :
    Fenced (some orgId) [] (createApplication env form submission d) fun _ => [] := by
  subst horg
  refine Shows.bind (fenced_of_reads validateApplication_reads) fun _ =>
    Shows.bind (fenced_of_reads (Reads.query _)) fun prior? => ?_
  cases prior? with
  | some prior => exact Shows.pure fun _ hf => hf
  | none =>
      refine Shows.bind (fenced_of_pooled applicationCompany_pooled.emits) fun company =>
        Shows.bind applicationDocument_fenced fun documentId =>
          Shows.bind applicationOpportunity_fenced fun opportunityId => ?_
      let facts : List FundFact := .row (.opportunities, opportunityId) (some submission.orgId) ::
        ((documentId.map fun id => .row (.documents, id) (some submission.orgId)).toList ++ [])
      have opportunity {K : FundFact → Prop} (weaken : ∀ f ∈ facts, K f) :
          Traced (some submission.orgId) K (.opportunities, opportunityId) :=
        .row (weaken _ List.mem_cons_self)
      have document {K : FundFact → Prop} (weaken : ∀ f ∈ facts, K f) {id : Uuid}
          (hid : documentId = some id) : Traced (some submission.orgId) K (.documents, id) :=
        .row (weaken _ (by simp [facts, hid]))
      refine Shows.bind (fenced_of_pooled ensureApplicationFounder_pooled.emits) fun _ =>
        Shows.bind (fenced_stage
          (G := fun _ => .row (.applications, d.applicationId) (some submission.orgId) :: facts)
          ⟨Or.inl rfl, ?deck⟩ ?_) fun _ => Shows.bind fenced_flush fun _ =>
            Shows.bind (fenced_write ⟨Or.inl rfl, ?job, fun _ h => nomatch h⟩) fun _ =>
              Shows.bind fenced_flush fun _ => Shows.pure (by simp)
      case deck =>
        intro r hr
        obtain ⟨id, hid, rfl⟩ | ⟨id, hid, rfl⟩ := Application.mem_leads.mp hr
        · cases hid
          exact opportunity fun _ hf => hf
        · exact document (fun _ hf => hf) hid
      case job =>
        intro r hr
        have kept : ∀ f ∈ facts,
            f ∈ .row (.applications, d.applicationId) (some submission.orgId) :: facts :=
          fun _ hf => List.mem_cons_of_mem _ hf
        obtain ⟨-, ⟨id, hid, rfl⟩ | ⟨id, hid, rfl⟩ | ⟨id, hid, rfl⟩⟩ :=
          (Job.mem_leads (Job.forWorkers_of_opportunity rfl)).mp hr
        · cases hid
          exact opportunity kept
        · cases hid
          exact .row List.mem_cons_self
        · exact document kept hid
      · intro g hg
        obtain rfl | hg := List.mem_cons.mp hg
        · exact Or.inr rfl
        · exact Or.inl hg

theorem createManualOpportunity_fenced {body : OpportunityCreate} :
    Fenced (some orgId) fs (createManualOpportunity env orgId body d) fun _ => fs :=
  Shows.bind (fenced_of_pooled manualCompany_pooled.emits) fun _ =>
    Shows.bind (fenced_of_reads (Reads.query _)) fun _ => Shows.ite
      (fun _ => Shows.throw) fun _ => Shows.bind (fenced_write (Or.inl rfl)) fun _ =>
        Shows.bind fenced_flush fun _ => Shows.pure fun _ hf => hf

end Creators

section Starters

variable {owner : Option Uuid} {fs : List FundFact} {env : Env} {d : DealDraws}
variable {opportunityId : Uuid}

theorem createJob_fenced {request : JobRequest} {orgId id : Uuid} {now : Timestamp}
    (horg : request.orgId = orgId)
    (hleads : ∀ r ∈ (request.row id now).leads, Traced (some orgId) (fun f => f ∈ fs) r) :
    Fenced (some orgId) fs (createJob request id now) fun _ => fs := by
  subst horg
  refine Shows.bind (fenced_of_reads (Reads.query _)) fun existing? => ?_
  cases existing? with
  | some job => exact Shows.pure fun _ hf => hf
  | none =>
      exact Shows.bind (fenced_write ⟨Or.inl rfl, hleads, fun _ h => nomatch h⟩) fun _ =>
        Shows.bind fenced_flush fun _ => Shows.pure fun _ hf => hf

theorem acceptJob_fenced {request : JobRequest} {orgId : Uuid} (horg : request.orgId = orgId)
    (hleads : ∀ r ∈ (request.row d.jobId d.now).leads, Traced (some orgId) (fun f => f ∈ fs) r) :
    Fenced (some orgId) fs (acceptJob env d request) fun _ => fs := by
  refine Shows.bind (createJob_fenced horg hleads) ?_
  rintro ⟨job, replayed⟩
  refine Shows.bind fenced_commit fun _ => ?_
  cases replayed with
  | true => exact Shows.pure fun _ hf => hf
  | false => exact Shows.bind fenced_dispatch fun _ => Shows.pure fun _ hf => hf

theorem mem_of_foldl {ρ : Type} {rows : List ρ} {pick : Option ρ → ρ → Option ρ} {r : ρ}
    (hpick : ∀ best r, pick best r = some r ∨ pick best r = best)
    (h : rows.foldl pick none = some r) : r ∈ rows := by
  have chosen (rows : List ρ) (best : Option ρ) (h : rows.foldl pick best = some r) :
      r ∈ rows ∨ best = some r := by
    induction rows generalizing best with
    | nil => exact Or.inr h
    | cons s rows ih =>
        obtain hmem | hbest := ih _ h
        · exact Or.inl (List.mem_cons_of_mem s hmem)
        · obtain hnew | hold := hpick best s
          · cases hnew.symm.trans hbest
            exact Or.inl List.mem_cons_self
          · exact Or.inr (hold.symm.trans hbest)
  exact (chosen rows none h).resolve_right (by simp)

theorem of_latestApplication {a : Application} {db : Db}
    (h : latestApplication opportunityId db = some a) :
    a ∈ db.applications ∧ a.opportunityId = some opportunityId := by
  have hmem := mem_of_foldl (fun best a => ?_) h
  · obtain ⟨ha, hopportunity⟩ := List.mem_filter.mp hmem
    exact ⟨ha, of_decide_eq_true hopportunity⟩
  · cases best with
    | none => exact Or.inl rfl
    | some l =>
        dsimp only
        split
        · exact Or.inl rfl
        · exact Or.inr rfl

/-- The way from the opportunity to its latest application and on to the deck. -/
def JobInput.facts (opportunityId : Uuid) (input : JobInput) : List FundFact :=
  input.applicationId.toList.flatMap fun a =>
    .link ((.opportunities, opportunityId), (.applications, a)) ::
      input.documentId.toList.map fun document => .link ((.applications, a), (.documents, document))

/-- The application and its deck are given together, or not at all. -/
def JobInput.Deck (input : JobInput) : Prop := input.applicationId = none → input.documentId = none

theorem jobTargetInput_fenced {kind : AnalysisKind} :
    Fenced owner fs (jobTargetInput kind opportunityId) fun input =>
      input.facts opportunityId ++ fs := by
  refine Shows.ite (fun _ => ?_) fun _ => Shows.pure fun _ hf => hf
  refine Shows.bind (Shows.find (fenced_lawful owner) (fun a : Application =>
    .link ((.opportunities, opportunityId), (.applications, a.id)) ::
      a.deckDocumentId.toList.map fun document =>
        .link ((.applications, a.id), (.documents, document))) ?_) fun application? => ?_
  · intro view a ha f hf
    obtain ⟨hmem, hopportunity⟩ := of_latestApplication ha
    obtain rfl | hf := List.mem_cons.mp hf
    · exact Or.inl ⟨a, hmem, List.mem_append_right _ (by simp [hopportunity])⟩
    · obtain ⟨document, hdocument, rfl⟩ := List.mem_map.mp hf
      refine Or.inl ⟨a, hmem, List.mem_append_left _ (List.mem_map_of_mem ?_)⟩
      exact Application.mem_leads.mpr (Or.inr ⟨document, Option.mem_toList.mp hdocument, rfl⟩)
  · cases application? with
    | none => exact Shows.pure fun _ hf => hf
    | some a =>
        dsimp only
        cases hdeck : a.deckDocumentId with
        | none => exact Shows.pure fun _ hf => List.mem_append_right _ hf
        | some document => exact Shows.pure (by simp [JobInput.facts, hdeck])

theorem jobTargetInput_deck {kind : AnalysisKind} {Φ : Write → Prop} :
    EmitsTo Φ JobInput.Deck (jobTargetInput kind opportunityId) := by
  unfold jobTargetInput
  split
  · refine EmitsTo.bind (Emits.query _).to fun application? _ => ?_
    cases application? with
    | none => exact EmitsTo.pure fun _ => rfl
    | some a =>
        dsimp only
        cases a.deckDocumentId with
        | none => exact EmitsTo.pure fun _ => rfl
        | some document => exact EmitsTo.pure fun h => nomatch h
  · exact EmitsTo.pure fun _ => rfl

/-- A job on an opportunity leads to it, to its application and to the deck. -/
theorem traced_leads {request : JobRequest} {id : Uuid} {now : Timestamp} {K : FundFact → Prop}
    (htype : request.targetType = "opportunity") (hdeck : request.input.Deck)
    (hrow : K (.row (.opportunities, request.targetId) (some request.orgId)))
    (hfacts : ∀ f ∈ request.input.facts request.targetId, K f) :
    ∀ r ∈ (request.row id now).leads, Traced (some request.orgId) K r := by
  have application {a : Uuid} (ha : request.input.applicationId = some a) :
      Traced (some request.orgId) K (.applications, a) :=
    .link (.row hrow) (hfacts _ (by simp [JobInput.facts, ha]))
  intro r hr
  obtain ⟨-, ⟨target, htarget, rfl⟩ | ⟨a, ha, rfl⟩ | ⟨document, hdocument, rfl⟩⟩ :=
    (Job.mem_leads (Job.forWorkers_of_opportunity (congrArg some htype))).mp hr
  · cases htarget
    exact .row hrow
  · exact application ha
  · have hdocument : request.input.documentId = some document := hdocument
    cases ha : request.input.applicationId with
    | none => exact absurd (hdocument.symm.trans (hdeck ha)) (by simp)
    | some a => exact .link (application ha) (hfacts _ (by simp [JobInput.facts, ha, hdocument]))

end Starters

section Requests

variable {env : Env} {credentials : Option Credentials} {now : Timestamp} {d : DealDraws} {db : Db}

/-- The credentials are those of a principal of the fund. -/
def ActsIn (env : Env) (db : Db) (credentials : Option Credentials) (now : Timestamp)
    (orgId : Uuid) : Prop :=
  ∃ permission principal, Admits env db permission credentials now principal ∧
    principal.orgId = orgId

/-- No link leaves a fund, and only funds that are acted for have changed. -/
structure Confined (acts : Uuid → Prop) (base db : Db) : Prop where
  linked : Linked db
  funds : ∀ orgId, db.fund orgId ≠ base.fund orgId → acts orgId

theorem KeepsOthers.confined {acts : Uuid → Prop} {owner : Option Uuid} {base : Db}
    (h : KeepsOthers owner base db) (hacts : ∀ orgId, owner = some orgId → acts orgId) :
    Confined acts base db := by
  refine ⟨h.linked, fun orgId hchanged => hacts orgId ?_⟩
  by_contra hother
  exact hchanged (h.funds orgId hother)

/-- A request that is for a principal, and then stays within the principal's fund. -/
theorem confined_of_require {α : Type} {permission : Permission}
    {rest : Principal → DolphinVC.Tx α} (linked : Linked db)
    (h : ∀ principal, Admits env db permission credentials now principal →
      KeepsOthers (some principal.orgId) db ((rest principal).atomically backend db).2) :
    Confined (ActsIn env db credentials now) db
      ((require permission env credentials now >>= rest).atomically backend db).2 := by
  refine (Tx.atomically_iff (P := fun _ db' => Confined _ db db')).mpr ?_
  refine Tx.Reads.wp_bind (reads_require _ _ _ _) (fun _ => ⟨linked, fun _ h => absurd rfl h⟩)
    fun principal hprincipal => ?_
  refine (Tx.atomically_iff (P := fun _ db' => Confined _ db db')).mp
    ((h principal hprincipal).confined ?_)
  rintro orgId horg
  exact ⟨permission, principal, hprincipal, Option.some.inj horg⟩

theorem Fenced.served {α : Type} {owner : Option Uuid} {p : DolphinVC.Tx α}
    {G : α → List FundFact} (h : Fenced owner [] p G) (linked : Linked db) :
    KeepsOthers owner db (p.atomically backend db).2 :=
  h.keeps (fun _ hf => absurd hf List.not_mem_nil) linked

theorem createOpportunity_confined {body : OpportunityCreate} (linked : Linked db) :
    Confined (ActsIn env db credentials d.now) db
      ((createOpportunityEndpoint env credentials d body).atomically backend db).2 :=
  confined_of_require linked fun _ _ => Fenced.served (Shows.bind createManualOpportunity_fenced
    fun _ => Shows.bind fenced_commit fun _ => fenced_of_reads (reads_refreshedDetail _)) linked

theorem updateOpportunity_confined {opportunityId : Uuid} {body : OpportunityUpdate}
    {ifMatch : Option String} (linked : Linked db) :
    Confined (ActsIn env db credentials d.now) db
      ((updateOpportunityEndpoint env credentials d opportunityId body ifMatch).atomically
        backend db).2 := by
  refine confined_of_require linked fun principal _ => Fenced.served (G := fun _ => []) ?_ linked
  refine Shows.bind getOpportunity_fenced fun o => Shows.ite (fun _ => Shows.throw) fun _ => ?_
  have rest : Emits Write.Pooled (do
      Tx.commit
      let opportunity ← refreshRow fun db => db.opportunities.find? o.id
      buildDetail opportunity) :=
    Emits.bind Emits.commit fun _ => (reads_refreshedDetail _).emits
  refine Shows.drop (Shows.bind (fenced_write (.row List.mem_cons_self)) fun _ =>
    fenced_of_pooled ?_)
  exact Emits.ite (fun _ => Emits.bind (Emits.stage fun _ _ => trivial) fun _ => rest) fun _ => rest

theorem startJob_confined {kind : AnalysisKind} {opportunityId : Uuid}
    {idempotencyKey : Option String} (linked : Linked db) :
    Confined (ActsIn env db credentials d.now) db
      ((startJobEndpoint env credentials d kind opportunityId idempotencyKey).atomically
        backend db).2 := by
  refine confined_of_require linked fun principal _ => Fenced.served (G := fun _ => []) ?_ linked
  cases given idempotencyKey with
  | none => exact Shows.throw
  | some key =>
      refine Shows.bind getOpportunity_fenced fun _ => Shows.andThen jobTargetInput_fenced
        (jobTargetInput_deck (Φ := fun _ => True)) fun input hdeck => ?_
      refine Shows.drop (acceptJob_fenced rfl (traced_leads rfl hdeck ?_ fun _ hf => ?_))
      · exact List.mem_append_right _ (List.mem_cons_of_mem _ List.mem_cons_self)
      · exact List.mem_append_left _ hf

/-- A memo leads to its opportunity. -/
theorem regenerateSection_confined {memoId : Uuid} {idempotencyKey : Option String}
    (linked : Linked db) :
    Confined (ActsIn env db credentials d.now) db
      ((regenerateSectionEndpoint env credentials d memoId idempotencyKey).atomically
        backend db).2 := by
  refine confined_of_require linked fun principal _ => Fenced.served (G := fun _ => []) ?_ linked
  refine Shows.bind getMemo_fenced fun memo => ?_
  cases given idempotencyKey with
  | none => exact Shows.throw
  | some key =>
      refine Shows.drop (acceptJob_fenced rfl fun r hr => ?_)
      obtain ⟨-, ⟨id, hid, rfl⟩ | ⟨id, hid, -⟩ | ⟨id, hid, -⟩⟩ :=
        (Job.mem_leads (Job.forWorkers_of_opportunity rfl)).mp hr
      · cases hid
        exact .link (.row List.mem_cons_self) (List.mem_cons_of_mem _ List.mem_cons_self)
      · cases hid
      · cases hid

theorem harvest_confined {channels : Channels} (linked : Linked db) :
    Confined (ActsIn env db credentials d.now) db
      ((harvestEndpoint env credentials d channels).atomically backend db).2 := by
  refine confined_of_require linked fun principal _ => Fenced.served (G := fun _ => []) ?_ linked
  refine Shows.bind (fenced_write ⟨Or.inl rfl, fun r hr => ?_, fun h => absurd rfl h⟩) fun _ =>
    Shows.bind fenced_commit fun _ => Shows.bind fenced_dispatch fun _ => Shows.pure fun _ hf => hf
  cases hr

theorem cancelJob_confined {jobId : Uuid} (linked : Linked db) :
    Confined (ActsIn env db credentials d.now) db
      ((cancelJobEndpoint env credentials d jobId).atomically backend db).2 :=
  confined_of_require linked fun _ _ => Fenced.served (G := fun _ => []) (Shows.bind
    getJob_fenced fun _ => Shows.ite (fun _ => Shows.throw) fun _ => Shows.drop (Shows.bind
      (fenced_write (.row List.mem_cons_self)) fun _ => fenced_commit)) linked

/-- A retry has the kind and the target of the job that it repeats. -/
theorem mem_leads_of_retry {orgId id targetId : Uuid} {old : Job} {r : RowRef}
    (aimed : old.kind ≠ "ingest.harvest" → old.targetId ≠ none)
    (hr : r ∈ ((retryRequest orgId old targetId).row id now).leads) : r ∈ old.leads := by
  have about {type : String} (htype : type ∈ ["memo", "person"]) :
      some ((given old.targetType).getD "unknown") = some type ↔ old.targetType = some type := by
    cases htarget : old.targetType with
    | none =>
        simp only [given, Option.filter_none, Option.getD_none]
        constructor
        · intro h
          simp [← Option.some.inj h] at htype
        · intro h
          cases h
    | some old =>
        by_cases hold : old = ""
        · subst hold
          simp only [given, Option.filter_some]
          simp at htype
          obtain rfl | rfl := htype <;> decide
        · simp [given, Option.filter_some, hold]
  by_cases hkind : old.kind = "ingest.harvest"
  · simp [Job.leads, JobRequest.row, retryRequest, hkind] at hr
  · obtain ⟨target, htarget⟩ := Option.ne_none_iff_exists'.mp (aimed hkind)
    simpa [Job.leads, JobRequest.row, retryRequest, about, htarget, Job.opportunityId] using hr

/-- A retry leads where the job led that it repeats. -/
theorem retryJob_confined {jobId : Uuid} (linked : Linked db) :
    Confined (ActsIn env db credentials d.now) db
      ((retryJobEndpoint env credentials d jobId).atomically backend db).2 := by
  refine confined_of_require linked fun principal _ => ?_
  refine (Tx.atomically_iff (P := fun _ db' => KeepsOthers (some principal.orgId) db db')).mpr ?_
  refine Tx.Reads.wp_bind (reads_getJob _ _) (fun _ => linked.keepsOthers) fun old hold => ?_
  obtain ⟨hmem, -, horg⟩ := of_getJob hold
  let facts : List FundFact := .row (.jobs, old.id) (some principal.orgId) :: old.links.map .link
  have known : ∀ f ∈ facts, f.Holds db := by
    intro f hf
    obtain rfl | hf := List.mem_cons.mp hf
    · exact horg ▸ List.mem_map_of_mem hmem
    · obtain ⟨l, hl, rfl⟩ := List.mem_map.mp hf
      exact Or.inr (Or.inr ⟨old, hmem, hl⟩)
  have led {r : RowRef} (hr : r ∈ old.leads) :
      Traced (some principal.orgId) (fun f => f ∈ facts) r :=
    .link (.row List.mem_cons_self)
      (List.mem_cons_of_mem _ (List.mem_map_of_mem (List.mem_map_of_mem hr)))
  refine (Tx.atomically_iff (P := fun _ db' => KeepsOthers (some principal.orgId) db db')).mp
    (Fenced.keeps (G := fun _ => facts) (Shows.ite (fun _ => Shows.throw) fun _ =>
      Shows.bind (createJob_fenced rfl fun r hr => led ?_) fun _ => Shows.bind fenced_commit
        fun _ => Shows.bind fenced_dispatch fun _ => Shows.pure fun _ hf => hf) known linked)
  exact mem_leads_of_retry (linked.aimed old hmem) hr

theorem archive_confined {opportunityId : Uuid} (linked : Linked db) :
    Confined (ActsIn env db credentials d.now) db
      ((archiveEndpoint env credentials d opportunityId).atomically backend db).2 :=
  confined_of_require linked fun _ _ => Fenced.served (G := fun _ => []) (Shows.bind
    getOpportunity_fenced fun _ => Shows.drop (Shows.bind (fenced_write (.row List.mem_cons_self))
      fun _ => Shows.bind fenced_commit fun _ =>
        fenced_of_reads (reads_buildExpiredDetail _))) linked

/-- The application that is decided with the opportunity is one that was submitted for it. -/
theorem decide_confined {opportunityId : Uuid} {body : DecisionRequest}
    {idempotencyKey : Option String} (linked : Linked db) :
    Confined (ActsIn env db credentials d.now) db
      ((decideEndpoint env credentials d opportunityId body idempotencyKey).atomically
        backend db).2 := by
  refine confined_of_require linked fun principal _ => Fenced.served (G := fun _ => []) ?_ linked
  cases given idempotencyKey with
  | none => exact Shows.throw
  | some key =>
      refine Shows.bind getOpportunity_fenced fun o => Shows.ite (fun _ => Shows.throw) fun _ =>
        Shows.bind (fenced_of_reads (Reads.query _)) fun decided => Shows.ite
          (fun _ => Shows.drop (fenced_of_reads (reads_buildDetail _))) fun _ =>
            Shows.bind (fenced_of_reads (Reads.query _)) fun evidence => Shows.ite
              (fun _ => Shows.throw) fun _ => ?_
      refine Shows.bind (fenced_write (.row List.mem_cons_self)) fun _ => Shows.bind
        (fenced_of_pooled (Emits.stage fun _ _ => trivial)) fun _ => Shows.bind
          (G := fun _ => []) (Shows.bind (Shows.find (fenced_lawful _) (fun a : Application =>
            [.link ((.opportunities, o.id), (.applications, a.id))]) ?_) fun application? => ?_)
            fun _ => Shows.bind fenced_commit fun _ => fenced_of_reads (reads_refreshedDetail _)
      · intro view a ha f hf
        obtain rfl := List.mem_singleton.mp hf
        obtain ⟨hmem, hopportunity⟩ := of_find? ha
        exact Or.inl ⟨a, hmem, List.mem_append_right _ (by simp [hopportunity])⟩
      · cases application? with
        | none => exact Shows.pure (by simp)
        | some a =>
            refine Shows.ite (fun _ => Shows.pure (by simp)) fun _ => Shows.drop (fenced_write ?_)
            exact .link (.row (List.mem_cons_of_mem _ List.mem_cons_self)) List.mem_cons_self

theorem submitApplication_confined {form : ApplicationForm}
    {submittedIp idempotencyKey : Option String} (linked : Linked db) :
    Confined (ActsIn env db credentials d.now) db
      ((submitApplicationEndpoint env credentials d form submittedIp idempotencyKey).atomically
        backend db).2 := by
  refine confined_of_require linked fun principal _ => Fenced.served (G := fun _ => []) ?_ linked
  unfold submitApplication
  cases given idempotencyKey with
  | none => exact Shows.throw
  | some key =>
      refine Shows.bind (Shows.call _) fun _ => Shows.bind (createApplication_fenced rfl)
        fun result => Shows.bind fenced_commit fun _ => ?_
      cases result.replayed with
      | true => exact Shows.pure fun _ hf => hf
      | false => exact Shows.bind fenced_dispatch fun _ => Shows.pure fun _ hf => hf

/-- The funds that a request on a public form is for: that of the slug. -/
theorem publicApply_confined {orgSlug : String} {form : ApplicationForm}
    {submittedIp : Option String} (linked : Linked db) :
    Confined (fun orgId => ∃ org ∈ db.orgs, org.slug = orgSlug ∧ org.id = orgId) db
      ((publicApplyEndpoint env d orgSlug form submittedIp).atomically backend db).2 := by
  refine (Tx.atomically_iff (P := fun _ db' => Confined _ db db')).mpr ?_
  refine Tx.Reads.wp_bind (Reads.query _) (fun _ => ⟨linked, fun _ h => absurd rfl h⟩)
    fun org? horg => ?_
  obtain rfl : (db.orgs.rows.find? fun o => o.slug = orgSlug) = org? := Except.ok.inj horg
  cases hfind : db.orgs.rows.find? fun o => o.slug = orgSlug with
  | none => exact ⟨linked, fun _ h => absurd rfl h⟩
  | some org =>
      obtain ⟨hmem, hslug⟩ := of_find? hfind
      have served {α : Type} {p : DolphinVC.Tx α} (h : Fenced (some org.id) [] p fun _ => []) :
          Confined (fun orgId => ∃ org ∈ db.orgs, org.slug = orgSlug ∧ org.id = orgId) db
            (p.atomically backend db).2 :=
        (h.served linked).confined fun orgId heq => ⟨org, hmem, hslug, Option.some.inj heq⟩
      exact (Tx.atomically_iff (P := fun _ db' => Confined _ db db')).mp (served
        (Shows.bind (Shows.call _) fun _ => Shows.bind (createApplication_fenced rfl)
          fun result => Shows.bind fenced_commit fun _ => Shows.bind fenced_dispatch fun _ =>
            Shows.pure fun _ hf => hf))

theorem thesis_confined {r : ThesisRequest} (linked : Linked db) :
    Confined (ActsIn env db credentials now) db
      ((r.serve env credentials now).atomically backend db).2 := by
  have clear {orgId : Uuid} {fs : List FundFact} :
      Fenced (some orgId) fs (clearFundDefaults orgId) fun _ => fs := by
    refine Shows.bind (Shows.query (fenced_lawful _)
      (G := fun ids => (ids.map fun id => .row (.theses, id) (some orgId)) ++ fs) ?_) fun ids => ?_
    · intro view f hf
      obtain hf | hf := List.mem_append.mp hf
      · obtain ⟨id, hid, rfl⟩ := List.mem_map.mp hf
        obtain ⟨t, ht, rfl⟩ := List.mem_map.mp hid
        obtain ⟨hmem, horg⟩ := List.mem_filter.mp ht
        exact Or.inr (of_decide_eq_true horg ▸ List.mem_map_of_mem hmem)
      · exact Or.inl hf
    · refine Shows.consequence (Shows.bind (fenced_write fun id hid => .row ?_) fun _ =>
        fenced_flush) (fun _ hf => hf) fun _ f hf => List.mem_append_right _ hf
      exact List.mem_append_left _ (List.mem_map_of_mem hid)
  have answer {id : Uuid} : Reads (do
      let thesis ← refreshRow fun db => db.theses.find? id
      thesisOut thesis) :=
    Reads.bind (reads_refreshRow _) fun _ => Reads.ite (fun _ => Reads.pure _) fun _ =>
      Reads.throw _
  have refusals (es : List Exc) :
      Emits Write.Pooled (es.forM fun e => Tx.stage (.refused e) : DolphinVC.Tx Unit) := by
    induction es with
    | nil => exact Emits.pure _
    | cons e es ih => exact Emits.bind (Emits.stage fun _ _ => trivial) fun _ => ih
  cases r with
  | create id body =>
      rw [ThesisRequest.serve, Tx.atomically_void]
      refine confined_of_require linked fun principal _ =>
        Fenced.served (G := fun _ => []) ?_ linked
      have rest : Fenced (some principal.orgId) [] (do
          Tx.stage (.insertThesis (body.row id principal.orgId))
          body.refusals.forM fun e => Tx.stage (.refused e)
          Tx.commit
          let thesis ← refreshRow fun db => db.theses.find? id
          thesisOut thesis) fun _ => [] :=
        Shows.bind (fenced_write (Or.inl rfl)) fun _ => Shows.bind
          (fenced_of_pooled (refusals _)) fun _ => Shows.bind fenced_commit fun _ =>
            fenced_of_reads answer
      exact Shows.ite (fun _ => Shows.bind clear fun _ => rest) fun _ => rest
  | update thesisId body ifMatch =>
      rw [ThesisRequest.serve, Tx.atomically_void]
      refine confined_of_require linked fun principal _ =>
        Fenced.served (G := fun _ => []) ?_ linked
      refine Shows.bind getThesis_fenced fun thesis => Shows.ite (fun _ => Shows.throw) fun _ =>
        Shows.drop (Shows.bind (fenced_write (.row List.mem_cons_self)) fun _ => Shows.bind
          (fenced_of_pooled (refusals _)) fun _ => Shows.bind fenced_commit fun _ =>
            fenced_of_reads answer)
  | delete thesisId =>
      exact confined_of_require linked fun principal _ => Fenced.served (G := fun _ => [])
        (Shows.bind getThesis_fenced fun thesis => Shows.drop (Shows.bind
          (fenced_write (.row List.mem_cons_self)) fun _ => fenced_commit)) linked
  | setDefault thesisId =>
      rw [ThesisRequest.serve, Tx.atomically_void]
      exact confined_of_require linked fun principal _ => Fenced.served (G := fun _ => [])
        (Shows.bind getThesis_fenced fun thesis => Shows.bind clear fun _ => Shows.drop (Shows.bind
          (fenced_write (.row List.mem_cons_self)) fun _ => Shows.bind fenced_commit fun _ =>
            fenced_of_reads answer)) linked

theorem outreach_confined {r : OutreachRequest} (linked : Linked db) :
    Confined (ActsIn env db credentials now) db
      ((r.serve env credentials now).atomically backend db).2 := by
  have update {α : Type} {principal : Principal} {o : Outreach} {set : OutreachPatch} {a : α} :
      Fenced (some principal.orgId) [.row (.outreach, o.id) (some principal.orgId)] (do
        Tx.stage (.updateOutreach o.id set)
        Tx.commit
        return a) fun _ => [] :=
    Shows.bind (fenced_write (.row List.mem_cons_self)) fun _ =>
      Shows.bind fenced_commit fun _ => Shows.pure (by simp)
  cases r with
  | approve outreachId =>
      rw [OutreachRequest.serve, Tx.atomically_void]
      exact confined_of_require linked fun principal _ => Fenced.served (G := fun _ => [])
        (Shows.bind getOutreach_fenced fun _ => update) linked
  | send outreachId =>
      rw [OutreachRequest.serve, Tx.atomically_void]
      exact confined_of_require linked fun principal _ => Fenced.served (G := fun _ => [])
        (Shows.bind getOutreach_fenced fun _ => Shows.ite (fun _ => Shows.throw) fun _ => update)
        linked
  | reject outreachId body =>
      rw [OutreachRequest.serve, Tx.atomically_void]
      exact confined_of_require linked fun principal _ => Fenced.served (G := fun _ => [])
        (Shows.bind getOutreach_fenced fun _ => update) linked

theorem patchMemo_confined {memoId : Uuid} {body : MemoPatch} {ifMatch : Option String}
    (linked : Linked db) :
    Confined (ActsIn env db credentials now) db
      ((patchMemoEndpoint env credentials now memoId body ifMatch).atomically backend db).2 :=
  confined_of_require linked fun _ _ => Fenced.served (G := fun _ => []) (Shows.bind
    getMemo_fenced fun _ => Shows.ite (fun _ => Shows.throw) fun _ => Shows.drop (Shows.bind
      (fenced_write (.row List.mem_cons_self)) fun _ => Shows.bind fenced_commit fun _ =>
        fenced_of_reads (reads_refreshRow _))) linked

theorem requestInfo_confined {applicationId : Uuid} (linked : Linked db) :
    Confined (ActsIn env db credentials now) db
      ((requestInfoEndpoint env credentials now applicationId).atomically backend db).2 := by
  refine confined_of_require linked fun principal _ => Fenced.served (G := fun _ => []) ?_ linked
  refine Shows.bind getApplication_fenced fun a => Shows.bind (Shows.ite
    (fun _ => Shows.pure fun _ hf => hf) fun _ => fenced_write (.row List.mem_cons_self)) fun _ =>
      Shows.bind fenced_commit fun _ => Shows.pure (by simp)

/-- The job that records an export leads to the memo. -/
theorem exportMemo_confined {memoId : Uuid} {format : ExportFormat} (linked : Linked db) :
    Confined (ActsIn env db credentials d.now) db
      ((exportMemoEndpoint env credentials d memoId format).atomically backend db).2 := by
  refine confined_of_require linked fun principal _ => Fenced.served (G := fun _ => []) ?_ linked
  refine Shows.bind getMemo_fenced fun memo => Shows.bind (fenced_write
    ⟨Or.inl rfl, fun r hr => ?_, fun _ => Option.some_ne_none memo.id⟩) fun _ =>
      Shows.bind fenced_commit fun _ => Shows.pure (by simp)
  obtain rfl : r = (.memos, memo.id) := by simpa [Job.leads, exportJob] using hr
  exact .row List.mem_cons_self

/-- The job that records a new score leads to no row of a fund. -/
theorem rescoreFounder_confined {personId : Uuid} (linked : Linked db) :
    Confined (ActsIn env db credentials d.now) db
      ((rescoreFounderEndpoint env credentials d personId).atomically backend db).2 := by
  refine confined_of_require linked fun principal _ => Fenced.served (G := fun _ => []) ?_ linked
  refine Shows.bind (fenced_of_reads (reads_livePerson _)) fun _ =>
    Shows.bind (fenced_of_pooled (pooled_of_scoring recomputeFounderScore_stages).emits) fun _ =>
      Shows.bind (fenced_of_reads (reads_refreshRow _)) fun score => Shows.bind (fenced_write
        ⟨Or.inl rfl, fun r hr => ?_, fun _ => Option.some_ne_none personId⟩) fun _ =>
          Shows.bind fenced_commit fun _ => Shows.pure (by simp)
  have none : (rescoreJob principal.orgId personId score d).leads = [] := by
    simp [Job.leads, rescoreJob]
  rw [none] at hr
  exact absurd hr List.not_mem_nil

end Requests

end DolphinVC
