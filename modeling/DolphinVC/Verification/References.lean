import DolphinVC.Verification.Credentials
import DolphinVC.Verification.Tenancy

/-!
# References stay within a fund

Every request and every job run but two is vouched for: what it writes names rows of its
own fund, whatever other sessions commit meanwhile. The two are the manual creation, whose
body may name any thesis, and the edit, whose body may name any user.
-/

namespace DolphinVC

open Transaction Transition Relational

section Requests

open Tx

variable {strict : Prop} {fs : List Fact} {env : Env} {orgId : Uuid} {db : Db}
variable {credentials : Option Credentials} {d : DealDraws}

theorem createJob_vouched {request : JobRequest} {id : Uuid} {now : Timestamp}
    (htarget : request.targetType = "opportunity" →
      Fact.opportunity request.targetId (some request.orgId) ∈ fs) :
    Vouched strict fs (createJob request id now) fun _ => fs := by
  refine Shows.bind (vouched_of_reads (Reads.query _)) fun existing? => ?_
  cases existing? with
  | some job => exact Shows.pure fun _ hf => hf
  | none =>
      refine Shows.bind (vouched_write fun htype => ?_) fun _ => Shows.bind vouched_flush fun _ =>
        Shows.pure fun _ hf => hf
      exact ⟨request.targetId, rfl, htarget (Option.some.inj htype)⟩

theorem acceptJob_vouched {request : JobRequest}
    (htarget : Fact.opportunity request.targetId (some request.orgId) ∈ fs) :
    Vouched strict fs (acceptJob env d request) fun _ => fs := by
  refine Shows.bind (createJob_vouched fun _ => htarget) ?_
  rintro ⟨job, replayed⟩
  refine Shows.bind vouched_commit fun _ => ?_
  cases replayed with
  | true => exact Shows.pure fun _ hf => hf
  | false => exact Shows.bind vouched_dispatch fun _ => Shows.pure fun _ hf => hf

theorem getOpportunity_vouched {opportunityId : Uuid} :
    Vouched strict [] (getOpportunity orgId opportunityId) fun _ =>
      [.opportunity opportunityId (some orgId)] := by
  refine Shows.bind
    (vouched_find (fun _ : Opportunity => .opportunity opportunityId (some orgId)) ?_)
    fun opportunity? => ?_
  · intro view o ho
    have hrow := List.find?_some ho
    simp only [decide_eq_true_eq] at hrow
    exact Or.inl ⟨o, List.mem_of_find?_eq_some ho, hrow.1, congrArg some hrow.2⟩
  · cases opportunity? with
    | none => exact Shows.throw
    | some o => exact Shows.pure (by simp)

theorem startJobEndpoint_vouched {kind : AnalysisKind} {opportunityId : Uuid}
    {idempotencyKey : Option String} :
    Vouched strict [] (startJobEndpoint env credentials d kind opportunityId idempotencyKey)
      fun _ => [] := by
  refine Shows.bind (vouched_of_reads (reads_require _ _ _ _)) fun principal => ?_
  cases given idempotencyKey with
  | none => exact Shows.throw
  | some key =>
      refine Shows.bind getOpportunity_vouched fun _ => Shows.bind (vouched_of_idle ?_) fun input =>
        Vouched.drop (acceptJob_vouched ?_)
      swap
      · exact List.mem_cons_self
      refine Emits.ite (fun _ => Emits.bind (Emits.query _) fun application? => ?_) fun _ =>
        Emits.pure _
      cases application? with
      | none => exact Emits.pure _
      | some application =>
          dsimp only
          cases application.deckDocumentId with
          | none => exact Emits.pure _
          | some documentId => exact Emits.pure _

/-- A memo shows whose its opportunity is. -/
theorem regenerateSection_vouched {memoId : Uuid} {idempotencyKey : Option String} :
    Vouched strict [] (regenerateSectionEndpoint env credentials d memoId idempotencyKey)
      fun _ => [] := by
  refine Shows.bind (vouched_of_reads (reads_require _ _ _ _)) fun principal =>
    Shows.bind (G := fun memo => [.opportunity memo.opportunityId (some principal.orgId)]) ?memo
      fun memo => ?_
  case memo =>
    refine Shows.bind (vouched_find
      (fun m : Memo => .opportunity m.opportunityId (some principal.orgId)) ?_) fun memo? => ?_
    · intro view m hm
      have hrow := List.find?_some hm
      simp only [decide_eq_true_eq] at hrow
      exact Or.inr (Or.inl ⟨m, List.mem_of_find?_eq_some hm, rfl, congrArg some hrow.2⟩)
    · cases memo? with
      | none => exact Shows.throw
      | some memo => exact Shows.pure (by simp)
  cases given idempotencyKey with
  | none => exact Shows.throw
  | some key =>
      refine Vouched.drop (acceptJob_vouched ?_)
      exact List.mem_cons_self

theorem harvest_vouched {channels : Channels} :
    Vouched strict [] (harvestEndpoint env credentials d channels) fun _ => [] := by
  refine Shows.bind (vouched_of_reads (reads_require _ _ _ _)) fun principal =>
    Shows.bind (vouched_write ?_) fun _ => Shows.bind vouched_commit fun _ =>
      Shows.bind vouched_dispatch fun _ => Shows.pure fun _ hf => hf
  intro htype
  exact absurd htype (by simp [harvestJob])

theorem cancelJob_vouched {jobId : Uuid} :
    Vouched strict [] (cancelJobEndpoint env credentials d jobId) fun _ => [] :=
  vouched_of_idle (Emits.bind (reads_require _ _ _ _).emits fun _ =>
    Emits.bind (reads_getJob _ _).emits fun _ => Emits.ite (fun _ => Emits.throw _) fun _ =>
      Emits.bind (Emits.stage fun _ _ => trivial) fun _ => Emits.commit)

/-- A retry names the opportunity of the job that it repeats. -/
theorem retryJob_vouched {jobId : Uuid} :
    Vouched strict [] (retryJobEndpoint env credentials d jobId) fun _ => [] := by
  let facts (orgId : Uuid) (old : Job) : List Fact :=
    if old.targetType = some "opportunity" then
      [.opportunity (old.targetId.getD d.targetId) (some orgId)] else []
  refine Shows.bind (vouched_of_reads (reads_require _ _ _ _)) fun principal =>
    Shows.bind (G := facts principal.orgId) ?job fun old => ?_
  case job =>
    refine Shows.bind (vouched_query (G := fun r => (r.map (facts principal.orgId)).getD []) ?_)
      fun job? => ?_
    · intro view f hf
      refine Or.inr ?_
      cases hj : view.jobs.rows.find? fun j => j.id = jobId ∧ j.orgId = some principal.orgId with
      | none =>
          rw [hj] at hf
          exact absurd hf List.not_mem_nil
      | some j =>
          rw [hj] at hf
          have hrow := List.find?_some hj
          simp only [decide_eq_true_eq] at hrow
          simp only [Option.map_some, Option.getD_some, facts] at hf
          split at hf
          · rename_i htype
            obtain rfl := List.mem_singleton.mp hf
            refine Or.inr (Or.inr ⟨j, List.mem_of_find?_eq_some hj, htype, hrow.2, ?_⟩)
            intro target htarget
            rw [htarget]
            rfl
          · exact absurd hf List.not_mem_nil
    · cases job? with
      | none => exact Shows.throw
      | some job => exact Shows.pure fun _ hf => hf
  refine Shows.ite (fun _ => Shows.throw) fun _ => Shows.bind (createJob_vouched ?_) fun _ =>
    Shows.bind vouched_commit fun _ => Shows.bind vouched_dispatch fun _ => Shows.pure (by simp)
  intro htype
  have htarget : old.targetType = some "opportunity" := by
    simp only [retryRequest, given] at htype
    cases ht : old.targetType with
    | none => simp [ht] at htype
    | some t =>
        rw [ht, Option.filter_some] at htype
        split at htype
        · exact congrArg some htype
        · simp at htype
  simp [facts, htarget, retryRequest]

theorem Write.OfAuth.idle {w : Write} (h : w.OfAuth) : w.Idle := by
  intro strict K
  cases w with
  | insertOpportunity row => cases h
  | updateOpportunity id set => cases h
  | insertApplication row => cases h
  | insertClaim row => cases h
  | insertMemo row => cases h
  | insertJob row => cases h
  | _ => trivial

theorem reapStaleJobs_idle {now : Timestamp} : Emits Write.Idle (reapStaleJobs now) := by
  refine Emits.bind (Emits.query _) fun stale => Emits.bind ?_ fun _ =>
    Emits.bind Emits.commit fun _ => Emits.pure _
  induction stale with
  | nil => exact Emits.pure _
  | cons job stale ih => exact Emits.bind (Emits.stage fun _ _ => trivial) fun _ => ih

theorem archive_vouched {opportunityId : Uuid} :
    Vouched strict [] (archiveEndpoint env credentials d opportunityId) fun _ => [] :=
  vouched_of_idle (Emits.bind (reads_require _ _ _ _).emits fun _ =>
    Emits.bind (reads_getOpportunity _ _).emits fun _ =>
      Emits.bind (Emits.stage (idle_update (changed_self _) (changed_self _))) fun _ =>
        Emits.bind Emits.commit fun _ => (reads_buildExpiredDetail _).emits)

theorem submitApplication_vouched {form : ApplicationForm}
    {submittedIp idempotencyKey : Option String} :
    Vouched strict []
      (submitApplicationEndpoint env credentials d form submittedIp idempotencyKey)
      fun _ => [] := by
  refine Shows.bind (vouched_of_reads (reads_require _ _ _ _)) fun principal => ?_
  unfold submitApplication
  cases given idempotencyKey with
  | none => exact Shows.throw
  | some key =>
      refine Shows.bind (Shows.call _) fun _ => Shows.bind createApplication_vouched fun result =>
        Shows.bind vouched_commit fun _ => ?_
      cases result.replayed with
      | true => exact Shows.pure fun _ hf => hf
      | false => exact Shows.bind vouched_dispatch fun _ => Shows.pure fun _ hf => hf

theorem publicApply_vouched {orgSlug : String} {form : ApplicationForm}
    {submittedIp : Option String} :
    Vouched strict [] (publicApplyEndpoint env d orgSlug form submittedIp) fun _ => [] := by
  refine Shows.bind (vouched_of_reads (Reads.query _)) fun org? => ?_
  cases org? with
  | none => exact Shows.throw
  | some org =>
      exact Shows.bind (Shows.call _) fun _ => Shows.bind createApplication_vouched fun result =>
        Shows.bind vouched_commit fun _ => Shows.bind vouched_dispatch fun _ =>
          Shows.pure fun _ hf => hf

end Requests

section Runs

open Tx

variable {strict : Prop} {fs : List Fact} {env : Env} {run : RunEnv} {job : Job} {o : Opportunity}
variable {item : NormalizedSignal} {source : Source}

/-- A job without an organization gets as far as a row that has to have one. -/
theorem resolveOpportunity_vouched {orgId : Option Uuid} {company : Company}
    {channel? : Option SourcingChannel} {id : Uuid} {now : Timestamp} :
    Vouched strict fs (resolveOpportunity env orgId company item channel? id now) fun r =>
      .opportunity r.1 orgId :: fs := by
  have counted : Vouched strict fs (advanceChannel channel?) fun _ => fs :=
    vouched_of_elsewhere (emits_of_linking advanceChannel_stages)
  cases orgId with
  | none =>
      exact Shows.bind counted fun _ => Shows.bind
        (G := fun _ => .opportunity id none :: fs) (Shows.refuse ⟨_, rfl⟩) fun _ =>
          Shows.bind vouched_flush fun _ => Shows.pure fun _ hf => hf
  | some orgId =>
      refine Shows.bind vouched_liveOpportunity fun opportunity? => ?_
      cases opportunity? with
      | some o => exact Shows.bind vouched_flush fun _ => Shows.pure fun _ hf => hf
      | none =>
          exact Shows.bind counted fun _ => Shows.bind
            (vouched_insert rfl rfl fun _ _ hid => by cases hid) fun _ =>
              Shows.bind vouched_flush fun _ => Shows.pure fun _ hf => hf

theorem resolveOutboundSignal_vouched {orgId : Option Uuid} {sourceId : Uuid}
    {channel? : Option SourcingChannel} {ids : CandidateIds} {now : Timestamp} :
    Vouched strict fs (resolveOutboundSignal env orgId item sourceId channel? ids now) fun r =>
      .opportunity r.opportunityId orgId :: fs :=
  Shows.bind (Shows.call _) fun _ =>
    Shows.bind (vouched_of_elsewhere (emits_of_candidate ensureCompany_stages)) fun _ =>
      Shows.bind (vouched_of_elsewhere (emits_of_candidate ensureSignalPerson_stages)) fun _ =>
        Shows.bind (Shows.bind (vouched_write trivial) fun _ =>
          vouched_of_elsewhere (emits_of_linking linkPerson_stages)) fun _ =>
            Shows.bind (vouched_of_elsewhere (emits_of_linking recordMemory_stages)) fun _ =>
              Shows.bind resolveOpportunity_vouched fun _ => Shows.pure fun _ hf => hf

theorem ingestItem_vouched {channel : SourcingChannel} {seq index : Nat} :
    Vouched strict [] (ingestItem run job source channel seq index item) fun _ => [] := by
  refine Shows.bind (Shows.call _) fun _ => Shows.bind (vouched_write trivial) fun _ =>
    Shows.bind vouched_flush fun _ => Shows.bind resolveOutboundSignal_vouched fun r => ?_
  refine Shows.bind (vouched_write fun _ => ?_) fun _ => Shows.bind vouched_flush fun _ =>
    Shows.bind (vouched_write trivial) fun _ => Shows.pure (by simp)
  exact ⟨r.opportunityId, rfl, List.mem_cons_self⟩

theorem harvestItems_vouched {seq : Nat} {items : List NormalizedSignal} {index : Nat}
    {channel : SourcingChannel} {children : List Uuid} :
    Vouched strict [] (harvestItems run job source seq items index channel children)
      fun _ => [] := by
  induction items generalizing index channel children with
  | nil => exact Shows.pure fun _ hf => hf
  | cons item items ih =>
      have once : Vouched strict [] (harvestItem run job source channel seq index item)
          fun _ => [] :=
        Shows.bind (vouched_of_reads (Reads.query _)) fun _ => Shows.ite
          (fun _ => Shows.pure fun _ hf => hf) fun _ => Shows.bind ingestItem_vouched fun _ =>
            Shows.pure fun _ hf => hf
      refine Shows.bind (vouched_attempt once) fun r => ?_
      cases r with
      | error e => exact Shows.pure fun _ hf => hf
      | ok child? =>
          cases child? with
          | none => exact ih
          | some child => exact ih

theorem ingestSource_vouched {key : String} {seq : Nat} {source? : Option Source} :
    Vouched strict [] (ingestSource run job key seq source?) fun _ => [] := by
  refine Shows.bind
    (vouched_attempt (vouched_of_elsewhere (emits_of_candidate ensureSource_stages)))
    fun ensured => ?_
  cases ensured with
  | error e => exact Shows.pure fun _ hf => hf
  | ok u =>
      refine Shows.bind harvestItems_vouched ?_
      rintro ⟨children, ingested⟩
      cases ingested with
      | error e => exact Shows.pure fun _ hf => hf
      | ok u =>
          exact vouched_of_elsewhere (Emits.bind (Emits.attempt (Emits.bind
            (Emits.stage (by rfl)) fun _ => Emits.commit)) fun _ => Emits.pure _)

theorem harvestEnabled_vouched {key : String} {seq : Nat} {source? : Option Source} :
    Vouched strict [] (harvestEnabled run job key seq source?) fun _ => [] := by
  refine Shows.bind (vouched_attempt (Shows.call _)) fun answered => ?_
  cases answered with
  | error e =>
      exact Shows.bind (vouched_of_elsewhere degradeSource_emits) fun _ =>
        Shows.pure fun _ hf => hf
  | ok u =>
      refine Shows.bind ingestSource_vouched ?_
      rintro ⟨children, ingested⟩
      cases ingested with
      | error e =>
          exact Shows.bind (vouched_of_elsewhere degradeSource_emits) fun _ =>
            Shows.pure fun _ hf => hf
      | ok u => exact Shows.pure fun _ hf => hf

theorem harvestSources_vouched {total : Nat} {keys : List String} {seq : Nat} {h : Harvest} :
    Vouched strict [] (harvestSources run job total keys seq h) fun _ => [] := by
  have step (key : String) (seq : Nat) (h : Harvest) :
      Vouched strict [] (harvestSource run job total key seq h) fun _ => [] := by
    refine Shows.bind (vouched_of_reads (Reads.query _)) fun _ => Shows.ite
      (fun _ => Shows.bind (Shows.call _) fun _ => Shows.pure fun _ hf => hf) fun _ =>
        Shows.bind (Shows.finally' (tenancy_lawful strict) harvestEnabled_vouched
          (Emits.call _)) fun _ => ?_
    exact vouched_of_elsewhere (Emits.bind (Emits.stage (by rfl)) fun _ =>
      Emits.bind Emits.commit fun _ => Emits.pure _)
  induction keys generalizing seq h with
  | nil => exact Shows.pure fun _ hf => hf
  | cons key keys ih => exact Shows.bind (step key seq h) fun _ => ih

theorem harvestBody_vouched : Vouched strict [] (do
    let children ← processHarvest run job
    dispatchChildren run children) fun _ => [] := by
  refine Shows.bind (G := fun _ => []) ?_ fun _ => vouched_of_idle dispatchChildren_emits
  exact Shows.bind (Shows.call _) fun _ => Shows.bind harvestSources_vouched fun _ =>
    Shows.bind (vouched_write trivial) fun _ => Shows.bind vouched_commit fun _ =>
      Shows.pure fun _ hf => hf

theorem loadTarget_vouched : Vouched strict [] (loadTarget job) fun r =>
    [.opportunity r.1.id (some r.1.orgId)] := by
  unfold loadTarget
  cases job.targetId.or job.input.opportunityId with
  | none => exact Shows.throw
  | some id =>
      refine Shows.bind (vouched_find (fun o : Opportunity => .opportunity o.id (some o.orgId)) ?_)
        fun opportunity? => ?_
      · intro view o ho
        exact Or.inl ⟨o, Table.mem_of_find? ho, rfl, rfl⟩
      · cases opportunity? with
        | none => exact Shows.throw
        | some o =>
            refine Shows.bind (vouched_of_reads (Reads.query _)) fun company? => ?_
            cases company? with
            | none => exact Shows.throw
            | some company => exact Shows.pure (by simp)

/-- What an analysis writes is about the opportunity that it has loaded. -/
theorem Write.Analyses.fits {w : Write} (h : w.Analyses job o) :
    w.Fits strict fun f => f ∈ [Fact.opportunity o.id (some o.orgId)] := by
  obtain ⟨hof, habout⟩ := h
  cases w with
  | insertOpportunity row => cases hof
  | insertApplication row => cases hof
  | insertJob row => cases hof
  | updateOpportunity id set => exact idle_update habout hof.2.2.2.2.1 strict _
  | insertClaim row =>
      obtain ⟨horg, hid⟩ := habout
      intro id h
      obtain rfl := Option.some.inj (hid.symm.trans h)
      rw [horg]
      exact List.mem_cons_self
  | insertMemo row =>
      obtain ⟨horg, hid⟩ := habout
      simp only [Write.Fits]
      rw [horg, hid]
      exact List.mem_cons_self
  | _ => trivial

theorem processAnalysis_vouched (running : job.status = .running) :
    Vouched strict [] (processAnalysis run job) fun _ => [] := by
  refine Shows.andThen loadTarget_vouched (loadTarget_returns (Φ := fun _ => True)) fun r ho => ?_
  exact Vouched.drop (Emits.shows (tenancy_lawful strict)
    ((analysisOf_emits running ho).weaken fun _ hw => hw.fits))

theorem startJob_vouched : Vouched strict [] (startJob run job) fun _ => [] :=
  Shows.bind (vouched_write trivial) fun _ => Shows.bind vouched_commit fun _ =>
    Shows.tryCatch (Shows.ite (fun _ => harvestBody_vouched) fun _ => processAnalysis_vouched rfl)
      fun _ => Shows.bind (vouched_write trivial) fun _ => vouched_commit

theorem processJob_vouched {jobId : Uuid} :
    Vouched strict [] (processJob run jobId) fun _ => [] := by
  refine Shows.bind (vouched_of_reads (Reads.query _)) fun job? => ?_
  cases job? with
  | none => exact Shows.pure fun _ hf => hf
  | some job =>
      exact Shows.ite (fun _ => Shows.pure fun _ hf => hf) fun _ => startJob_vouched

end Runs

section Served

open Tx

variable {strict : Prop} {env : Env} {db : Db} {credentials : Option Credentials} {d : DealDraws}
variable {permission : Permission} {now : Timestamp} {principal : Principal} {userId : Uuid}

/-- The user a request acts for is a user of the fund it acts in. -/
theorem hasUser_of_admits (h : Admits env db permission credentials now principal)
    (huser : principal.userId = some userId) : HasUser db userId principal.orgId := by
  obtain ⟨-, c, -, hstems⟩ := stems_of_require h
  cases hstems with
  | service => cases huser
  | apiKey => cases huser
  | user _ _ _ hmem => exact ⟨_, hmem, Option.some.inj huser, rfl⟩

/-- Facts that hold and that a write which the reading asks to be backed can rest on. -/
theorem exists_facts {w : Write} {fs : List Fact}
    (hidle : ¬strict → w.Fits strict fun f => f ∈ ([] : List Fact))
    (known : strict → ∀ f ∈ fs, f.Holds db)
    (fits : strict → w.Fits strict fun f => f ∈ fs) :
    ∃ G : List Fact, (∀ f ∈ G, f.Holds db) ∧ w.Fits strict fun f => f ∈ G := by
  by_cases hs : strict
  · exact ⟨fs, known hs, fits hs⟩
  · exact ⟨[], by simp, hidle hs⟩

/-- The company that a manual creation is about: one that is there, or the one that it makes. -/
def CompanyRef.companyId? (env : Env) (d : DealDraws) (db : Db) : CompanyRef → Option Uuid
  | .id companyId => (db.companies.find? companyId).map Company.id
  | .name companyName => ((db.companies.rows.find? fun c =>
      c.normalizedName = normalizeName env companyName).map Company.id).or (some d.companyId)

/-- A manual creation that passes its checks: there is a company, the fund has no live opportunity
of it, and the thesis that is named exists. -/
structure GoesThrough (env : Env) (d : DealDraws) (db : Db) (orgId : Uuid)
    (body : OpportunityCreate) : Prop where
  unblocked : ∃ companyId, body.company.companyId? env d db = some companyId ∧
    liveOpportunity? orgId companyId db = none
  thesis : fkOk db.theses body.thesisId = true

/-- The end of a manual creation, when its company is found or made. -/
theorem wp_insertManual {body : OpportunityCreate} {company : Company} {mid : Db} (orgId : Uuid)
    (s : Session Write) (live : s.failed = false) (hdirty : s.dirty = [])
    (hview : backend.applyAll db s.flushed = .ok mid) (hopps : mid.opportunities = db.opportunities)
    (htheses : mid.theses = db.theses)
    (hcompany : body.company.companyId? env d db = some company.id) :
    Tx.WP backend (fun r db' _ => db' = db ∧ (¬ GoesThrough env d db orgId body → r.isOk = false))
      (do
        let existing ← Tx.query (liveOpportunity? orgId company.id)
        if existing.isSome then
          throw (Exc.conflict "A live opportunity already exists for this company."
            "DUPLICATE_OPPORTUNITY")
        else do
          let opportunity := newOpportunity env d.opportunityId orgId company body.thesisId
            body.origin d.now d.now
          Tx.stage (.insertOpportunity opportunity)
          Tx.flush
          return opportunity : DolphinVC.Tx Opportunity) db s := by
  refine Tx.wp_bind.mpr (Tx.wp_query_cases (fun view happly => ?_) fun e => ⟨rfl, fun _ => rfl⟩)
  obtain rfl : mid = view := Except.ok.inj (hview.symm.trans happly)
  refine Tx.wp_ite.mpr ?_
  split
  · exact ⟨rfl, fun _ => rfl⟩
  · rename_i hnone
    refine Tx.wp_bind.mpr (Tx.wp_stage.mpr (Tx.wp_bind.mpr
      ((Tx.wp_flush_live (s := s.stage _) live).mpr ?_)))
    split
    · rename_i db' hflush
      refine ⟨rfl, fun refused => absurd ⟨⟨company.id, hcompany, ?_⟩, ?_⟩ refused⟩
      · rw [Option.not_isSome_iff_eq_none, liveOpportunity?, hopps] at hnone
        exact hnone
      · simp only [Session.pending, Session.stage, hdirty, List.nil_append] at hflush
        obtain ⟨mid', hmid, hinsert⟩ := Backend.applyAll_append_eq_ok.mp hflush
        obtain rfl : mid = mid' := Except.ok.inj (hview.symm.trans hmid)
        obtain ⟨hfk, -⟩ := ite_error_eq_ok.mp (Backend.applyAll_singleton.symm.trans hinsert)
        rwa [htheses] at hfk
    · exact ⟨rfl, fun _ => rfl⟩

theorem wp_createManualOpportunity {orgId : Uuid} {body : OpportunityCreate} :
    Tx.WP backend (fun r db' _ => db' = db ∧ (¬ GoesThrough env d db orgId body → r.isOk = false))
      (createManualOpportunity env orgId body d) db {} := by
  have found {company : Company}
      (hcompany : body.company.companyId? env d db = some company.id) :=
    wp_insertManual orgId {} rfl rfl rfl rfl rfl hcompany
  unfold createManualOpportunity manualCompany
  cases hbody : body.company with
  | id companyId =>
      refine (Tx.wp_query_first).mpr ?_
      cases hfind : db.companies.find? companyId with
      | none => exact ⟨rfl, fun _ => rfl⟩
      | some company =>
          exact found (by rw [hbody, CompanyRef.companyId?, hfind, Option.map_some])
  | name companyName =>
      refine (Tx.wp_query_first).mpr ?_
      cases hfind : db.companies.rows.find? fun c =>
          c.normalizedName = normalizeName env companyName with
      | some company =>
          exact found (by rw [hbody, CompanyRef.companyId?, hfind, Option.map_some, Option.some_or])
      | none =>
          have made : body.company.companyId? env d db = some d.companyId := by
            rw [hbody, CompanyRef.companyId?, hfind, Option.map_none, Option.none_or]
          refine Tx.wp_bind.mpr (Tx.wp_bind.mpr (Tx.wp_stage.mpr (Tx.wp_bind.mpr
            ((Tx.wp_flush_live rfl).mpr ?_))))
          split
          · rename_i mid hflush
            obtain ⟨T, -, rfl⟩ := map_eq_ok.mp (Backend.applyAll_singleton.symm.trans hflush)
            exact wp_insertManual orgId _ rfl rfl hflush rfl rfl made
          · exact ⟨rfl, fun _ => rfl⟩

theorem refs_createOpportunity {body : OpportunityCreate} (h : Refs strict db)
    (hc : strict → ∀ principal, Admits env db .screen credentials d.now principal →
      GoesThrough env d db principal.orgId body →
        ∀ id, body.thesisId = some id → HasThesis db id principal.orgId) :
    Refs strict ((createOpportunityEndpoint env credentials d body).atomically backend db).2 := by
  refine (Tx.atomically_iff (P := fun _ db' => Refs strict db')).mpr ?_
  refine Tx.Reads.wp_bind (reads_require _ _ _ _) (fun _ => h) fun principal hprincipal => ?_
  by_cases goes : GoesThrough env d db principal.orgId body
  case neg =>
    refine Tx.wp_bind.mpr (wp_createManualOpportunity.mono fun r db' s' hr => ?_)
    obtain ⟨rfl, hok⟩ := hr
    cases r with
    | error e => exact h
    | ok o => cases hok goes
  have known : ∃ fs : List Fact, (∀ f ∈ fs, f.Holds db) ∧
      (strict → ∀ id, body.thesisId = some id → Fact.thesis id principal.orgId ∈ fs) := by
    by_cases hs : strict
    · refine ⟨(body.thesisId.map fun id => .thesis id principal.orgId).toList, ?_, ?_⟩
      · intro f hf
        obtain ⟨id, hid, rfl⟩ : ∃ id, body.thesisId = some id ∧
            Fact.thesis id principal.orgId = f := by simpa using hf
        exact hc hs principal hprincipal goes id hid
      · rintro - id hid
        simp [hid]
    · exact ⟨[], by simp, fun h => absurd h hs⟩
  obtain ⟨fs, hholds, hthesis⟩ := known
  have body : Vouched strict fs (do
      let opportunity ← createManualOpportunity env principal.orgId body d
      Tx.commit
      let opportunity ← refreshRow fun db => db.opportunities.find? opportunity.id
      buildDetail opportunity) fun _ => fs :=
    Shows.bind (createManualOpportunity_vouched hthesis) fun _ =>
      Shows.bind vouched_commit fun _ => vouched_of_reads (reads_refreshedDetail _)
  exact body.refs hholds h

/-- What follows an UPDATE whose references are backed. -/
theorem refs_assign {α : Type} {w : Write} {rest : Unit → DolphinVC.Tx α} (h : Refs strict db)
    (fs : List Fact) (known : ∀ f ∈ fs, f.Holds db) (fits : w.Fits strict fun f => f ∈ fs)
    (hrest : ∀ u, Emits Write.Idle (rest u)) :
    Tx.WP backend (fun _ db' _ => Refs strict db') (Tx.stage w >>= rest) db {} :=
  (Tx.atomically_iff (P := fun _ db' => Refs strict db')).mp
    (Vouched.refs (Shows.bind (vouched_write fits) fun u => vouched_of_idle (hrest u)) known h)

theorem refs_updateOpportunity {opportunityId : Uuid} {body : OpportunityUpdate}
    {ifMatch : Option String} (h : Refs strict db)
    (hc : strict → ∀ principal o,
      AcceptsUpdate env db credentials d.now opportunityId ifMatch principal o →
        body.stage ≠ some none → ∀ u ∈ db.users, body.assignedTo = some (some u.id) →
          u.orgId = principal.orgId) :
    Refs strict ((updateOpportunityEndpoint env credentials d opportunityId body
      ifMatch).atomically backend db).2 := by
  refine (Tx.atomically_iff (P := fun _ db' => Refs strict db')).mpr ?_
  refine Tx.Reads.wp_bind (reads_require _ _ _ _) (fun _ => h) fun principal hprincipal => ?_
  refine Tx.Reads.wp_bind (reads_getOpportunity _ _) (fun _ => h) fun o hget => ?_
  obtain ⟨ho, hid, horg⟩ := of_getOpportunity hget
  rw [Tx.wp_ite]
  split
  · exact h
  · rename_i hversion
    have accepts : AcceptsUpdate env db credentials d.now opportunityId ifMatch principal o :=
      ⟨hprincipal, ⟨ho, hid, horg⟩, by simpa using hversion⟩
    by_cases hnull : body.stage = some none
    · -- the null column makes the commit fail
      rw [if_pos hnull]
      refine Tx.wp_bind.mpr (Tx.wp_stage.mpr (Tx.wp_bind.mpr (Tx.wp_stage.mpr (Tx.wp_bind.mpr
        (Tx.wp_commit_cases (fun db' happly => ?_) fun _ => h)))))
      obtain ⟨mid, -, hrefused⟩ := Backend.applyAll_cons_eq_ok.mp happly
      cases hrefused
    by_cases hfk : fkOk db.users ((o.changes (body.assign o)).assignedTo.getD none) = true
    case neg =>
      rw [if_neg hnull]
      refine Tx.wp_bind.mpr (Tx.wp_stage.mpr (Tx.wp_bind.mpr
        (Tx.wp_commit_cases (fun db' happly => ?_) fun _ => h)))
      obtain ⟨mid, hupdate, -⟩ := Backend.applyAll_cons_eq_ok.mp happly
      exact absurd (ite_error_eq_ok.mp hupdate).1 hfk
    let facts : List Fact := .opportunity o.id (some principal.orgId) ::
      (body.assignedTo.join.map fun id => .user id principal.orgId).toList
    have known : strict → ∀ f ∈ facts, f.Holds db := by
      intro hs f hf
      obtain rfl | hf := List.mem_cons.mp hf
      · exact Or.inl ⟨o, ho, rfl, congrArg some horg⟩
      · obtain ⟨id, hassigned, rfl⟩ : ∃ id, body.assignedTo.join = some id ∧
            Fact.user id principal.orgId = f := by simpa using hf
        have hbody : body.assignedTo = some (some id) := Option.join_eq_some_iff.mp hassigned
        have hassign : (body.assign o).assignedTo = some id := by
          rw [OpportunityUpdate.assign, hbody]
          rfl
        by_cases hsame : o.assignedTo = some id
        · exact horg ▸ (h.2 hs).assigned o ho id hsame
        · have hset : (o.changes (body.assign o)).assignedTo = some (some id) := by
            show changed o.assignedTo (body.assign o).assignedTo = _
            rw [hassign, changed, if_neg hsame]
          rw [hset] at hfk
          obtain ⟨u, hu⟩ := Option.isSome_iff_exists.mp hfk
          obtain rfl := Table.key_of_find? hu
          exact ⟨u, Table.mem_of_find? hu, rfl,
            hc hs principal o accepts hnull u (Table.mem_of_find? hu) hbody⟩
    have fits : strict → Write.Fits strict (fun f => f ∈ facts)
        (.updateOpportunity o.id (o.changes (body.assign o))) := by
      rintro - - userId (huser | huser)
      · obtain ⟨hne, hassigned⟩ := changed_eq_some.mp huser
        refine ⟨principal.orgId, List.mem_cons_self, List.mem_cons_of_mem _ ?_⟩
        cases hbody : body.assignedTo with
        | none => exact absurd (by simp [OpportunityUpdate.assign, hbody]) hne
        | some assigned =>
            have : assigned = some userId := by
              simpa [OpportunityUpdate.assign, hbody] using hassigned
            simp [this]
      · cases (changed_self _).symm.trans huser
    have idle (hs : ¬strict) : Write.Fits strict (fun f => f ∈ ([] : List Fact))
        (.updateOpportunity o.id (o.changes (body.assign o))) := fun h => absurd h hs
    obtain ⟨fs, known, fits⟩ := exists_facts idle known fits
    have rest : Emits Write.Idle (do
        Tx.commit
        let opportunity ← refreshRow fun db => db.opportunities.find? o.id
        buildDetail opportunity) :=
      Emits.bind Emits.commit fun _ => (reads_refreshedDetail _).emits
    refine refs_assign h fs known fits fun _ => ?_
    exact Emits.ite (fun _ => Emits.bind (Emits.stage fun _ _ => trivial) fun _ => rest)
      fun _ => rest

theorem refs_decide {opportunityId : Uuid} {body : DecisionRequest}
    {idempotencyKey : Option String} (h : Refs strict db) :
    Refs strict ((decideEndpoint env credentials d opportunityId body
      idempotencyKey).atomically backend db).2 := by
  refine (Tx.atomically_iff (P := fun _ db' => Refs strict db')).mpr ?_
  refine Tx.Reads.wp_bind (reads_require _ _ _ _) (fun _ => h) fun principal hprincipal => ?_
  cases given idempotencyKey with
  | none => exact h
  | some key =>
      refine Tx.Reads.wp_bind (reads_getOpportunity _ _) (fun _ => h) fun o hget => ?_
      obtain ⟨ho, -, horg⟩ := of_getOpportunity hget
      rw [Tx.wp_ite]
      split
      · exact h
      · refine Tx.Reads.wp_bind (Tx.Reads.query _) (fun _ => h) fun decided _ => ?_
        rw [Tx.wp_ite]
        split
        · exact (reads_buildDetail o).wp.mpr h
        · refine Tx.Reads.wp_bind (Tx.Reads.query _) (fun _ => h) fun evidence _ => ?_
          rw [Tx.wp_ite]
          split
          · exact h
          · refine refs_assign h (.opportunity o.id (some principal.orgId) ::
              (principal.userId.map fun id => .user id principal.orgId).toList) ?known ?fits
              fun _ => ?rest
            case known =>
              intro f hf
              obtain rfl | hf := List.mem_cons.mp hf
              · exact Or.inl ⟨o, ho, rfl, congrArg some horg⟩
              · obtain ⟨id, huser, rfl⟩ : ∃ id, principal.userId = some id ∧
                    Fact.user id principal.orgId = f := by simpa using hf
                exact hasUser_of_admits hprincipal huser
            case fits =>
              rintro - userId (huser | huser)
              · cases (changed_self _).symm.trans huser
              · obtain ⟨-, hdecided⟩ := changed_eq_some.mp huser
                have : principal.userId = some userId := hdecided
                exact ⟨principal.orgId, List.mem_cons_self,
                  List.mem_cons_of_mem _ (by simp [this])⟩
            case rest =>
              refine Emits.bind (Emits.stage fun _ _ => trivial) fun _ => Emits.bind ?_ fun _ =>
                Emits.bind Emits.commit fun _ => (reads_refreshedDetail _).emits
              refine Emits.bind (Emits.query _) fun application? => ?_
              cases application? with
              | none => exact Emits.pure _
              | some application =>
                  exact Emits.ite (fun _ => Emits.pure _) fun _ =>
                    Emits.stage fun _ _ => trivial

end Served

section System

open Tx

inductive FundEvent where
  | deal (a : DealEvent)
  | thesis (credentials : Option Credentials) (now : Timestamp) (r : ThesisRequest)

def fundStep (env : Env) (s : DealState) : FundEvent → DealState
  | .deal a => dealStep env s a
  | .thesis credentials now r =>
      { s with db := ((r.serve env credentials now).atomically backend s.db).2 }

/-- A manual creation that goes through names a thesis of the caller's fund, if any, and an edit
that goes through assigns a user of it, if anyone. -/
def NamesOwn (env : Env) (s : DealState) : FundEvent → Prop
  | .deal (.request credentials d (.createOpportunity body)) =>
      ∀ principal, Admits env s.db .screen credentials d.now principal →
        GoesThrough env d s.db principal.orgId body →
          ∀ id, body.thesisId = some id → HasThesis s.db id principal.orgId
  | .deal (.request credentials d (.updateOpportunity opportunityId body ifMatch)) =>
      ∀ principal o, AcceptsUpdate env s.db credentials d.now opportunityId ifMatch principal o →
        body.stage ≠ some none → ∀ u ∈ s.db.users, body.assignedTo = some (some u.id) →
          u.orgId = principal.orgId
  | _ => True

variable {strict : Prop} {env : Env} {s : DealState}

theorem thesis_elsewhere {credentials : Option Credentials} {now : Timestamp} (r : ThesisRequest) :
    Emits Write.Elsewhere (r.serve env credentials now) := by
  have clear {orgId : Uuid} : Emits Write.Elsewhere (clearFundDefaults orgId) :=
    Emits.bind (Emits.query _) fun _ => emits_execute (by rfl)
  have getThesis {orgId id : Uuid} : Emits Write.Elsewhere (getThesis orgId id) := by
    refine Emits.bind (Emits.query _) fun thesis? => ?_
    cases thesis? with
    | none => exact Emits.throw _
    | some thesis => exact Emits.pure _
  have answer {id : Uuid} : Emits Write.Elsewhere (do
      let thesis ← refreshRow fun db => db.theses.find? id
      thesisOut thesis) :=
    Emits.bind (reads_refreshRow _).emits fun _ =>
      Emits.ite (fun _ => Emits.pure _) fun _ => Emits.throw _
  have refusals (es : List Exc) : Emits Write.Elsewhere
      (es.forM fun e => Tx.stage (.refused e) : Tx Unit) := by
    induction es with
    | nil => exact Emits.pure _
    | cons e es ih => exact Emits.bind (Emits.stage (by rfl)) fun _ => ih
  cases r with
  | create id body =>
      refine Emits.void (Emits.bind (reads_require _ _ _ _).emits fun principal => ?_)
      have rest : Emits Write.Elsewhere (do
          Tx.stage (.insertThesis (body.row id principal.orgId))
          body.refusals.forM fun e => Tx.stage (.refused e)
          Tx.commit
          let thesis ← refreshRow fun db => db.theses.find? id
          thesisOut thesis) :=
        Emits.bind (Emits.stage (by rfl)) fun _ => Emits.bind (refusals _) fun _ =>
          Emits.bind Emits.commit fun _ => answer
      exact Emits.ite (fun _ => Emits.bind clear fun _ => rest) fun _ => rest
  | update thesisId body ifMatch =>
      refine Emits.void (Emits.bind (reads_require _ _ _ _).emits fun principal =>
        Emits.bind getThesis fun thesis => Emits.ite (fun _ => Emits.throw _) fun _ =>
          Emits.bind (Emits.stage (by rfl)) fun _ => Emits.bind (refusals _) fun _ =>
            Emits.bind Emits.commit fun _ => answer)
  | delete thesisId =>
      exact Emits.bind (reads_require _ _ _ _).emits fun principal =>
        Emits.bind getThesis fun thesis => Emits.bind (Emits.stage (by rfl)) fun _ => Emits.commit
  | setDefault thesisId =>
      exact Emits.void (Emits.bind (reads_require _ _ _ _).emits fun principal =>
        Emits.bind getThesis fun thesis => Emits.bind clear fun _ =>
          Emits.bind (Emits.stage (by rfl)) fun _ => Emits.bind Emits.commit fun _ => answer)

theorem refs_request {credentials : Option Credentials} {d : DealDraws} (r : DealRequest)
    (h : Refs strict s.db) (hc : strict → NamesOwn env s (.deal (.request credentials d r))) :
    Refs strict (dealStep env s (.request credentials d r)).db := by
  have served {α : Type} {p : DolphinVC.Tx α} {G : α → List Fact} (hp : Vouched strict [] p G) :
      Refs strict ((void p).atomically backend s.db).2 := by
    rw [Tx.atomically_void]
    exact hp.served h
  cases r with
  | createOpportunity body =>
      simp only [dealStep, DealRequest.serve, Tx.atomically_void]
      exact refs_createOpportunity h hc
  | updateOpportunity opportunityId body ifMatch =>
      simp only [dealStep, DealRequest.serve, Tx.atomically_void]
      exact refs_updateOpportunity h hc
  | decide opportunityId body idempotencyKey =>
      simp only [dealStep, DealRequest.serve, Tx.atomically_void]
      exact refs_decide h
  | startJob kind opportunityId idempotencyKey => exact served startJobEndpoint_vouched
  | archive opportunityId => exact served archive_vouched
  | submitApplication form submittedIp idempotencyKey => exact served submitApplication_vouched
  | publicApply orgSlug form submittedIp => exact served publicApply_vouched
  | regenerateSection memoId idempotencyKey => exact served regenerateSection_vouched
  | harvest channels => exact served harvest_vouched
  | cancelJob jobId => exact cancelJob_vouched.served h
  | retryJob jobId => exact served retryJob_vouched

/-- Whatever a job run in progress still commits is backed. -/
def RunsVouched (strict : Prop) (s : DealState) : Prop :=
  ∀ t ∈ s.runs, t.Relies backend (tenancy strict).Sound (fun _ _ _ => True) s.db

theorem stable_true : Stable backend fun _ (_ : Session Write) => True := fun _ _ _ _ h => h

theorem RunsVouched.reaches {s' : DealState} (h : RunsVouched strict s)
    (hruns : s'.runs = s.runs) (hr : backend.Reaches s.db s'.db) : RunsVouched strict s' := by
  intro t ht
  rw [hruns] at ht
  exact Program.Relies.reaches (h t ht) (fun _ => stable_true) hr

theorem processJob_relies (strict : Prop) (run : RunEnv) (jobId : Uuid) (db : Db) :
    (processJob run jobId).run.Relies backend (tenancy strict).Sound (fun _ _ _ => True) db {} :=
  (processJob_vouched db {} (.start (by simp))).mono fun _ _ _ _ => trivial

theorem runsVouched_step (h : RunsVouched strict s) (a : FundEvent) :
    RunsVouched strict (fundStep env s a) := by
  have alone {α : Type} {p : DolphinVC.Tx α} :
      RunsVouched strict { s with db := (p.atomically backend s.db).2 } :=
    h.reaches rfl (reaches_atomically backend p s.db)
  cases a with
  | thesis credentials now r => exact alone
  | deal a =>
      cases a with
      | request credentials d r => exact alone
      | auth r d => exact alone
      | reap now => exact h.reaches rfl (reaches_atomically backend (reapStaleJobs now) s.db)
      | deliver run jobId =>
          intro t ht
          obtain ht | ht := List.mem_append.mp ht
          · exact h t ht
          · obtain rfl := List.mem_singleton.mp ht
            exact processJob_relies strict run jobId s.db
      | run i faults =>
          simp only [fundStep, dealStep]
          split
          · exact h
          · rename_i t hi
            intro u hu
            obtain hu | rfl := List.mem_or_eq_of_mem_set hu
            · exact Program.Relies.reaches (h u hu) (fun _ => stable_true)
                (Thread.reaches_toCommit backend s.db faults t)
            · exact (h t (List.mem_of_getElem? hi)).toCommit

theorem refs_step (a : FundEvent) (hruns : RunsVouched strict s) (h : Refs strict s.db)
    (hc : strict → NamesOwn env s a) : Refs strict (fundStep env s a).db := by
  cases a with
  | thesis credentials now r =>
      exact (vouched_of_elsewhere (thesis_elsewhere r)).served h
  | deal a =>
      cases a with
      | request credentials d r => exact refs_request r h hc
      | auth r d =>
          exact (vouched_of_idle ((auth_writes r).weaken fun _ hw => hw.idle)).served h
      | reap now =>
          exact (vouched_of_idle (reapStaleJobs_idle)).served h
      | deliver run jobId => exact h
      | run i faults =>
          simp only [fundStep, dealStep]
          split
          · exact h
          · rename_i t hi
            obtain hsame | ⟨ws, hdue, happly⟩ := Thread.toCommit_cases backend s.db faults t
            · rw [hsame]
              exact h
            · exact ((hruns t (List.mem_of_getElem? hi)).due hdue).keeps (tenancy_lawful strict)
                (fun _ _ _ hI fits happly => hI.apply fits happly) h happly

theorem OwnPeople.scored {db : Db} (h : OwnPeople db) {o : Opportunity} (ho : o ∈ db.opportunities)
    {t : Thesis} (ht : o.thesisId.bind db.theses.find? = some t) : t.orgId = o.orgId := by
  obtain ⟨id, hid, hfind⟩ := Option.bind_eq_some_iff.mp ht
  obtain ⟨hmem, hkey⟩ := Table.find?_eq_some_iff.mp hfind
  obtain ⟨own, hown, hownid, horg⟩ := h.thesis o ho id hid
  obtain rfl := Table.eq_of_key hown hmem (hownid.trans hkey.symm)
  exact horg

theorem refs_along (env : Env) (events : List FundEvent) (start : Refs strict s.db)
    (hruns : RunsVouched strict s)
    (run : Meets (fundStep env) (fun s a => strict → NamesOwn env s a) s events) :
    Along (fundStep env) (fun s => Refs strict s.db) s events :=
  (along_of_meets (P := fun s => RunsVouched strict s ∧ Refs strict s.db)
    (fun _ a hI hc => ⟨runsVouched_step hI.1 a, refs_step a hI.1 hI.2 hc⟩) ⟨hruns, start⟩
    run).mono fun _ hI => hI.2

/-- As long as manual creations name theses of the caller's fund and edits assign its users,
no reference crosses from one fund to another. -/
theorem references_stay_within_funds (env : Env) (db : Db) (events : List FundEvent)
    (start : NoCrossing db) (run : Meets (fundStep env) (NamesOwn env) { db } events) :
    Along (fundStep env) (fun s => NoCrossing s.db) { db } events := by
  have refs : Along (fundStep env) (fun s => Refs True s.db) { db } events :=
    refs_along env events ⟨start.rows, fun _ => start.people⟩ (by simp [RunsVouched])
      (run.mono fun _ _ hc _ => hc)
  refine refs.mono fun s h => ⟨h.1, h.2 trivial, fun o ho t ht => (h.2 trivial).scored ho ht⟩

/-- Beside Carol's and Dan's fund there is another one; each has a thesis. -/
def twoFunds : Db :=
  { fundDb with
    orgs := ⟨[{ id := 1, name := "Harbour Capital", slug := "harbour-capital" },
      { id := 2, name := "Summit Partners", slug := "summit-partners" }], by decide⟩
    theses := ⟨[{ id := 60, orgId := 1, name := "Harbour thesis" },
      { id := 70, orgId := 2, name := "Summit thesis" }], by decide⟩ }

theorem noCrossing_twoFunds : NoCrossing twoFunds := by
  have noOpportunity (o : Opportunity) : o ∉ twoFunds.opportunities := Table.not_mem_empty o
  constructor
  case rows =>
    constructor
    · exact fun a ha => absurd ha (Table.not_mem_empty a)
    · exact fun a ha => absurd ha (Table.not_mem_empty a)
    · exact fun c hc => absurd hc (Table.not_mem_empty c)
    · exact fun m hm => absurd hm (Table.not_mem_empty m)
    · exact fun j hj => absurd hj (Table.not_mem_empty j)
  case people =>
    exact ⟨fun o ho => absurd ho (noOpportunity o), fun o ho => absurd ho (noOpportunity o),
      fun o ho => absurd ho (noOpportunity o)⟩
  case scored => exact fun o ho => absurd ho (noOpportunity o)

/-- Dan opens a deal on the thesis of the other fund. -/
def borrowedThesis : List FundEvent :=
  [.deal (danAt 1 (.createOpportunity { company := .id 10, thesisId := some 70 }))]

theorem thesis_of_another_fund : NoCrossing twoFunds ∧
    ¬ Along (fundStep fundEnv) (fun s => NoCrossing s.db) { db := twoFunds } borrowedThesis := by
  refine ⟨noCrossing_twoFunds, fun run => ?_⟩
  have opened :
    (borrowedThesis.foldl (fundStep fundEnv) { db := twoFunds }).db.opportunities.rows.map
      (fun o => (o.orgId, o.thesisId)) = [(1, some 70)] := by decide +kernel
  have theses : (borrowedThesis.foldl (fundStep fundEnv) { db := twoFunds }).db.theses.rows.map
      (fun t => (t.id, t.orgId)) = [(60, 1), (70, 2)] := by decide +kernel
  obtain ⟨o, ho, hrow⟩ := List.mem_map.mp (opened ▸ List.mem_cons_self)
  simp only [Prod.mk.injEq] at hrow
  obtain ⟨t, ht, hid, horg⟩ := run.last.people.thesis o ho 70 hrow.2
  have hmem := theses ▸ List.mem_map_of_mem (f := fun t : Thesis => (t.id, t.orgId)) ht
  rw [hid, horg, hrow.1] at hmem
  exact absurd hmem (by decide)

/-- On a thesis of his own fund all is well. -/
theorem thesis_of_own_fund :
    Along (fundStep fundEnv) (fun s => NoCrossing s.db) { db := twoFunds }
      [.deal (danAt 1 (.createOpportunity { company := .id 10, thesisId := some 60 }))] := by
  refine references_stay_within_funds fundEnv twoFunds _ noCrossing_twoFunds ⟨?_, trivial⟩
  intro principal hprincipal _ id hid
  cases hid
  cases hprincipal
  exact ⟨{ id := 60, orgId := 1, name := "Harbour thesis" },
    (List.mem_cons_self : _ ∈ twoFunds.theses.rows), rfl, rfl⟩

end System

end DolphinVC
