import DolphinVC.Verification.HarvestedSignals

/-!
# What a request inserts

Every request is gone through once: the opportunity that it creates is undecided, the job that it
creates waits to be started, and of the jobs that are there it changes none, but for the request
that cancels one. Invariants of the opportunities and of the jobs take the requests from here.
-/

namespace DolphinVC

open Transaction Tx

/-- A job as a request creates it at this time. -/
structure Job.Waiting (now : Timestamp) (j : Job) : Prop where
  status : j.status = .queued
  attempts : j.attempts = 0
  startedAt : j.startedAt = none
  heartbeatAt : j.heartbeatAt = none
  finishedAt : j.finishedAt = none
  createdAt : j.createdAt = now

def Write.Requested (now : Timestamp) : Write → Prop
  | .insertOpportunity row => row.decision = none
  | .insertJob row => row.Waiting now
  | .updateJob _ _ => False
  | _ => True

section Classes

variable {w : Write} {now : Timestamp}

theorem Write.requested_of_target (hopportunities : w.target ≠ .opportunities)
    (hjobs : w.target ≠ .jobs) : w.Requested now := by
  cases w with
  | insertOpportunity row => exact absurd rfl hopportunities
  | insertJob row => exact absurd rfl hjobs
  | updateJob id set => exact absurd rfl hjobs
  | _ => trivial

theorem Write.Elsewhere.requested (h : w.Elsewhere) : w.Requested now := by
  have htarget : w.target = .other := h
  exact Write.requested_of_target (by simp [htarget]) (by simp [htarget])

end Classes

variable {env : Env} {credentials : Option Credentials} {d : DealDraws} {now : Timestamp}

theorem requested_of_elsewhere {α : Type} {p : DolphinVC.Tx α} (h : Emits Write.Elsewhere p) :
    Emits (Write.Requested now) p := h.weaken fun _ hw => hw.requested

section Queue

theorem createJob_requested {request : JobRequest} {id : Uuid} :
    Emits (Write.Requested now) (createJob request id now) := by
  refine Emits.bind (Emits.query _) fun existing? => ?_
  cases existing? with
  | some job => exact Emits.pure _
  | none =>
      exact Emits.bind (Emits.stage (by exact ⟨rfl, rfl, rfl, rfl, rfl, rfl⟩)) fun _ =>
        Emits.bind Emits.flush fun _ => Emits.pure _

theorem acceptJob_requested {request : JobRequest} :
    Emits (Write.Requested d.now) (acceptJob env d request) := by
  refine Emits.bind createJob_requested ?_
  rintro ⟨job, replayed⟩
  refine Emits.bind Emits.commit fun _ => ?_
  cases replayed with
  | true => exact Emits.pure _
  | false => exact Emits.bind dispatchJob_emits fun _ => Emits.pure _

theorem jobTargetInput_emits {Φ : Write → Prop} {kind : AnalysisKind} {opportunityId : Uuid} :
    Emits Φ (jobTargetInput kind opportunityId) := by
  refine Emits.ite (fun _ => Emits.bind (Emits.query _) fun application? => ?_) fun _ =>
    Emits.pure _
  cases application? with
  | none => exact Emits.pure _
  | some application =>
      dsimp only
      cases application.deckDocumentId with
      | none => exact Emits.pure _
      | some documentId => exact Emits.pure _

theorem startJob_requested {kind : AnalysisKind} {opportunityId : Uuid}
    {idempotencyKey : Option String} :
    Emits (Write.Requested d.now)
      (startJobEndpoint env credentials d kind opportunityId idempotencyKey) := by
  refine Emits.bind (reads_require _ _ _ _).emits fun principal => ?_
  cases given idempotencyKey with
  | none => exact Emits.throw _
  | some key =>
      exact Emits.bind (reads_getOpportunity _ _).emits fun _ =>
        Emits.bind jobTargetInput_emits fun _ => acceptJob_requested

theorem regenerateSection_requested {memoId : Uuid} {idempotencyKey : Option String} :
    Emits (Write.Requested d.now)
      (regenerateSectionEndpoint env credentials d memoId idempotencyKey) := by
  refine Emits.bind (reads_require _ _ _ _).emits fun principal =>
    Emits.bind (reads_getMemo _ _).emits fun memo => ?_
  cases given idempotencyKey with
  | none => exact Emits.throw _
  | some key => exact acceptJob_requested

theorem harvest_requested {channels : Channels} :
    Emits (Write.Requested d.now) (harvestEndpoint env credentials d channels) :=
  Emits.bind (reads_require _ _ _ _).emits fun _ =>
    Emits.bind (Emits.stage (by exact ⟨rfl, rfl, rfl, rfl, rfl, rfl⟩)) fun _ =>
      Emits.bind Emits.commit fun _ => Emits.bind dispatchJob_emits fun _ => Emits.pure _

theorem retryJob_requested {jobId : Uuid} :
    Emits (Write.Requested d.now) (retryJobEndpoint env credentials d jobId) :=
  Emits.bind (reads_require _ _ _ _).emits fun _ => Emits.bind (reads_getJob _ _).emits fun _ =>
    Emits.ite (fun _ => Emits.throw _) fun _ => Emits.bind createJob_requested fun _ =>
      Emits.bind Emits.commit fun _ => Emits.bind dispatchJob_emits fun _ => Emits.pure _

end Queue

section Opportunities

theorem applicationOpportunity_requested {orgId : Uuid} {company : Company} :
    Emits (Write.Requested d.now) (applicationOpportunity env orgId company d) := by
  refine Emits.bind (Emits.query _) fun opportunity? => ?_
  cases opportunity? with
  | some o => exact Emits.pure _
  | none =>
      exact Emits.bind (Emits.query _) fun _ => Emits.bind (Emits.stage (by rfl)) fun _ =>
        Emits.bind Emits.flush fun _ => Emits.pure _

theorem createApplication_requested {form : ApplicationForm} {submission : Submission} :
    Emits (Write.Requested d.now) (createApplication env form submission d) := by
  refine Emits.bind validateApplication_reads.emits fun _ =>
    Emits.bind (Emits.query _) fun prior? => ?_
  cases prior? with
  | some prior => exact Emits.pure _
  | none =>
      exact Emits.bind (requested_of_elsewhere applicationCompany_stages.emits) fun company =>
        Emits.bind (requested_of_elsewhere applicationDocument_stages.emits) fun documentId =>
          Emits.bind applicationOpportunity_requested fun opportunityId =>
            Emits.bind (requested_of_elsewhere (emits_of_candidate ensureApplicationFounder_stages))
              fun _ => Emits.bind (Emits.stage trivial) fun _ => Emits.bind Emits.flush fun _ =>
                Emits.bind (Emits.stage (by exact ⟨rfl, rfl, rfl, rfl, rfl, rfl⟩)) fun _ =>
                  Emits.bind Emits.flush fun _ => Emits.pure _

theorem createOpportunity_requested {body : OpportunityCreate} :
    Emits (Write.Requested d.now) (createOpportunityEndpoint env credentials d body) := by
  refine Emits.bind (reads_require _ _ _ _).emits fun principal => Emits.bind ?_ fun _ =>
    Emits.bind Emits.commit fun _ => (reads_refreshedDetail _).emits
  exact Emits.bind (requested_of_elsewhere manualCompany_stages.emits) fun company =>
    Emits.bind (Emits.query _) fun existing => Emits.ite (fun _ => Emits.throw _) fun _ =>
      Emits.bind (Emits.stage (by rfl)) fun _ => Emits.bind Emits.flush fun _ => Emits.pure _

theorem submitApplication_requested {form : ApplicationForm}
    {submittedIp idempotencyKey : Option String} :
    Emits (Write.Requested d.now)
      (submitApplicationEndpoint env credentials d form submittedIp idempotencyKey) := by
  refine Emits.bind (reads_require _ _ _ _).emits fun principal => ?_
  unfold submitApplication
  cases given idempotencyKey with
  | none => exact Emits.throw _
  | some key =>
      refine Emits.bind (Emits.call _) fun _ => Emits.bind createApplication_requested fun result =>
        Emits.bind Emits.commit fun _ => ?_
      cases result.replayed with
      | true => exact Emits.pure _
      | false => exact Emits.bind dispatchJob_emits fun _ => Emits.pure _

theorem publicApply_requested {orgSlug : String} {form : ApplicationForm}
    {submittedIp : Option String} :
    Emits (Write.Requested d.now) (publicApplyEndpoint env d orgSlug form submittedIp) := by
  refine Emits.bind (Emits.query _) fun org? => ?_
  cases org? with
  | none => exact Emits.throw _
  | some org =>
      exact Emits.bind (Emits.call _) fun _ => Emits.bind createApplication_requested fun result =>
        Emits.bind Emits.commit fun _ => Emits.bind dispatchJob_emits fun _ => Emits.pure _

theorem updateOpportunity_requested {opportunityId : Uuid} {body : OpportunityUpdate}
    {ifMatch : Option String} :
    Emits (Write.Requested now)
      (updateOpportunityEndpoint env credentials d opportunityId body ifMatch) := by
  refine Emits.bind (reads_require _ _ _ _).emits fun principal =>
    Emits.bind (reads_getOpportunity _ _).emits fun o => Emits.ite (fun _ => Emits.throw _) fun _ =>
      Emits.bind (Emits.stage trivial) fun _ => ?_
  split
  · exact Emits.bind (Emits.stage trivial) fun _ =>
      Emits.bind Emits.commit fun _ => (reads_refreshedDetail _).emits
  · exact Emits.bind Emits.commit fun _ => (reads_refreshedDetail _).emits

theorem archive_requested {opportunityId : Uuid} :
    Emits (Write.Requested now) (archiveEndpoint env credentials d opportunityId) :=
  Emits.bind (reads_require _ _ _ _).emits fun _ => Emits.bind (reads_getOpportunity _ _).emits
    fun _ => Emits.bind (Emits.stage trivial) fun _ => Emits.bind Emits.commit fun _ =>
      (reads_buildExpiredDetail _).emits

theorem recordDecision_requested {principal : Principal} {o : Opportunity}
    {body : DecisionRequest} {key : String} :
    Emits (Write.Requested now) (recordDecision d principal o body key) := by
  refine Emits.bind (Emits.stage trivial) fun _ => Emits.bind (Emits.stage trivial) fun _ =>
    Emits.bind (Emits.bind (Emits.query _) fun application? => ?_) fun _ =>
      Emits.bind Emits.commit fun _ => (reads_refreshedDetail _).emits
  cases application? with
  | none => exact Emits.pure _
  | some application => exact Emits.ite (fun _ => Emits.pure _) fun _ => Emits.stage trivial

theorem decide_requested {opportunityId : Uuid} {body : DecisionRequest}
    {idempotencyKey : Option String} :
    Emits (Write.Requested now)
      (decideEndpoint env credentials d opportunityId body idempotencyKey) := by
  refine Emits.bind (reads_require _ _ _ _).emits fun principal => ?_
  cases given idempotencyKey with
  | none => exact Emits.throw _
  | some key =>
      exact Emits.bind (reads_getOpportunity _ _).emits fun o =>
        Emits.ite (fun _ => Emits.throw _) fun _ => Emits.bind (Emits.query _) fun _ =>
          Emits.ite (fun _ => (reads_buildDetail o).emits) fun _ => Emits.bind (Emits.query _)
            fun _ => Emits.ite (fun _ => Emits.throw _) fun _ => recordDecision_requested

end Opportunities

/-- Every request but a cancellation. -/
theorem serve_requested (r : DealRequest) (other : ∀ jobId, r ≠ .cancelJob jobId) :
    Emits (Write.Requested d.now) (r.serve env credentials d) := by
  cases r with
  | createOpportunity body => exact createOpportunity_requested.void
  | updateOpportunity opportunityId body ifMatch => exact updateOpportunity_requested.void
  | startJob kind opportunityId idempotencyKey => exact startJob_requested.void
  | decide opportunityId body idempotencyKey => exact decide_requested.void
  | archive opportunityId => exact archive_requested.void
  | submitApplication form submittedIp idempotencyKey => exact submitApplication_requested.void
  | publicApply orgSlug form submittedIp => exact publicApply_requested.void
  | regenerateSection memoId idempotencyKey => exact regenerateSection_requested.void
  | harvest channels => exact harvest_requested.void
  | cancelJob jobId => exact absurd rfl (other jobId)
  | retryJob jobId => exact retryJob_requested.void

end DolphinVC
