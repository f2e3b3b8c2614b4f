import DolphinVC.Deps
import DolphinVC.Services.Applications
import DolphinVC.Services.Jobs

/-!
# The deal endpoints

The endpoints on opportunities, applications, memos, jobs and harvesting that write
opportunities, applications or jobs. Each runs on the request's session and commits;
those that create a job dispatch it after the commit. `DealRequest.serve` puts them
behind one entry point.
-/

namespace DolphinVC

open Transaction

section Opportunities

variable (env : Env) (credentials : Option Credentials) (d : DealDraws)

def createOpportunityEndpoint (body : OpportunityCreate) : Tx OpportunityDetail := do
  let principal ← require .screen env credentials d.now
  let opportunity ← createManualOpportunity env principal.orgId body d
  Tx.commit
  let opportunity ← refreshRow fun db => db.opportunities.find? opportunity.id
  buildDetail opportunity

/-- The fields that were set; the inner `none` is an explicit null. -/
structure OpportunityUpdate where
  assignedTo : Option (Option Uuid) := none
  stage : Option (Option OpportunityStage) := none
  title : Option (Option String) := none

/-- `stage` is NOT NULL: a null is left to the statement that violates it. -/
def OpportunityUpdate.assign (body : OpportunityUpdate) (o : Opportunity) : Opportunity :=
  { o with
    assignedTo := body.assignedTo.getD o.assignedTo
    stage := body.stage.join.getD o.stage
    title := body.title.getD o.title
    version := o.version + 1 }

/-- `if_match.strip('"') == str(version)` -/
def matchesVersion (ifMatch : Option String) (version : Nat) : Bool :=
  ifMatch.any fun tag =>
    ((tag.toList.dropWhile (· = '"')).reverse.dropWhile (· = '"')).reverse =
      (toString version).toList

def updateOpportunityEndpoint (opportunityId : Uuid) (body : OpportunityUpdate)
    (ifMatch : Option String) : Tx OpportunityDetail := do
  let principal ← require .screen env credentials d.now
  let opportunity ← getOpportunity principal.orgId opportunityId
  if ¬ matchesVersion ifMatch opportunity.version then
    throw (Exc.conflict "Opportunity version is stale or If-Match is missing." "STALE_VERSION")
  else do
    Tx.stage (.updateOpportunity opportunity.id (opportunity.changes (body.assign opportunity)))
    if body.stage = some none then
      Tx.stage (.refused (.integrity "opportunities.stage"))
    else
      pure ()
    Tx.commit
    let opportunity ← refreshRow fun db => db.opportunities.find? opportunity.id
    buildDetail opportunity

/-- The application received last. -/
def latestApplication (opportunityId : Uuid) (db : Db) : Option Application :=
  (db.applications.rows.filter fun a => a.opportunityId = some opportunityId).foldl
    (fun latest a => match latest with
      | some l => if l.receivedAt < a.receivedAt then some a else some l
      | none => some a) none

/-- The jobs that can be started on an opportunity. -/
inductive AnalysisKind where
  | screen | diligence | memo
  deriving DecidableEq

def AnalysisKind.value : AnalysisKind → String
  | .screen => "screen"
  | .diligence => "diligence"
  | .memo => "memo"

/-- A screening works on the deck of the latest application, if it has one. -/
def jobTargetInput (kind : AnalysisKind) (opportunityId : Uuid) : Tx JobInput :=
  if kind = .screen then do
    let application? ← Tx.query (latestApplication opportunityId)
    match application? with
    | none => return {}
    | some application =>
        match application.deckDocumentId with
        | none => return {}
        | some documentId =>
            return { documentId := some documentId, applicationId := some application.id }
  else return {}

/-- Commit a job and dispatch it unless it is a replay. -/
def acceptJob (request : JobRequest) : Tx Uuid := do
  let (job, replayed) ← createJob request d.jobId d.now
  Tx.commit
  if replayed then pure () else dispatchJob env.settings.queueEager job.id
  return job.id

def idempotencyKeyRequired : Exc := Exc.validation "Idempotency-Key header is required."

/-- `screen`, `diligence` and `memo` differ in the kind of the job only. -/
def startJobEndpoint (kind : AnalysisKind) (opportunityId : Uuid) (idempotencyKey : Option String) :
    Tx Uuid := do
  let principal ← require .screen env credentials d.now
  match given idempotencyKey with
  | none => throw idempotencyKeyRequired
  | some idempotencyKey => do
      let _ ← getOpportunity principal.orgId opportunityId
      let input ← jobTargetInput kind opportunityId
      acceptJob env d
        { orgId := principal.orgId, kind := kind.value, targetType := "opportunity"
          targetId := opportunityId, idempotencyKey, input }

/-- A decision a human may take, with a rationale of 10 to 5000 characters. -/
structure DecisionRequest where
  decision : DecisionKind
  rationale : String
  human : decision ≠ .needsHuman
  rationaleLength : 10 ≤ rationale.length ∧ rationale.length ≤ 5000

def DecisionRequest.assign (body : DecisionRequest) (principal : Principal) (now : Timestamp)
    (o : Opportunity) : Opportunity :=
  { o with
    decision := some body.decision
    decisionRationale := some body.rationale
    decisionBy := principal.userId
    decidedAt := some now
    stage := .decided
    version := o.version + 1 }

def decideAudit (principal : Principal) (body : DecisionRequest) (idempotencyKey : String)
    (opportunityId : Uuid) : AuditLog where
  orgId := some principal.orgId
  actorUserId := principal.userId
  actorKind := principal.kind
  action := "opportunity.decide"
  targetType := some "opportunity"
  targetId := some opportunityId
  metaDecision := some body.decision
  metaIdempotencyKey := some idempotencyKey

def alreadyDecided (orgId opportunityId : Uuid) (idempotencyKey : String) (db : Db) : Bool :=
  db.auditLog.any fun a =>
    a.orgId = some orgId ∧ a.action = "opportunity.decide" ∧ a.targetId = some opportunityId ∧
      a.metaIdempotencyKey = some idempotencyKey

/-- Whether some claim of the opportunity has evidence. -/
def hasEvidence (opportunityId : Uuid) (db : Db) : Bool :=
  db.evidence.rows.any fun e => db.claims.rows.any fun c =>
    c.id = e.claimId ∧ c.opportunityId = some opportunityId

/-- The first application found goes to DECIDED. -/
def decideApplication (opportunityId : Uuid) : Tx Unit := do
  let application? ← Tx.query fun db => db.applications.rows.find? fun a =>
    a.opportunityId = some opportunityId
  match application? with
  | none => pure ()
  | some application =>
      if application.status = .decided then pure ()
      else Tx.stage (.updateApplication application.id .decided)

/-- Record a decision that passed the checks. -/
def recordDecision (principal : Principal) (opportunity : Opportunity) (body : DecisionRequest)
    (idempotencyKey : String) : Tx OpportunityDetail := do
  Tx.stage (.updateOpportunity opportunity.id
    (opportunity.changes (body.assign principal d.now opportunity)))
  Tx.stage (.insertAuditLog (decideAudit principal body idempotencyKey opportunity.id))
  decideApplication opportunity.id
  Tx.commit
  let opportunity ← refreshRow fun db => db.opportunities.find? opportunity.id
  buildDetail opportunity

def decideEndpoint (opportunityId : Uuid) (body : DecisionRequest)
    (idempotencyKey : Option String) : Tx OpportunityDetail := do
  let principal ← require .decide env credentials d.now
  match given idempotencyKey with
  | none => throw idempotencyKeyRequired
  | some idempotencyKey => do
      let opportunity ← getOpportunity principal.orgId opportunityId
      if opportunity.stage = .archived then
        throw (Exc.unprocessable "Archived opportunities cannot be decided.")
      else do
        let decided ← Tx.query (alreadyDecided principal.orgId opportunity.id idempotencyKey)
        if decided ∧ opportunity.decision.isSome then buildDetail opportunity
        else do
          let evidence ← Tx.query (hasEvidence opportunity.id)
          if body.decision = .pass ∧ ¬ evidence then
            throw (.app
              { code := "COLD_START_INSUFFICIENT_EVIDENCE"
                message := "A pass decision must cite evidence rather than missing data."
                statusCode := 422 })
          else recordDecision d principal opportunity body idempotencyKey

def Opportunity.archive (o : Opportunity) : Opportunity :=
  { o with stage := .archived, version := o.version + 1 }

def archiveEndpoint (opportunityId : Uuid) : Tx OpportunityDetail := do
  let principal ← require .screen env credentials d.now
  let opportunity ← getOpportunity principal.orgId opportunityId
  Tx.stage (.updateOpportunity opportunity.id (opportunity.changes opportunity.archive))
  Tx.commit
  buildExpiredDetail opportunity.archive

end Opportunities

section Applications

variable (env : Env) (credentials : Option Credentials) (d : DealDraws)

/-- The submission of a caller who is known. -/
def submitApplication (principal : Principal) (form : ApplicationForm)
    (submittedIp idempotencyKey : Option String) : Tx CreatedApplication :=
  match given idempotencyKey with
  | none => throw idempotencyKeyRequired
  | some key => do
      Tx.call (.evaluate "validate_public_url")
      let result ← createApplication env form
        { orgId := principal.orgId, sourceChannel := "web_form", submittedIp
          uploadedBy := principal.userId, idempotencyKey := some key } d
      Tx.commit
      if result.replayed then pure () else dispatchJob env.settings.queueEager result.jobId
      return result

def submitApplicationEndpoint (form : ApplicationForm)
    (submittedIp idempotencyKey : Option String) : Tx CreatedApplication := do
  let principal ← require .screen env credentials d.now
  submitApplication env d principal form submittedIp idempotencyKey

def publicApplyEndpoint (orgSlug : String) (form : ApplicationForm) (submittedIp : Option String) :
    Tx CreatedApplication := do
  let org? ← Tx.query fun db => db.orgs.rows.find? fun o => o.slug = orgSlug
  match org? with
  | none => throw (Exc.notFound "Fund")
  | some org => do
      Tx.call (.evaluate "validate_public_url")
      let result ← createApplication env form
        { orgId := org.id, sourceChannel := "public_form", submittedIp, isPublic := true } d
      Tx.commit
      dispatchJob env.settings.queueEager result.jobId
      return result

end Applications

section Jobs

variable (env : Env) (credentials : Option Credentials) (d : DealDraws)

def getMemo (orgId memoId : Uuid) : Tx Memo := do
  let memo? ← Tx.query fun db => db.memos.rows.find? fun m => m.id = memoId ∧ m.orgId = orgId
  match memo? with
  | none => throw (Exc.notFound "Memo")
  | some memo => return memo

theorem reads_getMemo (orgId memoId : Uuid) : Tx.Reads (getMemo orgId memoId) := by
  refine Tx.Reads.bind (Tx.Reads.query _) fun memo? => ?_
  cases memo? with
  | none => exact Tx.Reads.throw _
  | some memo => exact Tx.Reads.pure _

def regenerateSectionEndpoint (memoId : Uuid) (idempotencyKey : Option String) : Tx Uuid := do
  let principal ← require .screen env credentials d.now
  let memo ← getMemo principal.orgId memoId
  match given idempotencyKey with
  | none => throw idempotencyKeyRequired
  | some idempotencyKey =>
      acceptJob env d
        { orgId := principal.orgId, kind := "memo", targetType := "opportunity"
          targetId := memo.opportunityId, idempotencyKey }

def harvestJob (orgId : Uuid) (channels : Channels) (d : DealDraws) : Job where
  id := d.jobId
  orgId := some orgId
  kind := "ingest.harvest"
  targetType := some "organization"
  targetId := some orgId
  input := { channels }
  createdAt := d.now

def harvestEndpoint (channels : Channels) : Tx Uuid := do
  let principal ← require .admin env credentials d.now
  Tx.stage (.insertJob (harvestJob principal.orgId channels d))
  Tx.commit
  dispatchJob env.settings.queueEager d.jobId
  return d.jobId

/-- The fund's job, as `_job` finds it. -/
def getJob (orgId jobId : Uuid) : Tx Job := do
  let job? ← Tx.query fun db => db.jobs.rows.find? fun j => j.id = jobId ∧ j.orgId = some orgId
  match job? with
  | none => throw (Exc.notFound "Job")
  | some job => return job

theorem reads_getJob (orgId jobId : Uuid) : Tx.Reads (getJob orgId jobId) := by
  refine Tx.Reads.bind (Tx.Reads.query _) fun job? => ?_
  cases job? with
  | none => exact Tx.Reads.throw _
  | some job => exact Tx.Reads.pure _

def Job.cancel (now : Timestamp) (j : Job) : Job :=
  { j with status := .cancelled, finishedAt := some now }

def cancelJobEndpoint (jobId : Uuid) : Tx Unit := do
  let principal ← require .screen env credentials d.now
  let job ← getJob principal.orgId jobId
  if job.status ∈ [JobStatus.succeeded, .failed, .cancelled] then
    throw (Exc.unprocessable "Completed jobs cannot be cancelled.")
  else do
    Tx.stage (.updateJob job.id (job.changes (job.cancel d.now)))
    Tx.commit

/-- The retry of a job with so many attempts; a second one replays the first. -/
def retryRequest (orgId : Uuid) (old : Job) (targetId : Uuid) : JobRequest where
  orgId
  kind := old.kind
  targetType := (given old.targetType).getD "unknown"
  targetId := old.targetId.getD targetId
  idempotencyKey := "retry:" ++ toString old.id ++ ":" ++ toString old.attempts
  input := { old.input with retryOf := some old.id }

/-- Dispatches the job that `create_job` returned, replay or not. -/
def retryJobEndpoint (jobId : Uuid) : Tx Uuid := do
  let principal ← require .screen env credentials d.now
  let old ← getJob principal.orgId jobId
  if old.status ∉ [JobStatus.failed, .partialSuccess] then
    throw (Exc.unprocessable "Only failed or partial jobs can be retried.")
  else do
    let (job, _) ← createJob (retryRequest principal.orgId old d.targetId) d.jobId d.now
    Tx.commit
    dispatchJob env.settings.queueEager job.id
    return job.id

end Jobs

inductive DealRequest where
  | createOpportunity (body : OpportunityCreate)
  | updateOpportunity (opportunityId : Uuid) (body : OpportunityUpdate)
      (ifMatch : Option String)
  | startJob (kind : AnalysisKind) (opportunityId : Uuid) (idempotencyKey : Option String)
  | decide (opportunityId : Uuid) (body : DecisionRequest) (idempotencyKey : Option String)
  | archive (opportunityId : Uuid)
  | submitApplication (form : ApplicationForm) (submittedIp idempotencyKey : Option String)
  | publicApply (orgSlug : String) (form : ApplicationForm) (submittedIp : Option String)
  | regenerateSection (memoId : Uuid) (idempotencyKey : Option String)
  | harvest (channels : Channels)
  | cancelJob (jobId : Uuid)
  | retryJob (jobId : Uuid)

def DealRequest.serve (env : Env) (credentials : Option Credentials) (d : DealDraws) :
    DealRequest → Tx Unit
  | .createOpportunity body => Tx.void (createOpportunityEndpoint env credentials d body)
  | .updateOpportunity opportunityId body ifMatch =>
      Tx.void (updateOpportunityEndpoint env credentials d opportunityId body ifMatch)
  | .startJob kind opportunityId idempotencyKey =>
      Tx.void (startJobEndpoint env credentials d kind opportunityId idempotencyKey)
  | .decide opportunityId body idempotencyKey =>
      Tx.void (decideEndpoint env credentials d opportunityId body idempotencyKey)
  | .archive opportunityId => Tx.void (archiveEndpoint env credentials d opportunityId)
  | .submitApplication form submittedIp idempotencyKey =>
      Tx.void (submitApplicationEndpoint env credentials d form submittedIp idempotencyKey)
  | .publicApply orgSlug form submittedIp =>
      Tx.void (publicApplyEndpoint env d orgSlug form submittedIp)
  | .regenerateSection memoId idempotencyKey =>
      Tx.void (regenerateSectionEndpoint env credentials d memoId idempotencyKey)
  | .harvest channels => Tx.void (harvestEndpoint env credentials d channels)
  | .cancelJob jobId => cancelJobEndpoint env credentials d jobId
  | .retryJob jobId => Tx.void (retryJobEndpoint env credentials d jobId)

end DolphinVC
