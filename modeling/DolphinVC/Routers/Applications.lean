import DolphinVC.Routers.Deals
import DolphinVC.Services.Pipeline
import DolphinVC.Services.Utils

/-!
# After an application was submitted

The fund can ask for more information, and whoever has the tracking token that the public form
answered with can see how far the application is.
-/

namespace DolphinVC

open Transaction

section Fund

variable (env : Env) (credentials : Option Credentials) (now : Timestamp)

def getApplication (orgId applicationId : Uuid) : Tx Application := do
  let application? ← Tx.query fun db =>
    db.applications.rows.find? fun a => a.id = applicationId ∧ a.orgId = orgId
  match application? with
  | none => throw (Exc.notFound "Application")
  | some application => return application

/-- `request_application_info`; answers with the questions. -/
def requestInfoEndpoint (applicationId : Uuid) : Tx (List String) := do
  let principal ← require .screen env credentials now
  let application ← getApplication principal.orgId applicationId
  assignStatus application .needsInfo
  Tx.commit
  return [
    "What evidence best demonstrates that the problem is urgent?",
    "What have you shipped, and what changed after users saw it?",
    "Which decision-critical metrics can you substantiate with primary evidence?"]

end Fund

section Applicant

structure PublicApplicationStatus where
  status : ApplicationStatus
  stage : Option OpportunityStage
  submittedAt : Timestamp
  decidedAt : Option Timestamp
  hoursRemaining : Rat
  message : String := "Your application is being assessed against evidence, not network access."
  deriving DecidableEq

def Application.progress (now : Timestamp) (opportunity? : Option Opportunity) (a : Application) :
    PublicApplicationStatus where
  status := a.status
  stage := opportunity?.map Opportunity.stage
  submittedAt := a.receivedAt
  decidedAt := opportunity?.bind Opportunity.decidedAt
  hoursRemaining :=
    round2 (max 0 (hoursUntil ((opportunity?.map Opportunity.slaDeadlineAt).getD a.receivedAt) now))

def publicStatusEndpoint (env : Env) (now : Timestamp) (trackingToken : String) :
    Tx PublicApplicationStatus := do
  let application? ← Tx.query fun db =>
    db.applications.rows.find? fun a => a.trackingTokenHash = some (env.sha256 trackingToken)
  match application? with
  | none => throw (Exc.notFound "Application")
  | some application => do
      let opportunity? ← Tx.query fun db => application.opportunityId.bind db.opportunities.find?
      return application.progress now opportunity?

end Applicant

end DolphinVC
