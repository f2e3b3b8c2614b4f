import DolphinVC.Services.Ingestion

/-!
# Opportunities

Lookup within a fund, the detail that most endpoints answer with, and manual
creation, which refuses a company that already has a live opportunity.
-/

namespace DolphinVC

open Transaction

def getOpportunity (orgId opportunityId : Uuid) : Tx Opportunity := do
  let opportunity? ← Tx.query fun db => db.opportunities.rows.find? fun o =>
    o.id = opportunityId ∧ o.orgId = orgId
  match opportunity? with
  | none => throw (Exc.notFound "Opportunity")
  | some opportunity => return opportunity

theorem reads_getOpportunity (orgId opportunityId : Uuid) :
    Tx.Reads (getOpportunity orgId opportunityId) := by
  refine Tx.Reads.bind (Tx.Reads.query _) fun opportunity? => ?_
  cases opportunity? with
  | none => exact Tx.Reads.throw _
  | some opportunity => exact Tx.Reads.pure _

/-- `_axes`: for each axis the first row in descending order of versions. -/
def axes (opportunityId : Uuid) (db : Db) (axis : AxisKind) : Option OpportunityScore :=
  ((db.opportunityScores.rows.filter fun s => s.opportunityId = opportunityId).mergeSort
    fun a b => b.version ≤ a.version).find? fun s => s.axis = axis

/-- The rows an `OpportunityDetail` is built from. -/
structure OpportunityDetail where
  opportunity : Opportunity
  company : Company
  memo : Option Memo
  claims : List Claim

/-- The memo with the highest version. -/
def latestMemo (opportunityId : Uuid) (db : Db) : Option Memo :=
  (db.memos.rows.filter fun m => m.opportunityId = opportunityId).foldl
    (fun best m => match best with
      | some b => if b.version < m.version then some m else some b
      | none => some m) none

def buildDetail (opportunity : Opportunity) : Tx OpportunityDetail := do
  let company? ← Tx.query fun db => db.companies.find? opportunity.companyId
  match company? with
  | none => throw (Exc.notFound "Company")
  | some company => do
      let memo ← Tx.query (latestMemo opportunity.id)
      let claims ← Tx.query fun db =>
        (db.claims.rows.filter fun c => c.opportunityId = some opportunity.id).take 200
      return { opportunity, company, memo, claims }

theorem reads_buildDetail (opportunity : Opportunity) : Tx.Reads (buildDetail opportunity) := by
  refine Tx.Reads.bind (Tx.Reads.query _) fun company? => ?_
  cases company? with
  | none => exact Tx.Reads.throw _
  | some company =>
      exact Tx.Reads.bind (Tx.Reads.query _) fun _ =>
        Tx.Reads.bind (Tx.Reads.query _) fun _ => Tx.Reads.pure _

/-- `build_detail` for a row that was updated and not refreshed: the UPDATE leaves `updated_at` to
the database, and the card reads it. -/
def buildExpiredDetail (opportunity : Opportunity) : Tx OpportunityDetail := do
  let company? ← Tx.query fun db => db.companies.find? opportunity.companyId
  match company? with
  | none => throw (Exc.notFound "Company")
  | some _ => throw Exc.missingGreenlet

theorem reads_buildExpiredDetail (opportunity : Opportunity) :
    Tx.Reads (buildExpiredDetail opportunity) := by
  refine Tx.Reads.bind (Tx.Reads.query _) fun company? => ?_
  cases company? with
  | none => exact Tx.Reads.throw _
  | some company => exact Tx.Reads.throw _

/-- Exactly one of `company_id` and `company_name`. -/
inductive CompanyRef where
  | id (companyId : Uuid)
  | name (companyName : String)

structure OpportunityCreate where
  company : CompanyRef
  origin : OpportunityOrigin := .manual
  thesisId : Option Uuid := none

/-- What a deal request draws from `uuid4`, `secrets` and the clock. -/
structure DealDraws where
  now : Timestamp
  companyId : Uuid := 0
  documentId : Uuid := 0
  opportunityId : Uuid := 0
  applicationId : Uuid := 0
  jobId : Uuid := 0
  targetId : Uuid := 0
  personId : Uuid := 0
  eventId : Uuid := 0
  trackingToken : String := ""

def manualCompany (env : Env) (ref : CompanyRef) (id : Uuid) : Tx Company :=
  match ref with
  | .id companyId => do
      let company? ← Tx.query fun db => db.companies.find? companyId
      match company? with
      | none => throw (Exc.notFound "Company")
      | some company => return company
  | .name companyName => do
      let company? ← Tx.query fun db => db.companies.rows.find? fun c =>
        c.normalizedName = normalizeName env companyName
      match company? with
      | some company => return company
      | none =>
          insertCompany
            { id, name := companyName, normalizedName := normalizeName env companyName
              isStub := true }

def createManualOpportunity (env : Env) (orgId : Uuid) (body : OpportunityCreate) (d : DealDraws) :
    Tx Opportunity := do
  let company ← manualCompany env body.company d.companyId
  let existing ← Tx.query (liveOpportunity? orgId company.id)
  if existing.isSome then
    throw (Exc.conflict "A live opportunity already exists for this company."
      "DUPLICATE_OPPORTUNITY")
  else do
    let opportunity := newOpportunity env d.opportunityId orgId company body.thesisId body.origin
      d.now d.now
    Tx.stage (.insertOpportunity opportunity)
    Tx.flush
    return opportunity

end DolphinVC
