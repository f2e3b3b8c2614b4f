import DolphinVC.Services.Opportunities

/-!
# Applications

Submission of a candidate by a member of the fund or through the public form. A
repeated idempotency key replays the earlier submission; a company that already has a
live opportunity gets another application on it.
-/

namespace DolphinVC

open Transaction

/-- A deck after `sniff_document_mime` and hashing. -/
structure Deck where
  filename : Option String
  mime : String
  sizeBytes : Nat
  sha256 : String
  s3Key : String

structure ApplicationForm where
  companyName : String
  deck : Option Deck := none
  website : Option String := none
  contactEmail : Option String := none
  contactName : Option String := none
  artifacts : List String := []
  notes : Option String := none

/-- Where a submission comes from. -/
structure Submission where
  orgId : Uuid
  sourceChannel : String
  submittedIp : Option String := none
  uploadedBy : Option Uuid := none
  idempotencyKey : Option String := none
  isPublic : Bool := false

structure CreatedApplication where
  applicationId : Uuid
  opportunityId : Uuid
  jobId : Uuid
  trackingToken : Option String
  replayed : Bool := false
  deriving DecidableEq

def validateApplication (env : Env) (form : ApplicationForm) : Tx Unit :=
  if (strip env form.companyName.toList).isEmpty then
    throw (Exc.validation "Company name is required.")
  else if form.deck.isNone ∧ (given form.website).isNone then
    throw (.app
      { code := "VALIDATION_ERROR"
        message := "Deck file is required when no website is provided."
        fieldErrors :=
          [{ field := "deck", code := "required", message := "Upload a PDF or PPTX." }] })
  else pure ()

/-- The submission that the key replays, when its rows are still there. -/
def priorApplication (orgId : Uuid) (idempotencyKey : Option String) (db : Db) :
    Option CreatedApplication := do
  let key ← given idempotencyKey
  let prior ← db.jobs.rows.find? fun j =>
    j.orgId = some orgId ∧ j.kind = "application.process" ∧ j.idempotencyKey = some key
  let application ← prior.input.applicationId.bind db.applications.find?
  let opportunity ← prior.input.opportunityId.bind db.opportunities.find?
  return {
    applicationId := application.id, opportunityId := opportunity.id, jobId := prior.id
    trackingToken := none, replayed := true }

def applicationDomain (env : Env) (form : ApplicationForm) : Option String :=
  (given ((given form.website).bind env.hostname)).map env.casefold

/-- The company with the website's domain, else with the name; merged ones count. -/
def findCompany (env : Env) (form : ApplicationForm) : Tx (Option Company) := do
  let byDomain ← Tx.query fun db => (given (applicationDomain env form)).bind fun domain =>
    db.companies.rows.find? fun c => c.domain = some domain
  match byDomain with
  | some company => return some company
  | none => Tx.query fun db => db.companies.rows.find? fun c =>
      c.normalizedName = normalizeName env form.companyName

theorem reads_findCompany (env : Env) (form : ApplicationForm) :
    Tx.Reads (findCompany env form) := by
  refine Tx.Reads.bind (Tx.Reads.query _) fun byDomain => ?_
  cases byDomain with
  | some company => exact Tx.Reads.pure _
  | none => exact Tx.Reads.query _

def applicationCompany (env : Env) (form : ApplicationForm) (id : Uuid) : Tx Company := do
  let company? ← findCompany env form
  match company? with
  | some company => return company
  | none =>
      insertCompany
        { id
          name := String.ofList (strip env form.companyName.toList)
          normalizedName := normalizeName env form.companyName
          domain := applicationDomain env form
          isStub := true }

/-- The fund's document with the deck's digest, stored when it is new. -/
def applicationDocument (submission : Submission) (deck? : Option Deck) (companyId id : Uuid) :
    Tx (Option Uuid) :=
  match deck? with
  | none => return none
  | some deck => do
      Tx.call (.evaluate "sniff_document_mime")
      let document? ← Tx.query fun db => db.documents.rows.find? fun r =>
        r.orgId = some submission.orgId ∧ r.sha256 = deck.sha256
      match document? with
      | some document => return some document.id
      | none => do
          Tx.call (.evaluate "store.put")
          Tx.stage (.insertDocument
            { id, orgId := some submission.orgId, companyId := some companyId, kind := "deck"
              filename := some (afterLastSlash ((given deck.filename).getD
                (if deck.mime = "application/pdf" then "deck.pdf" else "deck.pptx")))
              mime := some deck.mime, sizeBytes := some deck.sizeBytes, sha256 := deck.sha256
              s3Key := deck.s3Key, uploadedBy := submission.uploadedBy })
          Tx.flush
          return some id

/-- The live opportunity of the company, or a new one on the default thesis. -/
def applicationOpportunity (env : Env) (orgId : Uuid) (company : Company) (d : DealDraws) :
    Tx Uuid := do
  let opportunity? ← Tx.query (liveOpportunity? orgId company.id)
  match opportunity? with
  | some opportunity => return opportunity.id
  | none => do
      let thesis? ← Tx.query fun db => db.theses.rows.find? fun t =>
        t.orgId = orgId ∧ t.isDefault ∧ t.deletedAt = none
      Tx.stage (.insertOpportunity
        (newOpportunity env d.opportunityId orgId company (thesis?.map Thesis.id) .inbound
          d.now d.now))
      Tx.flush
      return d.opportunityId

/-- The live person with the address among theirs. -/
def personByEmail (env : Env) (email : String) (db : Db) : Option Person :=
  db.persons.rows.find? fun person =>
    person.mergedIntoId = none ∧ email ∈ person.emails.map env.casefold

/-- The live person with the name, which may be the empty one. -/
def personByName (normalized : String) (db : Db) : Option Person :=
  db.persons.rows.find? fun person =>
    person.normalizedName = normalized ∧ person.mergedIntoId = none

/-- The person behind an application: by address, else by name. -/
def findFounder (env : Env) (email? : Option String) (displayName : String) :
    Tx (Option Person) := do
  let byEmail ← Tx.query fun db => email?.bind fun email => personByEmail env email db
  match byEmail with
  | some person => return some person
  | none => Tx.query (personByName (normalizeName env displayName))

theorem reads_findFounder (env : Env) (email? : Option String) (displayName : String) :
    Tx.Reads (findFounder env email? displayName) := by
  refine Tx.Reads.bind (Tx.Reads.query _) fun byEmail => ?_
  cases byEmail with
  | some person => exact Tx.Reads.pure _
  | none => exact Tx.Reads.query _

def newFounder (env : Env) (form : ApplicationForm) (displayName : String) (id : Uuid) :
    Person where
  id
  displayName
  normalizedName := normalizeName env displayName
  emails := ((given form.contactEmail).map env.casefold).toList
  links :=
    { texts := ((given form.website).map fun website => ("website", website)).toList
      workSamples := form.artifacts.take 10 }
  isStub := (given form.contactName).isNone ∧ (given form.contactEmail).isNone

/-- Add the address to a person that does not have it. -/
def addContactEmail (env : Env) (person : Person) (email? : Option String) : Tx Unit :=
  match email? with
  | none => pure ()
  | some email =>
      if email ∈ person.emails.map env.casefold then pure ()
      else Tx.stage (.addEmail person.id (person.emails ++ [email]))

def applicationFounder (env : Env) (company : Company) (form : ApplicationForm) (id : Uuid) :
    Tx Person := do
  let email? := (given form.contactEmail).map env.casefold
  let displayName := cleanName env form.contactName ("Unresolved founder at " ++ company.name)
  let person? ← findFounder env email? displayName
  match person? with
  | some person => do
      addContactEmail env person email?
      return person
  | none => insertPerson (newFounder env form displayName id)

def workSampleReason : String := "Founder supplied work samples pending verification."

def recordWorkSamples (personId id : Uuid) (artifacts : List String) (now : Timestamp) : Tx Unit :=
  if artifacts.isEmpty then pure ()
  else do
    let recorded ← Tx.query fun db => db.founderScoreEvents.any fun e =>
      e.personId = personId ∧ e.reason = workSampleReason
    if recorded then pure ()
    else
      Tx.stage (.insertFounderScoreEvent
        { id, personId, component := "execution", delta := 55, weight := 150 / 1000
          reason := workSampleReason, occurredAt := now })

def ensureApplicationFounder (env : Env) (company : Company) (form : ApplicationForm)
    (d : DealDraws) : Tx Person := do
  Tx.call (.evaluate "ensure_application_founder")
  let person ← applicationFounder env company form d.personId
  ensureAffiliation person.id company.id (35 / 100)
  Tx.flush
  recordWorkSamples person.id d.eventId form.artifacts d.now
  Tx.flush
  recomputeFounderScore env person.id d.now
  return person

def newApplication (env : Env) (form : ApplicationForm) (submission : Submission)
    (documentId : Option Uuid) (opportunityId : Uuid) (d : DealDraws) : Application where
  id := d.applicationId
  orgId := submission.orgId
  companyName := String.ofList (strip env form.companyName.toList)
  deckDocumentId := documentId
  contactEmail := (given form.contactEmail).map env.casefold
  contactName := form.contactName
  website := form.website
  artifacts := form.artifacts
  notes := form.notes
  submittedIp := submission.submittedIp
  opportunityId := some opportunityId
  sourceChannel := some submission.sourceChannel
  receivedAt := d.now
  trackingTokenHash := if submission.isPublic then some (env.sha256 d.trackingToken) else none

def applicationJob (submission : Submission) (documentId : Option Uuid) (opportunityId : Uuid)
    (d : DealDraws) : Job where
  id := d.jobId
  orgId := some submission.orgId
  kind := "application.process"
  targetType := some "opportunity"
  targetId := some opportunityId
  idempotencyKey := submission.idempotencyKey
  input :=
    { applicationId := some d.applicationId, opportunityId := some opportunityId, documentId }
  createdAt := d.now

def createApplication (env : Env) (form : ApplicationForm) (submission : Submission)
    (d : DealDraws) : Tx CreatedApplication := do
  validateApplication env form
  let prior? ← Tx.query (priorApplication submission.orgId submission.idempotencyKey)
  match prior? with
  | some prior => return prior
  | none => do
      let company ← applicationCompany env form d.companyId
      let documentId ← applicationDocument submission form.deck company.id d.documentId
      let opportunityId ← applicationOpportunity env submission.orgId company d
      let _ ← ensureApplicationFounder env company form d
      Tx.stage (.insertApplication
        (newApplication env form submission documentId opportunityId d))
      Tx.flush
      Tx.stage (.insertJob (applicationJob submission documentId opportunityId d))
      Tx.flush
      return {
        applicationId := d.applicationId, opportunityId, jobId := d.jobId
        trackingToken := if submission.isPublic then some d.trackingToken else none }

end DolphinVC
