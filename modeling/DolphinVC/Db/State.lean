import DolphinVC.Db.Models
import DolphinVC.Errors
import DolphinVC.Relational.Table
import DolphinVC.Transaction.World

/-!
# The database and the statements the services send

`Db` holds the tables that the modelled functions read or write. `Write` lists the
INSERT and UPDATE statements a session can send; `apply` gives their effect or the
constraint they violate. An UPDATE that the ORM derives from attribute assignments
names the row by its primary key and carries the assigned columns only, so it never
looks at the values the row has by then. A bulk UPDATE carries the rows its WHERE
clause matched when it was issued and tests the clause again on each of them.
`refused` is a statement with a value that its column cannot hold, such as a NULL.

`JobPatch.statusFrom` is the status the session had loaded when it assigned a new
one, and `revokeRefreshToken` carries the whole row as loaded. The UPDATE uses only
the key of such a copy; the rest is there for statements about stale copies.
-/

namespace DolphinVC

open Relational Transaction

structure OpportunityPatch where
  stage : Option OpportunityStage := none
  title : Option (Option String) := none
  assignedTo : Option (Option Uuid) := none
  thesisFit : Option Rat := none
  screenedAt : Option Timestamp := none
  memoReadyAt : Option Timestamp := none
  decision : Option DecisionKind := none
  decisionRationale : Option String := none
  decisionBy : Option (Option Uuid) := none
  decidedAt : Option Timestamp := none
  version : Option Nat := none

def Opportunity.patch (p : OpportunityPatch) (o : Opportunity) : Opportunity :=
  { o with
    stage := p.stage.getD o.stage
    title := p.title.getD o.title
    assignedTo := p.assignedTo.getD o.assignedTo
    thesisFit := p.thesisFit.orElse fun _ => o.thesisFit
    screenedAt := p.screenedAt.orElse fun _ => o.screenedAt
    memoReadyAt := p.memoReadyAt.orElse fun _ => o.memoReadyAt
    decision := p.decision.orElse fun _ => o.decision
    decisionRationale := p.decisionRationale.orElse fun _ => o.decisionRationale
    decisionBy := p.decisionBy.getD o.decisionBy
    decidedAt := p.decidedAt.orElse fun _ => o.decidedAt
    version := p.version.getD o.version }

structure ThesisPatch where
  name : Option String := none
  isDefault : Option Bool := none
  sectors : Option (Json (List String)) := none
  antiSectors : Option (Json (List String)) := none
  stages : Option (Json (List String)) := none
  geos : Option (Json (List String)) := none
  checkSizeMin : Option (Option Rat) := none
  checkSizeMax : Option (Option Rat) := none
  currency : Option String := none
  ownershipTargetPct : Option (Option Rat) := none
  riskAppetite : Option Rat := none
  weights : Option (Json (List (String × Rat))) := none
  mustHaves : Option (Json (List String)) := none
  dealBreakers : Option (Json (List String)) := none
  notes : Option (Option String) := none
  version : Option Nat := none
  deletedAt : Option Timestamp := none

def Thesis.patch (p : ThesisPatch) (t : Thesis) : Thesis :=
  { t with
    name := p.name.getD t.name
    isDefault := p.isDefault.getD t.isDefault
    sectors := p.sectors.getD t.sectors
    antiSectors := p.antiSectors.getD t.antiSectors
    stages := p.stages.getD t.stages
    geos := p.geos.getD t.geos
    checkSizeMin := p.checkSizeMin.getD t.checkSizeMin
    checkSizeMax := p.checkSizeMax.getD t.checkSizeMax
    currency := p.currency.getD t.currency
    ownershipTargetPct := p.ownershipTargetPct.getD t.ownershipTargetPct
    riskAppetite := p.riskAppetite.getD t.riskAppetite
    weights := p.weights.getD t.weights
    mustHaves := p.mustHaves.getD t.mustHaves
    dealBreakers := p.dealBreakers.getD t.dealBreakers
    notes := p.notes.getD t.notes
    version := p.version.getD t.version
    deletedAt := p.deletedAt.orElse fun _ => t.deletedAt }

structure OutreachPatch where
  status : Option OutreachStatus := none
  approvedBy : Option (Option Uuid) := none
  sentAt : Option Timestamp := none
  rejectionReason : Option String := none

def Outreach.patch (p : OutreachPatch) (o : Outreach) : Outreach :=
  { o with
    status := p.status.getD o.status
    approvedBy := p.approvedBy.getD o.approvedBy
    sentAt := p.sentAt.orElse fun _ => o.sentAt
    rejectionReason := p.rejectionReason.orElse fun _ => o.rejectionReason }

structure JobPatch where
  status : Option JobStatus := none
  statusFrom : JobStatus := .running
  progress : Option Rat := none
  currentStep : Option String := none
  result : Option JobResult := none
  errorCode : Option String := none
  errorMessage : Option String := none
  attempts : Option Nat := none
  startedAt : Option Timestamp := none
  finishedAt : Option Timestamp := none
  heartbeatAt : Option Timestamp := none

def Job.patch (p : JobPatch) (j : Job) : Job :=
  { j with
    status := p.status.getD j.status
    progress := p.progress.getD j.progress
    currentStep := p.currentStep.orElse fun _ => j.currentStep
    result := p.result.getD j.result
    errorCode := p.errorCode.orElse fun _ => j.errorCode
    errorMessage := p.errorMessage.orElse fun _ => j.errorMessage
    attempts := p.attempts.getD j.attempts
    startedAt := p.startedAt.orElse fun _ => j.startedAt
    finishedAt := p.finishedAt.orElse fun _ => j.finishedAt
    heartbeatAt := p.heartbeatAt.orElse fun _ => j.heartbeatAt }

structure UserPatch where
  fullName : Option String := none
  passwordHash : Option String := none
  isActive : Option Bool := none
  emailVerifiedAt : Option Timestamp := none
  lastLoginAt : Option Timestamp := none
  failedLogins : Option Nat := none
  lockedUntil : Option (Option Timestamp) := none

def User.patch (p : UserPatch) (u : User) : User :=
  { u with
    fullName := p.fullName.getD u.fullName
    passwordHash := p.passwordHash.orElse fun _ => u.passwordHash
    isActive := p.isActive.getD u.isActive
    emailVerifiedAt := p.emailVerifiedAt.orElse fun _ => u.emailVerifiedAt
    lastLoginAt := p.lastLoginAt.orElse fun _ => u.lastLoginAt
    failedLogins := p.failedLogins.getD u.failedLogins
    lockedUntil := p.lockedUntil.getD u.lockedUntil }

def RefreshToken.revoke (at' : Timestamp) (reason : String) (r : RefreshToken) : RefreshToken :=
  { r with revokedAt := some at', revokedReason := some reason }

/-- The anonymization of `gdpr_erase`. -/
def Person.erase (r : Person) : Person :=
  { r with
    displayName := "Erased data subject"
    normalizedName := "erased-" ++ toString r.id
    headline := none
    bio := none
    emails := []
    links := {}
    education := []
    employment := [] }

structure Db where
  orgs : Table Uuid Org Org.id := ∅
  users : Table Uuid User User.id := ∅
  refreshTokens : Table Uuid RefreshToken RefreshToken.id := ∅
  apiKeys : Table Uuid ApiKey ApiKey.id := ∅
  emailTokens : Table Uuid EmailToken EmailToken.id := ∅
  orgInvites : Table Uuid OrgInvite OrgInvite.id := ∅
  auditLog : List AuditLog := []
  theses : Table Uuid Thesis Thesis.id := ∅
  companies : Table Uuid Company Company.id := ∅
  sources : Table Uuid Source Source.id := ∅
  persons : Table Uuid Person Person.id := ∅
  affiliations : Table (Uuid × Uuid × String) Affiliation
    (fun a => (a.personId, a.companyId, a.role)) := ∅
  founderScores : Table Uuid FounderScore FounderScore.personId := ∅
  founderScoreEvents : List FounderScoreEvent := []
  founderScoreSnapshots : Table (Uuid × Int) FounderScoreSnapshot
    (fun s => (s.personId, s.day)) := ∅
  signals : Table Uuid Signal Signal.id := ∅
  kbChunks : Table Uuid KBChunk KBChunk.id := ∅
  channels : Table Uuid SourcingChannel SourcingChannel.id := ∅
  channelEdges : Table Uuid ChannelEdge ChannelEdge.id := ∅
  documents : Table Uuid Document Document.id := ∅
  documentPages : Table (Uuid × Nat) DocumentPage (fun p => (p.documentId, p.pageNo)) := ∅
  opportunities : Table Uuid Opportunity Opportunity.id := ∅
  applications : Table Uuid Application Application.id := ∅
  opportunityScores : Table Uuid OpportunityScore OpportunityScore.id := ∅
  prescreenResults : Table Uuid PrescreenResult PrescreenResult.opportunityId := ∅
  claims : Table Uuid Claim Claim.id := ∅
  evidence : Table Uuid Evidence Evidence.id := ∅
  memos : Table Uuid Memo Memo.id := ∅
  jobs : Table Uuid Job Job.id := ∅
  agentSteps : Table (Uuid × Nat) AgentStep (fun s => (s.jobId, s.seq)) := ∅
  outreach : Table Uuid Outreach Outreach.id := ∅

inductive Write where
  | insertOrg (row : Org)
  | insertUser (row : User)
  | updateUser (id : Uuid) (set : UserPatch)
  | insertRefreshToken (row : RefreshToken)
  | revokeRefreshToken (loaded : RefreshToken) (at' : Timestamp) (reason : String)
  | revokeRefreshTokens (ids : List Uuid) (live : Bool) (at' : Timestamp) (reason : String)
  | insertEmailToken (row : EmailToken)
  | useEmailToken (id : Uuid) (at' : Timestamp)
  | insertOrgInvite (row : OrgInvite)
  | acceptOrgInvite (id : Uuid) (at' : Timestamp)
  | insertAuditLog (row : AuditLog)
  | insertThesis (row : Thesis)
  | updateThesis (id : Uuid) (set : ThesisPatch)
  | clearDefaults (ids : List Uuid)
  | insertCompany (row : Company)
  | insertSource (row : Source)
  | sourceOk (id : Uuid) (at' : Timestamp)
  | sourceDegraded (id : Uuid) (at' : Timestamp) (error : String)
  | insertSignal (row : Signal)
  | assignSignal (id companyId : Uuid) (personId : Option Uuid)
  | insertPerson (row : Person)
  | countSignal (personId : Uuid) (at' : Timestamp) (signalCount sourceCount : Nat)
  | addEmail (personId : Uuid) (emails : List String)
  | mergePerson (loserId winnerId : Uuid)
  | erasePerson (id : Uuid)
  | insertAffiliation (row : Affiliation)
  | confirmFounder (personId companyId : Uuid) (role : String) (confidence : Rat)
  | insertFounderScoreEvent (row : FounderScoreEvent)
  | insertFounderScore (row : FounderScore)
  | updateFounderScore (row : FounderScore)
  | insertFounderScoreSnapshot (row : FounderScoreSnapshot)
  | updateFounderScoreSnapshot (personId : Uuid) (day score : Int) (confidence : Rat)
  | insertKBChunk (row : KBChunk)
  | insertChannel (row : SourcingChannel)
  | countChannel (id : Uuid) (discoveredCount advancedCount : Nat)
  | insertChannelEdge (row : ChannelEdge)
  | insertDocument (row : Document)
  | insertDocumentPage (row : DocumentPage)
  | insertOpportunity (row : Opportunity)
  | updateOpportunity (id : Uuid) (set : OpportunityPatch)
  | insertApplication (row : Application)
  | updateApplication (id : Uuid) (status : ApplicationStatus)
  | insertOpportunityScore (row : OpportunityScore)
  | insertPrescreenResult (row : PrescreenResult)
  | insertClaim (row : Claim)
  | insertEvidence (row : Evidence)
  | insertMemo (row : Memo)
  | updateMemo (id : Uuid) (sections : List MemoSection) (version : Nat)
  | insertJob (row : Job)
  | updateJob (id : Uuid) (set : JobPatch)
  | insertAgentStep (row : AgentStep)
  | updateOutreach (id : Uuid) (set : OutreachPatch)
  | refused (e : Exc)

section Insert

variable {κ ρ : Type} {key : ρ → κ} [DecidableEq κ]

/-- INSERT with a unique constraint beside the primary key: `clash` says which rows
the new one may not stand next to. -/
def insertRow (name : String) (t : Table κ ρ key) (clash : ρ → Bool) (row : ρ) :
    Except Exc (Table κ ρ key) :=
  if t.rows.any clash then .error (.integrity name)
  else match t.insert? row with
    | some t' => .ok t'
    | none => .error (.integrity name)

theorem insertRow_eq_ok {name : String} {t t' : Table κ ρ key} {clash : ρ → Bool} {row : ρ} :
    insertRow name t clash row = .ok t' ↔
      (∀ r ∈ t, clash r = false) ∧ t.insert? row = some t' := by
  unfold insertRow
  split
  · rename_i h
    obtain ⟨r, hr, hc⟩ := List.any_eq_true.mp h
    constructor
    · intro h
      cases h
    · rintro ⟨hall, -⟩
      rw [hall r hr] at hc
      cases hc
  · rename_i h
    have hall : ∀ r ∈ t, clash r = false := by
      intro r hr
      by_contra hc
      exact h (List.any_eq_true.mpr ⟨r, hr, by simpa using hc⟩)
    cases t.insert? row with
    | none => simp
    | some u =>
        simp only [Except.ok.injEq, Option.some.injEq]
        exact ⟨fun h => ⟨hall, h⟩, And.right⟩

end Insert

/-- A nullable foreign key names an existing row. -/
def fkOk {ρ : Type} {key : ρ → Uuid} (t : Table Uuid ρ key) (id : Option Uuid) : Bool :=
  match id with
  | none => true
  | some k => (t.find? k).isSome

/-- UPDATE of a memo under the unique constraint on opportunity and version. -/
def renumberMemo (t : Table Uuid Memo Memo.id) (id : Uuid) (sections : List MemoSection)
    (version : Nat) : Except Exc (Table Uuid Memo Memo.id) :=
  if t.rows.any fun m => m.id = id ∧ t.rows.any fun r =>
      r.id ≠ id ∧ r.opportunityId = m.opportunityId ∧ r.version = version then
    .error (.integrity "memos")
  else .ok (t.update id fun r => { r with sections, version })

def Db.apply (db : Db) : Write → Except Exc Db
  | .insertOrg row =>
      (insertRow "orgs" db.orgs (fun r => r.slug = row.slug) row).map fun t =>
        { db with orgs := t }
  | .insertUser row =>
      (insertRow "users" db.users (fun r => r.email = row.email) row).map fun t =>
        { db with users := t }
  | .updateUser id set => .ok { db with users := db.users.update id (User.patch set) }
  | .insertRefreshToken row =>
      (insertRow "refresh_tokens" db.refreshTokens (fun r => r.tokenHash = row.tokenHash)
        row).map fun t => { db with refreshTokens := t }
  | .revokeRefreshToken loaded at' reason =>
      .ok { db with
        refreshTokens := db.refreshTokens.update loaded.id (RefreshToken.revoke at' reason) }
  | .revokeRefreshTokens ids live at' reason =>
      .ok { db with
        refreshTokens := db.refreshTokens.updateWhere
          (fun r => r.id ∈ ids ∧ (live = true → r.revokedAt = none))
          (RefreshToken.revoke at' reason) }
  | .insertEmailToken row =>
      (insertRow "email_tokens" db.emailTokens (fun r => r.tokenHash = row.tokenHash)
        row).map fun t => { db with emailTokens := t }
  | .useEmailToken id at' =>
      .ok { db with
        emailTokens := db.emailTokens.update id fun r => { r with usedAt := some at' } }
  | .insertOrgInvite row =>
      (insertRow "org_invites" db.orgInvites (fun r => r.tokenHash = row.tokenHash)
        row).map fun t => { db with orgInvites := t }
  | .acceptOrgInvite id at' =>
      .ok { db with
        orgInvites := db.orgInvites.update id fun r => { r with acceptedAt := some at' } }
  | .insertAuditLog row => .ok { db with auditLog := db.auditLog ++ [row] }
  | .insertThesis row =>
      (insertRow "theses" db.theses (fun _ => false) row).map fun t => { db with theses := t }
  | .updateThesis id set => .ok { db with theses := db.theses.update id (Thesis.patch set) }
  | .clearDefaults ids =>
      .ok { db with
        theses := db.theses.updateWhere (fun r => r.id ∈ ids) fun r =>
          { r with isDefault := false } }
  | .insertCompany row =>
      (insertRow "uq_companies_live_domain" db.companies
        (fun r => row.domain.isSome ∧ r.domain = row.domain) row).map fun t =>
          { db with companies := t }
  | .insertSource row =>
      (insertRow "sources" db.sources (fun r => r.key = row.key) row).map fun t =>
        { db with sources := t }
  | .sourceOk id at' =>
      .ok { db with
        sources := db.sources.update id fun r =>
          { r with status := .active, lastOkAt := some at' } }
  | .sourceDegraded id at' error =>
      .ok { db with
        sources := db.sources.update id fun r =>
          { r with status := .degraded, lastErrorAt := some at', lastError := some error } }
  | .insertSignal row =>
      (insertRow "signals" db.signals
        (fun r => r.sourceId = row.sourceId ∧ r.contentHash = row.contentHash ∧
          r.observedAt = row.observedAt) row).map fun t => { db with signals := t }
  | .assignSignal id companyId personId =>
      .ok { db with
        signals := db.signals.update id fun r =>
          { r with companyId := some companyId, personId := personId.or r.personId } }
  | .insertPerson row =>
      (insertRow "persons" db.persons (fun _ => false) row).map fun t => { db with persons := t }
  | .countSignal personId at' signalCount sourceCount =>
      .ok { db with
        persons := db.persons.update personId fun r =>
          { r with lastSignalAt := some at', signalCount, sourceCount } }
  | .addEmail personId emails =>
      .ok { db with persons := db.persons.update personId fun r => { r with emails } }
  | .mergePerson loserId winnerId =>
      .ok { db with
        persons := db.persons.update loserId fun r => { r with mergedIntoId := some winnerId } }
  | .erasePerson id => .ok { db with persons := db.persons.update id Person.erase }
  | .insertAffiliation row =>
      (insertRow "affiliations" db.affiliations (fun _ => false) row).map fun t =>
        { db with affiliations := t }
  | .confirmFounder personId companyId role confidence =>
      .ok { db with
        affiliations := db.affiliations.update (personId, companyId, role) fun r =>
          { r with isFounder := true, confidence } }
  | .insertFounderScoreEvent row =>
      .ok { db with founderScoreEvents := db.founderScoreEvents ++ [row] }
  | .insertFounderScore row =>
      (insertRow "founder_scores" db.founderScores (fun _ => false) row).map fun t =>
        { db with founderScores := t }
  | .updateFounderScore row =>
      .ok { db with
        founderScores := db.founderScores.update row.personId fun r =>
          { row with personId := r.personId } }
  | .insertFounderScoreSnapshot row =>
      (insertRow "founder_score_snapshots" db.founderScoreSnapshots (fun _ => false) row).map
        fun t => { db with founderScoreSnapshots := t }
  | .updateFounderScoreSnapshot personId day score confidence =>
      .ok { db with
        founderScoreSnapshots := db.founderScoreSnapshots.update (personId, day) fun r =>
          { r with score, confidence } }
  | .insertKBChunk row =>
      (insertRow "kb_chunks" db.kbChunks (fun _ => false) row).map fun t =>
        { db with kbChunks := t }
  | .insertChannel row =>
      (insertRow "sourcing_channels" db.channels (fun r => r.key = row.key) row).map fun t =>
        { db with channels := t }
  | .countChannel id discoveredCount advancedCount =>
      .ok { db with
        channels := db.channels.update id fun r => { r with discoveredCount, advancedCount } }
  | .insertChannelEdge row =>
      (insertRow "channel_edges" db.channelEdges (fun _ => false) row).map fun t =>
        { db with channelEdges := t }
  | .insertDocument row =>
      (insertRow "documents" db.documents
        (fun r => row.orgId.isSome ∧ r.orgId = row.orgId ∧ r.sha256 = row.sha256) row).map fun t =>
          { db with documents := t }
  | .insertDocumentPage row =>
      (insertRow "document_pages" db.documentPages (fun _ => false) row).map fun t =>
        { db with documentPages := t }
  | .insertOpportunity row =>
      if fkOk db.theses row.thesisId then
        (insertRow "opportunities" db.opportunities (fun _ => false) row).map fun t =>
          { db with opportunities := t }
      else .error (.integrity "opportunities_thesis_id_fkey")
  | .updateOpportunity id set =>
      if fkOk db.users (set.assignedTo.getD none) then
        .ok { db with opportunities := db.opportunities.update id (Opportunity.patch set) }
      else .error (.integrity "opportunities_assigned_to_fkey")
  | .insertApplication row =>
      (insertRow "applications" db.applications
        (fun r => row.trackingTokenHash.isSome ∧ r.trackingTokenHash = row.trackingTokenHash)
        row).map fun t => { db with applications := t }
  | .updateApplication id status =>
      .ok { db with applications := db.applications.update id fun r => { r with status } }
  | .insertOpportunityScore row =>
      (insertRow "opportunity_scores" db.opportunityScores
        (fun r => r.opportunityId = row.opportunityId ∧ r.axis = row.axis ∧
          r.version = row.version) row).map fun t => { db with opportunityScores := t }
  | .insertPrescreenResult row =>
      (insertRow "prescreen_results" db.prescreenResults (fun _ => false) row).map fun t =>
        { db with prescreenResults := t }
  | .insertClaim row =>
      (insertRow "claims" db.claims (fun _ => false) row).map fun t => { db with claims := t }
  | .insertEvidence row =>
      (insertRow "evidence" db.evidence (fun _ => false) row).map fun t =>
        { db with evidence := t }
  | .insertMemo row =>
      (insertRow "memos" db.memos
        (fun r => r.opportunityId = row.opportunityId ∧ r.version = row.version) row).map fun t =>
          { db with memos := t }
  | .updateMemo id sections version =>
      (renumberMemo db.memos id sections version).map fun t => { db with memos := t }
  | .insertJob row =>
      (insertRow "jobs" db.jobs (fun _ => false) row).map fun t => { db with jobs := t }
  | .updateJob id set => .ok { db with jobs := db.jobs.update id (Job.patch set) }
  | .insertAgentStep row =>
      (insertRow "agent_steps" db.agentSteps (fun _ => false) row).map fun t =>
        { db with agentSteps := t }
  | .updateOutreach id set =>
      if fkOk db.users (set.approvedBy.getD none) then
        .ok { db with outreach := db.outreach.update id (Outreach.patch set) }
      else .error (.integrity "outreach_approved_by_fkey")
  | .refused e => .error e

/-- A dead session answers every statement with `PendingRollbackError`. -/
def backend : Backend Db Write Exc where
  apply := Db.apply
  dead := .pendingRollback

end DolphinVC
