import DolphinVC.Services.FounderScore
import DolphinVC.Text.Json

/-!
# Rows

One structure per mapped table, with the columns that some modelled function reads
or writes and the column defaults. `JobInput` stands for the JSON of a job's
`input`; a key that is absent or null is `none`.
-/

namespace DolphinVC

/-- What a NUMERIC column with `k` decimals stores. -/
def numeric (k : Nat) (x : Rat) : Rat := Rounding.roundAway (10 ^ k) x

structure Org where
  id : Uuid
  name : String
  slug : String

structure User where
  id : Uuid
  orgId : Uuid
  email : String
  passwordHash : Option String
  fullName : String
  role : UserRole := .analyst
  isActive : Bool := true
  emailVerifiedAt : Option Timestamp := none
  lastLoginAt : Option Timestamp := none
  failedLogins : Nat := 0
  lockedUntil : Option Timestamp := none

structure RefreshToken where
  id : Uuid
  userId : Uuid
  tokenHash : String
  familyId : Uuid
  parentId : Option Uuid := none
  userAgent : Option String := none
  ip : Option String := none
  expiresAt : Timestamp
  revokedAt : Option Timestamp := none
  revokedReason : Option String := none
  deriving DecidableEq

structure ApiKey where
  id : Uuid
  orgId : Uuid
  keyHash : String
  scopes : List String := []
  expiresAt : Option Timestamp := none
  revokedAt : Option Timestamp := none

/-- `meta` is kept as the two keys that are written to it. -/
structure AuditLog where
  orgId : Option Uuid
  actorUserId : Option Uuid
  actorKind : String := "user"
  action : String
  targetType : Option String
  targetId : Option Uuid
  metaDecision : Option DecisionKind := none
  metaIdempotencyKey : Option String := none

structure EmailToken where
  id : Uuid
  userId : Uuid
  purpose : String
  tokenHash : String
  expiresAt : Timestamp
  usedAt : Option Timestamp := none

structure OrgInvite where
  id : Uuid
  orgId : Uuid
  email : String
  role : UserRole := .analyst
  tokenHash : String
  createdBy : Option Uuid
  expiresAt : Timestamp
  acceptedAt : Option Timestamp := none

/-- A JSON column, which can hold a JSON null although it is NOT NULL. -/
abbrev Json (α : Type) := Option α

structure Thesis where
  id : Uuid
  orgId : Uuid
  name : String
  isDefault : Bool := false
  sectors : Json (List String) := some []
  antiSectors : Json (List String) := some []
  stages : Json (List String) := some []
  geos : Json (List String) := some []
  checkSizeMin : Option Rat := none
  checkSizeMax : Option Rat := none
  currency : String := "USD"
  ownershipTargetPct : Option Rat := none
  riskAppetite : Rat := 1 / 2
  weights : Json (List (String × Rat)) :=
    some [("founder", 45 / 100), ("market", 30 / 100), ("idea_vs_market", 25 / 100)]
  mustHaves : Json (List String) := some []
  dealBreakers : Json (List String) := some []
  notes : Option String := none
  version : Nat := 1
  deletedAt : Option Timestamp := none

/-- The JSON of `links`: the keys with a text, and the two that hold more. -/
structure PersonLinks where
  texts : List (String × String) := []
  identities : List (String × String) := []
  workSamples : List String := []

structure Company where
  id : Uuid
  name : String
  normalizedName : String
  domain : Option String := none
  website : Option String := none
  oneLiner : Option String := none
  description : Option String := none
  sectors : List String := []
  stage : Option String := none
  hqCountry : Option String := none
  hqCity : Option String := none
  isStub : Bool := false
  mergedIntoId : Option Uuid := none

structure Source where
  id : Uuid
  key : String
  displayName : String
  status : SourceStatus := .active
  lastOkAt : Option Timestamp := none
  lastErrorAt : Option Timestamp := none
  lastError : Option String := none

structure Person where
  id : Uuid
  displayName : String
  normalizedName : String
  headline : Option String := none
  bio : Option String := none
  locationText : Option String := none
  countryCode : Option String := none
  city : Option String := none
  emails : List String := []
  links : PersonLinks := {}
  education : List JsonValue := []
  employment : List JsonValue := []
  skills : List String := []
  firstSeenAt : Timestamp := 0
  lastSignalAt : Option Timestamp := none
  signalCount : Nat := 0
  sourceCount : Nat := 0
  isStub : Bool := false
  mergedIntoId : Option Uuid := none

structure Affiliation where
  personId : Uuid
  companyId : Uuid
  role : String
  isFounder : Bool := false
  confidence : Rat := 7 / 10

structure FounderScore where
  personId : Uuid
  score : Int
  ciLow : Int
  ciHigh : Int
  confidence : Rat
  components : List (Component × ComponentScore Rat) := []
  coldStart : Bool := true
  trend30d : Int := 0
  trend : TrendKind := .insufficientData
  version : Nat := 1
  computedAt : Timestamp

structure FounderScoreSnapshot where
  personId : Uuid
  day : Int
  score : Int
  confidence : Rat

/-- The `id` is read where there is no signal. -/
structure FounderScoreEvent where
  id : Uuid := 0
  personId : Uuid
  component : String
  delta : Rat
  weight : Rat := 1
  reason : String
  signalId : Option Uuid := none
  occurredAt : Timestamp

structure IdentityHint where
  provider : String
  value : String
  confidence : Rat := 1

/-- Of the payload the row has the identity hints. -/
structure Signal where
  id : Uuid
  orgId : Option Uuid
  sourceId : Uuid
  kind : SignalKind := .other
  externalId : Option String := none
  url : Option String := none
  title : Option String := none
  body : Option String := none
  identityHints : List IdentityHint := []
  contentHash : String
  personId : Option Uuid := none
  companyId : Option Uuid := none
  observedAt : Timestamp

structure KBChunk where
  id : Uuid
  orgId : Option Uuid
  scope : String
  personId : Option Uuid := none
  companyId : Option Uuid := none
  signalId : Option Uuid := none
  documentId : Option Uuid := none
  pageNo : Option Nat := none
  title : Option String := none
  content : String
  sourceId : Option Uuid := none
  sourceUrl : Option String := none
  observedAt : Option Timestamp := none

structure SourcingChannel where
  id : Uuid
  key : String
  label : String
  kind : String
  discoveredCount : Nat := 0
  advancedCount : Nat := 0

structure ChannelEdge where
  id : Uuid
  channelId : Uuid
  personId : Option Uuid
  companyId : Option Uuid

structure Document where
  id : Uuid
  orgId : Option Uuid
  companyId : Option Uuid
  kind : String
  filename : Option String
  mime : Option String
  sizeBytes : Option Nat
  sha256 : String
  s3Key : String
  uploadedBy : Option Uuid
  deriving DecidableEq

structure DocumentPage where
  documentId : Uuid
  pageNo : Nat
  text : Option String
  ocrUsed : Bool := false

structure Opportunity where
  id : Uuid
  orgId : Uuid
  companyId : Uuid
  thesisId : Option Uuid := none
  origin : OpportunityOrigin
  stage : OpportunityStage := .sourced
  title : Option String
  thesisFit : Option Rat := none
  firstSignalAt : Timestamp
  screenedAt : Option Timestamp := none
  memoReadyAt : Option Timestamp := none
  decidedAt : Option Timestamp := none
  slaDeadlineAt : Timestamp
  decision : Option DecisionKind := none
  decisionBy : Option Uuid := none
  decisionRationale : Option String := none
  assignedTo : Option Uuid := none
  dedupeKey : Option (Uuid × Uuid) := none
  version : Nat := 1
  /-- The database dates every write; here the column is what it is when the rows are listed. -/
  updatedAt : Timestamp := 0

structure Application where
  id : Uuid
  orgId : Uuid
  companyName : String
  deckDocumentId : Option Uuid
  contactEmail : Option String
  contactName : Option String
  website : Option String
  artifacts : List String
  notes : Option String
  status : ApplicationStatus := .received
  submittedIp : Option String
  opportunityId : Option Uuid
  sourceChannel : Option String
  receivedAt : Timestamp
  deletedAt : Option Timestamp := none
  trackingTokenHash : Option String

structure Outreach where
  id : Uuid
  orgId : Uuid
  status : OutreachStatus := .suggested
  approvedBy : Option Uuid := none
  sentAt : Option Timestamp := none
  rejectionReason : Option String := none

structure OpportunityScore where
  id : Uuid
  opportunityId : Uuid
  axis : AxisKind
  score : Rat
  confidence : Rat
  rationale : String
  version : Nat := 1

structure PrescreenResult where
  opportunityId : Uuid
  passed : Bool
  latencyMs : Nat

/-- What a trust score was computed from. -/
structure TrustInputs where
  base : Rat := 0
  corroboration : Rat := 0
  independentSources : Nat := 0
  recency : Rat := 0
  extraction : Rat := 0
  contradicted : Bool := false
  independentlyVerified : Bool := false

structure Claim where
  id : Uuid
  orgId : Uuid
  opportunityId : Option Uuid
  category : ClaimCategory := .other
  predicate : String := ""
  text : String
  valueNum : Option Rat := none
  valueUnit : Option String := none
  status : ClaimStatus := .claimed
  trustScore : Rat := 3 / 10
  trustInputs : TrustInputs := {}
  verificationNote : Option String := none
  extractedBy : Option String := none

/-- Where in a document something is said. -/
structure Locator where
  type : String := "deck"
  page : Nat
  snippet : String

structure Evidence where
  id : Uuid
  claimId : Uuid
  documentId : Option Uuid
  locator : Locator
  snippet : String
  supports : Bool := true
  independenceGroup : Option String := none

/-- A JSON object with texts. -/
abbrev MemoSection := List (String × String)

structure Memo where
  id : Uuid
  orgId : Uuid
  opportunityId : Uuid
  version : Nat := 1
  status : String := "draft"
  sections : List MemoSection := []
  recommendation : Option DecisionKind
  recommendationRationale : Option String

/-- `HarvestRequest.channels` -/
inductive Channels where
  | text (s : String)
  | names (keys : List String)
  deriving DecidableEq

structure JobInput where
  applicationId : Option Uuid := none
  opportunityId : Option Uuid := none
  documentId : Option Uuid := none
  signalId : Option Uuid := none
  channels : Channels := .text "auto"
  retryOf : Option Uuid := none
  format : Option String := none
  deriving DecidableEq

/-- The JSON object in which an ended job reports; empty until then. -/
inductive JobResult where
  | empty
  | harvest (signalsIngested candidatesResolved : Nat) (screeningJobs : List Uuid)
      (failures : List (String × String))
  | decision (opportunityId memoId : Uuid) (recommendation : DecisionKind)
  | memoExport (degradationReasons : List String)
  | founderScore (personId : Uuid) (score : Int)
  deriving DecidableEq

structure Job where
  id : Uuid
  orgId : Option Uuid
  kind : String
  status : JobStatus := .queued
  targetType : Option String := none
  targetId : Option Uuid := none
  idempotencyKey : Option String := none
  progress : Rat := 0
  currentStep : Option String := none
  input : JobInput := {}
  result : JobResult := .empty
  errorCode : Option String := none
  errorMessage : Option String := none
  attempts : Nat := 0
  maxAttempts : Nat := 2
  startedAt : Option Timestamp := none
  finishedAt : Option Timestamp := none
  heartbeatAt : Option Timestamp := none
  createdAt : Timestamp
  deriving DecidableEq

structure AgentStep where
  jobId : Uuid
  seq : Nat
  agent : String
  action : String
  status : String
  progress : Rat
  message : Option String

end DolphinVC
