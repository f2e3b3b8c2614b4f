import Mathlib.Data.List.Basic

/-!
# Enumerations of the domain

The string enumerations of the backend, with the `value` of the ones whose wire
form other code compares, and the role table that grants permissions.
-/

namespace DolphinVC

/-- A `uuid4`. A draw that clashes with a primary key is rejected by the insert. -/
abbrev Uuid := Nat

/-- Microseconds. -/
abbrev Timestamp := Int

def Timestamp.hours (n : Int) : Timestamp := n * 3600000000
def Timestamp.minutes (n : Int) : Timestamp := n * 60000000
def Timestamp.seconds (n : Int) : Timestamp := n * 1000000
def Timestamp.days (n : Int) : Timestamp := n * 86400000000

/-- `date()`, as a number of days. -/
def Timestamp.date (t : Timestamp) : Int := t / 86400000000

inductive UserRole where
  | owner | partner | analyst | viewer | service
  deriving DecidableEq

inductive OpportunityStage where
  | sourced | screening | screened | diligence | decision | decided | archived
  deriving DecidableEq

inductive OpportunityOrigin where
  | inbound | outbound | manual
  deriving DecidableEq

inductive DecisionKind where
  | invest | pass | watchlist | needsHuman
  deriving DecidableEq

inductive AxisKind where
  | founder | market | ideaVsMarket
  deriving DecidableEq

inductive JobStatus where
  | queued | running | succeeded | failed | cancelled | partialSuccess
  deriving DecidableEq

inductive OutreachStatus where
  | suggested | approved | sent | replied | applied | declined | bounced
  deriving DecidableEq

inductive ApplicationStatus where
  | received | parsing | screening | needsInfo | inDiligence | decided
  | rejectedPrescreen | error
  deriving DecidableEq

inductive SourceStatus where
  | active | degraded | disabled | noCredentials
  deriving DecidableEq

inductive SourceTier where
  | primary | verifiedThirdParty | aggregator | selfReported | inferred
  deriving DecidableEq

inductive ClaimStatus where
  | verified | corroborated | claimed | contradicted | notDisclosed | unverifiable
  deriving DecidableEq

inductive ClaimCategory where
  | traction | revenue | team | market | product | technology | funding | legal | other
  deriving DecidableEq

inductive SignalKind where
  | repoActivity | release | packagePublish | paper | patent | hackathonResult
  | acceleratorCohort | launchPost | forumPost | socialPost | press | jobPost
  | fundingFiling | companyRegistry | domainRegistration | tlsCertificate | websiteChange
  | deckSlide | interview | appRelease | datasetModelPublish | other
  deriving DecidableEq

inductive TrendKind where
  | improving | stable | declining | insufficientData
  deriving DecidableEq

inductive Permission where
  | read | screen | decide | thesisWrite | orgAdmin | admin
  deriving DecidableEq

/-- The scope string of a permission, as API keys and access tokens carry it. -/
def Permission.value : Permission → String
  | .read => "read"
  | .screen => "opportunities:screen"
  | .decide => "opportunities:decide"
  | .thesisWrite => "theses:write"
  | .orgAdmin => "org:admin"
  | .admin => "admin"

theorem Permission.value_injective : Function.Injective Permission.value := by
  intro p q h
  cases p <;> cases q <;> first | rfl | simp [Permission.value] at h

/-- `ROLE_PERMISSIONS`. -/
def rolePermissions : UserRole → List Permission
  | .owner => [.read, .screen, .decide, .thesisWrite, .orgAdmin, .admin]
  | .partner => [.read, .screen, .decide, .thesisWrite]
  | .analyst => [.read, .screen]
  | .viewer => [.read]
  | .service => [.read, .screen, .admin]

/-- Only owners and partners hold the permission to decide. -/
theorem decide_mem_rolePermissions {role : UserRole} :
    .decide ∈ rolePermissions role ↔ role = .owner ∨ role = .partner := by
  cases role <;> simp [rolePermissions]

end DolphinVC
