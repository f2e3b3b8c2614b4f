import Mathlib.Data.List.Sort
import DolphinVC.Deps
import DolphinVC.Services.Score

/-!
# Outreach and usage

Outreach to a founder is approved, sent or rejected by whoever may screen. Sending asks for
the status APPROVED; the other two look at no status. `usage` reports on the decisions of a
fund.
-/

namespace DolphinVC

open Transaction

section Endpoints

variable (env : Env) (credentials : Option Credentials) (now : Timestamp)

/-- `_outreach` -/
def getOutreach (orgId outreachId : Uuid) : Tx Outreach := do
  let row? ← Tx.query fun db => db.outreach.rows.find? fun o => o.id = outreachId ∧ o.orgId = orgId
  match row? with
  | none => throw (Exc.notFound "Outreach")
  | some row => return row

def approveOutreachEndpoint (outreachId : Uuid) : Tx (Uuid × OutreachStatus) := do
  let principal ← require .screen env credentials now
  let row ← getOutreach principal.orgId outreachId
  let approved := { row with status := .approved, approvedBy := principal.userId }
  Tx.stage (.updateOutreach row.id (row.changes approved))
  Tx.commit
  return (row.id, approved.status)

def sendOutreachEndpoint (outreachId : Uuid) : Tx (Uuid × OutreachStatus × String) := do
  let principal ← require .screen env credentials now
  let row ← getOutreach principal.orgId outreachId
  if row.status ≠ .approved then
    throw (Exc.unprocessable "Outreach must be approved before sending.")
  else do
    let sent := { row with status := .sent, sentAt := some now }
    Tx.stage (.updateOutreach row.id (row.changes sent))
    Tx.commit
    return (row.id, sent.status, if env.settings.demoMode then "demo_noop" else "external_adapter")

structure RejectOutreachRequest where
  reason : String
  bounds : 3 ≤ reason.length ∧ reason.length ≤ 1000

def rejectOutreachEndpoint (outreachId : Uuid) (body : RejectOutreachRequest) :
    Tx (Uuid × OutreachStatus) := do
  let principal ← require .screen env credentials now
  let row ← getOutreach principal.orgId outreachId
  let rejected := { row with status := .declined, rejectionReason := some body.reason }
  Tx.stage (.updateOutreach row.id (row.changes rejected))
  Tx.commit
  return (row.id, rejected.status)

end Endpoints

inductive OutreachRequest where
  | approve (outreachId : Uuid)
  | send (outreachId : Uuid)
  | reject (outreachId : Uuid) (body : RejectOutreachRequest)

def OutreachRequest.serve (env : Env) (credentials : Option Credentials) (now : Timestamp) :
    OutreachRequest → Tx Unit
  | .approve outreachId => Tx.void (approveOutreachEndpoint env credentials now outreachId)
  | .send outreachId => Tx.void (sendOutreachEndpoint env credentials now outreachId)
  | .reject outreachId body => Tx.void (rejectOutreachEndpoint env credentials now outreachId body)

section Usage

structure Usage where
  medianTimeToDecisionH : Option Rat
  slaBreaches : Nat
  windowDays : Int
  deriving DecidableEq

/-- The hours from the first signal of each decided opportunity to its decision. -/
def decisionHours (opportunities : List Opportunity) : List Rat :=
  opportunities.filterMap fun o => o.decidedAt.map fun decidedAt =>
    ((decidedAt - o.firstSignalAt : Int) : Rat) / (3600000000 : Int)

/-- The decided opportunity was decided after its deadline. -/
def countsAsBreach (o : Opportunity) : Bool :=
  o.decidedAt.any fun decidedAt => o.slaDeadlineAt < decidedAt

def usageOf (opportunities : List Opportunity) (days : Int) : Usage :=
  let durations := (decisionHours opportunities).insertionSort (· ≤ ·)
  { medianTimeToDecisionH := durations[durations.length / 2]?.map round2
    slaBreaches := opportunities.countP countsAsBreach
    windowDays := days }

def usageEndpoint (env : Env) (credentials : Option Credentials) (now : Timestamp) (days : Int) :
    Tx Usage := do
  let principal ← require .admin env credentials now
  let opportunities ← Tx.query fun db =>
    db.opportunities.rows.filter fun o => o.orgId = principal.orgId
  return usageOf opportunities days

end Usage

end DolphinVC
