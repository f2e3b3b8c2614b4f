import DolphinVC.Db.State
import DolphinVC.Transaction.Atomic

/-!
# Sessions over the database

`Call` lists what the services do outside the database and what may raise there.
`evaluate` marks a place where the Python expressions of a function may raise
although no statement is sent. `execute` is `session.execute` of a bulk UPDATE.
`changed` is the column of an ORM UPDATE: assigning a column the value that was
loaded leaves it out.
-/

namespace DolphinVC

open Transaction

inductive Call where
  | enqueueJob (jobId : Uuid)
  | createTask (jobId : Uuid)
  | harvest (source : String)
  | close (source : String)
  | evaluate (what : String)
  deriving DecidableEq

abbrev Tx := Transaction.Tx Db Write Exc Call

abbrev World := Transaction.World Db Write Exc Call (Except Exc Unit)

def changed {α : Type} [DecidableEq α] (loaded assigned : α) : Option α :=
  if loaded = assigned then none else some assigned

theorem changed_getD {α : Type} [DecidableEq α] (a b : α) : (changed a b).getD a = b := by
  unfold changed
  split
  · assumption
  · rfl

section Changes

/-- The UPDATE that turns the loaded row into the assigned one. -/
def Opportunity.changes (loaded assigned : Opportunity) : OpportunityPatch where
  stage := changed loaded.stage assigned.stage
  title := changed loaded.title assigned.title
  assignedTo := changed loaded.assignedTo assigned.assignedTo
  thesisFit := (changed loaded.thesisFit assigned.thesisFit).join
  screenedAt := (changed loaded.screenedAt assigned.screenedAt).join
  memoReadyAt := (changed loaded.memoReadyAt assigned.memoReadyAt).join
  decision := (changed loaded.decision assigned.decision).join
  decisionRationale := (changed loaded.decisionRationale assigned.decisionRationale).join
  decisionBy := changed loaded.decisionBy assigned.decisionBy
  decidedAt := (changed loaded.decidedAt assigned.decidedAt).join
  version := changed loaded.version assigned.version

def Thesis.changes (loaded assigned : Thesis) : ThesisPatch where
  name := changed loaded.name assigned.name
  isDefault := changed loaded.isDefault assigned.isDefault
  sectors := changed loaded.sectors assigned.sectors
  antiSectors := changed loaded.antiSectors assigned.antiSectors
  stages := changed loaded.stages assigned.stages
  geos := changed loaded.geos assigned.geos
  checkSizeMin := changed loaded.checkSizeMin assigned.checkSizeMin
  checkSizeMax := changed loaded.checkSizeMax assigned.checkSizeMax
  currency := changed loaded.currency assigned.currency
  ownershipTargetPct := changed loaded.ownershipTargetPct assigned.ownershipTargetPct
  riskAppetite := changed loaded.riskAppetite assigned.riskAppetite
  weights := changed loaded.weights assigned.weights
  mustHaves := changed loaded.mustHaves assigned.mustHaves
  dealBreakers := changed loaded.dealBreakers assigned.dealBreakers
  notes := changed loaded.notes assigned.notes
  version := changed loaded.version assigned.version
  deletedAt := (changed loaded.deletedAt assigned.deletedAt).join

def Outreach.changes (loaded assigned : Outreach) : OutreachPatch where
  status := changed loaded.status assigned.status
  approvedBy := changed loaded.approvedBy assigned.approvedBy
  sentAt := (changed loaded.sentAt assigned.sentAt).join
  rejectionReason := (changed loaded.rejectionReason assigned.rejectionReason).join

def Job.changes (loaded assigned : Job) : JobPatch where
  status := changed loaded.status assigned.status
  statusFrom := loaded.status
  progress := changed loaded.progress assigned.progress
  currentStep := (changed loaded.currentStep assigned.currentStep).join
  result := changed loaded.result assigned.result
  errorCode := (changed loaded.errorCode assigned.errorCode).join
  errorMessage := (changed loaded.errorMessage assigned.errorMessage).join
  attempts := changed loaded.attempts assigned.attempts
  startedAt := (changed loaded.startedAt assigned.startedAt).join
  finishedAt := (changed loaded.finishedAt assigned.finishedAt).join
  heartbeatAt := (changed loaded.heartbeatAt assigned.heartbeatAt).join

end Changes

def execute (w : Write) : Tx Unit := do
  Tx.stage w
  Tx.flush

theorem emits_execute {Φ : Write → Prop} {w : Write} (hw : Φ w) : Tx.Emits Φ (execute w) :=
  Tx.Emits.bind (Tx.Emits.stage hw) fun _ => Tx.Emits.flush

/-- `session.refresh`: load the row again. -/
def refreshRow {α : Type} (find : Db → Option α) : Tx α := do
  let row? ← Tx.query find
  match row? with
  | none => throw (Exc.raised "InvalidRequestError" "Could not refresh instance")
  | some row => return row

theorem reads_refreshRow {α : Type} (find : Db → Option α) : Tx.Reads (refreshRow find) := by
  refine Tx.Reads.bind (Tx.Reads.query find) fun row? => ?_
  cases row? with
  | none => exact Tx.Reads.throw _
  | some row => exact Tx.Reads.pure row

end DolphinVC
