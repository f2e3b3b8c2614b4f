import DolphinVC.Db.Session

/-!
# Jobs

Creation with the 24-hour replay window, dispatch, and the reaper. Dispatch raises
nothing: in queue mode every error of Redis is swallowed, and `create_task` only
schedules. A call that fails leaves no delivery behind.
-/

namespace DolphinVC

open Transaction

/-- What identifies a job to `create_job`. -/
structure JobRequest where
  orgId : Uuid
  kind : String
  targetType : String
  targetId : Uuid
  idempotencyKey : String
  input : JobInput := {}

def JobRequest.row (r : JobRequest) (id : Uuid) (now : Timestamp) : Job where
  id
  orgId := some r.orgId
  kind := r.kind
  targetType := some r.targetType
  targetId := some r.targetId
  idempotencyKey := some r.idempotencyKey
  input := r.input
  createdAt := now

/-- The job that a request with the same key replays. -/
def JobRequest.prior (r : JobRequest) (now : Timestamp) (db : Db) : Option Job :=
  db.jobs.rows.find? fun j =>
    j.orgId = some r.orgId ∧ j.kind = r.kind ∧ j.targetId = some r.targetId ∧
      j.idempotencyKey = some r.idempotencyKey ∧ now - Timestamp.hours 24 ≤ j.createdAt

/-- The job and whether it is a replay. -/
def createJob (r : JobRequest) (id : Uuid) (now : Timestamp) : Tx (Job × Bool) := do
  let existing? ← Tx.query (r.prior now)
  match existing? with
  | some job => return (job, true)
  | none => do
      Tx.stage (.insertJob (r.row id now))
      Tx.flush
      return (r.row id now, false)

/-- The delivery that a dispatch asks for. -/
def delivery (queueEager : Bool) (jobId : Uuid) : Call :=
  if queueEager then .createTask jobId else .enqueueJob jobId

def dispatchJob (queueEager : Bool) (jobId : Uuid) : Tx Unit :=
  Tx.void (Tx.attempt (Tx.call (delivery queueEager jobId)))

def Job.reaped (now : Timestamp) (j : Job) : Job :=
  { j with
    status := .failed
    errorCode := some "WORKER_LOST"
    errorMessage := some "Worker heartbeat was lost. The job can be retried."
    finishedAt := some now }

def staleJobs (now : Timestamp) (db : Db) : List Job :=
  db.jobs.rows.filter fun j =>
    j.status = .running ∧ j.heartbeatAt.any fun t => t < now - Timestamp.seconds 90

def reapAll (now : Timestamp) : List Job → Tx Unit
  | [] => pure ()
  | job :: rest => do
      Tx.stage (.updateJob job.id (job.changes (job.reaped now)))
      reapAll now rest

def reapStaleJobs (now : Timestamp) : Tx Nat := do
  let stale ← Tx.query (staleJobs now)
  reapAll now stale
  Tx.commit
  return stale.length

end DolphinVC
