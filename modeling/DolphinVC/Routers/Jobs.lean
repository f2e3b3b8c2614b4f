import Mathlib.Data.List.Sort
import DolphinVC.Services.Jobs

/-!
# The event stream of a job

`job_events` polls: a session of its own reads the steps beyond the last one sent, then the
status of the job. The two reads are two statements, and each sees what is committed when it
runs. The id of an event is the number of its step.
-/

namespace DolphinVC

/-- The statuses that end a stream. -/
def JobStatus.terminal (status : JobStatus) : Bool :=
  status ∈ [JobStatus.succeeded, .failed, .cancelled, .partialSuccess]

/-- The steps of the job with a greater number, in the order of the numbers. -/
def stepsAfter (jobId : Uuid) (seq : Int) (db : Db) : List AgentStep :=
  (db.agentSteps.rows.filter fun s => s.jobId = jobId ∧ seq < s.seq).insertionSort fun a b =>
    a.seq ≤ b.seq

inductive StreamEvent where
  | step (row : AgentStep)
  | done (status : JobStatus) (errorCode : Option String)
  | heartbeat

def StreamEvent.row? : StreamEvent → Option AgentStep
  | .step row => some row
  | _ => none

def StreamEvent.isDone : StreamEvent → Bool
  | .done _ _ => true
  | _ => false

/-- A connection: the position `seq` of its generator and what it has yielded. `polled` says
that the steps of the current poll are read and the status is not. -/
structure Stream where
  seq : Int
  polled : Bool := false
  heartbeatTicks : Nat := 0
  emitted : List StreamEvent := []

namespace Stream

/-- `start_seq` is the `Last-Event-ID`. -/
def start (lastEventId : Int) : Stream := { seq := lastEventId }

def closed (s : Stream) : Bool := s.emitted.any StreamEvent.isDone

/-- The first read of a poll. -/
def readSteps (jobId : Uuid) (db : Db) (s : Stream) : Stream :=
  let steps := stepsAfter jobId s.seq db
  { s with
    seq := (steps.getLast?.map fun row => (row.seq : Int)).getD s.seq
    polled := true
    emitted := s.emitted ++ steps.map .step }

/-- The second read of a poll and the pause after it. -/
def readStatus (jobId : Uuid) (db : Db) (s : Stream) : Stream :=
  match (db.jobs.find? jobId).filter fun job => job.status.terminal with
  | some job => { s with polled := false, emitted := s.emitted ++ [.done job.status job.errorCode] }
  | none =>
      if 15 ≤ s.heartbeatTicks + 1 then
        { s with polled := false, heartbeatTicks := 0, emitted := s.emitted ++ [.heartbeat] }
      else { s with polled := false, heartbeatTicks := s.heartbeatTicks + 1 }

/-- The next read, unless the generator has ended. -/
def read (jobId : Uuid) (db : Db) (s : Stream) : Stream :=
  if s.closed then s
  else if s.polled then s.readStatus jobId db
  else s.readSteps jobId db

end Stream

end DolphinVC
