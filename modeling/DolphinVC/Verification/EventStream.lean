import DolphinVC.Transition.Run
import DolphinVC.Relational.Keyset
import DolphinVC.Db.Frame
import DolphinVC.Routers.Jobs
import DolphinVC.Services.Pipeline

/-!
# What the event stream delivers

The worker numbers its steps upwards, and the last one commits together with the terminal
status. A stream, and behind it a client that reconnects with the number it got last, has
always been given the steps up to its position. A stream that ends has been given all of them
unless a step was committed between the two reads of its last poll.
-/

namespace DolphinVC

open Relational Transaction Transition Keyset

def AgentStep.number (row : AgentStep) : Int := row.seq

/-- The steps of the job in the order of their commits. -/
def jobSteps (jobId : Uuid) (db : Db) : List AgentStep :=
  db.agentSteps.rows.filter fun row => row.jobId = jobId

def jobEnded (jobId : Uuid) (db : Db) : Bool :=
  (db.jobs.find? jobId).any fun job => job.status.terminal

/-- The steps among events. -/
def eventRows (events : List StreamEvent) : List AgentStep := events.filterMap StreamEvent.row?

/-- One commit of the worker: a step and what changes in the job's row. -/
structure StepCommit where
  step : AgentStep
  set : JobPatch

/-- The store after the commit; one that a constraint rejects changes nothing. -/
def StepCommit.commit (c : StepCommit) (db : Db) : Db :=
  match backend.applyAll db [.insertAgentStep c.step, .updateJob c.step.jobId c.set] with
  | .ok db' => db'
  | .error _ => db

/-- The commit of two writes. -/
theorem wp_commit_two {Q : Except Exc Unit → Db → Session Write → Prop} {db : Db} (v w : Write) :
    Tx.WP backend Q (Tx.commit : DolphinVC.Tx Unit) db ((({} : Session Write).stage v).stage w) ↔
      match backend.applyAll db [v, w] with
      | .ok db' => Q (.ok ()) db' { committed := [[v, w]] }
      | .error e => Q (.error e) db { dirty := [v, w], failed := true } := by
  have hpending : ((({} : Session Write).stage v).stage w).pending = [v, w] := rfl
  rw [Tx.wp_commit_live rfl, hpending]
  cases backend.applyAll db [v, w] with
  | ok db' => rfl
  | error e => rfl

/-- What `_step` does to the store. -/
theorem recordStep_commit (run : RunEnv) (job : Job) (seq : Nat) (action message : String)
    (progress : Rat) (db : Db) :
    ((recordStep run job seq action progress message).atomically backend db).2 =
      StepCommit.commit ⟨pipelineStep job.id seq action progress message,
        job.changes (job.stepped action progress (run.now (.step seq)))⟩ db := by
  generalize htarget : StepCommit.commit _ db = target
  refine (Tx.atomically_iff (P := fun _ db' => db' = target)).mpr ?_
  refine Tx.wp_bind.mpr (Tx.wp_stage.mpr (Tx.wp_bind.mpr (Tx.wp_stage.mpr (Tx.wp_bind.mpr
    ((wp_commit_two _ _).mpr ?_)))))
  unfold StepCommit.commit at htarget
  split
  · rename_i db' happly
    rw [← htarget]
    simp only [pipelineStep] at happly ⊢
    rw [happly]
    rfl
  · rename_i e happly
    rw [← htarget]
    simp only [pipelineStep] at happly ⊢
    rw [happly]

/-- What the end of an analysis does to the store. -/
theorem finishAnalysis_commit (run : RunEnv) (job : Job) (result : JobResult) (db : Db) :
    ((finishAnalysis run job result).atomically backend db).2 =
      StepCommit.commit ⟨pipelineStep job.id 6 "done" 100 "Decision-support package is ready.",
        job.changes (job.analysisDone result (run.now .finish))⟩ db := by
  generalize htarget : StepCommit.commit _ db = target
  refine (Tx.atomically_iff (P := fun _ db' => db' = target)).mpr ?_
  refine Tx.wp_bind.mpr (Tx.wp_stage.mpr (Tx.wp_bind.mpr (Tx.wp_stage.mpr
    ((wp_commit_two _ _).mpr ?_))))
  rw [← htarget]
  unfold StepCommit.commit
  simp only [Backend.applyAll, backend, Db.apply]
  cases insertRow "agent_steps" db.agentSteps (fun _ => false)
    (pipelineStep job.id 6 "done" 100 "Decision-support package is ready.") with
  | ok t => rfl
  | error e => rfl

/-- A job, its worker's commits and a client that follows it. Of the events of the current
connection the client has received the first `taken`. -/
structure Watch where
  db : Db
  since : Int
  start : Int
  stream : Option Stream
  taken : Nat := 0
  received : List AgentStep := []
  finished : Bool := false

namespace Watch

def connect (db : Db) (lastEventId : Int) : Watch :=
  { db, since := lastEventId, start := lastEventId, stream := some (.start lastEventId) }

/-- The id of the last event that the client received. -/
def lastEventId (w : Watch) : Int := (w.received.getLast?.map AgentStep.number).getD w.since

inductive Action where
  | commit (c : StepCommit)
  | read
  | receive
  | disconnect
  | reconnect

/-- The worker's steps come in the order of their numbers, and none after the terminal status. -/
def Works (jobId : Uuid) (db : Db) (c : StepCommit) : Prop :=
  c.step.jobId = jobId ∧ (∀ row ∈ jobSteps jobId db, row.seq < c.step.seq) ∧
    jobEnded jobId db = false

instance (jobId : Uuid) (db : Db) (c : StepCommit) : Decidable (Works jobId db c) := by
  unfold Works
  infer_instance

def act (jobId : Uuid) (w : Watch) : Action → Watch
  | .commit c =>
      if Works jobId w.db c then { w with db := c.commit w.db } else w
  | .read => { w with stream := w.stream.map (Stream.read jobId w.db) }
  | .receive =>
      if w.finished then w
      else match w.stream.bind fun s => s.emitted[w.taken]? with
        | some (.step row) => { w with taken := w.taken + 1, received := w.received ++ [row] }
        | some (.done _ _) => { w with taken := w.taken + 1, finished := true }
        | some .heartbeat => { w with taken := w.taken + 1 }
        | none => w
  | .disconnect => { w with stream := none }
  | .reconnect =>
      if w.stream.isNone ∧ w.finished = false then
        { w with start := w.lastEventId, stream := some (.start w.lastEventId), taken := 0 }
      else w

/-- Who emits `done` has emitted all steps beyond its start, and a client that has received it
has received all of them, each once and in order. -/
structure Delivered (jobId : Uuid) (w : Watch) : Prop where
  stream : ∀ s ∈ w.stream, s.closed = true →
    eventRows s.emitted = stepsAfter jobId w.start w.db
  client : w.finished = true → w.received = stepsAfter jobId w.since w.db

/-- No step has been committed between the two reads of a poll that sees a terminal status. -/
def StepsBeforeStatus (jobId : Uuid) (w : Watch) : Action → Prop
  | .read => ∀ s ∈ w.stream, s.closed = false → s.polled = true →
      jobEnded jobId w.db = true → ∀ row ∈ jobSteps jobId w.db, row.number ≤ s.seq
  | _ => True

instance (jobId : Uuid) (w : Watch) : ∀ a, Decidable (StepsBeforeStatus jobId w a)
  | .read => inferInstanceAs (Decidable (∀ s ∈ w.stream, s.closed = false → s.polled = true →
      jobEnded jobId w.db = true → ∀ row ∈ jobSteps jobId w.db, row.number ≤ s.seq))
  | .commit _ | .receive | .disconnect | .reconnect => .isTrue trivial

end Watch

section Steps

variable {jobId : Uuid} {db : Db} {c : StepCommit} {n : Int}

theorem stepsAfter_eq (asc : Ascending AgentStep.number (jobSteps jobId db)) :
    stepsAfter jobId n db = after AgentStep.number n (jobSteps jobId db) := by
  have hfilter : (db.agentSteps.rows.filter fun s => s.jobId = jobId ∧ n < s.seq) =
      after AgentStep.number n (jobSteps jobId db) := by
    unfold after jobSteps
    rw [List.filter_filter]
    refine List.filter_congr fun r _ => ?_
    rw [decide_eq_decide.mpr and_comm, Bool.decide_and]
    rfl
  unfold stepsAfter
  rw [hfilter]
  refine List.Pairwise.insertionSort_eq ((Ascending.after asc).imp fun {a b} hlt => ?_)
  have : (a.seq : Int) < b.seq := hlt
  omega

/-- A commit of the worker appends its step, unless it is rejected. -/
theorem jobSteps_commit (hworks : Watch.Works jobId db c) :
    c.commit db = db ∨ jobSteps jobId (c.commit db) = jobSteps jobId db ++ [c.step] := by
  unfold StepCommit.commit
  cases happly : backend.applyAll db [.insertAgentStep c.step, .updateJob c.step.jobId c.set] with
  | error e => exact Or.inl rfl
  | ok db' =>
      right
      obtain ⟨mid, hinsert, hupdate⟩ := Backend.applyAll_cons_eq_ok.mp happly
      rw [Backend.applyAll_singleton] at hupdate
      cases hupdate
      obtain ⟨t, ht, rfl⟩ := map_eq_ok.mp hinsert
      obtain ⟨-, hins⟩ := insertRow_eq_ok.mp ht
      unfold jobSteps
      simp only [(Table.insert?_eq_some_iff.mp hins).2, List.filter_append]
      simp [hworks.1]

end Steps

section Emitted

variable {jobId : Uuid} {db : Db} {s : Stream}

@[simp] theorem eventRows_append (es fs : List StreamEvent) :
    eventRows (es ++ fs) = eventRows es ++ eventRows fs := List.filterMap_append

@[simp] theorem eventRows_steps (rows : List AgentStep) :
    eventRows (rows.map .step) = rows := by
  unfold eventRows
  rw [List.filterMap_map]
  exact List.filterMap_some

/-- `done` is the last event, and only the end of the job brings it about. -/
def DoneLast (events : List StreamEvent) : Prop :=
  ∀ i status code, events[i]? = some (.done status code) → i + 1 = events.length

theorem any_isDone_steps (rows : List AgentStep) :
    (rows.map StreamEvent.step).any StreamEvent.isDone = false := by
  simp [StreamEvent.isDone]

theorem doneLast_append {es fs : List StreamEvent} (hes : es.any StreamEvent.isDone = false)
    (hfs : DoneLast fs) : DoneLast (es ++ fs) := by
  intro i status code hi
  by_cases hlt : i < es.length
  · rw [List.getElem?_append_left hlt] at hi
    have := List.any_eq_false.mp hes _ (List.mem_of_getElem? hi)
    exact absurd rfl this
  · rw [List.getElem?_append_right (by omega)] at hi
    have := hfs _ status code hi
    rw [List.length_append]
    omega

theorem doneLast_of_not_any {es : List StreamEvent} (hes : es.any StreamEvent.isDone = false) :
    DoneLast es := by
  have := @doneLast_append es [] hes fun i status code h => by simp at h
  rwa [List.append_nil] at this

end Emitted

section Invariant

open Watch

variable {jobId : Uuid} {w : Watch} {a : Action}

/-- What every action keeps. -/
structure Watch.Inv (jobId : Uuid) (w : Watch) : Prop where
  asc : Ascending AgentStep.number (jobSteps jobId w.db)
  client : Covers AgentStep.number (jobSteps jobId w.db) w.since w.received w.lastEventId
  emitted : ∀ s, w.stream = some s →
    Covers AgentStep.number (jobSteps jobId w.db) w.start (eventRows s.emitted) s.seq
  queued : ∀ s, w.stream = some s →
    Covers AgentStep.number (jobSteps jobId w.db) w.lastEventId
      (eventRows (s.emitted.drop w.taken)) s.seq
  taken : ∀ s, w.stream = some s → w.taken ≤ s.emitted.length
  last : ∀ s, w.stream = some s → DoneLast s.emitted
  ended : ∀ s, w.stream = some s → s.closed = true → jobEnded jobId w.db = true
  finished : w.finished = true → jobEnded jobId w.db = true

/-- Either the worker commits the step or nothing happens. -/
theorem commit_cases (c : StepCommit) :
    w.act jobId (.commit c) = w ∨
    Works jobId w.db c ∧ ∃ db, w.act jobId (.commit c) = { w with db } ∧
      jobSteps jobId db = jobSteps jobId w.db ++ [c.step] := by
  simp only [act]
  split
  · rename_i hworks
    obtain heq | hsteps := jobSteps_commit hworks
    · rw [heq]
      exact Or.inl rfl
    · exact Or.inr ⟨hworks, _, rfl, hsteps⟩
  · exact Or.inl rfl

theorem inv_commit (c : StepCommit) (h : w.Inv jobId) : (w.act jobId (.commit c)).Inv jobId := by
  obtain heq | ⟨⟨-, hnew, hopen⟩, db, heq, hsteps⟩ := commit_cases c
  · rw [heq]
    exact h
  · have new : ∀ row ∈ jobSteps jobId w.db, row.number < c.step.number :=
      fun row hrow => Int.ofNat_lt.mpr (hnew row hrow)
    have notEnded (hended : jobEnded jobId w.db = true) : False := by
      rw [hopen] at hended
      cases hended
    rw [heq]
    constructor
    case asc =>
      rw [hsteps]
      refine List.pairwise_append.mpr ⟨h.asc, List.pairwise_singleton _ _, fun row hrow x hx => ?_⟩
      rw [List.mem_singleton.mp hx]
      exact new row hrow
    case client =>
      rw [hsteps]
      exact h.client.push new
    case emitted =>
      intro s hs
      rw [hsteps]
      exact (h.emitted s hs).push new
    case queued =>
      intro s hs
      rw [hsteps]
      exact (h.queued s hs).push new
    case taken => exact h.taken
    case last => exact h.last
    case ended => exact fun s hs hclosed => (notEnded (h.ended s hs hclosed)).elim
    case finished => exact fun hfinished => (notEnded (h.finished hfinished)).elim

/-- What a read appends, and where the stream stands then. -/
theorem read_cases (jobId : Uuid) (db : Db) (s : Stream) :
    (s.closed = true ∧ s.read jobId db = s) ∨
    (s.closed = false ∧ s.polled = false ∧ s.read jobId db = s.readSteps jobId db) ∨
    (s.closed = false ∧ s.polled = true ∧ s.read jobId db = s.readStatus jobId db) := by
  unfold Stream.read
  cases hclosed : s.closed with
  | true => exact Or.inl ⟨rfl, rfl⟩
  | false =>
      cases hpolled : s.polled with
      | true => exact Or.inr (Or.inr ⟨rfl, rfl, rfl⟩)
      | false => exact Or.inr (Or.inl ⟨rfl, rfl, rfl⟩)

/-- The status read appends one event that is no step; it ends the stream when the job has
ended. -/
theorem readStatus_cases (jobId : Uuid) (db : Db) (s : Stream) :
    (s.readStatus jobId db).seq = s.seq ∧
    ((jobEnded jobId db = true ∧ ∃ status code,
        (s.readStatus jobId db).emitted = s.emitted ++ [.done status code]) ∨
      jobEnded jobId db = false ∧ ∃ ticks, (s.readStatus jobId db).emitted = s.emitted ++ ticks ∧
        (ticks = [] ∨ ticks = [.heartbeat])) := by
  unfold Stream.readStatus jobEnded
  cases hjob : db.jobs.find? jobId with
  | none =>
      simp only [Option.filter_none, Option.any_none]
      split
      · exact ⟨rfl, Or.inr ⟨trivial, _, rfl, Or.inr rfl⟩⟩
      · exact ⟨rfl, Or.inr ⟨trivial, [], (List.append_nil _).symm, Or.inl rfl⟩⟩
  | some job =>
      cases hterminal : job.status.terminal with
      | true =>
          simp only [Option.filter_some, hterminal, Option.any_some, if_true]
          exact ⟨trivial, Or.inl ⟨trivial, _, _, rfl⟩⟩
      | false =>
          simp only [Option.filter_some, hterminal, Option.any_some, Bool.false_eq_true, if_false]
          split
          · exact ⟨rfl, Or.inr ⟨trivial, _, rfl, Or.inr rfl⟩⟩
          · exact ⟨rfl, Or.inr ⟨trivial, [], (List.append_nil _).symm, Or.inl rfl⟩⟩

/-- A read that keeps the stream's own invariants keeps those of the watch. -/
theorem inv_of_read {s s' : Stream} (h : w.Inv jobId) (hs : w.stream = some s)
    (extra : List StreamEvent) (hextra : s'.emitted = s.emitted ++ extra)
    (covers : ∀ n read, Covers AgentStep.number (jobSteps jobId w.db) n read s.seq →
      Covers AgentStep.number (jobSteps jobId w.db) n (read ++ eventRows extra) s'.seq)
    (last : DoneLast s'.emitted)
    (ended : s'.closed = true → jobEnded jobId w.db = true) :
    ({ w with stream := some s' } : Watch).Inv jobId := by
  constructor
  case asc => exact h.asc
  case client => exact h.client
  case emitted =>
    rintro t ⟨⟩
    rw [hextra, eventRows_append]
    exact covers _ _ (h.emitted s hs)
  case queued =>
    rintro t ⟨⟩
    rw [hextra, List.drop_append_of_le_length (h.taken s hs), eventRows_append]
    exact covers _ _ (h.queued s hs)
  case taken =>
    rintro t ⟨⟩
    rw [hextra, List.length_append]
    exact (h.taken s hs).trans (Nat.le_add_right _ _)
  case last =>
    rintro t ⟨⟩
    exact last
  case ended =>
    rintro t ⟨⟩
    exact ended
  case finished => exact h.finished

theorem inv_read (h : w.Inv jobId) : (w.act jobId .read).Inv jobId := by
  simp only [act]
  cases hs : w.stream with
  | none =>
      have heq : { w with stream := none } = w := by
        cases w
        simp_all
      rw [Option.map_none, heq]
      exact h
  | some s =>
      rw [Option.map_some]
      obtain ⟨-, heq⟩ | ⟨hclosed, -, heq⟩ | ⟨hclosed, -, heq⟩ := read_cases jobId w.db s
      · rw [heq]
        refine inv_of_read h hs [] (List.append_nil _).symm (fun n read hc => ?_) (h.last s hs)
          (h.ended s hs)
        simpa [eventRows] using hc
      · rw [heq]
        have hsteps : (s.readSteps jobId w.db).emitted =
            s.emitted ++ (stepsAfter jobId s.seq w.db).map .step := rfl
        refine inv_of_read h hs _ hsteps (fun n read hc => ?_) ?_ fun hdone => ?_
        · rw [eventRows_steps]
          unfold Stream.readSteps
          simp only [stepsAfter_eq h.asc]
          exact hc.drain h.asc
        · rw [hsteps]
          exact doneLast_append hclosed (doneLast_of_not_any (any_isDone_steps _))
        · have hopen : (s.readSteps jobId w.db).closed = false := by
            unfold Stream.closed at hclosed ⊢
            rw [hsteps, List.any_append, hclosed, any_isDone_steps, Bool.or_false]
          rw [hopen] at hdone
          cases hdone
      · rw [heq]
        obtain ⟨hseq, ⟨hended, status, code, hemitted⟩ | ⟨-, ticks, hemitted, hticks⟩⟩ :=
          readStatus_cases jobId w.db s
        · refine inv_of_read h hs _ hemitted (fun n read hc => ?_) ?_ fun _ => hended
          · rw [hseq, show eventRows [.done status code] = [] from rfl, List.append_nil]
            exact hc
          · rw [hemitted]
            refine doneLast_append hclosed fun i status code hi => ?_
            have := (List.getElem?_eq_some_iff.mp hi).1
            simp only [List.length_cons, List.length_nil] at this ⊢
            omega
        · have hquiet : ticks.any StreamEvent.isDone = false ∧ eventRows ticks = [] := by
            obtain rfl | rfl := hticks
            · exact ⟨rfl, rfl⟩
            · exact ⟨rfl, rfl⟩
          refine inv_of_read h hs _ hemitted (fun n read hc => ?_) ?_ fun hdone => ?_
          · rw [hseq, hquiet.2, List.append_nil]
            exact hc
          · rw [hemitted]
            exact doneLast_append hclosed (doneLast_of_not_any hquiet.1)
          · have hopen : (s.readStatus jobId w.db).closed = false := by
              unfold Stream.closed at hclosed ⊢
              rw [hemitted, List.any_append, hclosed, hquiet.1, Bool.or_false]
            rw [hopen] at hdone
            cases hdone

theorem drop_of_getElem? {es : List StreamEvent} {i : Nat} {event : StreamEvent}
    (h : es[i]? = some event) : i + 1 ≤ es.length ∧ es.drop i = event :: es.drop (i + 1) := by
  obtain ⟨hlt, heq⟩ := List.getElem?_eq_some_iff.mp h
  exact ⟨hlt, by rw [List.drop_eq_getElem_cons hlt, heq]⟩

/-- The client takes an event that is no step. -/
theorem inv_of_receive {s : Stream} {event : StreamEvent} (h : w.Inv jobId)
    (hs : w.stream = some s) (hevent : s.emitted[w.taken]? = some event) (quiet : event.row? = none)
    (ends : Bool) (hends : ends = true → jobEnded jobId w.db = true) :
    ({ w with taken := w.taken + 1, finished := ends } : Watch).Inv jobId := by
  obtain ⟨hle, hdrop⟩ := drop_of_getElem? hevent
  constructor
  case asc => exact h.asc
  case client => exact h.client
  case emitted => exact h.emitted
  case queued =>
    intro t ht
    obtain rfl : s = t := Option.some.inj (hs.symm.trans ht)
    have := h.queued s hs
    rw [hdrop] at this
    unfold eventRows at this
    rwa [List.filterMap_cons_none quiet] at this
  case taken =>
    intro t ht
    obtain rfl : s = t := Option.some.inj (hs.symm.trans ht)
    exact hle
  case last => exact h.last
  case ended => exact h.ended
  case finished => exact hends

/-- The client takes a step. -/
theorem inv_of_row {s : Stream} {row : AgentStep} (h : w.Inv jobId) (hs : w.stream = some s)
    (hevent : s.emitted[w.taken]? = some (.step row)) :
    ({ w with taken := w.taken + 1, received := w.received ++ [row] } : Watch).Inv jobId := by
  obtain ⟨hle, hdrop⟩ := drop_of_getElem? hevent
  have hqueued := h.queued s hs
  rw [hdrop] at hqueued
  obtain ⟨hclient, hrest⟩ := h.client.pass h.asc
    (show Covers _ _ _ (row :: eventRows (s.emitted.drop (w.taken + 1))) _ from hqueued)
  have hid :
      ({ w with taken := w.taken + 1, received := w.received ++ [row] } : Watch).lastEventId =
        row.number := by simp [Watch.lastEventId]
  constructor
  case asc => exact h.asc
  case client =>
    rw [hid]
    exact hclient
  case emitted => exact h.emitted
  case queued =>
    intro t ht
    obtain rfl : s = t := Option.some.inj (hs.symm.trans ht)
    rw [hid]
    exact hrest
  case taken =>
    intro t ht
    obtain rfl : s = t := Option.some.inj (hs.symm.trans ht)
    exact hle
  case last => exact h.last
  case ended => exact h.ended
  case finished => exact h.finished

theorem inv_receive (h : w.Inv jobId) : (w.act jobId .receive).Inv jobId := by
  simp only [act]
  split
  · exact h
  · split
    · rename_i row hrow
      obtain ⟨s, hs, hrow⟩ := Option.bind_eq_some_iff.mp hrow
      exact inv_of_row h hs hrow
    · rename_i status code hdone
      obtain ⟨s, hs, hdone⟩ := Option.bind_eq_some_iff.mp hdone
      refine inv_of_receive h hs hdone rfl true fun _ => h.ended s hs ?_
      exact List.any_eq_true.mpr ⟨_, List.mem_of_getElem? hdone, rfl⟩
    · rename_i hbeat
      obtain ⟨s, hs, hbeat⟩ := Option.bind_eq_some_iff.mp hbeat
      exact inv_of_receive h hs hbeat rfl w.finished h.finished
    · exact h

/-- A new connection begins where the client stands. -/
theorem inv_connect {db : Db} {since start : Int} {received : List AgentStep} {finished : Bool}
    (asc : Ascending AgentStep.number (jobSteps jobId db))
    (client : Covers AgentStep.number (jobSteps jobId db) since received start)
    (hid : start = (received.getLast?.map AgentStep.number).getD since)
    (hfinished : finished = true → jobEnded jobId db = true) :
    Watch.Inv jobId
      { db, since, start, stream := some (.start start), received, finished } := by
  constructor
  case asc => exact asc
  case client =>
    unfold Watch.lastEventId
    rw [← hid]
    exact client
  case emitted =>
    rintro t ⟨⟩
    exact .refl
  case queued =>
    rintro t ⟨⟩
    unfold Watch.lastEventId
    rw [← hid]
    exact .refl
  case taken =>
    rintro t ⟨⟩
    exact Nat.zero_le _
  case last =>
    rintro t ⟨⟩
    intro i status code hi
    simp [Stream.start] at hi
  case ended =>
    rintro t ⟨⟩ hclosed
    cases hclosed
  case finished => exact hfinished

theorem inv_act (a : Action) (h : w.Inv jobId) : (w.act jobId a).Inv jobId := by
  cases a with
  | commit c => exact inv_commit c h
  | read => exact inv_read h
  | receive => exact inv_receive h
  | disconnect =>
      refine ⟨h.asc, h.client, ?_, ?_, ?_, ?_, ?_, h.finished⟩ <;>
      · intro s hs
        cases hs
  | reconnect =>
      simp only [act]
      split
      · exact inv_connect h.asc h.client rfl h.finished
      · exact h

end Invariant

section Decides

open Watch

variable {jobId : Uuid} {w : Watch}

theorem stepsAfter_eq_nil_iff (h : w.Inv jobId) {s : Stream} (hs : w.stream = some s) :
    eventRows s.emitted = stepsAfter jobId w.start w.db ↔
      ∀ row ∈ jobSteps jobId w.db, row.number ≤ s.seq := by
  rw [stepsAfter_eq h.asc, (h.emitted s hs).complete_iff]
  unfold after
  rw [List.filter_eq_nil_iff]
  simp

/-- A closed stream that has emitted everything leaves nothing behind its `done`. -/
theorem received_of_done (h : w.Inv jobId) {s : Stream} (hs : w.stream = some s)
    {status : JobStatus} {code : Option String}
    (hdone : s.emitted[w.taken]? = some (.done status code))
    (hstream : eventRows s.emitted = stepsAfter jobId w.start w.db) :
    w.received = stepsAfter jobId w.since w.db := by
  have hend : after AgentStep.number s.seq (jobSteps jobId w.db) = [] := by
    rw [stepsAfter_eq h.asc] at hstream
    exact (h.emitted s hs).complete_iff.mp hstream
  have hlast := h.last s hs _ _ _ hdone
  have hqueued := h.queued s hs
  rw [(drop_of_getElem? hdone).2, hlast, List.drop_length] at hqueued
  have hnothing : after AgentStep.number w.lastEventId (jobSteps jobId w.db) = [] := by
    rw [← hqueued.rows, hend]
    rfl
  rw [stepsAfter_eq h.asc]
  exact h.client.complete_iff.mpr hnothing

theorem delivered_commit (h : w.Inv jobId) (hd : w.Delivered jobId) (c : StepCommit) :
    (w.act jobId (.commit c)).Delivered jobId := by
  obtain heq | ⟨⟨-, -, hopen⟩, db, heq, -⟩ := commit_cases c
  · rw [heq]
    exact hd
  · have notEnded (hended : jobEnded jobId w.db = true) : False := by
      rw [hopen] at hended
      cases hended
    rw [heq]
    exact ⟨fun s hs hclosed => (notEnded (h.ended s hs hclosed)).elim,
      fun hfinished => (notEnded (h.finished hfinished)).elim⟩

/-- A read with which the stream does not end. -/
theorem delivered_of_open {s' : Stream} (hd : w.Delivered jobId) (hopen : s'.closed = false) :
    ({ w with stream := some s' } : Watch).Delivered jobId := by
  refine ⟨?_, hd.client⟩
  rintro t ⟨⟩ hclosed
  rw [hopen] at hclosed
  cases hclosed

theorem closed_append (s : Stream) {s' : Stream} {extra : List StreamEvent}
    (hextra : s'.emitted = s.emitted ++ extra) :
    s'.closed = (s.closed || extra.any StreamEvent.isDone) := by
  unfold Stream.closed
  rw [hextra, List.any_append]

theorem delivered_read_iff (h : w.Inv jobId) (hd : w.Delivered jobId) :
    (w.act jobId .read).Delivered jobId ↔ w.StepsBeforeStatus jobId .read := by
  simp only [act]
  cases hs : w.stream with
  | none =>
      refine iff_of_true ⟨fun t ht => ?_, hd.client⟩ fun t ht => ?_
      · cases ht
      · rw [hs] at ht
        cases ht
  | some s =>
      rw [Option.map_some]
      rcases read_cases jobId w.db s with ⟨hclosed, heq⟩ | ⟨hclosed, hpolled, heq⟩ |
        ⟨hclosed, hpolled, heq⟩
      · rw [heq]
        refine iff_of_true ⟨?_, hd.client⟩ fun t ht hopen => ?_
        · rintro t ⟨⟩
          exact hd.stream s hs
        · obtain rfl : s = t := Option.some.inj (hs.symm.trans ht)
          rw [hclosed] at hopen
          cases hopen
      · rw [heq]
        refine iff_of_true (delivered_of_open hd ?_) fun t ht _ hpoll => ?_
        · have hemitted : (s.readSteps jobId w.db).emitted =
              s.emitted ++ (stepsAfter jobId s.seq w.db).map .step := rfl
          rw [closed_append s hemitted, hclosed, any_isDone_steps]
          rfl
        · obtain rfl : s = t := Option.some.inj (hs.symm.trans ht)
          rw [hpolled] at hpoll
          cases hpoll
      · rw [heq]
        obtain ⟨-, ⟨hended, status, code, hemitted⟩ | ⟨hopen, ticks, hemitted, hticks⟩⟩ :=
          readStatus_cases jobId w.db s
        · have hdone : (s.readStatus jobId w.db).closed = true := by
            rw [closed_append s hemitted]
            simp [StreamEvent.isDone]
          have hrows : eventRows (s.readStatus jobId w.db).emitted = eventRows s.emitted := by
            rw [hemitted, eventRows_append]
            exact List.append_nil _
          constructor
          · intro hdelivered t ht _ _ _
            obtain rfl : s = t := Option.some.inj (hs.symm.trans ht)
            exact (stepsAfter_eq_nil_iff h hs).mp (hrows ▸ hdelivered.stream _ rfl hdone)
          · refine fun hc => ⟨?_, hd.client⟩
            rintro t ⟨⟩ -
            rw [hrows]
            exact (stepsAfter_eq_nil_iff h hs).mpr (hc s hs hclosed hpolled hended)
        · have hstill : (s.readStatus jobId w.db).closed = false := by
            rw [closed_append s hemitted, hclosed]
            obtain rfl | rfl := hticks
            · rfl
            · rfl
          refine iff_of_true (delivered_of_open hd hstill) fun t ht _ _ hended => ?_
          rw [hopen] at hended
          cases hended

theorem delivered_receive (h : w.Inv jobId) (hd : w.Delivered jobId) :
    (w.act jobId .receive).Delivered jobId := by
  simp only [act]
  split
  · exact hd
  · rename_i hopen
    split
    · exact ⟨hd.stream, fun hfinished => absurd hfinished hopen⟩
    · rename_i status code hdone
      obtain ⟨s, hs, hdone⟩ := Option.bind_eq_some_iff.mp hdone
      refine ⟨hd.stream, fun _ => ?_⟩
      have hclosed : s.closed = true :=
        List.any_eq_true.mpr ⟨_, List.mem_of_getElem? hdone, rfl⟩
      have hreceived := received_of_done h hs hdone (hd.stream s hs hclosed)
      exact hreceived
    · exact ⟨hd.stream, fun hfinished => absurd hfinished hopen⟩
    · exact hd

theorem delivered_act_iff (h : w.Inv jobId) (hd : w.Delivered jobId) (a : Action) :
    (w.act jobId a).Delivered jobId ↔ w.StepsBeforeStatus jobId a := by
  cases a with
  | commit c => exact iff_of_true (delivered_commit h hd c) trivial
  | read => exact delivered_read_iff h hd
  | receive => exact iff_of_true (delivered_receive h hd) trivial
  | disconnect =>
      refine iff_of_true ⟨fun s hs => ?_, hd.client⟩ trivial
      cases hs
  | reconnect =>
      refine iff_of_true ?_ trivial
      simp only [act]
      split
      · refine ⟨?_, hd.client⟩
        rintro s ⟨⟩ hclosed
        cases hclosed
      · exact hd

/-- Whoever watches a job is told everything in a run exactly when no poll that sees the end
of the job has missed a step between its two reads. -/
theorem steps_delivered_iff (jobId : Uuid) (db : Db) (lastEventId : Int) (run : List Action)
    (asc : Ascending AgentStep.number (jobSteps jobId db)) :
    Along (act jobId) (Delivered jobId) (connect db lastEventId) run ↔
      Meets (act jobId) (StepsBeforeStatus jobId) (connect db lastEventId) run := by
  have hstart : (connect db lastEventId).Inv jobId :=
    inv_connect asc .refl rfl fun hfinished => (by cases hfinished)
  have hdelivered : (connect db lastEventId).Delivered jobId := by
    refine ⟨?_, fun hfinished => by cases hfinished⟩
    rintro s ⟨⟩ hclosed
    cases hclosed
  exact along_iff_meets (A := fun _ => True) (fun w a _ h => inv_act a h)
    (fun w a _ h hd => delivered_act_iff h hd a) (fun _ _ => trivial) hstart hdelivered

end Decides

section Example

open Watch

def cascadeDb : Db where
  jobs := ⟨[{ id := 6, orgId := some 1, kind := "screen", status := .running, createdAt := 0 }],
    by decide⟩

def cascadeStep (seq : Nat) : StepCommit where
  step := pipelineStep 6 seq "step" 50 "Going on."
  set := {}

def cascadeEnd : StepCommit where
  step := pipelineStep 6 3 "done" 100 "Decision-support package is ready."
  set := { status := some .succeeded, statusFrom := .running }

/-- The client loses the connection after one step and comes back for the rest. -/
theorem cascade_delivered :
    Along (act 6) (Delivered 6) (connect cascadeDb 0)
      [.commit (cascadeStep 1), .read, .receive, .read, .disconnect, .commit (cascadeStep 2),
        .commit cascadeEnd, .reconnect, .read, .read, .receive, .receive, .receive] :=
  (steps_delivered_iff 6 cascadeDb 0 _ (by decide)).mpr (by decide +kernel)

/-- The last step and the end of the job are committed between the two reads of a poll. -/
def cascadeRun : List Action :=
  [.commit (cascadeStep 1), .commit (cascadeStep 2), .read, .commit cascadeEnd, .read]

theorem last_step_is_missed :
    ¬ Along (act 6) (Delivered 6) (connect cascadeDb 0) cascadeRun := by
  intro h
  have hdone : ∃ s ∈ (cascadeRun.foldl (act 6) (connect cascadeDb 0)).stream, s.closed = true ∧
      (eventRows s.emitted).length = 2 := by decide +kernel
  have hcommitted : (stepsAfter 6 (cascadeRun.foldl (act 6) (connect cascadeDb 0)).start
      (cascadeRun.foldl (act 6) (connect cascadeDb 0)).db).length = 3 := by decide +kernel
  obtain ⟨s, hs, hclosed, hemitted⟩ := hdone
  rw [h.last.stream s hs hclosed, hcommitted] at hemitted
  cases hemitted

end Example

end DolphinVC
