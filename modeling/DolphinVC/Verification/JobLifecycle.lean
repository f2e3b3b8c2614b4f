import DolphinVC.Transaction.Rely
import DolphinVC.Verification.AuditTrail
import DolphinVC.Verification.FailedRuns
import DolphinVC.Verification.JobWrites

/-!
# The life of a job

Whoever starts a job stamps it, and nobody takes a stamp away, so in every run a RUNNING job has a
heartbeat and the reaper can tell how old it is. A job that was cancelled before a run took it up
stays as it is: deliveries of it, early or late, find it cancelled and end.

A request is one step, and so is a pass of the reaper: nothing commits between its SELECT and its
UPDATEs. A pass that another commit can split may fail a job that was cancelled after its SELECT.
-/

namespace DolphinVC

open Relational Transaction Transition Tx

section Steps

variable {env : Env} {s : DealState} {now : Timestamp} {w : Write}

theorem Write.calm_of_target (h : w.target ≠ .jobs) : w.Calm := by
  cases w with
  | insertJob row => exact absurd rfl h
  | updateJob id set => exact absurd rfl h
  | _ => trivial

theorem Write.Requested.calm (h : w.Requested now) : w.Calm := by
  cases w with
  | insertJob row => exact h.status
  | updateJob id set => exact h.elim
  | _ => trivial

variable {credentials : Option Credentials} {d : DealDraws}

theorem cancelJob_calm {jobId : Uuid} :
    Emits Write.Calm (cancelJobEndpoint env credentials d jobId) :=
  Emits.bind (reads_require _ _ _ _).emits fun _ => Emits.bind (reads_getJob _ _).emits fun _ =>
    Emits.ite (fun _ => Emits.throw _) fun _ =>
      Emits.bind (Emits.stage (changes_calm (by simp [Job.cancel]))) fun _ => Emits.commit

theorem serve_calm (r : DealRequest) : Emits Write.Calm (r.serve env credentials d) := by
  by_cases cancels : ∃ jobId, r = .cancelJob jobId
  · obtain ⟨jobId, rfl⟩ := cancels
    exact cancelJob_calm
  · exact (serve_requested r fun jobId heq => cancels ⟨jobId, heq⟩).weaken fun _ hw => hw.calm

theorem reapAll_calm {stale : List Job} : Emits Write.Calm (reapAll now stale) := by
  induction stale with
  | nil => exact Emits.pure _
  | cons job stale ih =>
      exact Emits.bind (Emits.stage (changes_calm (by simp [Job.reaped]))) fun _ => ih

theorem reapStaleJobs_calm : Emits Write.Calm (reapStaleJobs now) :=
  Emits.bind (Emits.query _) fun _ => Emits.bind reapAll_calm fun _ =>
    Emits.bind Emits.commit fun _ => Emits.pure _

/-- An event keeps what every write keeps that starts no job, and every start of a stored one. -/
theorem jobs_step {I : Db → Prop} (a : DealEvent)
    (hb : s.Blocks fun db ws => ∃ jobId, JobBlock jobId db ws)
    (calm : ∀ db w db', Write.Calm w → I db → db.apply w = .ok db' → I db')
    (starts : ∀ db j now db', j ∈ db.jobs → I db →
      db.apply (.updateJob j.id (j.changes (j.started now))) = .ok db' → I db')
    (hI : I s.db) : I (dealStep env s a).db := by
  have served {α : Type} {p : DolphinVC.Tx α} (hp : Emits Write.Calm p) :
      I (p.atomically backend s.db).2 :=
    Commits.atomically (I := I) (hp.commits Journal.all_empty) calm hI
  cases a with
  | request credentials d r => exact served (serve_calm r)
  | auth r d => exact served ((auth_writes r).weaken fun _ hw =>
      Write.calm_of_target hw.target_ne.2.2.1)
  | reap now => exact served reapStaleJobs_calm
  | deliver run jobId => exact hI
  | run i faults =>
      obtain heq | ⟨ws, -, ⟨jobId, hblock⟩, happly⟩ := run_cases env hb i faults
      · rw [heq]
        exact hI
      · obtain hstarted | ⟨j, hj, -, -, now, rfl⟩ := hblock
        · exact Backend.applyAll_inv calm (fun w hw => (hstarted w hw).2.1) hI happly
        · obtain ⟨db', hfirst, hnil⟩ := Backend.applyAll_cons_eq_ok.mp happly
          cases hnil
          exact starts s.db j now _ hj hI hfirst

theorem jobBlocks_step (h : s.Blocks fun db ws => ∃ jobId, JobBlock jobId db ws) (a : DealEvent) :
    (dealStep env s a).Blocks fun db ws => ∃ jobId, JobBlock jobId db ws :=
  blocks_step h a fun run jobId db => (processJob_jobBlocks run jobId db).weaken
    (fun _ _ hblock => ⟨jobId, hblock⟩) fun _ _ _ h => h

end Steps

section Heartbeats

variable {db db' : Db} {w : Write}

/-- If the job is running, it has a heartbeat. -/
def Job.Beats (j : Job) : Prop := j.status = .running → ∃ t, j.heartbeatAt = some t

theorem beats_patch {j : Job} {set : JobPatch} (hset : set.status ≠ some .running) (h : j.Beats) :
    (j.patch set).Beats := by
  intro hrunning
  have hstatus : set.status.getD j.status = .running := hrunning
  have hstored : j.status = .running := by
    cases hs : set.status with
    | none => rwa [hs] at hstatus
    | some status =>
        rw [hs, Option.getD_some] at hstatus
        exact absurd (hstatus ▸ hs) hset
  obtain ⟨t, ht⟩ := h hstored
  show ∃ t, (set.heartbeatAt.orElse fun _ => j.heartbeatAt) = some t
  cases set.heartbeatAt with
  | none => exact ⟨t, ht⟩
  | some t => exact ⟨t, rfl⟩

theorem beats_apply (hw : w.Calm) (h : ∀ j ∈ db.jobs, j.Beats) (happly : db.apply w = .ok db') :
    ∀ j ∈ db'.jobs, j.Beats := by
  intro j hj
  obtain ⟨row, rfl, hins⟩ | ⟨id, set, rfl, hupd⟩ | ⟨-, heq⟩ := jobs_apply happly
  · obtain hj | rfl := (Table.mem_insert? hins).mp hj
    · exact h j hj
    · have hqueued : j.status = .queued := hw
      intro hrunning
      rw [hqueued] at hrunning
      cases hrunning
  · rw [hupd] at hj
    obtain ⟨j', hj', rfl⟩ := Table.mem_update.mp hj
    split
    · exact beats_patch hw (h j' hj')
    · exact h j' hj'
  · exact h j (heq ▸ hj)

theorem mem_started {j x : Job} {now : Timestamp} (hj : j ∈ db.jobs)
    (happly : db.apply (.updateJob j.id (j.changes (j.started now))) = .ok db') :
    x ∈ db'.jobs ↔ x = j.started now ∨ x ∈ db.jobs ∧ x.id ≠ j.id := by
  cases happly
  have h : x ∈ db.jobs.update j.id (Job.patch (j.changes (j.started now))) ↔
      x = j.patch (j.changes (j.started now)) ∨ x ∈ db.jobs ∧ x.id ≠ j.id :=
    Table.mem_update_of_mem hj
  rwa [patch_started] at h

theorem beats_started {j : Job} {now : Timestamp} (hj : j ∈ db.jobs) (h : ∀ j ∈ db.jobs, j.Beats)
    (happly : db.apply (.updateJob j.id (j.changes (j.started now))) = .ok db') :
    ∀ j ∈ db'.jobs, j.Beats := by
  intro x hx
  obtain rfl | ⟨hx, -⟩ := (mem_started hj happly).mp hx
  · exact fun _ => ⟨now, rfl⟩
  · exact h x hx

/-- In every run the reaper fails exactly the RUNNING jobs that were silent for more than 90
seconds, leaves the others as they are, and every job that goes on RUNNING has a heartbeat that
is no older. -/
theorem reaper_ends_silent_jobs (env : Env) (db : Db) (events : List DealEvent)
    (start : ∀ j ∈ db.jobs, j.Beats) :
    Meets (dealStep env) (fun s a => ∀ now, a = .reap now →
      (∀ j ∈ s.db.jobs, j.Stale now → j.reaped now ∈ (dealStep env s a).db.jobs) ∧
      (∀ j ∈ s.db.jobs, ¬ j.Stale now → j ∈ (dealStep env s a).db.jobs) ∧
      ∀ j ∈ (dealStep env s a).db.jobs, j.status = .running →
        ∃ t, j.heartbeatAt = some t ∧ now - Timestamp.seconds 90 ≤ t) { db } events := by
  have beats : Along (dealStep env) (fun s =>
      (s.Blocks fun db ws => ∃ jobId, JobBlock jobId db ws) ∧ ∀ j ∈ s.db.jobs, j.Beats)
      { db } events := by
    refine along_of_step ?_ ⟨fun _ ht => absurd ht List.not_mem_nil, start⟩
    rintro s a ⟨hb, hbeats⟩
    exact ⟨jobBlocks_step hb a, jobs_step (I := fun db => ∀ j ∈ db.jobs, j.Beats) a hb
      (fun _ _ _ hw h happly => beats_apply hw h happly)
      (fun _ _ _ _ hj h happly => beats_started hj h happly) hbeats⟩
  refine meets_of_along beats ?_
  rintro s a ⟨-, hbeats⟩ now rfl
  have reaped : Reaped now s.db (dealStep env s (.reap now)).db := reap_outcome now s.db
  refine ⟨fun j hj hstale => (reaped.jobs _).mpr (Or.inl ⟨j, hj, hstale, rfl⟩),
    fun j hj hfresh => (reaped.jobs j).mpr (Or.inr ⟨hj, hfresh⟩), fun j hj hrunning => ?_⟩
  obtain ⟨j', -, -, rfl⟩ | ⟨hj, hfresh⟩ := (reaped.jobs j).mp hj
  · cases hrunning
  · obtain ⟨t, ht⟩ := hbeats j hj hrunning
    refine ⟨t, ht, not_lt.mp fun hlt => hfresh ⟨hrunning, t, ht, hlt⟩⟩

/-- A job that a worker took up at time 0 and never spoke of again. -/
def ebbJob : Job where
  id := 31
  orgId := some 1
  kind := "screen"
  status := .running
  heartbeatAt := some 0
  createdAt := 0

def ebbWaiting : Job where
  id := 32
  orgId := some 1
  kind := "screen"
  createdAt := 0

def ebbDb : Db := { fundDb with jobs := ⟨[ebbJob, ebbWaiting], by decide⟩ }

/-- The other job is taken up after a minute, and the reaper comes half a minute later. -/
def ebbEvents : List DealEvent :=
  [.deliver { jettyRun with now := fun _ => Timestamp.seconds 60 } 32, .run 0 [],
    .reap (Timestamp.seconds 91)]

theorem ebb_job_ends :
    ebbJob.reaped (Timestamp.seconds 91) ∈
      (ebbEvents.foldl (dealStep fundEnv) { db := ebbDb }).db.jobs ∧
    ebbWaiting.started (Timestamp.seconds 60) ∈
      (ebbEvents.foldl (dealStep fundEnv) { db := ebbDb }).db.jobs := by
  have beats : ∀ j ∈ ebbDb.jobs, j.Beats := by
    intro j hj hrunning
    obtain rfl | hj := List.mem_cons.mp hj
    · exact ⟨0, rfl⟩
    · obtain rfl := List.mem_singleton.mp hj
      cases hrunning
  have run := reaper_ends_silent_jobs fundEnv ebbDb ebbEvents beats
  obtain ⟨ends, stays, -⟩ := run.2.2.1 (Timestamp.seconds 91) rfl
  refine ⟨ends ebbJob ?_ ⟨rfl, 0, rfl, by decide⟩, stays _ ?_ ?_⟩
  · decide +kernel
  · decide +kernel
  · rintro ⟨-, t, ht, hlt⟩
    cases ht
    exact absurd hlt (by decide)

end Heartbeats

section Cancelled

variable {env : Env} {s : DealState} {db db' : Db} {w : Write} {job : Job}

/-- The write is no UPDATE of this job. -/
def Write.SparesJob (jobId : Uuid) (w : Write) : Prop := ∀ set, w ≠ .updateJob jobId set

theorem Write.Requested.spares {now : Timestamp} {jobId : Uuid} (h : w.Requested now) :
    w.SparesJob jobId := by
  rintro set rfl
  exact h

theorem mem_of_sparesJob (hw : w.SparesJob job.id) (hjob : job ∈ db.jobs)
    (h : db.apply w = .ok db') : job ∈ db'.jobs := by
  obtain ⟨row, rfl, hins⟩ | ⟨id, set, rfl, hupd⟩ | ⟨-, heq⟩ := jobs_apply h
  · exact (Table.mem_insert? hins).mpr (Or.inl hjob)
  · rw [hupd]
    refine Table.mem_update.mpr ⟨job, hjob, if_neg ?_⟩
    rintro rfl
    exact hw set rfl
  · exact heq ▸ hjob

theorem JobBlock.spares {jobId : Uuid} {ws : List Write} (h : JobBlock jobId db ws)
    (other : jobId ≠ job.id) : ∀ w ∈ ws, w.SparesJob job.id := by
  obtain hstarted | ⟨j, -, rfl, -, now, rfl⟩ := h
  · rintro w hw set rfl
    exact other ((hstarted _ hw).2.2 job.id set rfl).symm
  · rintro w hw set rfl
    exact other (Write.updateJob.inj (List.mem_singleton.mp hw)).1.symm

abbrev JobThread := Thread Db Write Exc Call (Except Exc Unit)

/-- The run never writes the job again, or it is a delivery of it that has not begun. -/
def Resting (job : Job) (t : JobThread) : Prop :=
  t.Blocks backend (fun _ ws => ∀ w ∈ ws, w.SparesJob job.id) ∨
    ∃ run, t = ⟨(processJob run job.id).run, {}⟩

/-- A run that begins while its job is stored as cancelled does nothing. -/
theorem delivery_rests (run : RunEnv) (hjob : job ∈ db.jobs)
    (hcancelled : job.status = .cancelled) :
    (processJob run job.id).run.Blocks backend (fun _ ws => ∀ w ∈ ws, w.SparesJob job.id)
      (fun _ _ _ => True) db {} := by
  refine blocks_query_bind (fun _ => trivial) fun view _ hview => ?_
  obtain rfl : db = view := Except.ok.inj hview
  rw [Table.find?_of_mem hjob]
  dsimp only
  rw [if_pos hcancelled]
  trivial

theorem Resting.blocks {t : JobThread} (h : Resting job t)
    (hjob : job ∈ db.jobs) (hcancelled : job.status = .cancelled) :
    t.prog.Blocks backend (fun _ ws => ∀ w ∈ ws, w.SparesJob job.id) (fun _ _ _ => True) db
      t.session := by
  obtain h | ⟨run, rfl⟩ := h
  · exact h db
  · exact delivery_rests run hjob hcancelled

/-- The job is stored as it is, and every run in progress leaves it so. -/
def Rests (job : Job) (s : DealState) : Prop :=
  job ∈ s.db.jobs ∧ ∀ t ∈ s.runs, Resting job t

theorem rests_step (hcancelled : job.status = .cancelled) (a : DealEvent) (h : Rests job s) :
    Rests job (dealStep env s a) := by
  obtain ⟨hjob, hruns⟩ := h
  have served {α : Type} {p : DolphinVC.Tx α} (hp : Emits (Write.SparesJob job.id) p) :
      job ∈ (p.atomically backend s.db).2.jobs :=
    Commits.atomically (I := fun db => job ∈ db.jobs) (hp.commits Journal.all_empty)
      (fun _ _ _ hw hjob happly => mem_of_sparesJob hw hjob happly) hjob
  cases a with
  | request credentials d r =>
      refine ⟨?_, hruns⟩
      by_cases cancels : ∃ jobId, r = .cancelJob jobId
      · obtain ⟨jobId, rfl⟩ := cancels
        rcases cancel_outcome env s.db credentials d jobId with
          heq | ⟨principal, j, -, hj, -, -, hopen, heq⟩
        · exact (congrArg (job ∈ Db.jobs ·) heq).mpr hjob
        · refine (congrArg (job ∈ Db.jobs ·) heq).mpr ((mem_cancelled hj).mpr (Or.inr ⟨hjob, ?_⟩))
          intro hid
          obtain rfl := Table.eq_of_key hjob hj hid
          exact hopen (by simp [hcancelled])
      · exact served ((serve_requested r fun jobId heq => cancels ⟨jobId, heq⟩).weaken
          fun _ hw => hw.spares)
  | auth r d =>
      refine ⟨served ((auth_writes r).weaken ?_), hruns⟩
      rintro w hw set rfl
      exact hw.target_ne.2.2.1 rfl
  | reap now =>
      refine ⟨((reap_outcome now s.db).jobs job).mpr (Or.inr ⟨hjob, fun hstale => ?_⟩), hruns⟩
      exact absurd (hcancelled.symm.trans hstale.1) (by decide)
  | deliver run jobId =>
      refine ⟨hjob, fun t ht => ?_⟩
      obtain ht | ht := List.mem_append.mp ht
      · exact hruns t ht
      · obtain rfl := List.mem_singleton.mp ht
        by_cases hid : jobId = job.id
        · exact Or.inr ⟨run, by rw [hid]⟩
        · exact Or.inl fun db => (processJob_jobBlocks run jobId db).weaken
            (fun _ _ hblock => hblock.spares hid) fun _ _ _ h => h
  | run i faults =>
      simp only [dealStep]
      split
      · exact ⟨hjob, hruns⟩
      · rename_i t hi
        have hblocks := (hruns t (List.mem_of_getElem? hi)).blocks hjob hcancelled
        refine ⟨?_, fun u hu => ?_⟩
        · obtain hsame | ⟨ws, hw, happly⟩ := Thread.toCommit_cases backend s.db faults t
          · exact (congrArg (job ∈ Db.jobs ·) hsame).mpr hjob
          · exact Backend.applyAll_inv (P := fun db => job ∈ db.jobs)
              (fun _ _ _ hw hjob happly => mem_of_sparesJob hw hjob happly)
              (Thread.due_of_blocks hblocks hw) hjob happly
        · obtain hu | rfl := List.mem_or_eq_of_mem_set hu
          · exact hruns u hu
          · exact Or.inl (Thread.blocks_toCommit hblocks)

/-- The job that an event brings to a worker. -/
def DealEvent.delivers : DealEvent → Option Uuid
  | .deliver _ jobId => some jobId
  | _ => none

def delivered (events : List DealEvent) : List Uuid := events.filterMap DealEvent.delivers

/-- The runs in progress are those of these jobs, in this order, and this is true of each. -/
def EachRun (P : Uuid → Db → JobThread → Prop) (jobIds : List Uuid) (s : DealState) : Prop :=
  s.runs.length = jobIds.length ∧ ∀ (i : Nat) (t : JobThread) (jobId : Uuid),
    s.runs[i]? = some t → jobIds[i]? = some jobId → P jobId s.db t

section Tracking

variable {P : Uuid → Db → JobThread → Prop} {jobIds : List Uuid}

/-- What others write leaves the runs as they are. -/
theorem EachRun.reaches {s' : DealState} (h : EachRun P jobIds s) (hruns : s'.runs = s.runs)
    (stays : ∀ jobId t, P jobId s.db t → P jobId s'.db t) : EachRun P jobIds s' := by
  obtain ⟨hlength, hall⟩ := h
  refine ⟨hruns ▸ hlength, fun i t jobId ht hid => stays jobId t (hall i t jobId ?_ hid)⟩
  exact hruns ▸ ht

theorem EachRun.deliver (run : RunEnv) (jobId : Uuid) (h : EachRun P jobIds s)
    (begins : P jobId s.db ⟨(processJob run jobId).run, {}⟩) :
    EachRun P (jobIds ++ [jobId]) (dealStep env s (.deliver run jobId)) := by
  obtain ⟨hlength, hruns⟩ := h
  refine ⟨by simp [dealStep, hlength], fun i t id ht hid => ?_⟩
  have ht : (s.runs ++ [⟨(processJob run jobId).run, {}⟩])[i]? = some t := ht
  by_cases hi : i < s.runs.length
  · rw [List.getElem?_append_left hi] at ht
    rw [List.getElem?_append_left (hlength ▸ hi)] at hid
    exact hruns i t id ht hid
  · have hi : s.runs.length ≤ i := Nat.le_of_not_lt hi
    rw [List.getElem?_append_right hi] at ht
    rw [List.getElem?_append_right (hlength ▸ hi), ← hlength] at hid
    cases hn : i - s.runs.length with
    | zero =>
        rw [hn] at ht hid
        cases ht
        cases hid
        exact begins
    | succ n =>
        rw [hn] at ht
        cases ht

/-- One run goes on to its next commit, which the others see. -/
theorem EachRun.run (i : Nat) (faults : List (Option Exc)) (h : EachRun P jobIds s)
    (stays : ∀ jobId t db', backend.Reaches s.db db' → P jobId s.db t → P jobId db' t)
    (goesOn : ∀ jobId t, P jobId s.db t →
      P jobId (t.toCommit backend s.db faults).1 (t.toCommit backend s.db faults).2) :
    EachRun P jobIds (dealStep env s (.run i faults)) := by
  obtain ⟨hlength, hruns⟩ := h
  simp only [dealStep]
  split
  · exact ⟨hlength, hruns⟩
  · rename_i t hi
    refine ⟨by simp [hlength], fun k u id hu hid => ?_⟩
    have hu : (s.runs.set i (t.toCommit backend s.db faults).2)[k]? = some u := hu
    by_cases hk : i = k
    · subst hk
      rw [List.getElem?_set_self (List.getElem?_eq_some_iff.mp hi).1] at hu
      cases hu
      exact goesOn id t (hruns i t id hi hid)
    · rw [List.getElem?_set_ne hk] at hu
      exact stays id u _ (t.reaches_toCommit backend s.db faults) (hruns k u id hu hid)

end Tracking

/-- The runs in progress are those of these jobs, in this order. -/
def RunsOf (jobIds : List Uuid) (s : DealState) : Prop :=
  s.runs.length = jobIds.length ∧ ∀ (i : Nat) (t : JobThread) (jobId : Uuid),
    s.runs[i]? = some t → jobIds[i]? = some jobId → t.Blocks backend (JobBlock jobId)

theorem runsOf_iff {jobIds : List Uuid} :
    RunsOf jobIds s ↔ EachRun (fun jobId _ t => t.Blocks backend (JobBlock jobId)) jobIds s :=
  Iff.rfl

/-- A run of this job that has ended or not begun. -/
def AtRest (jobId : Uuid) (t : JobThread) : Prop :=
  (∃ r, t.prog = .done r) ∨ ∃ run, t = ⟨(processJob run jobId).run, {}⟩

theorem runsOf_step {jobIds : List Uuid} (a : DealEvent) (h : RunsOf jobIds s) :
    RunsOf (jobIds ++ (DealEvent.delivers a).toList) (dealStep env s a) := by
  cases a with
  | deliver run jobId =>
      exact runsOf_iff.mpr ((runsOf_iff.mp h).deliver run jobId (processJob_jobBlocks run jobId))
  | run i faults =>
      exact (List.append_nil jobIds).symm ▸ runsOf_iff.mpr ((runsOf_iff.mp h).run i faults
        (fun _ _ _ _ hblocks => hblocks) fun _ _ hblocks => hblocks.toCommit)
  | request credentials d r => exact (List.append_nil jobIds).symm ▸ h
  | auth r d => exact (List.append_nil jobIds).symm ▸ h
  | reap now => exact (List.append_nil jobIds).symm ▸ h

theorem runsOf_foldl {jobIds : List Uuid} (events : List DealEvent) (h : RunsOf jobIds s) :
    RunsOf (jobIds ++ delivered events) (events.foldl (dealStep env) s) := by
  induction events generalizing s jobIds with
  | nil => simpa [delivered] using h
  | cons a events ih =>
      have hstep : RunsOf (jobIds ++ (DealEvent.delivers a).toList) (dealStep env s a) :=
        runsOf_step a h
      have hrest := ih hstep
      rw [List.append_assoc] at hrest
      have hdelivered :
          delivered (a :: events) = (DealEvent.delivers a).toList ++ delivered events := by
        cases h : a.delivers with
        | none => simp [delivered, h]
        | some id => simp [delivered, h]
      rw [hdelivered]
      exact hrest

/-- When a job is stored as cancelled and each of the runs that it was delivered to has ended or
not begun, it stays as it is whatever happens, deliveries of it included. -/
theorem cancelled_job_rests (env : Env) (db : Db) (past later : List DealEvent) (job : Job)
    (stored : job ∈ (past.foldl (dealStep env) { db }).db.jobs)
    (hcancelled : job.status = .cancelled)
    (idle : ∀ (i : Nat) (t : JobThread), (past.foldl (dealStep env) { db }).runs[i]? = some t →
      (delivered past)[i]? = some job.id → AtRest job.id t) :
    Along (dealStep env) (fun s => job ∈ s.db.jobs) (past.foldl (dealStep env) { db }) later := by
  have none : RunsOf [] { db } := ⟨rfl, fun i t jobId ht => by simp at ht⟩
  have runs : RunsOf (delivered past) (past.foldl (dealStep env) { db }) := runsOf_foldl past none
  have start : Rests job (past.foldl (dealStep env) { db }) := by
    refine ⟨stored, fun t ht => ?_⟩
    obtain ⟨i, hi, hti⟩ := List.getElem_of_mem ht
    have ht : (past.foldl (dealStep env) { db }).runs[i]? = some t := by
      rw [List.getElem?_eq_getElem hi, hti]
    have hlt : i < (delivered past).length := runs.1 ▸ hi
    by_cases hid : (delivered past)[i] = job.id
    · have hid : (delivered past)[i]? = some job.id := by rw [List.getElem?_eq_getElem hlt, hid]
      refine (idle i t ht hid).imp_left ?_
      rintro ⟨r, hdone⟩ db
      rw [hdone]
      trivial
    · exact Or.inl fun db => (runs.2 i t _ ht (List.getElem?_eq_getElem hlt) db).weaken
        (fun _ _ hblock => hblock.spares hid) fun _ _ _ h => h
  exact (along_of_step (fun _ a h => rests_step hcancelled a h) start).mono fun _ h => h.1

def neapJob : Job where
  id := 30
  orgId := some 1
  kind := "screen"
  createdAt := 0

def neapDb : Db := { fundDb with jobs := ⟨[neapJob], by decide⟩ }

/-- The job is delivered, and cancelled before the worker has looked at it. -/
def neapCancelled : List DealEvent := [.deliver jettyRun 30, danAt 5 (.cancelJob 30)]

theorem neap_job_rests : neapJob.cancel (Timestamp.seconds 5) ∈
      (neapCancelled.foldl (dealStep fundEnv) { db := neapDb }).db.jobs ∧
    Along (dealStep fundEnv) (fun s => neapJob.cancel (Timestamp.seconds 5) ∈ s.db.jobs)
      (neapCancelled.foldl (dealStep fundEnv) { db := neapDb })
      [.run 0 [], .deliver jettyRun 30, .run 1 []] := by
  have stored : neapJob.cancel (Timestamp.seconds 5) ∈
      (neapCancelled.foldl (dealStep fundEnv) { db := neapDb }).db.jobs := by decide
  refine ⟨stored, cancelled_job_rests fundEnv neapDb neapCancelled _ _ stored rfl ?_⟩
  intro i t ht _
  obtain rfl := List.mem_singleton.mp (List.mem_of_getElem? ht)
  exact Or.inr ⟨jettyRun, rfl⟩

end Cancelled

end DolphinVC
