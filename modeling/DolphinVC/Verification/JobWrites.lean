import DolphinVC.Verification.RequestWrites

/-!
# What happens to the rows of jobs

Three parties write them. A request cancels one that has not ended, the reaper fails those whose
worker is silent, and a job run starts its own job, notes its steps and ends it. The first two are
served alone, so what they do is said as the table they leave. A run is interrupted at its commits:
what it knows of the row, it knows in its first block only, and of the later ones it is said what
they may send.
-/

namespace DolphinVC

open Relational Transaction Tx

section Patches

variable {j : Job} {now : Timestamp}

theorem patch_cancel (j : Job) (now : Timestamp) :
    j.patch (j.changes (j.cancel now)) = j.cancel now := by
  simp only [Job.patch, Job.changes, Job.cancel, changed_getD, changed_orElse, Option.isSome_some,
    or_true, true_or]

theorem patch_reaped (j : Job) (now : Timestamp) :
    j.patch (j.changes (j.reaped now)) = j.reaped now := by
  simp only [Job.patch, Job.changes, Job.reaped, changed_getD, changed_orElse, Option.isSome_some,
    or_true, true_or]

theorem patch_started (j : Job) (now : Timestamp) :
    j.patch (j.changes (j.started now)) = j.started now := by
  simp only [Job.patch, Job.changes, Job.started, changed_getD, changed_orElse, Option.isSome_some,
    or_true, true_or]

end Patches

section Cancel

variable {env : Env} {credentials : Option Credentials} {d : DealDraws} {db : Db} {jobId : Uuid}

theorem of_getJob {orgId : Uuid} {job : Job}
    (h : ((getJob orgId jobId).run.exec backend [] db {}).result = .ok job) :
    job ∈ db.jobs ∧ job.id = jobId ∧ job.orgId = some orgId := by
  have hwp : Tx.WP backend (fun r _ _ => ∀ job, r = .ok job →
      job ∈ db.jobs ∧ job.id = jobId ∧ job.orgId = some orgId) (getJob orgId jobId) db {} := by
    refine Tx.wp_bind.mpr ?_
    rw [Tx.wp_query, Session.query_unflushed]
    simp only [Except.map]
    cases hf : db.jobs.rows.find? fun j => j.id = jobId ∧ j.orgId = some orgId with
    | none => exact fun _ h => nomatch h
    | some found =>
        intro job hjob
        cases hjob
        exact ⟨List.mem_of_find?_eq_some hf, by simpa using List.find?_some hf⟩
  exact hwp job h

/-- The job is cancelled, in place. -/
def cancelled (now : Timestamp) (job : Job) (db : Db) : Db :=
  { db with jobs := db.jobs.update job.id (Job.patch (job.changes (job.cancel now))) }

/-- A cancellation changes nothing or cancels one job of the principal's fund that has not
ended. -/
def CancelOutcome (env : Env) (db : Db) (credentials : Option Credentials) (now : Timestamp)
    (jobId : Uuid) (db' : Db) : Prop :=
  db' = db ∨ ∃ principal job, Admits env db .screen credentials now principal ∧
    job ∈ db.jobs ∧ job.id = jobId ∧ job.orgId = some principal.orgId ∧
    job.status ∉ [JobStatus.succeeded, .failed, .cancelled] ∧ db' = cancelled now job db

theorem cancel_outcome (env : Env) (db : Db) (credentials : Option Credentials) (d : DealDraws)
    (jobId : Uuid) :
    CancelOutcome env db credentials d.now jobId
      ((cancelJobEndpoint env credentials d jobId).atomically backend db).2 := by
  refine (Tx.atomically_iff (P := fun _ db' =>
    CancelOutcome env db credentials d.now jobId db')).mpr ?_
  refine Tx.Reads.wp_bind (reads_require _ _ _ _) (fun _ => Or.inl rfl)
    fun principal hprincipal => ?_
  refine Tx.Reads.wp_bind (reads_getJob _ _) (fun _ => Or.inl rfl) fun job hget => ?_
  obtain ⟨hjob, hid, horg⟩ := of_getJob hget
  rw [Tx.wp_ite]
  split
  · exact Or.inl rfl
  · rename_i hstatus
    refine Tx.wp_bind.mpr (Tx.wp_stage.mpr ((Tx.wp_commit_live rfl).mpr ?_))
    exact Or.inr ⟨principal, job, hprincipal, hjob, hid, horg, hstatus, rfl⟩

theorem mem_cancelled {job x : Job} {now : Timestamp} (hjob : job ∈ db.jobs) :
    x ∈ (cancelled now job db).jobs ↔ x = job.cancel now ∨ x ∈ db.jobs ∧ x.id ≠ job.id := by
  have h : x ∈ db.jobs.update job.id (Job.patch (job.changes (job.cancel now))) ↔
      x = job.patch (job.changes (job.cancel now)) ∨ x ∈ db.jobs ∧ x.id ≠ job.id :=
    Table.mem_update_of_mem hjob
  rwa [patch_cancel] at h

end Cancel

section Reap

variable {db db' : Db} {now : Timestamp}

/-- A RUNNING job whose last heartbeat is more than 90 seconds old. -/
def Job.Stale (now : Timestamp) (j : Job) : Prop :=
  j.status = .running ∧ ∃ t, j.heartbeatAt = some t ∧ t < now - Timestamp.seconds 90

theorem mem_staleJobs {j : Job} : j ∈ staleJobs now db ↔ j ∈ db.jobs ∧ j.Stale now := by
  simp [staleJobs, Job.Stale, Option.any_eq_true]

/-- The UPDATEs of a reap, one after the other. -/
theorem mem_reapedJobs {stale : List Job} (hstale : ∀ j ∈ stale, j ∈ db.jobs)
    (distinct : (stale.map Job.id).Nodup)
    (h : backend.applyAll db (stale.map fun j => .updateJob j.id (j.changes (j.reaped now))) =
      .ok db') (x : Job) :
    x ∈ db'.jobs ↔ (∃ j ∈ stale, x = j.reaped now) ∨ x ∈ db.jobs ∧ x.id ∉ stale.map Job.id := by
  induction stale generalizing db with
  | nil =>
      cases h
      simp
  | cons first rest ih =>
      obtain ⟨mid, hfirst, hrest⟩ := Backend.applyAll_cons_eq_ok.mp h
      cases hfirst
      obtain ⟨hfresh, hrestDistinct⟩ := List.nodup_cons.mp distinct
      have hfirstMem : first ∈ db.jobs := hstale first List.mem_cons_self
      have hmid (x : Job) : x ∈ db.jobs.update first.id
          (Job.patch (first.changes (first.reaped now))) ↔
            x = first.reaped now ∨ x ∈ db.jobs ∧ x.id ≠ first.id := by
        have h : x ∈ db.jobs.update first.id (Job.patch (first.changes (first.reaped now))) ↔
            x = first.patch (first.changes (first.reaped now)) ∨ x ∈ db.jobs ∧ x.id ≠ first.id :=
          Table.mem_update_of_mem hfirstMem
        rwa [patch_reaped] at h
      have hrestMem : ∀ j ∈ rest, j ∈ db.jobs.update first.id
          (Job.patch (first.changes (first.reaped now))) := by
        intro j hj
        refine (hmid j).mpr (Or.inr ⟨hstale j (List.mem_cons_of_mem _ hj), fun hid => hfresh ?_⟩)
        exact hid ▸ List.mem_map_of_mem hj
      refine (ih hrestMem hrestDistinct hrest).trans ?_
      rw [hmid, List.exists_mem_cons_iff, List.map_cons, List.mem_cons, not_or]
      constructor
      · rintro (hreaped | ⟨rfl | ⟨hx, hne⟩, hout⟩)
        · exact Or.inl (Or.inr hreaped)
        · exact Or.inl (Or.inl rfl)
        · exact Or.inr ⟨hx, hne, hout⟩
      · rintro ((rfl | hreaped) | ⟨hx, hne, hout⟩)
        · exact Or.inr ⟨Or.inl rfl, hfresh⟩
        · exact Or.inl hreaped
        · exact Or.inr ⟨Or.inr ⟨hx, hne⟩, hout⟩

/-- What a reap sends for these jobs. -/
def reapWrites (now : Timestamp) (stale : List Job) : List Write :=
  stale.map fun j => .updateJob j.id (j.changes (j.reaped now))

theorem applyAll_reapWrites (now : Timestamp) (stale : List Job) (db : Db) :
    ∃ t, backend.applyAll db (reapWrites now stale) = .ok { db with jobs := t } := by
  induction stale generalizing db with
  | nil => exact ⟨db.jobs, rfl⟩
  | cons first rest ih =>
      obtain ⟨t, ht⟩ := ih
        { db with jobs := db.jobs.update first.id (Job.patch (first.changes (first.reaped now))) }
      exact ⟨t, Backend.applyAll_cons_eq_ok.mpr ⟨_, rfl, ht⟩⟩

theorem wp_reapAll {Q : Except Exc Unit → Db → Session Write → Prop} {stale : List Job}
    {s : Session Write} (h : ∀ s' : Session Write, s'.failed = s.failed →
      s'.pending = s.pending ++ reapWrites now stale → Q (.ok ()) db s') :
    Tx.WP backend Q (reapAll now stale) db s := by
  induction stale generalizing s with
  | nil => exact h s rfl (by simp [reapWrites])
  | cons first rest ih =>
      refine Tx.wp_bind.mpr (Tx.wp_stage.mpr (ih fun s' hfailed hpending => h s' hfailed ?_))
      rw [hpending, Session.pending_stage, List.append_assoc]
      rfl

/-- After a reap at this time. -/
structure Reaped (now : Timestamp) (db db' : Db) : Prop where
  jobs : ∀ x, x ∈ db'.jobs ↔
    (∃ j ∈ db.jobs, j.Stale now ∧ x = j.reaped now) ∨ x ∈ db.jobs ∧ ¬ x.Stale now
  frame : db' = { db with jobs := db'.jobs }

theorem reap_outcome (now : Timestamp) (db : Db) :
    Reaped now db ((reapStaleJobs now).atomically backend db).2 := by
  refine (Tx.atomically_iff (P := fun _ db' => Reaped now db db')).mpr ?_
  refine Tx.wp_bind.mpr ?_
  rw [Tx.wp_query, Session.query_unflushed]
  simp only [Except.map]
  refine Tx.wp_bind.mpr (wp_reapAll fun s' hfailed hpending => ?_)
  refine Tx.wp_bind.mpr ((Tx.wp_commit_live hfailed).mpr ?_)
  obtain ⟨t, ht⟩ := applyAll_reapWrites now (staleJobs now db) db
  rw [hpending, show Session.pending ({} : Session Write) = [] from rfl, List.nil_append, ht]
  refine ⟨fun x => ?_, rfl⟩
  have hstale : ∀ j ∈ staleJobs now db, j ∈ db.jobs := fun j hj => (mem_staleJobs.mp hj).1
  have distinct : ((staleJobs now db).map Job.id).Nodup :=
    (List.filter_sublist.map Job.id).nodup db.jobs.nodup
  refine (mem_reapedJobs hstale distinct ht x).trans (or_congr ?_ ?_)
  · simp only [mem_staleJobs, and_assoc]
  · refine and_congr_right fun hx => not_congr ?_
    simp only [List.mem_map, mem_staleJobs]
    constructor
    · rintro ⟨j, ⟨hj, hjs⟩, hid⟩
      exact Table.eq_of_key hj hx hid ▸ hjs
    · exact fun hxs => ⟨x, ⟨hx, hxs⟩, rfl⟩

end Reap

section Runs

variable {run : RunEnv} {job : Job} {o : Opportunity} {source : Source} {item : NormalizedSignal}

/-- The write starts no job. -/
def Write.Calm : Write → Prop
  | .insertJob row => row.status = .queued
  | .updateJob _ set => set.status ≠ some .running
  | _ => True

theorem Write.Elsewhere.calm {w : Write} (h : w.Elsewhere) : w.Calm := by
  cases w with
  | insertJob row => cases h
  | updateJob id set => cases h
  | _ => trivial

theorem calm_of_elsewhere {α : Type} {p : DolphinVC.Tx α} (h : Emits Write.Elsewhere p) :
    Emits Write.Calm p := h.weaken fun _ hw => hw.calm

/-- A part of the harvest that would do the same for any other job does not write its own. -/
theorem calm_of_harvests {α : Type} {p : DolphinVC.Tx α}
    (h : ∀ job : Job, Emits (Write.OfHarvest job) p) : Emits Write.Calm p := by
  have numbered (n : Uuid) :
      Emits (Write.OfHarvest { id := n, orgId := none, kind := "", createdAt := 0 }) p := h _
  refine (Emits.forall numbered).weaken fun w hw => ?_
  cases w with
  | insertJob row => exact (hw 0).2.1
  | updateJob id set => exact absurd ((hw 0).1.symm.trans (hw 1).1) Nat.zero_ne_one
  | _ => trivial

/-- The same for the parts of an analysis. -/
theorem calm_of_analyses {α : Type} {p : DolphinVC.Tx α} (job : Job) (o : Opportunity)
    (h : ∀ n, Emits (Write.Analyses { job with id := n } o) p) : Emits Write.Calm p := by
  refine (Emits.forall h).weaken fun w hw => ?_
  cases w with
  | insertJob row => cases (hw 0).1
  | updateJob id set => exact absurd ((hw 0).1.1.symm.trans (hw 1).1.1) Nat.zero_ne_one
  | _ => trivial

theorem changes_calm {id : Uuid} {assigned : Job} (h : assigned.status ≠ .running) :
    (Write.updateJob id (job.changes assigned)).Calm := by
  intro hset
  exact h (changed_eq_some.mp hset).2

theorem ingestItem_calm {channel : SourcingChannel} {seq index : Nat} :
    Emits Write.Calm (ingestItem run job source channel seq index item) :=
  Emits.bind (Emits.call _) fun _ => Emits.bind (Emits.stage trivial) fun _ =>
    Emits.bind Emits.flush fun _ =>
      Emits.bind (calm_of_harvests fun _ => resolveOutboundSignal_emits) fun _ =>
        Emits.bind (Emits.stage (by rfl)) fun _ => Emits.bind Emits.flush fun _ =>
          Emits.bind (Emits.stage trivial) fun _ => Emits.pure _

theorem harvestItem_calm {channel : SourcingChannel} {seq index : Nat} :
    Emits Write.Calm (harvestItem run job source channel seq index item) :=
  Emits.bind (Emits.query _) fun _ => Emits.ite (fun _ => Emits.pure _) fun _ =>
    Emits.bind ingestItem_calm fun _ => Emits.pure _

theorem harvestItems_calm {seq : Nat} {items : List NormalizedSignal} {index : Nat}
    {channel : SourcingChannel} {children : List Uuid} :
    Emits Write.Calm (harvestItems run job source seq items index channel children) := by
  induction items generalizing index channel children with
  | nil => exact Emits.pure _
  | cons item items ih =>
      refine Emits.bind (Emits.attempt harvestItem_calm) fun r => ?_
      cases r with
      | error e => exact Emits.pure _
      | ok child? =>
          cases child? with
          | none => exact ih
          | some child => exact ih

theorem ingestSource_calm {key : String} {seq : Nat} {source? : Option Source} :
    Emits Write.Calm (ingestSource run job key seq source?) := by
  refine Emits.bind (Emits.attempt (calm_of_elsewhere (emits_of_candidate ensureSource_stages)))
    fun ensured => ?_
  cases ensured with
  | error e => exact Emits.pure _
  | ok u =>
      refine Emits.bind harvestItems_calm ?_
      rintro ⟨children, ingested⟩
      cases ingested with
      | error e => exact Emits.pure _
      | ok u =>
          exact Emits.bind (Emits.attempt (Emits.bind (Emits.stage trivial) fun _ =>
            Emits.commit)) fun _ => Emits.pure _

theorem harvestEnabled_calm {key : String} {seq : Nat} {source? : Option Source} :
    Emits Write.Calm (harvestEnabled run job key seq source?) := by
  refine Emits.bind (Emits.attempt (Emits.call _)) fun answered => ?_
  cases answered with
  | error e => exact Emits.bind (calm_of_elsewhere degradeSource_emits) fun _ => Emits.pure _
  | ok u =>
      refine Emits.bind ingestSource_calm ?_
      rintro ⟨children, ingested⟩
      cases ingested with
      | error e => exact Emits.bind (calm_of_elsewhere degradeSource_emits) fun _ => Emits.pure _
      | ok u => exact Emits.pure _

theorem harvestSources_calm {total : Nat} {keys : List String} {seq : Nat} {h : Harvest} :
    Emits Write.Calm (harvestSources run job total keys seq h) := by
  induction keys generalizing seq h with
  | nil => exact Emits.pure _
  | cons key keys ih =>
      refine Emits.bind ?_ fun _ => ih
      exact Emits.bind (Emits.query _) fun _ => Emits.ite
        (fun _ => Emits.bind (Emits.call _) fun _ => Emits.pure _)
        fun _ => Emits.bind (Emits.finally' harvestEnabled_calm (Emits.call _)) fun _ =>
          Emits.bind (Emits.stage trivial) fun _ => Emits.bind Emits.commit fun _ => Emits.pure _

theorem processHarvest_calm : Emits Write.Calm (processHarvest run job) :=
  Emits.bind (Emits.call _) fun _ => Emits.bind harvestSources_calm fun h =>
    Emits.bind (Emits.stage (changes_calm (by unfold Job.harvestDone; split <;> simp)))
      fun _ => Emits.bind Emits.commit fun _ => Emits.pure _

theorem recordStep_calm {seq : Nat} {action message : String} {progress : Rat} :
    Emits Write.Calm (recordStep run job seq action progress message) := by
  refine Emits.bind (Emits.stage trivial) fun _ => Emits.bind (Emits.stage ?_) fun _ =>
    Emits.bind Emits.commit fun _ => Emits.pure _
  -- the status stays as it is and is not sent
  simp [Write.Calm, Job.changes, Job.stepped]

theorem finishAnalysis_calm {result : JobResult} :
    Emits Write.Calm (finishAnalysis run job result) :=
  Emits.bind (Emits.stage (changes_calm (by simp [Job.analysisDone]))) fun _ =>
    Emits.bind (Emits.stage trivial) fun _ => Emits.commit

theorem assignStatus_calm {a : Application} {status : ApplicationStatus} :
    Emits Write.Calm (assignStatus a status) :=
  Emits.ite (fun _ => Emits.pure _) fun _ => Emits.stage trivial

theorem writeMemo_calm {application? : Option Application} {recommendation : Recommendation}
    {sections : List MemoSection} :
    Emits Write.Calm (writeMemo run o application? recommendation sections) := by
  refine Emits.bind (Emits.call _) fun _ => Emits.bind (Emits.query _) fun latest =>
    Emits.bind (Emits.stage trivial) fun _ => Emits.bind (Emits.stage trivial) fun _ => ?_
  cases application? with
  | none => exact Emits.commit
  | some a => exact Emits.bind assignStatus_calm fun _ => Emits.commit

theorem analyse_calm {company : Company} {application? : Option Application} :
    Emits Write.Calm (analyse run job o company application?) :=
  Emits.bind recordStep_calm fun _ =>
    Emits.bind (calm_of_analyses job o fun _ => ensurePrescreen_emits) fun _ =>
      Emits.bind (calm_of_analyses job o fun _ => gatherClaims_emits) fun _ =>
        Emits.bind recordStep_calm fun _ =>
          Emits.bind (calm_of_analyses job o fun _ => scoreAxes_emits) fun _ =>
            Emits.bind Emits.commit fun _ => Emits.bind recordStep_calm fun _ =>
              Emits.bind (calm_of_analyses job o fun _ => thesisFit_emits) fun _ =>
                Emits.bind (Emits.stage trivial) fun _ => Emits.bind (Emits.call _) fun _ =>
                  Emits.bind recordStep_calm fun _ => Emits.bind writeMemo_calm fun _ =>
                    Emits.bind recordStep_calm fun _ => finishAnalysis_calm

theorem beginApplication_calm : Emits Write.Calm (beginApplication job) := by
  unfold beginApplication
  cases job.input.applicationId with
  | none => exact Emits.pure _
  | some id =>
      refine Emits.bind (Emits.query _) fun application? => ?_
      cases application? with
      | none => exact Emits.pure _
      | some a => exact Emits.bind assignStatus_calm fun _ => Emits.pure _

theorem processAnalysis_calm : Emits Write.Calm (processAnalysis run job) :=
  Emits.bind loadTarget_returns.emits fun _ => Emits.bind (Emits.stage trivial) fun _ =>
    Emits.bind beginApplication_calm fun _ => Emits.bind Emits.commit fun _ => analyse_calm

/-- Once the job is started, its run starts no job any more. -/
theorem runBody_calm : Emits Write.Calm (runBody run job) :=
  Emits.ite (fun _ => Emits.bind processHarvest_calm fun _ => dispatchChildren_emits) fun _ =>
    processAnalysis_calm

/-- After its start a run writes its own job only, and ends it or leaves its status. -/
def Write.OfStarted (jobId : Uuid) (w : Write) : Prop :=
  w.OfRun ∧ w.Calm ∧ ∀ id set, w = .updateJob id set → id = jobId

theorem runBody_started (running : job.status = .running) :
    Emits (Write.OfStarted job.id) (runBody run job) := by
  have own : Emits (fun w => ∀ id set, w = .updateJob id set → id = job.id) (runBody run job) := by
    refine Emits.ite (fun _ => ?_) fun _ => ?_
    · refine Emits.bind ((processHarvest_emits running).weaken ?_) fun _ => dispatchChildren_emits
      rintro w hw id set rfl
      exact hw.1
    · refine (processAnalysis_emits running).weaken ?_
      rintro w hw id set rfl
      exact hw.1
  exact ((runBody_emits running).and (runBody_calm.and own)).weaken fun _ hw => hw

theorem failJob_started (running : job.status = .running) (e : Exc) :
    Emits (Write.OfStarted job.id) (failJob run job e) :=
  Emits.bind (Emits.stage ⟨worker_of_running running (by simp [Job.failed]),
    changes_calm (by simp [Job.failed]), by rintro id set ⟨⟩; rfl⟩) fun _ => Emits.commit

/-- A block of the run of this job: it starts the job as it is stored, unless that is cancelled,
or the run has started. -/
def JobBlock (jobId : Uuid) (db : Db) (ws : List Write) : Prop :=
  (∀ w ∈ ws, w.OfStarted jobId) ∨
  ∃ j ∈ db.jobs, j.id = jobId ∧ j.status ≠ .cancelled ∧
    ∃ now, ws = [.updateJob j.id (j.changes (j.started now))]

theorem startJob_jobBlocks {db : Db} (hjob : job ∈ db.jobs) (hstatus : job.status ≠ .cancelled) :
    (startJob run job).run.Blocks backend (JobBlock job.id) (fun _ _ _ => True) db {} := by
  have inv : SessionInvariant backend (JobBlock job.id) (Write.OfStarted job.id) _ :=
    SessionInvariant.ofWrites fun _ _ h => Or.inl h
  have body : Emits (Write.OfStarted (job.started (run.now .start)).id)
      (tryCatch (runBody run (job.started (run.now .start)))
        (failJob run (job.started (run.now .start)))) :=
    Emits.tryCatch (runBody_started rfl) (failJob_started rfl)
  have first : JobBlock job.id db
      [.updateJob job.id (job.changes (job.started (run.now .start)))] :=
    Or.inr ⟨job, hjob, rfl, hstatus, run.now .start, rfl⟩
  have rest (db' : Db) (committed : List (List Write)) :
      (tryCatch (runBody run (job.started (run.now .start)))
        (failJob run (job.started (run.now .start))) : DolphinVC.Tx Unit).run.Blocks backend
          (JobBlock job.id) (fun _ _ _ => True) db' { committed } :=
    (Emits.keeps inv body db' _ (inv.clean db' committed)).mono fun _ _ _ _ => trivial
  exact blocks_stage_commit first (fun _ _ _ => trivial) fun db' => rest db' _

theorem processJob_jobBlocks (run : RunEnv) (jobId : Uuid) (db : Db) :
    (processJob run jobId).run.Blocks backend (JobBlock jobId) (fun _ _ _ => True) db {} := by
  refine blocks_query_bind (fun _ => trivial) fun view _ hview => ?_
  obtain rfl : db = view := Except.ok.inj hview
  cases hfind : db.jobs.find? jobId with
  | none => trivial
  | some job =>
      dsimp only
      split
      · trivial
      · rename_i hstatus
        obtain rfl := Table.key_of_find? hfind
        exact startJob_jobBlocks (Table.mem_of_find? hfind) hstatus

end Runs

end DolphinVC
