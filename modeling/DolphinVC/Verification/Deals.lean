import DolphinVC.Routers.Auth
import DolphinVC.Routers.Deals
import DolphinVC.Transaction.Segment
import DolphinVC.Verification.PipelineWrites

/-!
# Requests and job runs

The system the statements about opportunities speak about. Requests are served alone, and a
pass of the reaper is one step too. Job runs interleave with requests and with each other at
their commits: an event runs one of them from one commit to its next. Whatever a run takes
from its environment comes with its delivery, and an event lists the faults that the
statements of its block meet.

The second half says what each request can do to the table of opportunities.
-/

namespace DolphinVC

open Transaction Relational

structure DealState where
  db : Db
  runs : List (Thread Db Write Exc Call (Except Exc Unit)) := []

inductive DealEvent where
  | request (credentials : Option Credentials) (d : DealDraws) (r : DealRequest)
  | auth (r : AuthRequest) (d : Draws)
  | reap (now : Timestamp)
  | deliver (run : RunEnv) (jobId : Uuid)
  | run (i : Nat) (faults : List (Option Exc))

def dealStep (env : Env) (s : DealState) : DealEvent → DealState
  | .request credentials d r =>
      { s with db := ((r.serve env credentials d).atomically backend s.db).2 }
  | .auth r d => { s with db := ((r.serve env d).atomically backend s.db).2 }
  | .reap now => { s with db := ((reapStaleJobs now).atomically backend s.db).2 }
  | .deliver run jobId => { s with runs := s.runs ++ [⟨(processJob run jobId).run, {}⟩] }
  | .run i faults => match s.runs[i]? with
      | none => s
      | some t =>
          { db := (t.toCommit backend s.db faults).1
            runs := s.runs.set i (t.toCommit backend s.db faults).2 }

/-- The write set that an event is about to commit for a job run. -/
def DealState.due (s : DealState) : DealEvent → Option (List Write)
  | .run i faults => s.runs[i]?.bind fun t => t.due backend s.db faults
  | _ => none

section Runs

variable {env : Env} {s : DealState} {C : Db → List Write → Prop}

/-- Every block that is left of the job runs in progress is as `C` says. -/
def DealState.Blocks (C : Db → List Write → Prop) (s : DealState) : Prop :=
  ∀ t ∈ s.runs, t.Blocks backend C

theorem blocks_step_of (h : s.Blocks C) (a : DealEvent)
    (delivered : ∀ run jobId, a = .deliver run jobId → ∀ db,
      (processJob run jobId).run.Blocks backend C (fun _ _ _ => True) db {}) :
    (dealStep env s a).Blocks C := by
  cases a with
  | deliver run jobId =>
      intro t ht
      obtain ht | ht := List.mem_append.mp ht
      · exact h t ht
      · obtain rfl := List.mem_singleton.mp ht
        exact delivered run jobId rfl
  | run i faults =>
      simp only [dealStep]
      split
      · exact h
      · rename_i t hi
        intro u hu
        obtain hu | rfl := List.mem_or_eq_of_mem_set hu
        · exact h u hu
        · exact (h t (List.mem_of_getElem? hi)).toCommit
  | request credentials d r => exact h
  | auth r d => exact h
  | reap now => exact h

theorem blocks_step (h : s.Blocks C) (a : DealEvent)
    (delivered : ∀ run jobId db, (processJob run jobId).run.Blocks backend C
      (fun _ _ _ => True) db {}) : (dealStep env s a).Blocks C :=
  blocks_step_of h a fun run jobId _ => delivered run jobId

/-- A block changes the database by the write set that was due, which is as `C` says. -/
theorem run_cases (env : Env) (h : s.Blocks C) (i : Nat) (faults : List (Option Exc)) :
    (dealStep env s (.run i faults)).db = s.db ∨
    ∃ ws, s.due (.run i faults) = some ws ∧ C s.db ws ∧
      backend.applyAll s.db ws = .ok (dealStep env s (.run i faults)).db := by
  simp only [dealStep, DealState.due]
  cases hi : s.runs[i]? with
  | none => exact Or.inl rfl
  | some t =>
      obtain hsame | ⟨ws, hw, ha⟩ := Thread.toCommit_cases backend s.db faults t
      · exact Or.inl hsame
      · exact Or.inr ⟨ws, hw, (h t (List.mem_of_getElem? hi)).due hw, ha⟩

end Runs

section Queue

open Tx

/-- The requests that start, stop and retry jobs write no other table. -/
def Write.OfQueue (w : Write) : Prop := w.target = .jobs

theorem Write.OfQueue.quiet {w : Write} (h : w.OfQueue) : w.Quiet := by
  unfold Write.Quiet
  rw [show w.target = .jobs from h]
  decide

variable {env : Env} {credentials : Option Credentials} {d : DealDraws}

theorem createJob_queues {request : JobRequest} {id : Uuid} {now : Timestamp} :
    Emits Write.OfQueue (createJob request id now) := by
  refine Emits.bind (Emits.query _) fun existing? => ?_
  cases existing? with
  | some job => exact Emits.pure _
  | none =>
      exact Emits.bind (Emits.stage (by rfl)) fun _ =>
        Emits.bind Emits.flush fun _ => Emits.pure _

theorem acceptJob_queues {request : JobRequest} :
    Emits Write.OfQueue (acceptJob env d request) := by
  refine Emits.bind createJob_queues ?_
  rintro ⟨job, replayed⟩
  refine Emits.bind Emits.commit fun _ => ?_
  cases replayed with
  | true => exact Emits.pure _
  | false => exact Emits.bind dispatchJob_emits fun _ => Emits.pure _

theorem startJob_queues {kind : AnalysisKind} {opportunityId : Uuid}
    {idempotencyKey : Option String} :
    Emits Write.OfQueue (startJobEndpoint env credentials d kind opportunityId idempotencyKey) := by
  refine Emits.bind (reads_require _ _ _ _).emits fun principal => ?_
  cases given idempotencyKey with
  | none => exact Emits.throw _
  | some key =>
      refine Emits.bind (reads_getOpportunity _ _).emits fun _ => Emits.bind ?_ fun _ =>
        acceptJob_queues
      refine Emits.ite (fun _ => Emits.bind (Emits.query _) fun application? => ?_) fun _ =>
        Emits.pure _
      cases application? with
      | none => exact Emits.pure _
      | some application =>
          dsimp only
          cases application.deckDocumentId with
          | none => exact Emits.pure _
          | some documentId => exact Emits.pure _

theorem regenerateSection_queues {memoId : Uuid} {idempotencyKey : Option String} :
    Emits Write.OfQueue (regenerateSectionEndpoint env credentials d memoId idempotencyKey) := by
  refine Emits.bind (reads_require _ _ _ _).emits fun principal =>
    Emits.bind (reads_getMemo _ _).emits fun memo => ?_
  cases given idempotencyKey with
  | none => exact Emits.throw _
  | some key => exact acceptJob_queues

theorem harvest_queues {channels : Channels} :
    Emits Write.OfQueue (harvestEndpoint env credentials d channels) :=
  Emits.bind (reads_require _ _ _ _).emits fun _ => Emits.bind (Emits.stage (by rfl)) fun _ =>
    Emits.bind Emits.commit fun _ => Emits.bind dispatchJob_emits fun _ => Emits.pure _

theorem cancelJob_queues {jobId : Uuid} :
    Emits Write.OfQueue (cancelJobEndpoint env credentials d jobId) :=
  Emits.bind (reads_require _ _ _ _).emits fun _ => Emits.bind (reads_getJob _ _).emits fun _ =>
    Emits.ite (fun _ => Emits.throw _) fun _ => Emits.bind (Emits.stage (by rfl)) fun _ =>
      Emits.commit

theorem retryJob_queues {jobId : Uuid} :
    Emits Write.OfQueue (retryJobEndpoint env credentials d jobId) :=
  Emits.bind (reads_require _ _ _ _).emits fun _ => Emits.bind (reads_getJob _ _).emits fun _ =>
    Emits.ite (fun _ => Emits.throw _) fun _ => Emits.bind createJob_queues fun _ =>
      Emits.bind Emits.commit fun _ => Emits.bind dispatchJob_emits fun _ => Emits.pure _

theorem reapAll_queues {now : Timestamp} {stale : List Job} :
    Emits Write.OfQueue (reapAll now stale) := by
  induction stale with
  | nil => exact Emits.pure _
  | cons job stale ih => exact Emits.bind (Emits.stage (by rfl)) fun _ => ih

theorem reapStaleJobs_queues {now : Timestamp} : Emits Write.OfQueue (reapStaleJobs now) :=
  Emits.bind (Emits.query _) fun _ => Emits.bind reapAll_queues fun _ =>
    Emits.bind Emits.commit fun _ => Emits.pure _

/-- A request served alone that is quiet leaves the opportunities as they were. -/
theorem opportunities_of_quiet {α : Type} {p : DolphinVC.Tx α} (h : Emits Write.Quiet p) (db : Db) :
    (p.atomically backend db).2.opportunities = db.opportunities :=
  Commits.atomically (I := fun db' => db'.opportunities = db.opportunities)
    (h.commits Journal.all_empty)
    (fun _ _ _ hw hdb happly => ((apply_frame happly).2.2.1 hw).trans hdb) rfl

end Queue

section Replaced

variable {env : Env} {credentials : Option Credentials} {d : DealDraws} {db db' : Db}
variable {o o' : Opportunity}

/-- One opportunity is replaced, the others stay. -/
def Replaces (db db' : Db) (o o' : Opportunity) : Prop :=
  o ∈ db.opportunities ∧
    ∀ x, x ∈ db'.opportunities ↔ x = o' ∨ x ∈ db.opportunities ∧ x.id ≠ o.id

/-- An UPDATE sent while nobody else writes turns the loaded row into the assigned one. -/
theorem replaces_of_update (ho : o ∈ db.opportunities)
    (hpatch : o.patch (o.changes o') = o')
    (h : db.apply (.updateOpportunity o.id (o.changes o')) = .ok db') : Replaces db db' o o' := by
  have hupd : db'.opportunities =
      db.opportunities.update o.id (Opportunity.patch (o.changes o')) := by
    obtain ⟨-, h⟩ := ite_error_eq_ok.mp h
    cases h
    rfl
  refine ⟨ho, fun x => ?_⟩
  rw [hupd]
  refine Table.mem_update.trans ⟨?_, ?_⟩
  · rintro ⟨r, hr, hx⟩
    split at hx
    · rename_i hid
      obtain rfl := Table.eq_of_key hr ho hid
      exact Or.inl (hx.symm.trans hpatch)
    · rename_i hid
      subst hx
      exact Or.inr ⟨hr, hid⟩
  · rintro (rfl | ⟨hx, hid⟩)
    · exact ⟨o, ho, by rw [if_pos rfl, hpatch]⟩
    · exact ⟨x, hx, if_neg hid⟩

theorem changed_orElse {α : Type} [DecidableEq α] {a b : Option α} (h : b = a ∨ b.isSome) :
    ((changed a b).join.orElse fun _ => a) = b := by
  unfold changed
  split
  · rename_i hab
    rw [hab]
    rfl
  · rename_i hab
    obtain rfl | h := h
    · exact absurd rfl hab
    · obtain ⟨c, rfl⟩ := Option.isSome_iff_exists.mp h
      rfl

/-- The principal a request with these credentials acts for, if it has the permission. -/
def Admits (env : Env) (db : Db) (permission : Permission) (credentials : Option Credentials)
    (now : Timestamp) (principal : Principal) : Prop :=
  ((require permission env credentials now).atomically backend db).1 = .ok principal

theorem of_getOpportunity {orgId opportunityId : Uuid}
    (h : ((getOpportunity orgId opportunityId).run.exec backend [] db {}).result = .ok o) :
    o ∈ db.opportunities ∧ o.id = opportunityId ∧ o.orgId = orgId := by
  have hwp : Tx.WP backend (fun r _ _ => ∀ o, r = .ok o →
      o ∈ db.opportunities ∧ o.id = opportunityId ∧ o.orgId = orgId)
      (getOpportunity orgId opportunityId) db {} := by
    refine Tx.wp_bind.mpr ?_
    rw [Tx.wp_query, Session.query_unflushed]
    simp only [Except.map]
    cases hf : db.opportunities.rows.find? fun o => o.id = opportunityId ∧ o.orgId = orgId with
    | none => exact fun _ h => nomatch h
    | some found =>
        intro o ho
        cases ho
        exact ⟨List.mem_of_find?_eq_some hf, by simpa using List.find?_some hf⟩
  exact hwp o h

theorem applyAll_quiet {ws : List Write} (hws : ∀ w ∈ ws, w.Quiet)
    (h : backend.applyAll db ws = .ok db') : db'.opportunities = db.opportunities :=
  Backend.applyAll_inv (P := fun db' => db'.opportunities = db.opportunities)
    (fun _ _ _ hw hdb happly => ((apply_frame happly).2.2.1 hw).trans hdb) hws rfl h

/-- The end of an assignment endpoint: it replaces one row, or it fails. -/
theorem wp_assign {Q : Except Exc OpportunityDetail → Db → Session Write → Prop}
    {rest : DolphinVC.Tx OpportunityDetail} {extra : List Write} (ho : o ∈ db.opportunities)
    (hpatch : o.patch (o.changes o') = o') (hextra : ∀ w ∈ extra, w.Quiet)
    (hrest : Tx.Reads rest) (herr : ∀ e s, Q (.error e) db s)
    (hok : ∀ r db' s, Replaces db db' o o' → Q r db' s) :
    Tx.WP backend Q (do
      Tx.commit
      rest) db { dirty := .updateOpportunity o.id (o.changes o') :: extra } := by
  refine Tx.wp_bind.mpr (Tx.wp_commit_cases (fun db' happly => ?_) fun e => herr e _)
  refine hrest.wp.mpr (hok _ _ _ ?_)
  obtain ⟨mid, hmid, hquiet⟩ := Backend.applyAll_cons_eq_ok.mp happly
  have hreplaced := replaces_of_update ho hpatch hmid
  unfold Replaces at hreplaced ⊢
  rw [applyAll_quiet hextra hquiet]
  exact hreplaced

theorem reads_refreshedDetail (id : Uuid) :
    Tx.Reads (do
      let o ← refreshRow fun db => db.opportunities.find? id
      buildDetail o) :=
  Tx.Reads.bind (reads_refreshRow _) fun _ => reads_buildDetail _

theorem patch_archive (o : Opportunity) : o.patch (o.changes o.archive) = o.archive := by
  simp [Opportunity.patch, Opportunity.changes, Opportunity.archive, changed_getD]

/-- Archiving leaves the opportunities alone or archives one of them. -/
def ArchiveEffect (db db' : Db) : Prop :=
  db'.opportunities = db.opportunities ∨ ∃ o, Replaces db db' o o.archive

theorem archive_served {opportunityId : Uuid} :
    ArchiveEffect db
      ((archiveEndpoint env credentials d opportunityId).atomically backend db).2 := by
  refine (Tx.atomically_iff (P := fun _ db' => ArchiveEffect db db')).mpr ?_
  refine Tx.Reads.wp_bind (reads_require _ _ _ _) (fun _ => Or.inl rfl) fun principal _ => ?_
  refine Tx.Reads.wp_bind (reads_getOpportunity _ _) (fun _ => Or.inl rfl) fun o hget => ?_
  refine Tx.wp_bind.mpr (Tx.wp_stage.mpr ?_)
  exact wp_assign (of_getOpportunity hget).1 (patch_archive o) (by simp)
    (reads_buildExpiredDetail _) (fun _ _ => Or.inl rfl) fun _ _ _ h => Or.inr ⟨o, h⟩

theorem patch_assign_update (body : OpportunityUpdate) (o : Opportunity) :
    o.patch (o.changes (body.assign o)) = body.assign o := by
  simp [Opportunity.patch, Opportunity.changes, OpportunityUpdate.assign, changed_getD]

/-- A PATCH that passes its checks, with the principal and the row they found. -/
structure AcceptsUpdate (env : Env) (db : Db) (credentials : Option Credentials) (now : Timestamp)
    (opportunityId : Uuid) (ifMatch : Option String) (principal : Principal) (o : Opportunity) :
    Prop where
  admitted : Admits env db .screen credentials now principal
  found : o ∈ db.opportunities ∧ o.id = opportunityId ∧ o.orgId = principal.orgId
  version : matchesVersion ifMatch o.version = true

/-- A PATCH leaves the opportunities alone or replaces the one it was accepted for. -/
def UpdateEffect (env : Env) (db : Db) (credentials : Option Credentials) (now : Timestamp)
    (opportunityId : Uuid) (body : OpportunityUpdate) (ifMatch : Option String) (db' : Db) : Prop :=
  db'.opportunities = db.opportunities ∨
  ∃ principal o, AcceptsUpdate env db credentials now opportunityId ifMatch principal o ∧
    Replaces db db' o (body.assign o)

theorem update_served (opportunityId : Uuid) (body : OpportunityUpdate) (ifMatch : Option String) :
    UpdateEffect env db credentials d.now opportunityId body ifMatch
      ((updateOpportunityEndpoint env credentials d opportunityId body ifMatch).atomically
        backend db).2 := by
  refine (Tx.atomically_iff (P := fun _ db' =>
    UpdateEffect env db credentials d.now opportunityId body ifMatch db')).mpr ?_
  refine Tx.Reads.wp_bind (reads_require _ _ _ _) (fun _ => Or.inl rfl)
    fun principal hprincipal => ?_
  refine Tx.Reads.wp_bind (reads_getOpportunity _ _) (fun _ => Or.inl rfl) fun o hget => ?_
  rw [Tx.wp_ite]
  split
  · exact Or.inl rfl
  · rename_i hversion
    refine Tx.wp_bind.mpr (Tx.wp_stage.mpr (Tx.wp_ite.mpr ?_))
    split
    · refine Tx.wp_bind.mpr (Tx.wp_stage.mpr (Tx.wp_bind.mpr
        (Tx.wp_commit_cases (fun db' happly => ?_) fun _ => Or.inl rfl)))
      -- the null column makes the commit fail
      obtain ⟨mid, -, hnull⟩ := Backend.applyAll_cons_eq_ok.mp happly
      cases hnull
    · have accepts : AcceptsUpdate env db credentials d.now opportunityId ifMatch principal o :=
        ⟨hprincipal, of_getOpportunity hget, by simpa using hversion⟩
      exact wp_assign (of_getOpportunity hget).1 (patch_assign_update body o) (by simp)
        (reads_refreshedDetail _) (fun _ _ => Or.inl rfl)
        fun _ _ _ h => Or.inr ⟨principal, o, accepts, h⟩

theorem patch_assign_decision (body : DecisionRequest) (principal : Principal) (now : Timestamp)
    (o : Opportunity) :
    o.patch (o.changes (body.assign principal now o)) = body.assign principal now o := by
  simp only [Opportunity.patch, Opportunity.changes, DecisionRequest.assign, changed_getD,
    changed_orElse, Option.isSome_some, or_true, true_or]

/-- A decision leaves the opportunities alone or is recorded on one that is not archived. -/
def DecideEffect (env : Env) (db : Db) (credentials : Option Credentials) (now : Timestamp)
    (opportunityId : Uuid) (body : DecisionRequest) (db' : Db) : Prop :=
  db'.opportunities = db.opportunities ∨
  ∃ principal o, Admits env db .decide credentials now principal ∧ o.id = opportunityId ∧
    o.stage ≠ .archived ∧ Replaces db db' o (body.assign principal now o)

theorem decide_served (opportunityId : Uuid) (body : DecisionRequest)
    (idempotencyKey : Option String) :
    DecideEffect env db credentials d.now opportunityId body
      ((decideEndpoint env credentials d opportunityId body idempotencyKey).atomically
        backend db).2 := by
  refine (Tx.atomically_iff (P := fun _ db' =>
    DecideEffect env db credentials d.now opportunityId body db')).mpr ?_
  refine Tx.Reads.wp_bind (reads_require _ _ _ _) (fun _ => Or.inl rfl)
    fun principal hprincipal => ?_
  cases given idempotencyKey with
  | none => exact Or.inl rfl
  | some key =>
      refine Tx.Reads.wp_bind (reads_getOpportunity _ _) (fun _ => Or.inl rfl) fun o hget => ?_
      rw [Tx.wp_ite]
      split
      · exact Or.inl rfl
      · rename_i hstage
        refine Tx.Reads.wp_bind (Tx.Reads.query _) (fun _ => Or.inl rfl) fun decided _ => ?_
        rw [Tx.wp_ite]
        split
        · exact (reads_buildDetail o).wp.mpr (Or.inl rfl)
        · refine Tx.Reads.wp_bind (Tx.Reads.query _) (fun _ => Or.inl rfl) fun evidence _ => ?_
          rw [Tx.wp_ite]
          split
          · exact Or.inl rfl
          · obtain ⟨ho, hid, -⟩ := of_getOpportunity hget
            have finish {extra : List Write} (hextra : ∀ w ∈ extra, w.Quiet) :=
              wp_assign (Q := fun _ db' _ =>
                DecideEffect env db credentials d.now opportunityId body db') ho
                (patch_assign_decision body principal d.now o) hextra (reads_refreshedDetail o.id)
                (fun _ _ => Or.inl rfl)
                fun _ _ _ h => Or.inr ⟨principal, o, hprincipal, hid, hstage, h⟩
            refine Tx.wp_bind.mpr (Tx.wp_stage.mpr (Tx.wp_bind.mpr (Tx.wp_stage.mpr
              (Tx.wp_bind.mpr (Tx.wp_bind.mpr ?_)))))
            rw [Tx.wp_query, show Session.query backend db none
              (((({} : Session Write).stage (.updateOpportunity o.id
                (o.changes (body.assign principal d.now o)))).stage
                (.insertAuditLog (decideAudit principal body key o.id)))) = .ok db from rfl]
            simp only [Except.map]
            split
            · exact finish (by simp [Write.Quiet, Write.target])
            · rw [Tx.wp_ite]
              split
              · exact finish (by simp [Write.Quiet, Write.target])
              · exact finish (by simp [Write.Quiet, Write.target])

variable {s : DealState} {opportunityId : Uuid}

theorem update_step (body : OpportunityUpdate) (ifMatch : Option String) :
    UpdateEffect env s.db credentials d.now opportunityId body ifMatch
      (dealStep env s
        (.request credentials d (.updateOpportunity opportunityId body ifMatch))).db := by
  simp only [dealStep, DealRequest.serve, Tx.atomically_void]
  exact update_served opportunityId body ifMatch

theorem decide_step (body : DecisionRequest) (idempotencyKey : Option String) :
    DecideEffect env s.db credentials d.now opportunityId body
      (dealStep env s (.request credentials d (.decide opportunityId body idempotencyKey))).db := by
  simp only [dealStep, DealRequest.serve, Tx.atomically_void]
  exact decide_served opportunityId body idempotencyKey

theorem archive_step :
    ArchiveEffect s.db
      (dealStep env s (.request credentials d (.archive opportunityId))).db := by
  simp only [dealStep, DealRequest.serve, Tx.atomically_void]
  exact archive_served

end Replaced

section Fund

/-- Carol is a partner of the fund and Dan an analyst; their names are their tokens. -/
def fundEnv : Env :=
  { plainEnv with
    decodeAccessToken := fun token _ =>
      if token = "carol" then
        .ok { sub := 1, org := 1, role := .partner, scopes := [], iat := 0, exp := 1 }
      else if token = "dan" then
        .ok { sub := 2, org := 1, role := .analyst, scopes := [], iat := 0, exp := 1 }
      else .error (Exc.unauthenticated) }

/-- The fund, its two users and one company that nobody looks at yet. -/
def fundDb : Db where
  orgs := ⟨[{ id := 1, name := "Harbour Capital", slug := "harbour-capital" }], by decide⟩
  users := ⟨[
    { id := 1, orgId := 1, email := "carol@fund.com", passwordHash := none, fullName := "Carol"
      role := .partner },
    { id := 2, orgId := 1, email := "dan@fund.com", passwordHash := none, fullName := "Dan" }],
    by decide⟩
  companies := ⟨[{ id := 10, name := "Acme", normalizedName := "acme" }], by decide⟩

/-- A request of Dan's at the given second; a row it creates is numbered after it. -/
def danAt (second : Nat) (r : DealRequest) : DealEvent :=
  .request (some { token := "dan" })
    { now := Timestamp.seconds second, opportunityId := 100 + second, jobId := 200 + second } r

end Fund

end DolphinVC
