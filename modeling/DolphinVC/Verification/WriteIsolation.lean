import DolphinVC.Routers.Founders
import DolphinVC.Routers.Orgs
import DolphinVC.Verification.FencedRuns
import DolphinVC.Verification.JobLifecycle
import DolphinVC.Verification.Outreach

/-!
# Funds do not write each other's rows

The requests of all funds, the job runs and the reaper share one database. A request and a pass of
the reaper are one step each, and job runs commit between them. Each of them acts for the funds
that it can name: a request for the fund of its principal, or the one whose form it fills in, a run
for the fund of its job, the reaper for those whose jobs are silent. What a fund has of the work on
deals changes only when somebody acts for it.
-/

namespace DolphinVC

open Relational Transaction Transition Tx

/-- Beside what happens to deals and theses, the other requests that write. -/
inductive DeskEvent where
  | fund (a : FundEvent)
  | outreach (e : OutreachEvent)
  | editMemo (credentials : Option Credentials) (now : Timestamp) (memoId : Uuid) (body : MemoPatch)
      (ifMatch : Option String)
  | exportMemo (credentials : Option Credentials) (d : DealDraws) (memoId : Uuid)
      (format : ExportFormat)
  | requestInfo (credentials : Option Credentials) (now : Timestamp) (applicationId : Uuid)
  | mergeFounder (credentials : Option Credentials) (now : Timestamp) (personId loserId : Uuid)
  | eraseFounder (credentials : Option Credentials) (now : Timestamp) (personId : Uuid)
  | rescoreFounder (credentials : Option Credentials) (d : DealDraws) (personId : Uuid)
  | invite (credentials : Option Credentials) (body : InviteCreate) (d : InviteDraws)
  | deactivate (credentials : Option Credentials) (userId : Uuid) (now : Timestamp)

def deskStep (env : Env) (s : DealState) : DeskEvent → DealState
  | .fund a => fundStep env s a
  | .outreach e => { s with db := (e.serve env s.db).2 }
  | .editMemo credentials now memoId body ifMatch =>
      { s with db := ((patchMemoEndpoint env credentials now memoId body ifMatch).atomically
          backend s.db).2 }
  | .exportMemo credentials d memoId format =>
      { s with db := ((exportMemoEndpoint env credentials d memoId format).atomically
          backend s.db).2 }
  | .requestInfo credentials now applicationId =>
      { s with db := ((requestInfoEndpoint env credentials now applicationId).atomically
          backend s.db).2 }
  | .mergeFounder credentials now personId loserId =>
      { s with db := ((mergeFounderEndpoint env credentials now personId loserId).atomically
          backend s.db).2 }
  | .eraseFounder credentials now personId =>
      { s with db := ((gdprEraseEndpoint env credentials now personId).atomically
          backend s.db).2 }
  | .rescoreFounder credentials d personId =>
      { s with db := ((rescoreFounderEndpoint env credentials d personId).atomically
          backend s.db).2 }
  | .invite credentials body d =>
      { s with db := ((createInviteEndpoint env credentials body d).atomically backend s.db).2 }
  | .deactivate credentials userId now =>
      { s with db := ((deactivateUserEndpoint env credentials userId now).atomically
          backend s.db).2 }

section Acting

variable (env : Env) (s : DealState) (orgId : Uuid)

def DealRequest.ActsFor (credentials : Option Credentials) (now : Timestamp) : DealRequest → Prop
  | .publicApply orgSlug _ _ => ∃ org ∈ s.db.orgs, org.slug = orgSlug ∧ org.id = orgId
  | _ => ActsIn env s.db credentials now orgId

/-- A sign-up without an invitation founds a fund. -/
def Founds (d : Draws) : AuthRequest → Prop
  | .signup body =>
      given body.inviteToken = none ∧ orgId = d.orgId ∧ ∀ org ∈ s.db.orgs, org.id ≠ orgId
  | _ => False

/-- The event acts for the fund; these are the jobs whose runs are in progress. -/
def DealEvent.ActsFor (jobIds : List Uuid) : DealEvent → Prop
  | .request credentials d r => r.ActsFor env s orgId credentials d.now
  | .auth r d => Founds s orgId d r
  | .reap now => ∃ j ∈ s.db.jobs, j.Stale now ∧ j.orgId = some orgId
  | .deliver _ _ => False
  | .run i _ => ∃ j ∈ s.db.jobs, jobIds[i]? = some j.id ∧ j.orgId = some orgId

def DeskEvent.ActsFor (jobIds : List Uuid) : DeskEvent → Prop
  | .fund (.deal a) => a.ActsFor env s orgId jobIds
  | .fund (.thesis credentials now _) => ActsIn env s.db credentials now orgId
  | .outreach e => ActsIn env s.db e.credentials e.now orgId
  | .editMemo credentials now _ _ _ => ActsIn env s.db credentials now orgId
  | .exportMemo credentials d _ _ => ActsIn env s.db credentials d.now orgId
  | .requestInfo credentials now _ => ActsIn env s.db credentials now orgId
  | .rescoreFounder credentials d _ => ActsIn env s.db credentials d.now orgId
  | _ => False

end Acting

/-- A worker is given jobs that are stored and for workers. -/
def DeskEvent.Dispatches (s : DealState) : DeskEvent → Prop
  | .fund (.deal (.deliver _ jobId)) => s.db.ForWorkers jobId
  | _ => True

/-- The jobs that were delivered so far. -/
def brought (events : List DeskEvent) : List Uuid :=
  events.filterMap fun
    | .fund (.deal a) => a.delivers
    | _ => none

section Steps

variable {env : Env} {s : DealState} {acts : Uuid → Prop} {base mid db db' : Db}

theorem Linked.confined (linked : Linked db) : Confined acts db db :=
  ⟨linked, fun _ h => absurd rfl h⟩

theorem Confined.trans (h : Confined acts base mid) (h' : Confined acts mid db) :
    Confined acts base db := by
  refine ⟨h'.linked, fun orgId hchanged => ?_⟩
  by_cases hmid : mid.fund orgId = base.fund orgId
  · exact h'.funds orgId (hmid ▸ hchanged)
  · exact h.funds orgId hmid

/-- A request that writes no rows of funds acts for nobody. -/
theorem confined_of_pooled {α : Type} {p : DolphinVC.Tx α} (linked : Linked db)
    (h : Emits Write.Pooled p) : Confined acts db (p.atomically backend db).2 := by
  have pooled : Fenced none [] p fun _ => [] := fenced_of_pooled h
  exact (pooled.served linked).confined fun _ heq => nomatch heq

/-- Writes of one set may be about different funds. -/
theorem confined_applyAll {ws : List Write} (linked : Linked db)
    (h : ∀ w ∈ ws, ∃ owner, (∀ orgId, owner = some orgId → acts orgId) ∧
      w.Within owner fun f => f.Holds db) (happly : backend.applyAll db ws = .ok db') :
    Confined acts db db' := by
  induction ws generalizing db with
  | nil =>
      cases happly
      exact linked.confined
  | cons w ws ih =>
      obtain ⟨mid, hw, hws⟩ := Backend.applyAll_cons_eq_ok.mp happly
      obtain ⟨owner, hacts, within⟩ := h w List.mem_cons_self
      have first : Confined acts db mid := (linked.keepsOthers.apply within hw).confined hacts
      refine first.trans (ih first.linked (fun v hv => ?_) hws)
      obtain ⟨owner, hacts, within⟩ := h v (List.mem_cons_of_mem _ hv)
      exact ⟨owner, hacts, within.mono fun f hf => (holds_attested hw).mpr (Or.inl hf)⟩

theorem reap_confined {now : Timestamp} (linked : Linked db) :
    Confined (fun orgId => ∃ j ∈ db.jobs, j.Stale now ∧ j.orgId = some orgId) db
      ((reapStaleJobs now).atomically backend db).2 := by
  refine (Tx.atomically_iff (P := fun _ db' => Confined _ db db')).mpr ?_
  refine Tx.wp_bind.mpr ?_
  rw [Tx.wp_query, Session.query_unflushed]
  simp only [Except.map]
  refine Tx.wp_bind.mpr (wp_reapAll fun s' hfailed hpending => ?_)
  refine Tx.wp_bind.mpr ((Tx.wp_commit_live hfailed).mpr ?_)
  obtain ⟨t, ht⟩ := applyAll_reapWrites now (staleJobs now db) db
  rw [hpending, show Session.pending ({} : Session Write) = [] from rfl, List.nil_append, ht]
  refine confined_applyAll linked (fun w hw => ?_) ht
  obtain ⟨j, hj, rfl⟩ := List.mem_map.mp hw
  obtain ⟨hmem, hstale⟩ := mem_staleJobs.mp hj
  exact ⟨j.orgId, fun orgId horg => ⟨j, hmem, hstale, horg⟩, .row (List.mem_map_of_mem hmem)⟩

theorem Write.OfAccounts.pooled {w : Write} (h : w.OfAccounts) : w.Pooled := by
  intro owner K
  cases w with
  | insertThesis row => cases h
  | updateThesis id set => cases h
  | clearDefaults ids => cases h
  | insertSignal row => cases h
  | assignSignal id companyId personId => cases h
  | insertKBChunk row => cases h
  | insertDocument row => cases h
  | insertDocumentPage row => cases h
  | insertOpportunity row => cases h
  | updateOpportunity id set => cases h
  | insertApplication row => cases h
  | updateApplication id status => cases h
  | insertOpportunityScore row => cases h
  | insertPrescreenResult row => cases h
  | insertClaim row => cases h
  | insertEvidence row => cases h
  | insertMemo row => cases h
  | updateMemo id sections version => cases h
  | insertJob row => cases h
  | updateJob id set => cases h
  | insertAgentStep row => cases h
  | updateOutreach id set => cases h
  | _ => trivial

variable {body : SignupRequest} {d : Draws}

/-- Without an invitation the account is in the fund that is founded with it. -/
theorem signupOrg_founds {email : String} : EmitsTo Write.Pooled
    (fun r => r.2.2 = none → given body.inviteToken = none ∧ r.1 = d.orgId)
    (signupOrg env body email d) := by
  unfold signupOrg
  cases given body.inviteToken with
  | none =>
      exact EmitsTo.bind (Emits.query _).to fun _ _ => EmitsTo.bind
        (Emits.stage fun _ _ => trivial).to fun _ _ => EmitsTo.bind Emits.flush.to fun _ _ =>
          EmitsTo.pure fun _ => ⟨rfl, rfl⟩
  | some token =>
      refine EmitsTo.bind (Emits.query _).to fun invite? _ => ?_
      cases invite? with
      | none => exact EmitsTo.throw _
      | some invite =>
          dsimp only
          split
          · exact EmitsTo.throw _
          · refine EmitsTo.bind (Emits.query _).to fun org? _ => ?_
            cases org? with
            | none => exact EmitsTo.throw _
            | some org => exact EmitsTo.pure fun h => absurd h (Option.some_ne_none invite)

theorem signup_fenced {owner : Option Uuid}
    (howner : given body.inviteToken = none → owner = some d.orgId) :
    Fenced owner [] (signupEndpoint env body d) fun _ => [] := by
  have opens : Fenced owner [] (signup env body d) fun _ => [] := by
    refine Shows.bind (fenced_of_reads (reads_validatePassword _ _ _)) fun _ =>
      Shows.bind (fenced_of_reads (Reads.query _)) fun _ => Shows.ite (fun _ => Shows.throw)
        fun _ => Shows.andThen (fenced_of_pooled signupOrg_founds.emits) signupOrg_founds ?_
    rintro ⟨orgId, role, invite⟩ hfounds
    refine Shows.bind (fenced_write trivial) fun _ => Shows.bind fenced_flush fun _ =>
      Shows.bind (fenced_write ?_) fun _ => Shows.bind (fenced_of_pooled
        (issueTokens_writes.weaken fun _ hw => hw.pooled)) fun _ => Shows.pure fun _ hf => hf
    cases invite with
    | none =>
        obtain ⟨hnone, horg⟩ := hfounds rfl
        exact Or.inl ((congrArg some horg).trans (howner hnone).symm)
    | some invite => trivial
  exact Shows.bind opens fun _ => Shows.bind fenced_commit fun _ =>
    Shows.bind (fenced_of_reads (reads_refreshRow _)) fun _ =>
      Shows.bind (fenced_of_reads (reads_refreshRow _)) fun _ => Shows.pure fun _ hf => hf

/-- No fund is founded twice. -/
theorem signup_taken (hnone : given body.inviteToken = none) {org : Org} (horg : org ∈ db.orgs)
    (hid : org.id = d.orgId) : ((signupEndpoint env body d).atomically backend db).2 = db := by
  refine (Tx.atomically_iff (P := fun _ db' => db' = db)).mpr ?_
  refine Tx.wp_bind.mpr (Tx.Reads.wp_bind (reads_validatePassword _ _ _) (fun _ => rfl)
    fun _ _ => Tx.Reads.wp_bind (Tx.Reads.query _) (fun _ => rfl) fun _ _ => ?_)
  rw [Tx.wp_ite]
  split
  · rfl
  · refine Tx.wp_bind.mpr ?_
    unfold signupOrg
    rw [hnone]
    refine Tx.Reads.wp_bind (Tx.Reads.query _) (fun _ => rfl) fun slug _ => ?_
    refine Tx.wp_bind.mpr (Tx.wp_stage.mpr (Tx.wp_bind.mpr ((Tx.wp_flush_live rfl).mpr ?_)))
    split
    · rename_i db' happly
      obtain ⟨mid, hfirst, -⟩ := Backend.applyAll_cons_eq_ok.mp happly
      obtain ⟨T, hT, -⟩ := map_eq_ok.mp hfirst
      exact absurd hid (Table.fresh_of_insert? (insertRow_eq_ok.mp hT).2 horg)
    · rfl

theorem auth_confined {r : AuthRequest} (linked : Linked s.db) :
    Confined (fun orgId => Founds s orgId d r) s.db
      ((r.serve env d).atomically backend s.db).2 := by
  by_cases founds : ∃ body, r = .signup body
  · obtain ⟨body, rfl⟩ := founds
    rw [AuthRequest.serve, Tx.atomically_map]
    cases htoken : given body.inviteToken with
    | some token =>
        have fits : Fenced none [] (signupEndpoint env body d) fun _ => [] :=
          signup_fenced fun h => nomatch htoken.symm.trans h
        exact (fits.served linked).confined fun _ heq => nomatch heq
    | none =>
        by_cases taken : ∃ org ∈ s.db.orgs, org.id = d.orgId
        · obtain ⟨org, horg, hid⟩ := taken
          rw [signup_taken htoken horg hid]
          exact linked.confined
        · have fits : Fenced (some d.orgId) [] (signupEndpoint env body d) fun _ => [] :=
            signup_fenced fun _ => rfl
          refine (fits.served linked).confined fun orgId heq => ?_
          cases heq
          exact ⟨htoken, rfl, fun org horg hid => taken ⟨org, horg, hid⟩⟩
  · exact confined_of_pooled linked ((auth_accounts r fun body heq => founds ⟨body, heq⟩).weaken
      fun _ hw => hw.pooled)

theorem request_confined {credentials : Option Credentials} {d : DealDraws} (r : DealRequest)
    (linked : Linked s.db) :
    Confined (fun orgId => r.ActsFor env s orgId credentials d.now) s.db
      ((r.serve env credentials d).atomically backend s.db).2 := by
  cases r with
  | createOpportunity body =>
      rw [DealRequest.serve, Tx.atomically_void]
      exact createOpportunity_confined linked
  | updateOpportunity opportunityId body ifMatch =>
      rw [DealRequest.serve, Tx.atomically_void]
      exact updateOpportunity_confined linked
  | startJob kind opportunityId idempotencyKey =>
      rw [DealRequest.serve, Tx.atomically_void]
      exact startJob_confined linked
  | decide opportunityId body idempotencyKey =>
      rw [DealRequest.serve, Tx.atomically_void]
      exact decide_confined linked
  | archive opportunityId =>
      rw [DealRequest.serve, Tx.atomically_void]
      exact archive_confined linked
  | submitApplication form submittedIp idempotencyKey =>
      rw [DealRequest.serve, Tx.atomically_void]
      exact submitApplication_confined linked
  | publicApply orgSlug form submittedIp =>
      rw [DealRequest.serve, Tx.atomically_void]
      exact publicApply_confined linked
  | regenerateSection memoId idempotencyKey =>
      rw [DealRequest.serve, Tx.atomically_void]
      exact regenerateSection_confined linked
  | harvest channels =>
      rw [DealRequest.serve, Tx.atomically_void]
      exact harvest_confined linked
  | cancelJob jobId => exact cancelJob_confined linked
  | retryJob jobId =>
      rw [DealRequest.serve, Tx.atomically_void]
      exact retryJob_confined linked

/-- Whatever a run in progress still commits is within the fund of its job. -/
def RunsWithin (jobIds : List Uuid) (s : DealState) : Prop :=
  EachRun (fun jobId db t => t.Relies backend (RunWithin jobId) (fun _ _ _ => True) db) jobIds s

theorem run_confined {jobIds : List Uuid} (i : Nat) (faults : List (Option Exc))
    (linked : Linked s.db) (hruns : RunsWithin jobIds s) :
    Confined (fun orgId => ∃ j ∈ s.db.jobs, jobIds[i]? = some j.id ∧ j.orgId = some orgId) s.db
      (dealStep env s (.run i faults)).db := by
  obtain ⟨hlength, hall⟩ := hruns
  simp only [dealStep]
  split
  · exact linked.confined
  · rename_i t hi
    obtain hsame | ⟨ws, hdue, happly⟩ := Thread.toCommit_cases backend s.db faults t
    · rw [hsame]
      exact linked.confined
    · have hlt : i < jobIds.length := hlength ▸ (List.getElem?_eq_some_iff.mp hi).1
      have hid : jobIds[i]? = some jobIds[i] := List.getElem?_eq_getElem hlt
      obtain ⟨owner, hown, sound⟩ := Thread.Relies.due (hall i t _ hi hid) hdue
      have kept : KeepsOthers owner s.db (t.toCommit backend s.db faults).1 :=
        sound.keeps (fenced_lawful owner) (fun _ _ _ hI fits happly => hI.apply fits happly)
          linked.keepsOthers happly
      refine kept.confined fun orgId horg => ?_
      obtain ⟨j, hj, hrow⟩ := List.mem_map.mp hown
      obtain ⟨hjid, hjorg⟩ := Prod.mk.inj hrow
      exact ⟨j, hj, hid.trans (congrArg some hjid.symm), hjorg.trans horg⟩

theorem confined_step {jobIds : List Uuid} (a : DeskEvent) (linked : Linked s.db)
    (hruns : RunsWithin jobIds s) :
    Confined (fun orgId => a.ActsFor env s orgId jobIds) s.db (deskStep env s a).db := by
  cases a with
  | fund a =>
      cases a with
      | thesis credentials now r => exact thesis_confined linked
      | deal a =>
          cases a with
          | request credentials d r => exact request_confined r linked
          | auth r d => exact auth_confined linked
          | reap now => exact reap_confined linked
          | deliver run jobId => exact linked.confined
          | run i faults =>
              have committed : Confined _ s.db (dealStep env s (.run i faults)).db :=
                run_confined i faults linked hruns
              exact committed
  | outreach e => exact outreach_confined linked
  | editMemo credentials now memoId body ifMatch => exact patchMemo_confined linked
  | exportMemo credentials d memoId format => exact exportMemo_confined linked
  | requestInfo credentials now applicationId => exact requestInfo_confined linked
  | mergeFounder credentials now personId loserId =>
      exact confined_of_pooled linked (Emits.bind (reads_require _ _ _ _).emits fun _ =>
        Emits.bind (reads_livePerson _).emits fun _ => Emits.bind (reads_livePerson _).emits
          fun _ => Emits.bind (Emits.stage fun _ _ => trivial) fun _ => Emits.bind Emits.commit
            fun _ => Emits.pure _)
  | eraseFounder credentials now personId =>
      refine confined_of_pooled linked (Emits.bind (reads_require _ _ _ _).emits fun _ =>
        Emits.bind (Emits.query _) fun person? => ?_)
      cases person? with
      | none => exact Emits.throw _
      | some person =>
          exact Emits.bind (Emits.stage fun _ _ => trivial) fun _ => Emits.bind Emits.commit
            fun _ => Emits.pure _
  | rescoreFounder credentials d personId => exact rescoreFounder_confined linked
  | invite credentials body d =>
      exact confined_of_pooled linked (Emits.bind (reads_require _ _ _ _).emits fun _ =>
        Emits.ite (fun _ => Emits.throw _) fun _ => Emits.bind (Emits.query _) fun _ =>
          Emits.ite (fun _ => Emits.throw _) fun _ =>
            Emits.bind (Emits.stage fun _ _ => trivial) fun _ => Emits.bind Emits.commit fun _ =>
              Emits.bind (reads_refreshRow _).emits fun _ => Emits.pure _)
  | deactivate credentials userId now =>
      refine confined_of_pooled linked (Emits.bind (reads_require _ _ _ _).emits fun _ =>
        Emits.ite (fun _ => Emits.throw _) fun _ => Emits.bind (Emits.query _) fun user? => ?_)
      cases user? with
      | none => exact Emits.throw _
      | some user => exact Emits.bind (Emits.stage fun _ _ => trivial) fun _ => Emits.commit

theorem runsWithin_step {jobIds : List Uuid} (a : DeskEvent) (h : RunsWithin jobIds s)
    (dispatches : a.Dispatches s) :
    RunsWithin (jobIds ++ brought [a]) (deskStep env s a) := by
  have stays {s' : DealState} (hr : backend.Reaches s.db s'.db) (hruns : s'.runs = s.runs) :
      RunsWithin (jobIds ++ []) s' := by
    rw [List.append_nil]
    exact EachRun.reaches h hruns fun _ _ ht =>
      Program.Relies.reaches ht (fun _ => stable_true) hr
  have alone {α : Type} {p : DolphinVC.Tx α} :
      RunsWithin (jobIds ++ []) { s with db := (p.atomically backend s.db).2 } :=
    stays (reaches_atomically backend p s.db) rfl
  cases a with
  | fund a =>
      cases a with
      | thesis credentials now r => exact alone
      | deal a =>
          cases a with
          | request credentials d r => exact alone
          | auth r d => exact alone
          | reap now => exact alone
          | deliver run jobId =>
              have begun : RunsWithin (jobIds ++ [jobId]) (dealStep env s (.deliver run jobId)) :=
                EachRun.deliver run jobId h (processJob_within run dispatches)
              exact begun
          | run i faults =>
              have hrun : RunsWithin jobIds (dealStep env s (.run i faults)) :=
                EachRun.run i faults h (fun _ _ _ hr ht =>
                  Program.Relies.reaches ht (fun _ => stable_true) hr) fun _ _ ht => ht.toCommit
              exact (List.append_nil jobIds).symm ▸ hrun
  | outreach e => exact alone
  | editMemo credentials now memoId body ifMatch => exact alone
  | exportMemo credentials d memoId format => exact alone
  | requestInfo credentials now applicationId => exact alone
  | mergeFounder credentials now personId loserId => exact alone
  | eraseFounder credentials now personId => exact alone
  | rescoreFounder credentials d personId => exact alone
  | invite credentials body d => exact alone
  | deactivate credentials userId now => exact alone

/-- In every run whose workers are given jobs for workers, no link comes to leave a fund, and the
next event changes what a fund has of the work on deals only if it acts for the fund. -/
theorem writes_stay_within_funds (env : Env) (db : Db) (linked : Linked db) (past : List DeskEvent)
    (dispatched : Meets (deskStep env) DeskEvent.Dispatches { db } past) (a : DeskEvent) :
    Confined (fun orgId => a.ActsFor env (past.foldl (deskStep env) { db }) orgId (brought past))
      (past.foldl (deskStep env) { db }).db
      (deskStep env (past.foldl (deskStep env) { db }) a).db := by
  have reached (events : List DeskEvent) (s : DealState) (jobIds : List Uuid)
      (linked : Linked s.db) (hruns : RunsWithin jobIds s)
      (hmeets : Meets (deskStep env) DeskEvent.Dispatches s events) :
      Linked (events.foldl (deskStep env) s).db ∧
        RunsWithin (jobIds ++ brought events) (events.foldl (deskStep env) s) := by
    induction events generalizing s jobIds with
    | nil => exact ⟨linked, by simpa [brought] using hruns⟩
    | cons a events ih =>
        have h := ih (deskStep env s a) (jobIds ++ brought [a])
          (confined_step a linked hruns).linked (runsWithin_step a hruns hmeets.1) hmeets.2
        rwa [List.append_assoc, show brought [a] ++ brought events = brought (a :: events) from
          (List.filterMap_append).symm] at h
  obtain ⟨hlinked, hruns⟩ :=
    reached past { db } [] linked ⟨rfl, fun i t jobId ht => by simp at ht⟩ dispatched
  exact confined_step a hlinked hruns

/-- Each of the two funds has an opportunity and a job to screen it, and one has a memo. -/
def quayDb : Db :=
  { twoFunds with
    opportunities := ⟨[
      { id := 80, orgId := 1, companyId := 10, origin := .inbound, title := none
        firstSignalAt := 0, slaDeadlineAt := 0 },
      { id := 90, orgId := 2, companyId := 10, origin := .inbound, title := none
        firstSignalAt := 0, slaDeadlineAt := 0 }], by decide⟩
    memos := ⟨[{ id := 82, orgId := 1, opportunityId := 80, recommendation := none
                 recommendationRationale := none }], by decide⟩
    jobs := ⟨[
      { id := 81, orgId := some 1, kind := "screen", targetType := some "opportunity"
        targetId := some 80, createdAt := 0 },
      { id := 91, orgId := some 2, kind := "screen", targetType := some "opportunity"
        targetId := some 90, createdAt := 0 }], by decide⟩ }

theorem linked_quayDb : Linked quayDb := by
  have mem {j : Job} (hj : j ∈ quayDb.jobs) : j ∈ quayDb.jobs.rows := hj
  constructor
  case ends =>
    rintro l (⟨a, ha, -⟩ | ⟨m, hm, hl⟩ | ⟨j, hj, hl⟩)
    · exact absurd ha (Table.not_mem_empty a)
    · have hm : m ∈ quayDb.memos.rows := hm
      obtain rfl := List.mem_singleton.mp hm
      obtain rfl := List.mem_singleton.mp hl
      exact ⟨some 1, by simp [Db.Owns, Db.owners, quayDb], by simp [Db.Owns, Db.owners, quayDb]⟩
    · obtain ⟨r, hr, rfl⟩ := List.mem_map.mp hl
      have hj := mem hj
      simp only [quayDb, List.mem_cons, List.not_mem_nil, or_false] at hj
      obtain rfl | rfl := hj
      · obtain rfl : r = (.opportunities, 80) := by simpa [Job.leads, Job.opportunityId] using hr
        exact ⟨some 1, by simp [Db.Owns, Db.owners, quayDb], by simp [Db.Owns, Db.owners, quayDb]⟩
      · obtain rfl : r = (.opportunities, 90) := by simpa [Job.leads, Job.opportunityId] using hr
        exact ⟨some 2, by simp [Db.Owns, Db.owners, quayDb], by simp [Db.Owns, Db.owners, quayDb]⟩
  case aimed =>
    intro j hj _
    have hj := mem hj
    simp only [quayDb, List.mem_cons, List.not_mem_nil, or_false] at hj
    obtain rfl | rfl := hj
    · simp
    · simp

/-- Both jobs are with a worker, and Dan exports the memo of his fund. -/
def quayPast : List DeskEvent :=
  [.fund (.deal (.deliver jettyRun 81)), .fund (.deal (.deliver jettyRun 91)),
    .exportMemo (some { token := "dan" }) { now := Timestamp.seconds 3, jobId := 95 } 82 .pdf]

def quayState : DealState := quayPast.foldl (deskStep fundEnv) { db := quayDb }

/-- The job of the first fund is taken up: its fund sees that, the other one sees nothing. -/
theorem quay_runs_apart :
    quayState.db.jobs.rows.map Job.id = [81, 91, 95] ∧
    (deskStep fundEnv quayState (.fund (.deal (.run 0 [])))).db.fund 1 ≠ quayState.db.fund 1 ∧
    (deskStep fundEnv quayState (.fund (.deal (.run 0 [])))).db.fund 2 = quayState.db.fund 2 := by
  have workers (j : Job) (hj : j ∈ quayDb.jobs) : quayDb.ForWorkers j.id := by
    refine ⟨j, hj, rfl, ?_⟩
    have hj : j ∈ quayDb.jobs.rows := hj
    simp only [quayDb, List.mem_cons, List.not_mem_nil, or_false] at hj
    obtain rfl | rfl := hj
    · exact Job.forWorkers_of_opportunity rfl
    · exact Job.forWorkers_of_opportunity rfl
  have dispatched : Meets (deskStep fundEnv) DeskEvent.Dispatches { db := quayDb } quayPast :=
    ⟨workers _ List.mem_cons_self, workers _ (List.mem_cons_of_mem _ List.mem_cons_self),
      trivial, trivial⟩
  have confined := writes_stay_within_funds fundEnv quayDb linked_quayDb quayPast dispatched
    (.fund (.deal (.run 0 [])))
  refine ⟨by decide, fun heq => ?_, by_contra fun hchanged => ?_⟩
  · exact absurd (congrArg (fun f => f.jobs.map Job.status) heq) (by decide)
  · obtain ⟨j, hj, hid, horg⟩ := confined.funds 2 hchanged
    have hid : j.id = 81 := (Option.some.inj hid).symm
    have only : ∀ j ∈ quayState.db.jobs.rows, j.id = 81 → j.orgId = some 1 := by decide
    exact absurd ((only j hj hid).symm.trans horg) (by decide)

end Steps

end DolphinVC
