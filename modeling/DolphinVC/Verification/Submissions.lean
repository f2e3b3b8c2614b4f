import DolphinVC.Transaction.Rely
import DolphinVC.Verification.LiveOpportunity

/-!
# Concurrent submissions with an idempotency key

Submissions interleave statement by statement. Each looks for a job with its key, and
when it finds none it inserts an application and a job and commits; no constraint stands
behind the look-up. So the key is used once exactly as long as every submission that
commits would still find nothing if it looked again (`StillUnclaimed`).
-/

namespace DolphinVC

open Relational Transaction Transition

/-- The key of the request, and its answer with the fund it acted for. -/
abbrev SubmissionAnswer := Option String × Except Exc (Uuid × CreatedApplication)

abbrev SubmissionWorld := Transaction.World Db Write Exc Call SubmissionAnswer

abbrev SubmissionAct := Act Db Write Exc Call SubmissionAnswer

structure SubmissionRequest where
  credentials : Option Credentials
  d : DealDraws
  form : ApplicationForm
  submittedIp : Option String := none
  idempotencyKey : Option String

/-- `submitApplicationEndpoint`, which also tells the fund it acted for. -/
def SubmissionRequest.serve (env : Env) (r : SubmissionRequest) :
    Tx (Uuid × CreatedApplication) := do
  let principal ← require .screen env r.credentials r.d.now
  let created ← submitApplication env r.d principal r.form r.submittedIp r.idempotencyKey
  return (principal.orgId, created)

theorem SubmissionRequest.serve_snd (env : Env) (r : SubmissionRequest) :
    Prod.snd <$> r.serve env =
      submitApplicationEndpoint env r.credentials r.d r.form r.submittedIp r.idempotencyKey := by
  have := Program.lawfulMonad (σ := Db) (ω := Write) (ε := Exc) (μ := Call)
  simp [SubmissionRequest.serve, submitApplicationEndpoint]

def SubmissionRequest.program (env : Env) (r : SubmissionRequest) :
    Program Db Write Exc Call SubmissionAnswer :=
  (r.serve env).run.bind fun answer => .done (given r.idempotencyKey, answer)

/-- Only submissions arrive. -/
def SubmissionAct.Arrives (env : Env) (a : SubmissionAct) : Prop :=
  ∀ p, a = .spawn p → ∃ r : SubmissionRequest, p = r.program env

/-- A job that a submission with this key has created. -/
def Job.Submits (j : Job) (orgId : Uuid) (key : String) : Prop :=
  j.orgId = some orgId ∧ j.kind = "application.process" ∧ j.idempotencyKey = some key

/-- Thread `i` has committed this application together with a job of the key. -/
def Creates (w : SubmissionWorld) (i : Nat) (orgId : Uuid) (key : String)
    (a : Application) : Prop :=
  ∃ ws ∈ w.committed i, Write.insertApplication a ∈ ws ∧
    ∃ j, Write.insertJob j ∈ ws ∧ j.Submits orgId key

/-- Thread `i` has answered a submission of the fund with this key. -/
def Answers (w : SubmissionWorld) (i : Nat) (orgId : Uuid) (key : String)
    (created : CreatedApplication) : Prop :=
  ∃ t, w.threads[i]? = some t ∧ t.prog = .done (some key, .ok (orgId, created))

/-- A key of a fund has at most one job and one application, and its answers agree. -/
structure SubmittedOnce (w : SubmissionWorld) : Prop where
  job : ∀ j ∈ w.db.jobs, ∀ j' ∈ w.db.jobs, ∀ orgId key,
    j.Submits orgId key → j'.Submits orgId key → j = j'
  application : ∀ i i' orgId key a a',
    Creates w i orgId key a → Creates w i' orgId key a' → i = i' ∧ a = a'
  answers : ∀ i i' orgId key created created',
    Answers w i orgId key created → Answers w i' orgId key created' →
      created.applicationId = created'.applicationId ∧
      created.opportunityId = created'.opportunityId ∧ created.jobId = created'.jobId

/-- A submission that commits a job would find none with its key if it looked again. -/
def StillUnclaimed (w : SubmissionWorld) (a : SubmissionAct) : Prop :=
  ∀ ws db', w.writeSet a = some ws → backend.applyAll w.db ws = .ok db' →
    ∀ j orgId key, Write.insertJob j ∈ ws → j.Submits orgId key →
      priorApplication orgId (some key) w.db = none

/-- The rows that a replay of the job answers with are there. -/
def Replayable (db : Db) (j : Job) : Prop :=
  (∃ a ∈ db.applications, j.input.applicationId = some a.id) ∧
    ∃ o ∈ db.opportunities, j.input.opportunityId = some o.id

/-- Every key has at most one job, and that can be replayed. -/
structure KeysReplay (db : Db) : Prop where
  unique : ∀ j ∈ db.jobs, ∀ j' ∈ db.jobs, ∀ orgId key,
    j.Submits orgId key → j'.Submits orgId key → j = j'
  replayable : ∀ j ∈ db.jobs, ∀ orgId key, j.Submits orgId key → Replayable db j

section Rows

variable {db db' : Db} {w : Write} {ws : List Write} {orgId : Uuid} {key : String}

theorem Job.Submits.of_keeps {j j' : Job} (h : j.Submits orgId key) (keeps : j.Keeps j') :
    j'.Submits orgId key :=
  ⟨keeps.orgId.trans h.1, keeps.kind.trans h.2.1, keeps.idempotencyKey.trans h.2.2⟩

theorem Replayable.apply {j : Job} (h : Replayable db j) (happly : db.apply w = .ok db') :
    Replayable db' j := by
  obtain ⟨⟨a, ha, haid⟩, o, ho, hoid⟩ := h
  obtain ⟨a', ha', akeeps⟩ := application_persists ha happly
  obtain ⟨o', ho', okeeps⟩ := opportunity_persists ho happly
  exact ⟨⟨a', ha', by rw [haid, akeeps.id]⟩, o', ho', by rw [hoid, okeeps.id]⟩

theorem Replayable.of_keeps {j j' : Job} (h : Replayable db j) (keeps : j.Keeps j') :
    Replayable db j' := by
  obtain ⟨⟨a, ha, haid⟩, o, ho, hoid⟩ := h
  exact ⟨⟨a, ha, by rw [keeps.input, haid]⟩, o, ho, by rw [keeps.input, hoid]⟩

/-- The look-up of a replayable job finds it. -/
theorem priorApplication_eq_none (hkey : key ≠ "")
    (replayable : ∀ j ∈ db.jobs, j.Submits orgId key → Replayable db j) :
    priorApplication orgId (some key) db = none ↔ ∀ j ∈ db.jobs, ¬ j.Submits orgId key := by
  have hgiven : given (some key) = some key := by simp [given, hkey]
  simp only [priorApplication, hgiven, Option.bind_eq_bind, Option.bind_some]
  constructor
  · intro h j hj hsubmits
    cases hfind : db.jobs.rows.find? fun j => j.orgId = some orgId ∧
        j.kind = "application.process" ∧ j.idempotencyKey = some key with
    | none =>
        exact absurd hsubmits (by simpa [Job.Submits] using List.find?_eq_none.mp hfind j hj)
    | some prior =>
        have hprior := List.mem_of_find?_eq_some hfind
        have hsub := List.find?_some hfind
        simp only [decide_eq_true_eq] at hsub
        obtain ⟨⟨a, ha, haid⟩, o, ho, hoid⟩ := replayable prior hprior hsub
        rw [hfind] at h
        simp [haid, hoid, Table.find?_of_mem ha, Table.find?_of_mem ho] at h
  · intro h
    have hfind : (db.jobs.rows.find? fun j => j.orgId = some orgId ∧
        j.kind = "application.process" ∧ j.idempotencyKey = some key) = none :=
      List.find?_eq_none.mpr fun j hj => by simpa [Job.Submits] using h j hj
    rw [hfind]
    rfl

/-- What the answer names is there and carries the key. -/
def Named (orgId : Uuid) (key : String) (created : CreatedApplication) (db : Db) : Prop :=
  ∃ j ∈ db.jobs, j.Submits orgId key ∧ j.id = created.jobId ∧
    j.input.applicationId = some created.applicationId ∧
    j.input.opportunityId = some created.opportunityId

theorem Named.apply {created : CreatedApplication} (h : Named orgId key created db)
    (happly : db.apply w = .ok db') : Named orgId key created db' := by
  obtain ⟨j, hj, hsubmits, hid, happlication, hopportunity⟩ := h
  obtain ⟨j', hj', keeps⟩ := job_persists hj happly
  exact ⟨j', hj', hsubmits.of_keeps keeps, keeps.id.trans hid, by rw [keeps.input, happlication],
    by rw [keeps.input, hopportunity]⟩

theorem named_of_prior {created : CreatedApplication}
    (h : priorApplication orgId (some key) db = some created) : Named orgId key created db := by
  simp only [priorApplication, Option.bind_eq_bind, Option.bind_eq_some_iff] at h
  obtain ⟨k, hk, prior, hprior, a, ⟨aid, haid, ha⟩, o, ⟨oid, hoid, ho⟩, hcreated⟩ := h
  have hkey : k = key := by
    simp only [given, Option.filter_eq_some_iff] at hk
    exact (Option.some.inj hk.1).symm
  subst hkey
  have hsub := List.find?_some hprior
  simp only [decide_eq_true_eq] at hsub
  cases hcreated
  exact ⟨prior, List.mem_of_find?_eq_some hprior, hsub, rfl,
    haid.trans (congrArg some (Table.key_of_find? ha).symm),
    hoid.trans (congrArg some (Table.key_of_find? ho).symm)⟩

end Rows

section Contract

open Tx

variable {env : Env} {db db' : Db} {w : Write} {ws : List Write} {d : DealDraws}
variable {orgId : Uuid} {key : String} {form : ApplicationForm} {submission : Submission}

/-- What a submission writes before its application. -/
def Write.Prelude (w : Write) : Prop := w.target ≠ .applications ∧ w.target ≠ .jobs

theorem Write.Elsewhere.prelude (h : w.Elsewhere) : w.Prelude := by
  have htarget : w.target = .other := h
  simp [Write.Prelude, htarget]

def Prelude (ws : List Write) : Prop := ∀ w ∈ ws, w.Prelude

theorem Prelude.snoc (h : Prelude ws) (hw : w.Prelude) : Prelude (ws ++ [w]) := by
  simpa [Prelude, or_imp, forall_and, hw] using h

/-- The opportunity is there or the write set inserts it. -/
def Held (opportunityId : Uuid) (db : Db) (ws : List Write) : Prop :=
  (∃ o ∈ db.opportunities, o.id = opportunityId) ∨
    ∃ row, Write.insertOpportunity row ∈ ws ∧ row.id = opportunityId

theorem Held.apply {opportunityId : Uuid} (h : Held opportunityId db ws)
    (happly : db.apply w = .ok db') : Held opportunityId db' ws := by
  refine h.imp_left fun ⟨o, ho, hid⟩ => ?_
  obtain ⟨o', ho', keeps⟩ := opportunity_persists ho happly
  exact ⟨o', ho', keeps.id.trans hid⟩

theorem Held.append {opportunityId : Uuid} (h : Held opportunityId db ws) (vs : List Write) :
    Held opportunityId db (ws ++ vs) :=
  h.imp_right fun ⟨row, hrow, hid⟩ => ⟨row, List.mem_append_left vs hrow, hid⟩

theorem Held.there {opportunityId : Uuid} (h : Held opportunityId db ws)
    (happly : backend.applyAll db ws = .ok db') :
    ∃ o ∈ db'.opportunities, o.id = opportunityId := by
  induction ws generalizing db with
  | nil =>
      cases happly
      obtain h | ⟨row, hrow, -⟩ := h
      · exact h
      · cases hrow
  | cons w ws ih =>
      obtain ⟨mid, hw, hrest⟩ := Backend.applyAll_cons_eq_ok.mp happly
      have hw : db.apply w = .ok mid := hw
      refine ih ?_ hrest
      obtain ⟨o, ho, hid⟩ | ⟨row, hrow, hid⟩ := h
      · obtain ⟨o', ho', keeps⟩ := opportunity_persists ho hw
        exact Or.inl ⟨o', ho', keeps.id.trans hid⟩
      · obtain rfl | hrow := List.mem_cons.mp hrow
        · obtain ⟨row', hrow, hins⟩ | ⟨_, _, hrow, -⟩ | ⟨hrow, -⟩ := opportunities_apply hw
          · cases hrow
            exact Or.inl ⟨row, (Table.mem_insert? hins).mpr (Or.inr rfl), hid⟩
          · cases hrow
          · exact absurd rfl hrow
        · exact Or.inr ⟨row, hrow, hid⟩

theorem held_of_applyAll {o : Opportunity} (ho : o ∈ db'.opportunities)
    (h : backend.applyAll db ws = .ok db') : Held o.id db ws := by
  induction ws generalizing db with
  | nil =>
      cases h
      exact Or.inl ⟨o, ho, rfl⟩
  | cons w ws ih =>
      obtain ⟨mid, hw, hrest⟩ := Backend.applyAll_cons_eq_ok.mp h
      obtain ⟨m, hm, hid⟩ | ⟨row, hrow, hid⟩ := ih hrest
      · obtain ⟨o₀, ho₀, keeps⟩ | rfl := opportunity_origin hm hw
        · exact Or.inl ⟨o₀, ho₀, keeps.id.symm.trans hid⟩
        · exact Or.inr ⟨m, List.mem_cons_self, hid⟩
      · exact Or.inr ⟨row, List.mem_cons_of_mem _ hrow, hid⟩

/-- The write set of a submission that answers with this. -/
def Created (orgId : Uuid) (key : String) (created : CreatedApplication) (db : Db)
    (ws : List Write) : Prop :=
  ∃ pre a j, ws = pre ++ [.insertApplication a, .insertJob j] ∧ Prelude pre ∧
    j.Submits orgId key ∧ a.id = created.applicationId ∧ j.id = created.jobId ∧
    j.input.applicationId = some a.id ∧ j.input.opportunityId = some created.opportunityId ∧
    Held created.opportunityId db pre

/-- What a submission commits: nothing for its key, or an application with its job. -/
def SubmissionBlock (db : Db) (ws : List Write) : Prop :=
  Prelude ws ∨ ∃ orgId key created, key ≠ "" ∧ Created orgId key created db ws

/-- A contract of a part of a submission that says nothing about its exceptions. -/
abbrev Part {α : Type} (J : Db → Session Write → Prop) (p : DolphinVC.Tx α)
    (K : α → Db → Session Write → Prop) : Prop :=
  Contract backend SubmissionBlock (fun _ _ => True) J p K

theorem part_of_stages {α : Type} {p : DolphinVC.Tx α} (h : Stages Write.Prelude p) :
    Part (fun _ s => s.Holds Prelude) p fun _ _ s => s.Holds Prelude :=
  (h.contract (stable_session _) fun _ _ _ hj hg =>
    hj.grows hg fun _ _ hw hws => hws.snoc hw).consequence
    (fun _ _ h => h) (fun _ _ _ => trivial) fun _ _ _ h => h

theorem part_of_elsewhere {α : Type} {p : DolphinVC.Tx α} (h : Stages Write.Elsewhere p) :
    Part (fun _ s => s.Holds Prelude) p fun _ _ s => s.Holds Prelude :=
  part_of_stages (h.weaken fun _ hw => hw.prelude)

/-- A part that stages what keeps the relation. -/
theorem part_staging {α : Type} {Φ : Write → Prop} {R : Db → List Write → Prop}
    {p : DolphinVC.Tx α} (h : Stages Φ p)
    (keep : ∀ ws db w db', R db ws → db.apply w = .ok db' → R db' ws)
    (snoc : ∀ db ws w, Φ w → R db ws → R db (ws ++ [w])) :
    Part (fun db s => s.Holds (R db)) p fun _ db s => s.Holds (R db) :=
  (h.contract (stable_holds keep) fun db _ _ hj hg =>
    hj.grows hg fun ws w hw => snoc db ws w hw).consequence
    (fun _ _ h => h) (fun _ _ _ => trivial) fun _ _ _ h => h

/-- A part that stages nothing. -/
theorem part_idle {R : Db → List Write → Prop} {p : DolphinVC.Tx Unit}
    (h : Stages (fun _ => False) p)
    (keep : ∀ ws db w db', R db ws → db.apply w = .ok db' → R db' ws) :
    Part (fun db s => s.Holds (R db)) p fun _ db s => s.Holds (R db) :=
  part_staging h keep fun _ _ _ hw => hw.elim

theorem part_stage {R S : Db → List Write → Prop} {w : Write}
    (h : ∀ db ws, R db ws → S db (ws ++ [w])) :
    Part (fun db s => s.Holds (R db)) (Tx.stage w) fun _ db s => s.Holds (S db) :=
  Contract.stage fun db _ hj => hj.stage (h db)

theorem applicationOpportunity_part {company : Company} :
    Part (fun _ s => s.Holds Prelude) (applicationOpportunity env orgId company d)
      fun id db s => s.Holds fun ws => Prelude ws ∧ Held id db ws := by
  refine Contract.bind (K := fun opportunity? db s => opportunity?.elim (s.Holds Prelude) fun o =>
      s.Holds fun ws => Prelude ws ∧ Held o.id db ws)
    (Contract.query (stable_session _) (fun _ _ _ => trivial) ?_) fun opportunity? => ?_
  · intro db s view hj _ hview
    cases hfound : liveOpportunity? orgId company.id view with
    | none => exact hj
    | some o =>
        exact hj.imp_right fun hpre =>
          ⟨hpre, (held_of_applyAll (List.mem_of_find?_eq_some hfound) hview).append s.dirty⟩
  · cases opportunity? with
    | some o => exact Contract.pure fun _ _ h => h
    | none =>
        refine Contract.bind (part_of_elsewhere (Stages.query _)) fun thesis? => ?_
        have inserted : (Write.insertOpportunity (newOpportunity env d.opportunityId orgId company
            (thesis?.map Thesis.id) .inbound d.now d.now)).Prelude := by
          simp [Write.Prelude, Write.target]
        refine Contract.bind (part_stage fun db ws hpre => ⟨hpre.snoc inserted, Or.inr
          ⟨_, List.mem_append_right ws List.mem_cons_self, rfl⟩⟩) fun _ =>
            Contract.bind (part_idle Stages.flush ?_) fun _ =>
              Contract.pure fun _ _ h => h
        exact fun ws db w db' h happly => ⟨h.1, h.2.apply happly⟩

theorem jobs_of_prelude (hws : Prelude ws) (h : backend.applyAll db ws = .ok db') :
    db'.jobs = db.jobs :=
  Backend.applyAll_inv (P := fun db' => db'.jobs = db.jobs) (Φ := Write.Prelude)
    (fun _ _ _ hw hdb happly => ((apply_frame happly).2.2.2.2.1 hw.2).trans hdb) hws rfl h

theorem Named.of_jobs {created : CreatedApplication} (h : Named orgId key created db')
    (heq : db.jobs = db'.jobs) : Named orgId key created db := by
  unfold Named
  rw [heq]
  exact h

theorem Created.apply {created : CreatedApplication} (h : Created orgId key created db ws)
    (happly : db.apply w = .ok db') : Created orgId key created db' ws := by
  obtain ⟨pre, a, j, hws, hpre, hsubmits, haid, hjid, happlication, hopportunity, hheld⟩ := h
  exact ⟨pre, a, j, hws, hpre, hsubmits, haid, hjid, happlication, hopportunity, hheld.apply happly⟩

/-- A submission answers with what its key names already or with what it will commit. -/
theorem createApplication_part (horg : submission.orgId = orgId)
    (hkey : submission.idempotencyKey = some key) :
    Part (fun _ s => s.Holds Prelude) (createApplication env form submission d)
      fun created db s => Named orgId key created db ∧ s.Holds Prelude ∨
        s.Holds (Created orgId key created db) := by
  refine Contract.bind (part_of_elsewhere validateApplication_reads.stages) fun _ => ?_
  refine Contract.bind (K := fun prior? db s => match prior? with
      | none => s.Holds Prelude
      | some created => Named orgId key created db ∧ s.Holds Prelude)
    (Contract.query (stable_session _) (fun _ _ _ => trivial) ?_) fun prior? => ?_
  · intro db s view hj hf hview
    rw [horg, hkey]
    cases hprior : priorApplication orgId (some key) view with
    | none => exact hj
    | some created =>
        have hflushed : ∀ w ∈ s.flushed, w.Prelude := fun w hw =>
          hj.resolve_left (by simp [hf]) w (List.mem_append_left _ hw)
        exact ⟨(named_of_prior hprior).of_jobs (jobs_of_prelude hflushed hview).symm, hj⟩
  · cases prior? with
    | some created => exact Contract.pure fun _ _ h => Or.inl h
    | none =>
        refine Contract.bind (part_of_elsewhere applicationCompany_stages) fun company =>
          Contract.bind (part_of_elsewhere applicationDocument_stages) fun documentId =>
            Contract.bind applicationOpportunity_part fun opportunityId => ?_
        have ready (ws : List Write) (db : Db) (w : Write) (db' : Db)
            (h : Prelude ws ∧ Held opportunityId db ws) (happly : db.apply w = .ok db') :
            Prelude ws ∧ Held opportunityId db' ws := ⟨h.1, h.2.apply happly⟩
        refine Contract.bind (part_staging ensureApplicationFounder_stages ready
          fun _ ws w hw h => ⟨h.1.snoc hw.elsewhere.prelude, h.2.append [w]⟩) fun _ =>
            Contract.bind (part_stage (S := fun db ws => ∃ pre, ws = pre ++
            [.insertApplication (newApplication env form submission documentId opportunityId d)] ∧
              Prelude pre ∧ Held opportunityId db pre) fun _ ws h => ⟨ws, rfl, h⟩) fun _ =>
            Contract.bind (part_idle Stages.flush ?_) fun _ => ?_
        · rintro ws db w db' ⟨pre, hws, h⟩ happly
          exact ⟨pre, hws, ready pre db w db' h happly⟩
        · refine Contract.bind (part_stage (S := Created orgId key
              { applicationId := d.applicationId, opportunityId, jobId := d.jobId
                trackingToken := if submission.isPublic then some d.trackingToken else none })
              fun db ws h => ?_) fun _ =>
            Contract.bind (part_idle Stages.flush fun _ _ _ _ h happly => Created.apply h happly)
              fun _ => Contract.pure fun _ _ h => Or.inr h
          obtain ⟨pre, rfl, hpre, hheld⟩ := h
          exact ⟨pre, newApplication env form submission documentId opportunityId d,
            applicationJob submission documentId opportunityId d, by simp, hpre,
            ⟨congrArg some horg, rfl, hkey⟩, rfl, rfl, rfl, rfl, hheld⟩

theorem dispatchJob_stages {Φ : Write → Prop} {queueEager : Bool} {id : Uuid} :
    Stages Φ (dispatchJob queueEager id) :=
  Stages.bind (Stages.attempt (Stages.call _)) fun _ => Stages.pure ()

/-- What the write set of a submission names is there when it is committed. -/
theorem Created.named {created : CreatedApplication} (h : Created orgId key created db ws)
    (happly : backend.applyAll db ws = .ok db') : Named orgId key created db' := by
  obtain ⟨pre, a, j, rfl, -, hsubmits, haid, hjid, happlication, hopportunity, -⟩ := h
  obtain ⟨mid, -, hrest⟩ := Backend.applyAll_append_eq_ok.mp happly
  obtain ⟨mid', -, hlast⟩ := Backend.applyAll_cons_eq_ok.mp hrest
  rw [Backend.applyAll_singleton] at hlast
  have hlast : mid'.apply (.insertJob j) = .ok db' := hlast
  obtain ⟨row, hrow, hins⟩ | ⟨_, _, hrow, -⟩ | ⟨hrow, -⟩ := jobs_apply hlast
  · cases hrow
    exact ⟨j, (Table.mem_insert? hins).mpr (Or.inr rfl), hsubmits, hjid,
      happlication.trans (congrArg some haid), hopportunity⟩
  · cases hrow
  · exact absurd rfl hrow

theorem submitApplication_part {principal : Principal}
    {submittedIp idempotencyKey : Option String} :
    Part (fun _ s => s.Holds Prelude)
      (submitApplication env d principal form submittedIp idempotencyKey)
      fun created db _ => ∃ key, given idempotencyKey = some key ∧
        Named principal.orgId key created db := by
  unfold submitApplication
  cases hgiven : given idempotencyKey with
  | none => exact Contract.throw fun _ _ _ => trivial
  | some key =>
      have hkey : key ≠ "" := by
        simp only [given, Option.filter_eq_some_iff, decide_eq_true_eq] at hgiven
        exact hgiven.2
      have named {created : CreatedApplication} :
          Stable backend fun db (_ : Session Write) => Named principal.orgId key created db :=
        stable_of_write fun _ _ _ _ h happly => h.apply happly
      refine Contract.bind (part_of_elsewhere (Stages.call _)) fun _ =>
        Contract.bind (createApplication_part rfl rfl) fun created =>
          Contract.bind (K := fun _ db _ => Named principal.orgId key created db)
            (Contract.commit ?_ (fun _ _ _ => trivial) ?_ ?_) fun _ => ?_
      · exact (named.and (stable_session _)).or
          (stable_holds fun _ _ _ _ h happly => Created.apply h happly)
      · rintro db s (⟨-, hpre⟩ | hcreated) hf
        · exact Or.inl (hpre.resolve_left (by simp [hf]))
        · exact Or.inr ⟨_, key, created, hkey, hcreated.resolve_left (by simp [hf])⟩
      · rintro db s db' (⟨hnamed, -⟩ | hcreated) hf happly
        · exact named db db' s ⟨_, happly⟩ hnamed
        · exact (hcreated.resolve_left (by simp [hf])).named happly
      · have dispatched : Part (fun db _ => Named principal.orgId key created db)
            (dispatchJob env.settings.queueEager created.jobId)
            fun _ db _ => Named principal.orgId key created db :=
          ((dispatchJob_stages (Φ := fun _ => False)).contract named fun _ _ _ h _ => h).consequence
            (fun _ _ h => h) (fun _ _ _ => trivial) fun _ _ _ h => h
        cases created.replayed with
        | true => exact Contract.pure fun _ _ h => ⟨key, rfl, h⟩
        | false => exact Contract.bind dispatched fun _ => Contract.pure fun _ _ h => ⟨key, rfl, h⟩

end Contract

section Blocks

variable {db db' : Db} {ws : List Write} {orgId : Uuid} {key : String} {j j' : Job}

theorem SubmissionBlock.inserts (hb : SubmissionBlock db ws) (h : Write.insertJob j ∈ ws) :
    ∃ pre a orgId key created, ws = pre ++ [.insertApplication a, .insertJob j] ∧ Prelude pre ∧
      key ≠ "" ∧ j.Submits orgId key ∧ j.input.applicationId = some a.id ∧
      j.input.opportunityId = some created ∧ Held created db pre := by
  rcases hb with hpre | ⟨orgId, key, created, hkey, pre, a, j₀, rfl, hpre, hsubmits, -, -,
    happlication, hopportunity, hheld⟩
  · exact absurd rfl (hpre _ h).2
  · simp only [List.mem_append, List.mem_cons, List.not_mem_nil, or_false, reduceCtorEq, false_or,
      Write.insertJob.injEq] at h
    obtain h | rfl := h
    · exact absurd rfl (hpre _ h).2
    · exact ⟨pre, a, orgId, key, _, rfl, hpre, hkey, hsubmits, happlication, hopportunity, hheld⟩

theorem mem_of_prelude {pre : List Write} {a : Application} (hpre : Prelude pre) {w : Write}
    (h : w ∈ pre ++ [.insertApplication a, .insertJob j]) :
    w.Prelude ∨ w = .insertApplication a ∨ w = .insertJob j := by
  simp only [List.mem_append, List.mem_cons, List.not_mem_nil, or_false] at h
  exact h.imp_left (hpre w)

theorem SubmissionBlock.job_unique (hb : SubmissionBlock db ws) (h : Write.insertJob j ∈ ws)
    (h' : Write.insertJob j' ∈ ws) : j = j' := by
  obtain ⟨pre, a, _, _, _, rfl, hpre, -⟩ := hb.inserts h
  obtain hw | hw | hw := mem_of_prelude hpre h'
  · exact absurd rfl hw.2
  · cases hw
  · cases hw
    rfl

theorem SubmissionBlock.application_unique (hb : SubmissionBlock db ws)
    (h : Write.insertJob j ∈ ws) {a a' : Application} (ha : Write.insertApplication a ∈ ws)
    (ha' : Write.insertApplication a' ∈ ws) : a = a' := by
  obtain ⟨pre, a₀, _, _, _, rfl, hpre, -⟩ := hb.inserts h
  have only {b : Application} (hb : Write.insertApplication b ∈
      pre ++ [.insertApplication a₀, .insertJob j]) : b = a₀ := by
    obtain hw | hw | hw := mem_of_prelude hpre hb
    · exact absurd rfl hw.1
    · cases hw
      rfl
    · cases hw
  exact (only ha).trans (only ha').symm

/-- A job of a store is an old one or one that the write set inserts. -/
theorem job_of_applyAll (h : backend.applyAll db ws = .ok db') (hj' : j' ∈ db'.jobs) :
    (∃ j ∈ db.jobs, j.Keeps j') ∨ ∃ j, Write.insertJob j ∈ ws ∧ j.Keeps j' := by
  induction ws generalizing db with
  | nil =>
      cases h
      exact Or.inl ⟨j', hj', .refl j'⟩
  | cons w ws ih =>
      obtain ⟨mid, hw, hrest⟩ := Backend.applyAll_cons_eq_ok.mp h
      obtain ⟨m, hm, mkeeps⟩ | ⟨j, hj, keeps⟩ := ih hrest
      · obtain ⟨j, hj, keeps⟩ | rfl := job_origin hm hw
        · exact Or.inl ⟨j, hj, keeps.trans mkeeps⟩
        · exact Or.inr ⟨m, List.mem_cons_self, mkeeps⟩
      · exact Or.inr ⟨j, List.mem_cons_of_mem _ hj, keeps⟩

theorem job_applyAll (hj : j ∈ db.jobs) (h : backend.applyAll db ws = .ok db') :
    ∃ j' ∈ db'.jobs, j.Keeps j' :=
  Backend.applyAll_inv (P := fun db => ∃ j' ∈ db.jobs, j.Keeps j') (Φ := fun _ => True)
    (fun _ _ _ _ ⟨m, hm, keeps⟩ happly => by
      obtain ⟨j', hj', keeps'⟩ := job_persists hm happly
      exact ⟨j', hj', keeps.trans keeps'⟩)
    (fun _ _ => trivial) ⟨j, hj, .refl j⟩ h

/-- An inserted job is there afterwards, and none had its id before. -/
theorem job_of_insert (hins : Write.insertJob j ∈ ws) (h : backend.applyAll db ws = .ok db') :
    (∃ j' ∈ db'.jobs, j.Keeps j') ∧ ∀ j₀ ∈ db.jobs, j₀.id ≠ j.id := by
  obtain ⟨pre, post, rfl⟩ := List.append_of_mem hins
  obtain ⟨mid, hpre, hrest⟩ := Backend.applyAll_append_eq_ok.mp h
  obtain ⟨mid', hj, hpost⟩ := Backend.applyAll_cons_eq_ok.mp hrest
  have hj : mid.apply (.insertJob j) = .ok mid' := hj
  obtain ⟨row, hrow, hinsert⟩ | ⟨_, _, hrow, -⟩ | ⟨hrow, -⟩ := jobs_apply hj
  · cases hrow
    refine ⟨job_applyAll ((Table.mem_insert? hinsert).mpr (Or.inr rfl)) hpost, fun j₀ hj₀ hid => ?_⟩
    obtain ⟨m, hm, keeps⟩ := job_applyAll hj₀ hpre
    exact Table.fresh_of_insert? hinsert hm (keeps.id.trans hid)
  · cases hrow
  · exact absurd rfl hrow

theorem replayable_applyAll (h : Replayable db j) (happly : backend.applyAll db ws = .ok db') :
    Replayable db' j :=
  Backend.applyAll_inv (P := fun db => Replayable db j) (Φ := fun _ => True)
    (fun _ _ _ _ h happly => h.apply happly) (fun _ _ => trivial) h happly

theorem replayable_of_block (hb : SubmissionBlock db ws) (hins : Write.insertJob j ∈ ws)
    (happly : backend.applyAll db ws = .ok db') : Replayable db' j := by
  obtain ⟨pre, a, _, _, opportunityId, rfl, -, -, -, happlication, hopportunity, hheld⟩ :=
    hb.inserts hins
  obtain ⟨mid, hpre, hrest⟩ := Backend.applyAll_append_eq_ok.mp happly
  obtain ⟨mid', hins, hlast⟩ := Backend.applyAll_cons_eq_ok.mp hrest
  rw [Backend.applyAll_singleton] at hlast
  have hins : mid.apply (.insertApplication a) = .ok mid' := hins
  have hlast : mid'.apply (.insertJob j) = .ok db' := hlast
  have replayable : Replayable mid' j := by
    constructor
    · obtain ⟨row, hrow, hinsert⟩ | ⟨_, _, hrow, -⟩ | ⟨hrow, -⟩ := applications_apply hins
      · cases hrow
        exact ⟨a, (Table.mem_insert? hinsert).mpr (Or.inr rfl), happlication⟩
      · cases hrow
      · exact absurd rfl hrow
    · obtain ⟨o, ho, hid⟩ := hheld.there hpre
      obtain ⟨o', ho', keeps⟩ := opportunity_persists ho hins
      exact ⟨o', ho', by rw [hopportunity, keeps.id, hid]⟩
  exact replayable.apply hlast

end Blocks

section Schedules

variable {env : Env} {w : SubmissionWorld} {a : SubmissionAct} {orgId : Uuid} {key : String}

/-- What a finished submission has answered with is there. -/
def AnswersNamed (answer : SubmissionAnswer) (db : Db) (_ : Session Write) : Prop :=
  ∀ orgId created, answer.2 = .ok (orgId, created) →
    ∃ key, answer.1 = some key ∧ Named orgId key created db

theorem stable_answersNamed (answer : SubmissionAnswer) : Stable backend (AnswersNamed answer) := by
  refine stable_of_write fun s db w db' h happly orgId created hok => ?_
  obtain ⟨key, hkey, hnamed⟩ := h orgId created hok
  exact ⟨key, hkey, hnamed.apply happly⟩

theorem program_relies (r : SubmissionRequest) (db : Db) :
    (r.program env).Relies backend SubmissionBlock AnswersNamed db {} := by
  have part : Part (fun _ s => s.Holds Prelude) (r.serve env) fun answer db _ =>
      ∃ key, given r.idempotencyKey = some key ∧ Named answer.1 key answer.2 db :=
    Tx.Contract.bind (part_of_elsewhere (reads_require _ _ _ _).stages) fun principal =>
      Tx.Contract.bind submitApplication_part fun created => Tx.Contract.pure fun _ _ h => h
  refine Program.relies_bind.mpr
    ((part db {} (Or.inr (by simp [Prelude, Session.pending]))).mono ?_)
  rintro (e | ⟨orgId, created⟩) db s h
  · intro orgId' created' hok
    cases hok
  · intro orgId' created' hok
    cases hok
    exact h

/-- What every action keeps. -/
structure SubmissionInvariant (w : SubmissionWorld) : Prop where
  relies : w.Relies backend SubmissionBlock AnswersNamed
  replayable : ∀ j ∈ w.db.jobs, ∀ orgId key, j.Submits orgId key → Replayable w.db j
  created : ∀ i orgId key a, Creates w i orgId key a → ∃ j ∈ w.db.jobs, j.Submits orgId key

/-- The application that an action adds to a thread's history is in its write set. -/
theorem creates_act {i : Nat} {a' : Application}
    (h : Creates (w.act backend a) i orgId key a') :
    Creates w i orgId key a' ∨ ∃ ws, w.writeSet a = some ws ∧
      backend.applyAll w.db ws = .ok (w.act backend a).db ∧
      (w.act backend a).committed i = w.committed i ++ [ws] ∧
      (∀ k, k ≠ i → (w.act backend a).committed k = w.committed k) ∧
      Write.insertApplication a' ∈ ws ∧ ∃ j, Write.insertJob j ∈ ws ∧ j.Submits orgId key := by
  obtain ⟨ws, hws, happlication, hjob⟩ := h
  rcases World.act_cases (B := backend) (w := w) (a := a) with
    ⟨-, hsame⟩ | ⟨k, vs, hw, happly, hown, hothers⟩
  · rw [hsame] at hws
    exact Or.inl ⟨ws, hws, happlication, hjob⟩
  · by_cases hk : i = k
    · subst hk
      rw [hown, List.mem_append, List.mem_singleton] at hws
      obtain hws | rfl := hws
      · exact Or.inl ⟨ws, hws, happlication, hjob⟩
      · exact Or.inr ⟨ws, hw, happly, hown, hothers, happlication, hjob⟩
    · rw [hothers i hk] at hws
      exact Or.inl ⟨ws, hws, happlication, hjob⟩

theorem submissionInvariant_act (hI : SubmissionInvariant w) (arrives : a.Arrives env) :
    SubmissionInvariant (w.act backend a) := by
  refine ⟨hI.relies.act stable_answersNamed fun p hp => ?_, ?_, ?_⟩
  · obtain ⟨r, rfl⟩ := arrives p hp
    exact program_relies r w.db
  · intro j' hj' orgId key hsubmits
    obtain hdb | ⟨ws, hw, happly⟩ := World.db_act (B := backend) (w := w) (a := a)
    · rw [hdb] at hj' ⊢
      exact hI.replayable j' hj' orgId key hsubmits
    · obtain ⟨j, hj, keeps⟩ | ⟨j, hins, keeps⟩ := job_of_applyAll happly hj'
      · exact (replayable_applyAll (hI.replayable j hj orgId key
          (hsubmits.of_keeps keeps.symm)) happly).of_keeps keeps
      · exact (replayable_of_block (hI.relies.writeSet hw) hins happly).of_keeps keeps
  · intro i orgId key a' hcreates
    obtain hold | ⟨ws, -, happly, -, -, -, j, hins, hsubmits⟩ := creates_act hcreates
    · obtain ⟨j, hj, hsubmits⟩ := hI.created i orgId key a' hold
      obtain hdb | ⟨ws, -, happly⟩ := World.db_act (B := backend) (w := w) (a := a)
      · exact ⟨j, hdb ▸ hj, hsubmits⟩
      · obtain ⟨j', hj', keeps⟩ := job_applyAll hj happly
        exact ⟨j', hj', hsubmits.of_keeps keeps⟩
    · obtain ⟨⟨j', hj', keeps⟩, -⟩ := job_of_insert hins happly
      exact ⟨j', hj', hsubmits.of_keeps keeps⟩

/-- A second job for a key is a job that was committed although the look-up finds one. -/
theorem stillUnclaimed_of_submittedOnce (hI : SubmissionInvariant w)
    (h : SubmittedOnce (w.act backend a)) : StillUnclaimed w a := by
  intro ws db' hw happly j orgId key hins hsubmits
  obtain ⟨_, _, orgId', key', _, -, -, hkey, hsubmits', -⟩ := (hI.relies.writeSet hw).inserts hins
  have hsame : key' = key := Option.some.inj (hsubmits'.2.2.symm.trans hsubmits.2.2)
  subst hsame
  refine (priorApplication_eq_none hkey fun j hj => hI.replayable j hj orgId key').mpr
    fun j₀ hj₀ hsubmits₀ => ?_
  have hdb := World.db_act_of_writeSet hw happly
  obtain ⟨⟨j', hj', keeps⟩, fresh⟩ := job_of_insert hins happly
  obtain ⟨j₀', hj₀', keeps₀⟩ := job_applyAll hj₀ happly
  have hsame := h.job j' (hdb ▸ hj') j₀' (hdb ▸ hj₀') orgId key' (hsubmits.of_keeps keeps)
    (hsubmits₀.of_keeps keeps₀)
  exact fresh j₀ hj₀ (by rw [← keeps₀.id, ← hsame, keeps.id])

/-- A commit whose look-up still finds nothing is the first one with its key. -/
theorem submittedOnce_act (hI : SubmissionInvariant w) (hI' : SubmissionInvariant (w.act backend a))
    (h : SubmittedOnce w) (hc : StillUnclaimed w a) : SubmittedOnce (w.act backend a) := by
  -- a key that is committed now was not there before
  have unclaimed {ws : List Write} {j : Job} {orgId : Uuid} {key : String}
      (hw : w.writeSet a = some ws) (happly : backend.applyAll w.db ws = .ok (w.act backend a).db)
      (hins : Write.insertJob j ∈ ws) (hsubmits : j.Submits orgId key) :
      ∀ j₀ ∈ w.db.jobs, ¬ j₀.Submits orgId key := by
    obtain ⟨_, _, _, key', _, -, -, hkey, hsubmits', -⟩ := (hI.relies.writeSet hw).inserts hins
    have hsame : key' = key := Option.some.inj (hsubmits'.2.2.symm.trans hsubmits.2.2)
    subst hsame
    exact (priorApplication_eq_none hkey fun j hj => hI.replayable j hj orgId key').mp
      (hc ws _ hw happly j orgId key' hins hsubmits)
  have job : ∀ j ∈ (w.act backend a).db.jobs, ∀ j' ∈ (w.act backend a).db.jobs, ∀ orgId key,
      j.Submits orgId key → j'.Submits orgId key → j = j' := by
    intro j hj j' hj' orgId key hsubmits hsubmits'
    obtain hdb | ⟨ws, hw, happly⟩ := World.db_act (B := backend) (w := w) (a := a)
    · rw [hdb] at hj hj'
      exact h.job j hj j' hj' orgId key hsubmits hsubmits'
    · obtain ⟨j₀, hj₀, keeps⟩ | ⟨j₀, hins, keeps⟩ := job_of_applyAll happly hj
      · obtain ⟨j₀', hj₀', keeps'⟩ | ⟨j₀', hins', keeps'⟩ := job_of_applyAll happly hj'
        · have hsame := h.job j₀ hj₀ j₀' hj₀' orgId key (hsubmits.of_keeps keeps.symm)
            (hsubmits'.of_keeps keeps'.symm)
          exact Table.eq_of_key hj hj' (by rw [keeps.id, hsame, keeps'.id])
        · exact absurd (hsubmits.of_keeps keeps.symm) (unclaimed hw happly hins'
            (hsubmits'.of_keeps keeps'.symm) j₀ hj₀)
      · obtain ⟨j₀', hj₀', keeps'⟩ | ⟨j₀', hins', keeps'⟩ := job_of_applyAll happly hj'
        · exact absurd (hsubmits'.of_keeps keeps'.symm) (unclaimed hw happly hins
            (hsubmits.of_keeps keeps.symm) j₀' hj₀')
        · have hsame := (hI.relies.writeSet hw).job_unique hins hins'
          exact Table.eq_of_key hj hj' (by rw [keeps.id, hsame, keeps'.id])
  refine ⟨job, ?_, ?_⟩
  · intro i i' orgId key b b' hb hb'
    obtain hold | ⟨ws, hw, happly, hown, hothers, hins, j, hj, hsubmits⟩ := creates_act hb
    · obtain hold' | ⟨ws, hw, happly, -, -, -, j, hj, hsubmits⟩ := creates_act hb'
      · exact h.application i i' orgId key b b' hold hold'
      · obtain ⟨j₀, hj₀, hsubmits₀⟩ := hI.created i orgId key b hold
        exact absurd hsubmits₀ (unclaimed hw happly hj hsubmits j₀ hj₀)
    · obtain hold' | ⟨ws', hw', -, hown', hothers', hins', -⟩ := creates_act hb'
      · obtain ⟨j₀, hj₀, hsubmits₀⟩ := hI.created i' orgId key b' hold'
        exact absurd hsubmits₀ (unclaimed hw happly hj hsubmits j₀ hj₀)
      · obtain rfl := Option.some.inj (hw.symm.trans hw')
        refine ⟨?_, (hI.relies.writeSet hw).application_unique hj hins hins'⟩
        by_contra hne
        have hsame := hothers i' (Ne.symm hne)
        rw [hown'] at hsame
        simp at hsame
  · rintro i i' orgId key created created' ⟨t, ht, hdone⟩ ⟨t', ht', hdone'⟩
    obtain ⟨_, hkey, j, hj, hsubmits, hid, happlication, hopportunity⟩ :=
      (hI'.relies t (List.mem_of_getElem? ht)).done hdone orgId created rfl
    obtain ⟨_, hkey', j', hj', hsubmits', hid', happlication', hopportunity'⟩ :=
      (hI'.relies t' (List.mem_of_getElem? ht')).done hdone' orgId created' rfl
    cases hkey
    cases hkey'
    obtain rfl := job j hj j' hj' orgId key hsubmits hsubmits'
    exact ⟨Option.some.inj (happlication.symm.trans happlication'),
      Option.some.inj (hopportunity.symm.trans hopportunity'), hid.symm.trans hid'⟩

/-- In every schedule of submissions, each key of a fund is used once in every state exactly
as long as no submission commits a job for a key that another one has claimed meanwhile. -/
theorem submitted_once_iff (env : Env) (db : Db) (schedule : List SubmissionAct)
    (start : KeysReplay db) (arrives : ∀ a ∈ schedule, a.Arrives env) :
    Along (World.act backend) SubmittedOnce { db } schedule ↔
      Meets (World.act backend) StillUnclaimed { db } schedule := by
  have idle (i : Nat) (orgId : Uuid) (key : String) (a : Application) :
      ¬ Creates { db } i orgId key a := by
    rintro ⟨ws, hws, -⟩
    simp [World.committed] at hws
  refine along_iff_meets (I := SubmissionInvariant) (A := SubmissionAct.Arrives env)
    (fun w a arrives hI => submissionInvariant_act hI arrives)
    (fun w a arrives hI h => ⟨stillUnclaimed_of_submittedOnce hI,
      submittedOnce_act hI (submissionInvariant_act hI arrives) h⟩)
    arrives ⟨fun t ht => absurd ht List.not_mem_nil, start.replayable,
      fun i orgId key a h => absurd h (idle i orgId key a)⟩
    ⟨start.unique, fun i i' orgId key a a' h => absurd h (idle i orgId key a), ?_⟩
  rintro i i' orgId key created created' ⟨t, ht, -⟩
  simp at ht

end Schedules

section CoastFund

/-- A fund with an analyst, and a company nobody has submitted yet. -/
def coastDb : Db where
  orgs := ⟨[{ id := 11, name := "Coast Fund", slug := "coast-fund" }], by decide⟩
  users := ⟨[
    { id := 12, orgId := 11, email := "nina@coast.fund", passwordHash := none
      fullName := "Nina" }],
    by decide⟩
  companies := ⟨[{ id := 13, name := "Kelp", normalizedName := "kelp" }], by decide⟩

def coastEnv : Env :=
  { plainEnv with
    decodeAccessToken := fun token _ =>
      if token = "nina" then
        .ok { sub := 12, org := 11, role := .analyst, scopes := [], iat := 0, exp := 1 }
      else .error (Exc.unauthenticated) }

/-- Nina submits the company; a row is numbered after the second of the request. -/
def ninaSubmission (second : Nat) : SubmissionRequest where
  credentials := some { token := "nina" }
  d :=
    { now := Timestamp.seconds second, opportunityId := 100 + second
      applicationId := 200 + second, jobId := 300 + second, personId := 400 + second }
  form := { companyName := "Kelp", website := some "https://kelp.example" }
  idempotencyKey := some "form-1"

theorem keysReplay_coastDb : KeysReplay coastDb :=
  ⟨fun j hj => absurd hj (Table.not_mem_empty j), fun j hj => absurd hj (Table.not_mem_empty j)⟩

/-- A double click: the second request looks for the key before the first has committed. -/
def doubleClick : List SubmissionAct :=
  [.spawn ((ninaSubmission 1).program coastEnv), .spawn ((ninaSubmission 2).program coastEnv)] ++
    List.replicate 3 (.step 1 none) ++ List.replicate 33 (.step 0 none) ++
    List.replicate 30 (.step 1 none)

theorem double_click_submits_twice :
    KeysReplay coastDb ∧ (∀ a ∈ doubleClick, a.Arrives coastEnv) ∧
      ¬ Along (World.act backend) SubmittedOnce { db := coastDb } doubleClick := by
  refine ⟨keysReplay_coastDb, ?_, fun run => ?_⟩
  · intro a ha p hp
    subst hp
    simp only [doubleClick, List.mem_append, List.mem_cons, List.mem_replicate, reduceCtorEq,
      and_false, or_false, List.not_mem_nil, Act.spawn.injEq] at ha
    obtain rfl | rfl := ha
    · exact ⟨_, rfl⟩
    · exact ⟨_, rfl⟩
  · have rows : ((doubleClick.foldl (World.act backend) { db := coastDb }).db.jobs.rows.map
        fun j => (j.id, j.orgId, j.kind, j.idempotencyKey)) =
        [(301, some 11, "application.process", some "form-1"),
          (302, some 11, "application.process", some "form-1")] := by decide +kernel
    obtain ⟨j, hj, hfirst⟩ := List.mem_map.mp (rows ▸ List.mem_cons_self)
    obtain ⟨j', hj', hsecond⟩ := List.mem_map.mp (rows ▸ List.mem_cons_of_mem _ List.mem_cons_self)
    simp only [Prod.mk.injEq] at hfirst hsecond
    have hsame := run.last.job j hj j' hj' 11 "form-1" hfirst.2 hsecond.2
    rw [hsame, hsecond.1] at hfirst
    exact absurd hfirst.1 (by decide)

theorem stillUnclaimed_of_no_jobs {w : SubmissionWorld} {a : SubmissionAct}
    (h : w.db.jobs.rows = []) : StillUnclaimed w a := by
  intro ws db' _ _ j orgId key _ hsubmits
  have hnone : ∀ key, (w.db.jobs.rows.find? fun j => j.orgId = some orgId ∧
      j.kind = "application.process" ∧ j.idempotencyKey = some key) = none := by
    intro key
    rw [h]
    rfl
  simp only [priorApplication, Option.bind_eq_bind, hnone]
  simp

/-- The second click comes when the first request has been answered. -/
def clicksInTurn : List SubmissionAct :=
  .spawn ((ninaSubmission 1).program coastEnv) :: List.replicate 33 (.step 0 none) ++
    .spawn ((ninaSubmission 2).program coastEnv) :: List.replicate 8 (.step 1 none)

/-- Both are answered, the second with what the first created. -/
theorem second_click_replays :
    Along (World.act backend) SubmittedOnce { db := coastDb } clicksInTurn ∧
      ∃ first second,
        Answers (clicksInTurn.foldl (World.act backend) { db := coastDb }) 0 11 "form-1" first ∧
        Answers (clicksInTurn.foldl (World.act backend) { db := coastDb }) 1 11 "form-1" second ∧
        second.replayed = true ∧ second.applicationId = first.applicationId := by
  have commits : Meets (World.act backend) (fun w a => w.db.jobs.rows.isEmpty = true ∨
      ((w.writeSet a).all List.isEmpty) = true) { db := coastDb } clicksInTurn := by
    decide +kernel
  have once : Along (World.act backend) SubmittedOnce { db := coastDb } clicksInTurn := by
    refine (submitted_once_iff coastEnv coastDb clicksInTurn keysReplay_coastDb ?_).mpr ?_
    · intro a ha p hp
      subst hp
      simp only [clicksInTurn, List.cons_append, List.mem_append, List.mem_cons,
        List.mem_replicate, reduceCtorEq, and_false, or_false, false_or, Act.spawn.injEq] at ha
      obtain rfl | rfl := ha
      · exact ⟨_, rfl⟩
      · exact ⟨_, rfl⟩
    · refine commits.mono fun w a h => ?_
      obtain hempty | hnone := h
      · exact stillUnclaimed_of_no_jobs (List.isEmpty_iff.mp hempty)
      · intro ws db' hws _ j orgId key hj _
        rw [hws, Option.all_some, List.isEmpty_iff] at hnone
        rw [hnone] at hj
        cases hj
  let created : CreatedApplication :=
    { applicationId := 201, opportunityId := 101, jobId := 301, trackingToken := none }
  exact ⟨once, created, { created with replayed := true },
    World.result?_eq_some.mp (by decide +kernel), World.result?_eq_some.mp (by decide +kernel),
    rfl, rfl⟩

end CoastFund

end DolphinVC
