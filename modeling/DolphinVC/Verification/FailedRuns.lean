import DolphinVC.Verification.PipelineWrites
import DolphinVC.Transaction.Faulted

/-!
# Runs that fail

The handler of a run writes the job only. What the run committed when it took up its
opportunity stays behind, however early it fails after that: the opportunity is in SCREENING and
the application it loaded in PARSING. A run that could not load its target leaves opportunities
and applications as they were.

Once the memo is stored a run raises only by a statement that its session dies of, and then the
handler cannot store FAILED any more.
-/

namespace DolphinVC

open Relational Transaction

section Run

variable {run : RunEnv} {job : Job} {jobId : Uuid} {fs faults : List (Option Exc)}
  {db db' base : Db} {o : Opportunity} {a? : Option Application} {s : Session Write}
  {past : List (List Write)}

/-- The store after a worker has processed the job alone. `faults` are the exceptions that its
calls and statements raise, in order. -/
def processed (run : RunEnv) (jobId : Uuid) (faults : List (Option Exc)) (db : Db) : Db :=
  ((processJob run jobId).run.exec backend faults db {}).db

/-- The job is there and FAILED. -/
def Failed (jobId : Uuid) (db : Db) : Prop :=
  ∃ job ∈ db.jobs, job.id = jobId ∧ job.status = .failed

/-- Each opportunity has the stage it had, each application its status or ERROR. -/
def LeavesWhole (db db' : Db) : Prop :=
  (∀ o ∈ db.opportunities, ∃ o' ∈ db'.opportunities, o'.id = o.id ∧ o'.stage = o.stage) ∧
  ∀ a ∈ db.applications, ∃ a' ∈ db'.applications, a'.id = a.id ∧
    (a'.status = a.status ∨ a'.status = .error)

/-- The job aims at this opportunity, which is there with its company, and both look-ups are
answered. -/
structure FindsTarget (job : Job) (fs : List (Option Exc)) (db : Db) (o : Opportunity) : Prop where
  target : job.opportunityId = some o.id
  opportunity : o ∈ db.opportunities
  company : ∃ company ∈ db.companies, company.id = o.companyId
  answered : ∀ n < 2, fs[n]?.join = none

/-- The run is an analysis that starts and finds its opportunity. Two statements come first: the
job is read and set to RUNNING. -/
structure TakesUp (job : Job) (faults : List (Option Exc)) (db : Db) (o : Opportunity) : Prop where
  starts : job.status ≠ .cancelled
  answered : ∀ n < 2, faults[n]?.join = none
  analysis : job.kind ≠ "ingest.harvest"
  finds : FindsTarget job (faults.drop 2) db o

/-- The application that the job names, if it is there and the look-up, the fifth statement, is
answered. -/
def Loads (job : Job) (faults : List (Option Exc)) (db : Db) (a : Application) : Prop :=
  job.input.applicationId = some a.id ∧ a ∈ db.applications ∧ faults[4]?.join = none

/-- The rows of opportunities and applications are all there still. -/
def KeepsRows (db db' : Db) : Prop :=
  (∀ o ∈ db.opportunities, o ∈ db'.opportunities) ∧ ∀ a ∈ db.applications, a ∈ db'.applications

theorem KeepsRows.leavesWhole (h : KeepsRows db db') : LeavesWhole db db' :=
  ⟨fun o ho => ⟨o, h.1 o ho, rfl, rfl⟩, fun a ha => ⟨a, h.2 a ha, rfl, Or.inl rfl⟩⟩

/-- Rows of opportunities and applications are inserted at most. -/
def Write.LeavesStages : Write → Prop
  | .updateOpportunity _ _ | .updateApplication _ _ => False
  | _ => True

theorem KeepsRows.apply {w : Write} (h : KeepsRows base db) (hw : w.LeavesStages)
    (happly : db.apply w = .ok db') : KeepsRows base db' := by
  constructor
  · intro o ho
    obtain ⟨row, rfl, hins⟩ | ⟨target, set, rfl, -⟩ | ⟨-, heq⟩ := opportunities_apply happly
    · exact (Table.mem_insert? hins).mpr (Or.inl (h.1 o ho))
    · exact hw.elim
    · rw [heq]
      exact h.1 o ho
  · intro a ha
    obtain ⟨row, rfl, hins⟩ | ⟨target, status, rfl, -⟩ | ⟨-, heq⟩ := applications_apply happly
    · exact (Table.mem_insert? hins).mpr (Or.inl (h.2 a ha))
    · exact hw.elim
    · rw [heq]
      exact h.2 a ha

/-- What spares the rows does so wherever it raises. -/
theorem keepsRows_exec {p : DolphinVC.Tx Unit} (h : Tx.Emits Write.LeavesStages p)
    (hs : s.Holds fun ws => ∀ w ∈ ws, w.LeavesStages) (start : KeepsRows base db) :
    KeepsRows base (p.run.exec backend faults db s).db :=
  (h.to.exec (fun _ _ _ hw hI happly => hI.apply hw happly) hs start faults).2.1

theorem Write.OfHarvest.leavesStages {w : Write} (h : w.OfHarvest job) : w.LeavesStages := by
  cases w with
  | updateOpportunity id set => cases h
  | updateApplication id status => cases h
  | _ => trivial

section Marks

/-- The opportunity is in SCREENING and the application, if there is one, in PARSING; every other
row has the stage or status it had. -/
def Marked (base : Db) (o : Opportunity) (a? : Option Application) (db : Db) : Prop :=
  (∀ x ∈ base.opportunities, ∃ x' ∈ db.opportunities, x'.id = x.id ∧
    x'.stage = if x.id = o.id then .screening else x.stage) ∧
  ∀ x ∈ base.applications, ∃ x' ∈ db.applications, x'.id = x.id ∧
    x'.status = if a?.map Application.id = some x.id then .parsing else x.status

/-- The marks are what stays behind. -/
theorem Marked.leavesWhole_iff (h : Marked base o a? db) (ho : o ∈ base.opportunities)
    (ha : ∀ a, a? = some a → a ∈ base.applications) :
    LeavesWhole base db ↔ o.stage = .screening ∧ ∀ a, a? = some a → a.status = .parsing := by
  constructor
  · rintro ⟨hstages, hstatuses⟩
    constructor
    · obtain ⟨marked, hmarked, hid, hstage⟩ := h.1 o ho
      obtain ⟨same, hsame, hid', hstage'⟩ := hstages o ho
      obtain rfl : marked = same := Table.eq_of_key hmarked hsame (hid.trans hid'.symm)
      rw [if_pos rfl] at hstage
      exact hstage'.symm.trans hstage
    · rintro a rfl
      obtain ⟨marked, hmarked, hid, hstatus⟩ := h.2 a (ha a rfl)
      obtain ⟨same, hsame, hid', hstatus'⟩ := hstatuses a (ha a rfl)
      obtain rfl : marked = same := Table.eq_of_key hmarked hsame (hid.trans hid'.symm)
      rw [if_pos (by rfl)] at hstatus
      rw [hstatus] at hstatus'
      exact (hstatus'.resolve_right nofun).symm
  · rintro ⟨hstage, hstatus⟩
    constructor
    · intro x hx
      obtain ⟨x', hx', hid, hmark⟩ := h.1 x hx
      refine ⟨x', hx', hid, ?_⟩
      split at hmark
      · rename_i hmarked
        obtain rfl : x = o := Table.eq_of_key hx ho hmarked
        exact hmark.trans hstage.symm
      · exact hmark
    · intro x hx
      obtain ⟨x', hx', hid, hmark⟩ := h.2 x hx
      refine ⟨x', hx', hid, Or.inl ?_⟩
      split at hmark
      · rename_i hmarked
        obtain ⟨a, rfl, hax⟩ := Option.map_eq_some_iff.mp hmarked
        obtain rfl : a = x := Table.eq_of_key (ha a rfl) hx hax
        exact hmark.trans (hstatus a rfl).symm
      · exact hmark

/-- The write fails no job. -/
def Write.Unfailing : Write → Prop
  | .insertJob _ => False
  | .updateJob _ set => set.status ≠ some .failed
  | _ => True

/-- Nor does it move a stage or a status. -/
def Write.Unmoving : Write → Prop
  | .updateOpportunity _ set => set.stage = none
  | .updateApplication _ _ | .insertJob _ => False
  | .updateJob _ set => set.status ≠ some .failed
  | _ => True

theorem Write.Unmoving.unfailing {w : Write} (h : w.Unmoving) : w.Unfailing := by
  cases w with
  | insertJob row => exact h
  | updateJob id set => exact h
  | _ => trivial

theorem not_failed_apply {w : Write} (h : ¬ Failed jobId db) (hw : w.Unfailing)
    (happly : db.apply w = .ok db') : ¬ Failed jobId db' := by
  rintro ⟨row, hrow, hid, hfailed⟩
  obtain ⟨new, rfl, -⟩ | ⟨target, set, rfl, heq⟩ | ⟨-, heq⟩ := jobs_apply happly
  · exact hw
  · rw [heq] at hrow
    obtain ⟨old, hold, rfl⟩ := Table.mem_update.mp hrow
    by_cases htarget : old.id = target
    · rw [if_pos htarget] at hid hfailed
      refine h ⟨old, hold, hid, ?_⟩
      cases hset : set.status with
      | none => simpa [Job.patch, hset] using hfailed
      | some status =>
          have : status = .failed := by simpa [Job.patch, hset] using hfailed
          exact absurd (this ▸ hset) hw
    · rw [if_neg htarget] at hid hfailed
      exact h ⟨old, hold, hid, hfailed⟩
  · exact h ⟨row, heq ▸ hrow, hid, hfailed⟩

theorem Marked.apply {w : Write} (h : Marked base o a? db) (hw : w.Unmoving)
    (happly : db.apply w = .ok db') : Marked base o a? db' := by
  constructor
  · intro x hx
    obtain ⟨x', hx', hid, hstage⟩ := h.1 x hx
    obtain ⟨row, rfl, hins⟩ | ⟨target, set, rfl, heq⟩ | ⟨-, heq⟩ := opportunities_apply happly
    · exact ⟨x', (Table.mem_insert? hins).mpr (Or.inl hx'), hid, hstage⟩
    · rw [heq]
      refine ⟨if x'.id = target then x'.patch set else x', Table.mem_update.mpr ⟨x', hx', rfl⟩, ?_⟩
      have hset : set.stage = none := hw
      split
      · exact ⟨hid, by simpa [Opportunity.patch, hset] using hstage⟩
      · exact ⟨hid, hstage⟩
    · exact ⟨x', heq ▸ hx', hid, hstage⟩
  · intro x hx
    obtain ⟨x', hx', hid, hstatus⟩ := h.2 x hx
    obtain ⟨row, rfl, hins⟩ | ⟨target, status, rfl, -⟩ | ⟨-, heq⟩ := applications_apply happly
    · exact ⟨x', (Table.mem_insert? hins).mpr (Or.inl hx'), hid, hstatus⟩
    · exact hw.elim
    · exact ⟨x', heq ▸ hx', hid, hstatus⟩

/-- The statements that mark the application. -/
def parsingWrites : Option Application → List Write
  | none => []
  | some a => if a.status = .parsing then [] else [.updateApplication a.id .parsing]

theorem screened_of_apply (ho : o ∈ db.opportunities) (happly : db.apply
    (.updateOpportunity o.id (o.changes { o with stage := .screening })) = .ok db') :
    (∀ x ∈ db.opportunities, ∃ x' ∈ db'.opportunities, x'.id = x.id ∧
      x'.stage = if x.id = o.id then .screening else x.stage) ∧
    db'.applications = db.applications ∧ db'.jobs = db.jobs := by
  refine ⟨fun x hx => ?_, ?_, ?_⟩
  · obtain ⟨row, hw, -⟩ | ⟨target, set, hw, heq⟩ | ⟨hne, -⟩ := opportunities_apply happly
    · cases hw
    · cases hw
      rw [heq]
      refine ⟨_, Table.mem_update.mpr ⟨x, hx, rfl⟩, ?_⟩
      by_cases hid : x.id = o.id
      · obtain rfl : x = o := Table.eq_of_key hx ho hid
        rw [if_pos rfl, if_pos rfl]
        refine ⟨rfl, ?_⟩
        by_cases hstage : x.stage = .screening
        · simp [Opportunity.patch, Opportunity.changes, changed, hstage]
        · simp [Opportunity.patch, Opportunity.changes, changed, hstage]
      · rw [if_neg hid, if_neg hid]
        exact ⟨rfl, rfl⟩
    · exact absurd rfl hne
  · obtain ⟨row, hw, -⟩ | ⟨target, status, hw, -⟩ | ⟨-, heq⟩ := applications_apply happly
    · cases hw
    · cases hw
    · exact heq
  · obtain ⟨row, hw, -⟩ | ⟨target, set, hw, -⟩ | ⟨-, heq⟩ := jobs_apply happly
    · cases hw
    · cases hw
    · exact heq

theorem parsed_of_apply {a : Application}
    (happly : db.apply (.updateApplication a.id .parsing) = .ok db') :
    (∀ x ∈ db.applications, ∃ x' ∈ db'.applications, x'.id = x.id ∧
      x'.status = if (some a).map Application.id = some x.id then .parsing else x.status) ∧
    db'.opportunities = db.opportunities ∧ db'.jobs = db.jobs := by
  refine ⟨fun x hx => ?_, ?_, ?_⟩
  · obtain ⟨row, hw, -⟩ | ⟨target, status, hw, heq⟩ | ⟨hne, -⟩ := applications_apply happly
    · cases hw
    · cases hw
      rw [heq]
      refine ⟨_, Table.mem_update.mpr ⟨x, hx, rfl⟩, ?_⟩
      by_cases hid : x.id = a.id
      · rw [if_pos hid]
        refine ⟨rfl, (if_pos ?_).symm⟩
        exact congrArg some hid.symm
      · rw [if_neg hid]
        refine ⟨rfl, (if_neg ?_).symm⟩
        exact fun h => hid (Option.some.inj h).symm
    · exact absurd rfl hne
  · obtain ⟨row, hw, -⟩ | ⟨target, set, hw, -⟩ | ⟨-, heq⟩ := opportunities_apply happly
    · cases hw
    · cases hw
    · exact heq
  · obtain ⟨row, hw, -⟩ | ⟨target, set, hw, -⟩ | ⟨-, heq⟩ := jobs_apply happly
    · cases hw
    · cases hw
    · exact heq

/-- The first commit of an analysis sets the marks and leaves the jobs. -/
theorem applyAll_marks (ho : o ∈ db.opportunities) (ha : ∀ a, a? = some a → a ∈ db.applications)
    (happly : backend.applyAll db
      (.updateOpportunity o.id (o.changes { o with stage := .screening }) :: parsingWrites a?) =
        .ok db') : Marked db o a? db' ∧ db'.jobs = db.jobs := by
  obtain ⟨mid, hmid, hrest⟩ := Backend.applyAll_cons_eq_ok.mp happly
  obtain ⟨screened, happlications, hjobs⟩ := screened_of_apply ho hmid
  unfold Marked
  rw [← happlications, ← hjobs]
  rw [← happlications] at ha
  cases a? with
  | none =>
      cases hrest
      exact ⟨⟨screened, fun x hx => ⟨x, hx, rfl, (if_neg nofun).symm⟩⟩, rfl⟩
  | some a =>
      by_cases parsing : a.status = .parsing
      · rw [parsingWrites, if_pos parsing] at hrest
        cases hrest
        refine ⟨⟨screened, fun x hx => ⟨x, hx, rfl, ?_⟩⟩, rfl⟩
        split
        · rename_i hid
          obtain rfl : a = x := Table.eq_of_key (ha a rfl) hx (Option.some.inj hid)
          exact parsing
        · rfl
      · rw [parsingWrites, if_neg parsing] at hrest
        obtain ⟨parsed, hopportunities, hjobs⟩ :=
          parsed_of_apply (Backend.applyAll_singleton.symm.trans hrest)
        rw [hopportunities, hjobs]
        exact ⟨⟨screened, fun x hx => parsed x hx⟩, rfl⟩

end Marks

section Parts

open Tx

/-- A part that would do the same for a job without a target writes no row of a target. -/
theorem unmoving_of_analyses {α : Type} {p : DolphinVC.Tx α}
    (h : ∀ job : Job, Emits (Write.Analyses job o) p) : Emits Write.Unmoving p := by
  have aimless (n : Uuid) : Emits
      (Write.Analyses { id := n, orgId := none, kind := "", createdAt := 0 } o) p := h _
  refine (Emits.forall aimless).weaken fun w hw => ?_
  cases w with
  | updateOpportunity id set => cases (hw 0).1.1
  | updateApplication id status => cases (hw 0).1.1
  | insertJob row => cases (hw 0).1
  | updateJob id set => exact absurd ((hw 0).1.1.symm.trans (hw 1).1.1) Nat.zero_ne_one
  | _ => trivial

theorem recordStep_unmoving {seq : Nat} {action message : String} {progress : Rat} :
    Emits Write.Unmoving (recordStep run job seq action progress message) := by
  refine Emits.bind (Emits.stage trivial) fun _ => Emits.bind (Emits.stage ?_) fun _ =>
    Emits.bind Emits.commit fun _ => Emits.pure _
  simp [Write.Unmoving, Job.changes, Job.stepped]

theorem finishAnalysis_unfailing {result : JobResult} :
    Emits Write.Unfailing (finishAnalysis run job result) := by
  refine Emits.bind (Emits.stage ?_) fun _ => Emits.bind (Emits.stage trivial) fun _ => Emits.commit
  intro hset
  exact absurd (changed_eq_some.mp hset).2 nofun

theorem recordStep_raisesDead {seq : Nat} {action message : String} {progress : Rat} :
    RaisesDead backend (recordStep run job seq action progress message) :=
  (RaisesDead.stage _).bind fun _ => (RaisesDead.stage _).bind fun _ =>
    RaisesDead.commit.bind fun _ => RaisesDead.pure _

theorem finishAnalysis_raisesDead {result : JobResult} :
    RaisesDead backend (finishAnalysis run job result) :=
  (RaisesDead.stage _).bind fun _ => (RaisesDead.stage _).bind fun _ => RaisesDead.commit

/-- How a run that took up `o` and loaded `a?` stops: the job has not failed, and after an
exception whatever can still be committed leaves the marks. -/
def Stops (jobId : Uuid) (base : Db) (o : Opportunity) (a? : Option Application)
    (r : Except Exc Unit) (db : Db) (s : Session Write) : Prop :=
  ¬ Failed jobId db ∧ ∀ e, r = .error e →
    s.Holds fun ws => ∀ db', backend.applyAll db ws = .ok db' → Marked base o a? db'

/-- From a marked store, with writes pending that move nothing, the part stops so. -/
def Carries (jobId : Uuid) (base : Db) (o : Opportunity) (a? : Option Application)
    (p : DolphinVC.Tx Unit) : Prop :=
  ∀ db s, Marked base o a? db → ¬ Failed jobId db → (s.Holds fun ws => ∀ w ∈ ws, w.Unmoving) →
    Always backend (Stops jobId base o a?) p db s

theorem Carries.bind {α : Type} {p : DolphinVC.Tx α} {f : α → DolphinVC.Tx Unit}
    (hp : Emits Write.Unmoving p) (hf : ∀ a, Carries jobId base o a? (f a)) :
    Carries jobId base o a? (p >>= f) := by
  intro db s hmarked running hs
  have keep : ∀ db w db', w.Unmoving → (Marked base o a? db ∧ ¬ Failed jobId db) →
      backend.apply db w = .ok db' → Marked base o a? db' ∧ ¬ Failed jobId db' :=
    fun _ _ _ hw h happly => ⟨h.1.apply hw happly, not_failed_apply h.2 hw.unfailing happly⟩
  refine hp.to.always_bind keep hs ⟨hmarked, running⟩ ?_ ?_
  · intro e db' s' h' hs'
    refine ⟨h'.2, fun _ _ => hs'.imp_right fun hws db'' happly => ?_⟩
    exact (Backend.applyAll_inv keep hws h' happly).1
  · intro a db' s' _ h' hs'
    exact hf a db' s' h'.1 h'.2 hs'

/-- A part that fails no job and raises with a dead session only. -/
theorem stops_of_raisesDead {p : DolphinVC.Tx Unit} (hdead : RaisesDead backend p)
    (hp : Emits Write.Unfailing p) (running : ¬ Failed jobId db)
    (hs : s.Holds fun ws => ∀ w ∈ ws, w.Unfailing) :
    Always backend (Stops jobId base o a?) p db s := by
  intro fs
  obtain ⟨-, running', -⟩ := hp.to.exec (B := backend) (I := fun db => ¬ Failed jobId db)
    (fun _ _ _ hw h happly => not_failed_apply h hw happly) hs running fs
  exact ⟨running', fun e he => Or.inl (hdead fs db s e he)⟩

theorem assignStatus_raisesDead {a : Application} {status : ApplicationStatus} :
    RaisesDead backend (assignStatus a status) :=
  RaisesDead.ite (RaisesDead.pure _) (RaisesDead.stage _)

/-- With the memo the marks go, but from its first write on an exception is the last of the
session. -/
theorem carries_writeMemo {scored : Opportunity} {application? : Option Application}
    {recommendation : Recommendation} {sections : List MemoSection}
    {rest : Unit → DolphinVC.Tx Unit} (hdead : ∀ u, RaisesDead backend (rest u))
    (hrest : ∀ u, Emits Write.Unfailing (rest u)) :
    Carries jobId base o a?
      (writeMemo run scored application? recommendation sections >>= rest) := by
  obtain ⟨store, hstore, hdead', hunfailing⟩ : ∃ store : Nat → DolphinVC.Tx Unit,
      writeMemo run scored application? recommendation sections =
        Tx.call (.evaluate "compose_memo") >>= (fun _ =>
          Tx.query (latestMemoVersion scored.id) >>= store) ∧
      (∀ n, RaisesDead backend (store n)) ∧ ∀ n, Emits Write.Unfailing (store n) := by
    refine ⟨_, rfl, fun n => ?_, fun n => ?_⟩
    · refine (RaisesDead.stage _).bind fun _ => (RaisesDead.stage _).bind fun _ => ?_
      cases application? with
      | none => exact RaisesDead.commit
      | some a => exact assignStatus_raisesDead.bind fun _ => RaisesDead.commit
    · refine Emits.bind (Emits.stage trivial) fun _ => Emits.bind (Emits.stage trivial) fun _ => ?_
      cases application? with
      | none => exact Emits.commit
      | some a =>
          exact Emits.bind (Emits.ite (fun _ => Emits.pure _) fun _ => Emits.stage trivial)
            fun _ => Emits.commit
  have assoc : writeMemo run scored application? recommendation sections >>= rest =
      Tx.call (.evaluate "compose_memo") >>= fun _ =>
        Tx.query (latestMemoVersion scored.id) >>= fun n => store n >>= rest := by
    have := Program.lawfulMonad (σ := Db) (ω := Write) (ε := Exc) (μ := Call)
    rw [hstore, bind_assoc]
    exact bind_congr fun _ => bind_assoc _ _ _
  rw [assoc]
  refine Carries.bind (Emits.call _) fun _ => Carries.bind (Emits.query _) fun n => ?_
  intro db s _ running hs
  exact stops_of_raisesDead ((hdead' n).bind hdead) (Emits.bind (hunfailing n) hrest) running
    (hs.imp_right fun hws w hw => (hws w hw).unfailing)

theorem analyse_carries {company : Company} {application? : Option Application}
    {screening : Opportunity} :
    Carries jobId base o a? (analyse run job screening company application?) := by
  refine Carries.bind recordStep_unmoving fun _ =>
    Carries.bind (unmoving_of_analyses (o := screening) fun _ => ensurePrescreen_emits) fun _ =>
      Carries.bind (unmoving_of_analyses fun _ => gatherClaims_emits) fun _ =>
        Carries.bind recordStep_unmoving fun _ =>
          Carries.bind (unmoving_of_analyses fun _ => scoreAxes_emits) fun _ =>
            Carries.bind Emits.commit fun _ => Carries.bind recordStep_unmoving fun _ =>
              Carries.bind (unmoving_of_analyses fun _ => thesisFit_emits) fun _ =>
                Carries.bind (Emits.stage (changed_self _)) fun _ =>
                  Carries.bind (Emits.call _) fun _ => Carries.bind recordStep_unmoving fun _ =>
                    carries_writeMemo (fun _ => ?_) fun _ => ?_
  · exact recordStep_raisesDead.bind fun _ => finishAnalysis_raisesDead
  · exact Emits.bind (recordStep_unmoving.weaken fun _ hw => hw.unfailing) fun _ =>
      finishAnalysis_unfailing

end Parts

section Start

/-- Neither of the next two statements raises. -/
theorem answered_two_iff : (∀ n < 2, fs[n]?.join = none) ↔
    fs.head?.join = none ∧ fs.tail.head?.join = none := by
  have first : fs[0]?.join = fs.head?.join := by rw [List.head?_eq_getElem?]
  have second : fs[1]?.join = fs.tail.head?.join := by
    rw [List.head?_eq_getElem?, List.getElem?_tail]
  rw [← first, ← second]
  constructor
  · intro h
    exact ⟨h 0 (by decide), h 1 (by decide)⟩
  · intro h n hn
    match n, hn with
    | 0, _ => exact h.1
    | 1, _ => exact h.2

theorem tail_tail : fs.tail.tail = fs.drop 2 := by
  rw [← List.drop_one, ← List.drop_one, List.drop_drop]

theorem loadTarget_exec (job : Job) (fs : List (Option Exc)) (db : Db) (past : List (List Write)) :
    (∃ o company, FindsTarget job fs db o ∧
      (loadTarget job).run.exec backend fs db { committed := past } =
        { result := .ok (o, company), db, session := { committed := past }, faults := fs.drop 2 }) ∨
    (∀ o, ¬ FindsTarget job fs db o) ∧ ∃ e rest,
      (loadTarget job).run.exec backend fs db { committed := past } =
        { result := .error e, db, session := { committed := past }, faults := rest } := by
  unfold loadTarget
  cases htarget : job.targetId.or job.input.opportunityId with
  | none =>
      refine Or.inr ⟨fun o h => ?_, _, _, rfl⟩
      cases htarget.symm.trans h.target
  | some opportunityId =>
      have aims {o : Opportunity} (h : FindsTarget job fs db o) : opportunityId = o.id :=
        Option.some.inj (htarget.symm.trans h.target)
      rw [Tx.exec_query_bind rfl rfl]
      cases hfault : fs.head?.join with
      | some e =>
          refine Or.inr ⟨fun o h => ?_, _, _, rfl⟩
          cases hfault.symm.trans (answered_two_iff.mp h.answered).1
      | none =>
          cases hfound : db.opportunities.find? opportunityId with
          | none =>
              refine Or.inr ⟨fun o h => ?_, _, _, rfl⟩
              exact Table.find?_eq_none_iff.mp hfound o h.opportunity (aims h).symm
          | some found =>
              obtain ⟨hmem, rfl⟩ := Table.find?_eq_some_iff.mp hfound
              have same {o : Opportunity} (h : FindsTarget job fs db o) : found = o :=
                Table.eq_of_key hmem h.opportunity (aims h)
              rw [Tx.exec_query_bind rfl rfl]
              cases hfault' : fs.tail.head?.join with
              | some e =>
                  refine Or.inr ⟨fun o h => ?_, _, _, rfl⟩
                  cases hfault'.symm.trans (answered_two_iff.mp h.answered).2
              | none =>
                  cases hcompany : db.companies.find? found.companyId with
                  | none =>
                      refine Or.inr ⟨fun o h => ?_, _, _, rfl⟩
                      obtain ⟨company, hmem, hid⟩ := h.company
                      rw [← same h] at hid
                      exact Table.find?_eq_none_iff.mp hcompany company hmem hid
                  | some company =>
                      obtain ⟨hmem', hid⟩ := Table.find?_eq_some_iff.mp hcompany
                      exact Or.inl ⟨found, company, ⟨htarget, hmem, ⟨company, hmem', hid⟩,
                        answered_two_iff.mpr ⟨hfault, hfault'⟩⟩, tail_tail ▸ rfl⟩

/-- The application that an analysis marks. -/
def loaded (job : Job) (fs : List (Option Exc)) (db : Db) : Option Application :=
  match fs.head?.join with
  | some _ => none
  | none => job.input.applicationId.bind db.applications.find?

/-- Whether it raises or not, the statements to come are those that mark what it loaded. -/
theorem beginApplication_exec (job : Job) (fs : List (Option Exc)) (db : Db) (s : Session Write)
    (hlive : s.failed = false) (hflushed : s.flushed = []) :
    ((beginApplication job).run.exec backend fs db s).db = db ∧
    ((beginApplication job).run.exec backend fs db s).session =
      { s with dirty := s.dirty ++ parsingWrites (loaded job fs db) } := by
  have quiet : s = { s with dirty := s.dirty ++ parsingWrites none } := by simp [parsingWrites]
  unfold beginApplication loaded
  cases happlication : job.input.applicationId with
  | none =>
      refine ⟨rfl, ?_⟩
      cases fs.head?.join with
      | none => exact quiet
      | some e => exact quiet
  | some applicationId =>
      rw [Tx.exec_query_bind hlive hflushed]
      cases fs.head?.join with
      | some e => exact ⟨rfl, quiet⟩
      | none =>
          rw [Option.bind_some]
          cases db.applications.find? applicationId with
          | none => exact ⟨rfl, quiet⟩
          | some a =>
              by_cases parsing : a.status = .parsing
              · simp only [assignStatus, parsingWrites, if_pos parsing]
                exact ⟨rfl, quiet⟩
              · simp only [assignStatus, parsingWrites, if_neg parsing]
                exact ⟨rfl, rfl⟩

/-- What an analysis does with the opportunity and company it found. -/
def takeUp (run : RunEnv) (job : Job) (o : Opportunity) (company : Company) :
    DolphinVC.Tx Unit := do
  let screening := { o with stage := .screening }
  Tx.stage (.updateOpportunity o.id (o.changes screening))
  let application? ← beginApplication job
  Tx.commit
  analyse run job screening company application?

theorem loaded_mem {a : Application} (h : loaded job fs db = some a) : a ∈ db.applications := by
  unfold loaded at h
  cases hfault : fs.head?.join with
  | some e =>
      rw [hfault] at h
      cases h
  | none =>
      rw [hfault] at h
      obtain ⟨id, -, hfind⟩ := Option.bind_eq_some_iff.mp h
      exact Table.mem_of_find? hfind

theorem takeUp_stops (run : RunEnv) (job : Job) (fs : List (Option Exc))
    (past : List (List Write)) (company : Company) (running : ¬ Failed jobId db)
    (ho : o ∈ db.opportunities) :
    let out := (takeUp run job o company).run.exec backend fs db { committed := past }
    Stops jobId db o (loaded job fs db) out.result out.db out.session := by
  intro out
  have marks {ws : List Write} (hws : ws = .updateOpportunity o.id
      (o.changes { o with stage := .screening }) :: parsingWrites (loaded job fs db)) :
      ∀ db', backend.applyAll db ws = .ok db' →
        Marked db o (loaded job fs db) db' ∧ db'.jobs = db.jobs := by
    rintro db' happly
    rw [hws] at happly
    exact applyAll_marks ho (fun _ h => loaded_mem h) happly
  obtain ⟨hdb, hs⟩ := beginApplication_exec job fs db
    (({ committed := past } : Session Write).stage
      (.updateOpportunity o.id (o.changes { o with stage := .screening }))) rfl rfl
  have hout : out = (beginApplication job >>= fun application? => Tx.commit >>= fun _ =>
      analyse run job { o with stage := .screening } company application?).run.exec backend fs db
        (({ committed := past } : Session Write).stage
          (.updateOpportunity o.id (o.changes { o with stage := .screening }))) := rfl
  rw [Tx.exec_bind, hdb, hs] at hout
  cases hr : ((beginApplication job).run.exec backend fs db _).result with
  | error e =>
      rw [hr] at hout
      dsimp only at hout
      rw [hdb, hs] at hout
      rw [hout]
      exact ⟨running, fun _ _ => Or.inr fun db' happly => (marks rfl db' happly).1⟩
  | ok application? =>
      rw [hr] at hout
      dsimp only at hout
      obtain ⟨mid, -, -, happly, hrun⟩ | ⟨e, -, hrun⟩ := Tx.exec_commit_bind (B := backend)
        (fun _ => analyse run job { o with stage := .screening } company application?) _ db _
      · rw [hout, hrun]
        obtain ⟨hmarked, hjobs⟩ := marks rfl mid happly
        refine analyse_carries mid _ hmarked ?_ (Or.inr fun _ hw => absurd hw List.not_mem_nil) _
        rwa [Failed, hjobs]
      · rw [hout, hrun]
        exact ⟨running, fun _ _ => Or.inl rfl⟩

/-- The handler stores FAILED together with what the body left pending, or nothing. -/
theorem failJob_exec (run : RunEnv) (job : Job) (e : Exc) (fs : List (Option Exc)) (db : Db)
    (s : Session Write) :
    ((failJob run job e).run.exec backend fs db s).db = db ∨
    ∃ mid, s.failed = false ∧ backend.applyAll db s.pending = .ok mid ∧
      ((failJob run job e).run.exec backend fs db s).db =
        { mid with
          jobs := mid.jobs.update job.id
            (Job.patch (job.changes (job.failed (run.now .failure) e))) } := by
  have hbind : failJob run job e =
      Tx.stage (.updateJob job.id (job.changes (job.failed (run.now .failure) e))) >>= fun _ =>
        Tx.commit >>= fun _ => pure () := by
    have := Program.lawfulMonad (σ := Db) (ω := Write) (ε := Exc) (μ := Call)
    rw [failJob, bind_pure_unit]
  rw [hbind, Tx.exec_stage_bind]
  obtain ⟨db', hlive, -, happly, hrun⟩ | ⟨_, -, hrun⟩ :=
    Tx.exec_commit_bind (B := backend) (μ := Call) (fun _ => pure ()) fs db
      (s.stage (.updateJob job.id (job.changes (job.failed (run.now .failure) e))))
  · right
    rw [Session.pending_stage] at happly
    obtain ⟨mid, hmid, hlast⟩ := Backend.applyAll_append_eq_ok.mp happly
    cases hlast
    exact ⟨mid, hlive, hmid, congrArg Outcome.db hrun⟩
  · exact Or.inl (congrArg Outcome.db hrun)

/-- A run that took up its opportunity and failed has left the marks. -/
theorem marked_of_failed {company : Company} (running : ¬ Failed jobId db)
    (ho : o ∈ db.opportunities) (failed : Failed jobId
      ((tryCatch (takeUp run job o company) (failJob run job)).run.exec backend fs db
        { committed := past }).db) :
    Marked db o (loaded job fs db)
      ((tryCatch (takeUp run job o company) (failJob run job)).run.exec backend fs db
        { committed := past }).db := by
  have hstops := takeUp_stops run job fs past company running ho
  rw [Tx.exec_tryCatch] at failed ⊢
  cases hr : ((takeUp run job o company).run.exec backend fs db { committed := past }).result with
  | ok u =>
      rw [hr] at failed
      exact absurd failed hstops.1
  | error e =>
      rw [hr] at failed
      dsimp only at failed ⊢
      obtain hsame | ⟨mid, hlive, happly, heq⟩ := failJob_exec run job e _ _ _
      · rw [hsame] at failed
        exact absurd failed hstops.1
      · rw [heq]
        exact (hstops.2 e hr).resolve_left (by simp [hlive]) mid happly

/-- What a run does once it is RUNNING. -/
def attemptRun (run : RunEnv) (job : Job) : DolphinVC.Tx Unit :=
  tryCatch (runBody run job) (failJob run job)

/-- The store with the job RUNNING. -/
def taken (run : RunEnv) (job : Job) (db : Db) : Db :=
  { db with
    jobs := db.jobs.update job.id (Job.patch (job.changes (job.started (run.now .start)))) }

/-- The session of a run that has started. -/
def started (run : RunEnv) (job : Job) : Session Write where
  committed := [[.updateJob job.id (job.changes (job.started (run.now .start)))]]

/-- A run that starts goes on from the store with the job RUNNING. -/
theorem processed_started (run : RunEnv) (hjob : db.jobs.find? jobId = some job)
    (guard : job.status ≠ .cancelled) (answered : ∀ n < 2, faults[n]?.join = none) :
    processed run jobId faults db =
      ((attemptRun run (job.started (run.now .start))).run.exec backend (faults.drop 2)
        (taken run job db) (started run job)).db := by
  obtain ⟨first, second⟩ := answered_two_iff.mp answered
  rw [processed, processJob, Tx.exec_query_bind rfl rfl, first, hjob]
  dsimp only
  rw [if_neg guard, startJob, Tx.exec_stage_bind]
  obtain ⟨mid, -, -, happly, hrun⟩ | ⟨e, hnone, -⟩ := Tx.exec_commit_bind (B := backend)
    (fun _ => attemptRun run (job.started (run.now .start))) faults.tail db
    (({} : Session Write).stage (.updateJob job.id (job.changes (job.started (run.now .start)))))
  · cases happly
    rw [← tail_tail]
    exact congrArg Outcome.db hrun
  · cases hnone rfl second

/-- Any other run stores nothing. -/
theorem processed_unstarted (run : RunEnv) (hjob : db.jobs.find? jobId = some job)
    (unstarted : ¬ (job.status ≠ .cancelled ∧ ∀ n < 2, faults[n]?.join = none)) :
    processed run jobId faults db = db := by
  rw [processed, processJob, Tx.exec_query_bind rfl rfl, hjob]
  cases first : faults.head?.join with
  | some e => rfl
  | none =>
      dsimp only
      by_cases guard : job.status = .cancelled
      · rw [if_pos guard]
        rfl
      · rw [if_neg guard, startJob, Tx.exec_stage_bind]
        obtain ⟨mid, -, second, -, -⟩ | ⟨e, -, hrun⟩ := Tx.exec_commit_bind (B := backend)
          (fun _ => attemptRun run (job.started (run.now .start))) faults.tail db
          (({} : Session Write).stage
            (.updateJob job.id (job.changes (job.started (run.now .start)))))
        · exact absurd ⟨guard, answered_two_iff.mpr ⟨first, second⟩⟩ unstarted
        · exact congrArg Outcome.db hrun

theorem exec_attemptRun (job : Job) (hkind : job.kind ≠ "ingest.harvest") :
    (attemptRun run job).run.exec backend fs db s =
      match ((loadTarget job).run.exec backend fs db s).result with
      | .ok target => (tryCatch (takeUp run job target.1 target.2) (failJob run job)).run.exec
          backend ((loadTarget job).run.exec backend fs db s).faults
          ((loadTarget job).run.exec backend fs db s).db
          ((loadTarget job).run.exec backend fs db s).session
      | .error e => (failJob run job e).run.exec backend
          ((loadTarget job).run.exec backend fs db s).faults
          ((loadTarget job).run.exec backend fs db s).db
          ((loadTarget job).run.exec backend fs db s).session := by
  have hbody : runBody run job = loadTarget job >>= fun target =>
      takeUp run job target.1 target.2 := if_neg hkind
  rw [attemptRun, hbody, Tx.exec_tryCatch, Tx.exec_bind]
  cases ((loadTarget job).run.exec backend fs db s).result with
  | error e => rfl
  | ok target => exact (Tx.exec_tryCatch _ _).symm

theorem not_failed_taken (hjob : db.jobs.find? jobId = some job) :
    ¬ Failed jobId (taken run job db) := by
  rintro ⟨row, hmem, hid, hfailed⟩
  obtain rfl : job.id = jobId := Table.key_of_find? hjob
  have hrow : (taken run job db).jobs.find? job.id = some row :=
    Table.find?_eq_some_iff.mpr ⟨hmem, hid⟩
  have hpatched : (taken run job db).jobs.find? job.id = (db.jobs.find? job.id).map
      (Job.patch (job.changes (job.started (run.now .start)))) := by
    change (db.jobs.update job.id _).find? job.id = _
    exact Table.find?_update_self _
  rw [hjob] at hpatched
  obtain rfl := Option.some.inj (hrow.symm.trans hpatched)
  by_cases running : job.status = .running
  · simp [Job.patch, Job.changes, Job.started, changed, running] at hfailed
  · simp [Job.patch, Job.changes, Job.started, changed, running] at hfailed

theorem failJob_leavesStages {e : Exc} : Tx.Emits Write.LeavesStages (failJob run job e) :=
  Tx.Emits.bind (Tx.Emits.stage trivial) fun _ => Tx.Emits.commit

theorem attemptRun_leavesStages (hkind : job.kind = "ingest.harvest") :
    Tx.Emits Write.LeavesStages (attemptRun run (job.started (run.now .start))) :=
  Tx.Emits.tryCatch (Tx.Emits.ite
    (fun _ => Tx.Emits.bind ((processHarvest_emits rfl).weaken fun _ h => h.leavesStages) fun _ =>
      dispatchChildren_emits)
    fun hne => absurd hkind hne) fun _ => failJob_leavesStages

/-- The application that the analysis loads, seen from the store before the run. -/
theorem loaded_eq_some_iff (run : RunEnv) (job : Job) (faults : List (Option Exc)) (db : Db)
    (a : Application) :
    loaded (job.started (run.now .start)) ((faults.drop 2).drop 2) (taken run job db) = some a ↔
      Loads job faults db a := by
  have fifth : ((faults.drop 2).drop 2).head?.join = faults[4]?.join := by
    rw [List.drop_drop, List.head?_drop]
  unfold loaded Loads
  rw [fifth]
  cases hfault : faults[4]?.join with
  | some e => simp
  | none =>
      simp only [and_true]
      change (job.input.applicationId.bind db.applications.find?) = some a ↔ _
      rw [Option.bind_eq_some_iff]
      constructor
      · rintro ⟨id, hid, hfind⟩
        obtain ⟨hmem, rfl⟩ := Table.find?_eq_some_iff.mp hfind
        exact ⟨hid, hmem⟩
      · rintro ⟨hid, hmem⟩
        exact ⟨a.id, hid, Table.find?_of_mem hmem⟩

end Start

/-- A FAILED run has left all stages and statuses as they were exactly if it took up no
opportunity, or took up one that was in SCREENING already and loaded no application that was not
in PARSING already. -/
theorem failed_run_leaves_whole_iff (run : RunEnv) (jobId : Uuid) (faults : List (Option Exc))
    (db : Db) (job : Job) (hjob : db.jobs.find? jobId = some job)
    (failed : Failed jobId (processed run jobId faults db)) :
    LeavesWhole db (processed run jobId faults db) ↔ ∀ o, TakesUp job faults db o →
      o.stage = .screening ∧ ∀ a, Loads job faults db a → a.status = .parsing := by
  have idle : KeepsRows db (taken run job db) := ⟨fun _ h => h, fun _ h => h⟩
  have clean : (started run job).Holds fun ws => ∀ w ∈ ws, w.LeavesStages :=
    Or.inr fun _ hw => absurd hw List.not_mem_nil
  by_cases starts : job.status ≠ .cancelled ∧ ∀ n < 2, faults[n]?.join = none
  · have hrun := processed_started run hjob starts.1 starts.2
    by_cases hkind : job.kind = "ingest.harvest"
    · refine iff_of_true ?_ fun o h => absurd hkind h.analysis
      rw [hrun]
      exact (keepsRows_exec (attemptRun_leavesStages hkind) clean idle).leavesWhole
    · rw [exec_attemptRun (job.started (run.now .start)) hkind] at hrun
      obtain ⟨o, company, finds, hload⟩ | ⟨misses, e, rest, hload⟩ :=
        loadTarget_exec (job.started (run.now .start)) (faults.drop 2) (taken run job db)
          (started run job).committed
      · rw [show ({ committed := (started run job).committed } : Session Write) = started run job
          from rfl] at hload
        rw [hload] at hrun
        rw [hrun] at failed ⊢
        have marked := marked_of_failed (not_failed_taken hjob) finds.opportunity failed
        refine (marked.leavesWhole_iff finds.opportunity fun a h => loaded_mem h).trans ?_
        simp only [loaded_eq_some_iff]
        have takesUp : TakesUp job faults db o :=
          ⟨starts.1, starts.2, hkind, ⟨finds.target, finds.opportunity, finds.company,
            finds.answered⟩⟩
        constructor
        · intro h o' h'
          obtain rfl : o = o' := Table.eq_of_key finds.opportunity h'.finds.opportunity
            (Option.some.inj (finds.target.symm.trans h'.finds.target))
          exact h
        · exact fun h => h o takesUp
      · rw [show ({ committed := (started run job).committed } : Session Write) = started run job
          from rfl] at hload
        rw [hload] at hrun
        refine iff_of_true ?_ fun o h => absurd ⟨h.finds.target, h.finds.opportunity,
          h.finds.company, h.finds.answered⟩ (misses o)
        rw [hrun]
        exact (keepsRows_exec failJob_leavesStages clean idle).leavesWhole
  · refine iff_of_true ?_ fun o h => absurd ⟨h.starts, h.answered⟩ starts
    rw [processed_unstarted run hjob starts]
    exact KeepsRows.leavesWhole ⟨fun _ h => h, fun _ h => h⟩

end Run

section JettyFund

/-- A deck without a line of text. -/
def blankDeck : Analysis where
  parseDeck _ := []
  extractClaims _ := []
  scoreAxis _ _ _ _ := ⟨0, 0, ""⟩
  thesisFit _ _ := .ok (0, none)
  recommend _ _ _ _ := ⟨.needsHuman, ""⟩

def jettyRun : RunEnv where
  env := plainEnv
  analysis := blankDeck
  now := fun _ => 0
  id := fun _ => 0
  enabled := fun _ => true
  harvested := fun _ => []

def jettyJob : Job where
  id := 6
  orgId := some 1
  kind := "application.process"
  targetId := some 3
  input := { applicationId := some 8, documentId := some 4 }
  createdAt := 0

def jettyApplication : Application where
  id := 8
  orgId := 1
  companyName := "Knot"
  deckDocumentId := some 4
  contactEmail := none
  contactName := none
  website := none
  artifacts := []
  notes := none
  submittedIp := none
  sourceChannel := "public"
  opportunityId := some 3
  receivedAt := 0
  trackingTokenHash := "jetty"

/-- A company whose application with a deck waits to be processed. -/
def jettyDb : Db where
  orgs := ⟨[{ id := 1, name := "Jetty Fund", slug := "jetty-fund" }], by decide⟩
  companies := ⟨[{ id := 2, name := "Knot", normalizedName := "knot" }], by decide⟩
  opportunities := ⟨[
    { id := 3, orgId := 1, companyId := 2, origin := .inbound, title := some "Knot"
      firstSignalAt := 0, slaDeadlineAt := 0 }], by decide⟩
  documents := ⟨[
    { id := 4, orgId := some 1, companyId := some 2, kind := "deck", filename := none, mime := none
      sizeBytes := none, sha256 := "locked", s3Key := "locked", uploadedBy := none }], by decide⟩
  applications := ⟨[jettyApplication], by decide⟩
  jobs := ⟨[jettyJob], by decide⟩

/-- Everything answers until the deck is parsed. -/
def lockedDeck : List (Option Exc) :=
  List.replicate 12 none ++ [some (Exc.raised "DeckParseError" "encrypted deck")]

instance (jobId : Uuid) (db : Db) : Decidable (Failed jobId db) :=
  inferInstanceAs (Decidable (∃ job ∈ db.jobs, job.id = jobId ∧ job.status = .failed))

instance (db db' : Db) : Decidable (LeavesWhole db db') :=
  inferInstanceAs (Decidable (_ ∧ _))

/-- The run fails on the deck: the opportunity is in SCREENING and the application in PARSING. -/
theorem locked_deck_half_started :
    ¬ ∀ (run : RunEnv) (jobId : Uuid) (faults : List (Option Exc)) (db : Db),
      Failed jobId (processed run jobId faults db) →
      LeavesWhole db (processed run jobId faults db) := by
  intro h
  have failed : Failed 6 (processed jettyRun 6 lockedDeck jettyDb) := by decide +kernel
  exact absurd (h jettyRun 6 lockedDeck jettyDb failed) (by decide +kernel)

/-- The same once the run above has failed: the row of the opportunity is in SCREENING and the
application in PARSING. -/
def halfStartedDb : Db :=
  { jettyDb with
    opportunities := ⟨[
      { id := 3, orgId := 1, companyId := 2, origin := .inbound, stage := .screening
        title := some "Knot", firstSignalAt := 0, slaDeadlineAt := 0 }], by decide⟩
    applications := ⟨[{ jettyApplication with status := .parsing }], by decide⟩ }

/-- A second attempt takes the opportunity up, fails on the deck and leaves it as it was. -/
theorem second_attempt_leaves_whole :
    TakesUp jettyJob lockedDeck halfStartedDb
      { id := 3, orgId := 1, companyId := 2, origin := .inbound, stage := .screening
        title := some "Knot", firstSignalAt := 0, slaDeadlineAt := 0 } ∧
    Loads jettyJob lockedDeck halfStartedDb { jettyApplication with status := .parsing } ∧
    LeavesWhole halfStartedDb (processed jettyRun 6 lockedDeck halfStartedDb) := by
  refine ⟨⟨by decide, by decide, by decide, ⟨rfl, List.mem_singleton_self _,
    by decide, by decide⟩⟩, ⟨rfl, List.mem_singleton_self _, by decide⟩, ?_⟩
  refine (failed_run_leaves_whole_iff jettyRun 6 lockedDeck halfStartedDb jettyJob
    (by decide +kernel) (by decide +kernel)).mpr fun o takesUp => ⟨?_, fun a loads => ?_⟩
  · obtain rfl := List.mem_singleton.mp takesUp.finds.opportunity
    rfl
  · obtain rfl := List.mem_singleton.mp loads.2.1
    rfl

end JettyFund

end DolphinVC
