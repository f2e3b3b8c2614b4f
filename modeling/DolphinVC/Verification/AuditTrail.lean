import DolphinVC.Transition.Trail
import DolphinVC.Verification.Credentials
import DolphinVC.Verification.Decisions
import DolphinVC.Verification.RequestWrites

/-!
# The audit trail of decisions

The decisions that the opportunities store are a register, and the audit log is its trail: a
decision updates the row and appends its record in one commit, and nothing else writes the
decision columns or such a record. So the log tells, for each opportunity, what it stores, in
whatever order requests and job runs commit. The same step lemma says who can change a stored
decision at all: a principal of the fund with the permission to decide and a key that no record
carries, and no job run.

A request is one atomic step here. Two decides that overlap can both look up their keys before
either commits.
-/

namespace DolphinVC

open Relational Transaction Transition

/-- The decision an opportunity stores and the user it is from. -/
abbrev Verdict := DecisionKind × Option Uuid

def Opportunity.verdict (o : Opportunity) : Option Verdict :=
  o.decision.map fun kind => (kind, o.decisionBy)

def Db.verdicts (db : Db) (id : Uuid) : Option Verdict :=
  (db.opportunities.find? id).bind Opportunity.verdict

/-- What a row of the audit log tells of an opportunity. -/
def AuditLog.tells (a : AuditLog) : Option (Uuid × Verdict) :=
  if a.action = "opportunity.decide" then
    a.targetId.bind fun id => a.metaDecision.map fun kind => (id, kind, a.actorUserId)
  else none

/-- What the trail tells of every opportunity. -/
def Db.told (db : Db) : Uuid → Option Verdict := replay AuditLog.tells db.auditLog

/-- Every record of a decision names the opportunity and the decision. -/
def Db.RecordsNamed (db : Db) : Prop :=
  ∀ a ∈ db.auditLog, a.action = "opportunity.decide" → a.tells.isSome

section Writes

open Tx

variable {db db' : Db} {w : Write}

/-- The write decides nothing, and an opportunity it inserts is undecided. -/
def Write.Silent (w : Write) : Prop :=
  w.Undeciding ∧ ∀ row, w = .insertOpportunity row → row.decision = none

theorem Write.Undeciding.silent (h : w.Undeciding) (off : w.Quiet) : w.Silent := by
  refine ⟨h, fun row heq => ?_⟩
  subst heq
  exact absurd rfl off

theorem Write.OfQueue.silent (h : w.OfQueue) : w.Silent := h.undeciding.silent h.quiet

theorem Write.OfAuth.silent (h : w.OfAuth) : w.Silent := h.undeciding.silent h.target_ne.1

theorem Write.OfRun.silent (h : w.OfRun) : w.Silent := by
  refine ⟨h.undeciding, fun row heq => ?_⟩
  subst heq
  exact h.2

/-- The verdicts and the trail of one store are those of the other, which has the longer log. -/
structure SameVerdicts (db db' : Db) : Prop where
  stored : db'.verdicts = db.verdicts
  told : db'.told = db.told
  log : db.auditLog <+: db'.auditLog
  named : db.RecordsNamed → db'.RecordsNamed

theorem SameVerdicts.refl (db : Db) : SameVerdicts db db := ⟨rfl, rfl, List.prefix_rfl, id⟩

theorem SameVerdicts.trans {db'' : Db} (h : SameVerdicts db db') (h' : SameVerdicts db' db'') :
    SameVerdicts db db'' :=
  ⟨h'.stored.trans h.stored, h'.told.trans h.told, h.log.trans h'.log, h'.named ∘ h.named⟩

theorem verdict_patch {o : Opportunity} {set : OpportunityPatch}
    (h : (Write.updateOpportunity o.id set).Undeciding) : (o.patch set).verdict = o.verdict := by
  obtain ⟨hdecision, -, hby⟩ := patch_undeciding (o := o) h
  rw [Opportunity.verdict, hdecision, hby]
  rfl

theorem verdicts_apply (hw : w.Silent) (h : db.apply w = .ok db') : db'.verdicts = db.verdicts := by
  funext id
  unfold Db.verdicts
  obtain ⟨row, rfl, hins⟩ | ⟨id', set, rfl, hupd⟩ | ⟨-, heq⟩ := opportunities_apply h
  · by_cases hid : row.id = id
    · subst hid
      have hrow : row ∈ db'.opportunities := (Table.mem_insert? hins).mpr (Or.inr rfl)
      rw [Table.find?_of_mem hrow, (Table.insert?_eq_some_iff.mp hins).1]
      simp [Opportunity.verdict, hw.2 row rfl]
    · rw [Table.find?_insert?_of_ne hins hid]
  · by_cases hid : id = id'
    · subst hid
      have hfind : db'.opportunities.find? id =
          (db.opportunities.find? id).map (Opportunity.patch set) := by
        rw [hupd]
        exact Table.find?_update_self id
      rw [hfind]
      cases db.opportunities.find? id with
      | none => rfl
      | some o => exact verdict_patch (o := o) hw.1
    · have hfind : db'.opportunities.find? id = db.opportunities.find? id := by
        rw [hupd]
        exact Table.find?_update_of_ne (Ne.symm hid)
      rw [hfind]
  · rw [heq]

theorem told_apply (hw : w.Silent) (h : db.apply w = .ok db') :
    db'.told = db.told ∧ db.auditLog <+: db'.auditLog ∧ (db.RecordsNamed → db'.RecordsNamed) := by
  unfold Db.told Db.RecordsNamed
  obtain ⟨row, rfl, hlog⟩ | ⟨-, hlog⟩ := auditLog_apply h
  · have haction : row.action ≠ "opportunity.decide" := hw.1
    rw [hlog]
    refine ⟨replay_silent (if_neg haction), List.prefix_append _ _, fun named a ha hdecide => ?_⟩
    obtain hold | hnew := List.mem_append.mp ha
    · exact named a hold hdecide
    · exact absurd (List.mem_singleton.mp hnew ▸ hdecide) haction
  · rw [hlog]
    exact ⟨rfl, List.prefix_rfl, id⟩

theorem sameVerdicts_apply (hw : w.Silent) (h : db.apply w = .ok db') : SameVerdicts db db' := by
  obtain ⟨htold, hlog, hnamed⟩ := told_apply hw h
  exact ⟨verdicts_apply hw h, htold, hlog, hnamed⟩

/-- A decision is recorded in the register and on the trail. -/
theorem verdicts_decided {o : Opportunity} (principal : Principal) (body : DecisionRequest)
    (key : String) (now : Timestamp) (ho : o ∈ db.opportunities) :
    (decided principal body key now o db).verdicts =
        record db.verdicts o.id (body.decision, principal.userId) ∧
      (decided principal body key now o db).told =
        record db.told o.id (body.decision, principal.userId) := by
  refine ⟨?_, replay_told rfl⟩
  funext id
  unfold Db.verdicts
  by_cases hid : id = o.id
  · subst hid
    have hfind : (decided principal body key now o db).opportunities.find? o.id =
        (db.opportunities.find? o.id).map
          (Opportunity.patch (o.changes (body.assign principal now o))) := by
      show (db.opportunities.update o.id
        (Opportunity.patch (o.changes (body.assign principal now o)))).find? o.id = _
      exact Table.find?_update_self o.id
    rw [hfind, Table.find?_of_mem ho, record_self, Option.map_some, patch_assign_decision]
    rfl
  · have hfind : (decided principal body key now o db).opportunities.find? id =
        db.opportunities.find? id := by
      show (db.opportunities.update o.id
        (Opportunity.patch (o.changes (body.assign principal now o)))).find? id = _
      exact Table.find?_update_of_ne (Ne.symm hid)
    rw [hfind, record_of_ne hid]

theorem recordsNamed_decided {o : Opportunity} (principal : Principal) (body : DecisionRequest)
    (key : String) (now : Timestamp) (named : db.RecordsNamed) :
    (decided principal body key now o db).RecordsNamed := by
  intro a ha hdecide
  obtain hold | hnew := List.mem_append.mp ha
  · exact named a hold hdecide
  · rw [List.mem_singleton.mp hnew]
    rfl

end Writes

section Steps

open Tx

variable {env : Env} {s : DealState}

/-- An event whose writes all have the property keeps what each of these writes keeps. -/
theorem keeps_of_writes {I : Db → Prop} {Φ : Write → Prop} (a : DealEvent)
    (hb : s.Blocks RunBlock)
    (keep : ∀ db w db', Φ w → I db → db.apply w = .ok db' → I db')
    (requests : ∀ credentials d r, a = .request credentials d r →
      Emits Φ (r.serve env credentials d))
    (ofAuth : ∀ w : Write, w.OfAuth → Φ w) (ofQueue : ∀ w : Write, w.OfQueue → Φ w)
    (ofRun : ∀ w : Write, w.OfRun → Φ w) (hI : I s.db) : I (dealStep env s a).db := by
  have served {α : Type} {p : DolphinVC.Tx α} (hp : Emits Φ p) : I (p.atomically backend s.db).2 :=
    Commits.atomically (I := I) (hp.commits Journal.all_empty) keep hI
  cases a with
  | request credentials d r => exact served (requests credentials d r rfl)
  | auth r d => exact served ((auth_writes r).weaken ofAuth)
  | reap now => exact served (reapStaleJobs_queues.weaken ofQueue)
  | deliver run jobId => exact hI
  | run i faults =>
      obtain heq | ⟨ws, -, hws, happly⟩ := run_cases env hb i faults
      · rw [heq]
        exact hI
      · exact Backend.applyAll_inv keep (fun w hw => ofRun w (hws w hw)) hI happly

/-- The event is a request to decide that gets through: its principal has the permission, the
opportunity is one of the principal's fund and not archived, and a pass has evidence. -/
def Decides (env : Env) (db : Db) (a : DealEvent) (id : Uuid) (verdict : Verdict) (o : Opportunity)
    (key : String) : Prop :=
  ∃ credentials d body idempotencyKey principal,
    a = .request credentials d (.decide id body idempotencyKey) ∧
      principal.has .decide = true ∧
      Reaches env db credentials d.now id idempotencyKey principal o key ∧ ¬ Replays o key db ∧
      (body.decision = .pass → hasEvidence id db = true) ∧
      verdict = (body.decision, principal.userId)

/-- An event leaves the verdicts and the trail alone, or it decides and records it in both. -/
theorem verdicts_step (a : DealEvent) (hb : s.Blocks RunBlock) :
    SameVerdicts s.db (dealStep env s a).db ∨
    ∃ id verdict o key, Decides env s.db a id verdict o key ∧
      (dealStep env s a).db.verdicts = record s.db.verdicts id verdict ∧
      (dealStep env s a).db.told = record s.db.told id verdict ∧
      s.db.auditLog <+: (dealStep env s a).db.auditLog ∧
      (s.db.RecordsNamed → (dealStep env s a).db.RecordsNamed) := by
  by_cases other : ∀ credentials d opportunityId body idempotencyKey,
      a ≠ .request credentials d (.decide opportunityId body idempotencyKey)
  · refine Or.inl (keeps_of_writes (Φ := Write.Silent) (I := SameVerdicts s.db) a hb
      (fun _ _ _ hw hI happly => hI.trans (sameVerdicts_apply hw happly)) ?_
      (fun _ hw => hw.silent) (fun _ hw => hw.silent) (fun _ hw => hw.silent) (.refl _))
    rintro credentials d r rfl
    by_cases cancels : ∃ jobId, r = .cancelJob jobId
    · obtain ⟨jobId, rfl⟩ := cancels
      exact cancelJob_queues.weaken fun _ hw => hw.silent
    · have plain : Emits (Write.OfPlain d.now) (r.serve env credentials d) :=
        serve_plain r fun opportunityId body idempotencyKey heq =>
          other credentials d _ _ _ (congrArg _ heq)
      have requested : Emits (Write.Requested d.now) (r.serve env credentials d) :=
        serve_requested r fun jobId heq => cancels ⟨jobId, heq⟩
      refine (plain.and requested).weaken fun w hw => ⟨hw.1.2, fun row heq => ?_⟩
      subst heq
      exact hw.2
  · simp only [ne_eq, not_forall, not_not] at other
    obtain ⟨credentials, d, id, body, idempotencyKey, rfl⟩ := other
    rw [decided_step ⟨s, [], none⟩]
    rcases decide_outcome env s.db credentials d id body idempotencyKey with
      ⟨hsame, -⟩ | ⟨principal, o, key, reaches, hnew, hpass, hdb, -⟩
    · rw [hsame]
      exact Or.inl (.refl _)
    · obtain ⟨ho, hid, -⟩ := reaches.found
      obtain ⟨hstored, htold⟩ := verdicts_decided principal body key d.now ho
      rw [hdb]
      rw [hid] at hstored htold hpass
      exact Or.inr ⟨id, (body.decision, principal.userId), o, key,
        ⟨credentials, d, body, idempotencyKey, principal, rfl,
          (stems_of_require reaches.admitted).1, reaches, hnew, hpass, rfl⟩,
        hstored, htold, List.prefix_append _ _, recordsNamed_decided principal body key d.now⟩

end Steps

section Trail

variable {db : Db}

/-- Every stored decision, with the user it is from, is what the last record about its opportunity
says; no record is about an opportunity that stores none. -/
def OnTrail (db : Db) : Prop :=
  ∀ id verdict, db.verdicts id = some verdict ↔
    ∃ before a after, db.auditLog = before ++ a :: after ∧ a.tells = some (id, verdict) ∧
      ∀ a' ∈ after, ∀ other, a'.tells ≠ some (id, other)

theorem onTrail_iff : OnTrail db ↔ db.verdicts = db.told := by
  unfold OnTrail
  simp only [← replay_eq_some]
  constructor
  · intro h
    funext id
    exact Option.ext fun verdict => h id verdict
  · intro h id verdict
    rw [h]
    rfl

/-- What a run keeps from a state with the trail. -/
structure Trailed (db : Db) (s : DealState) : Prop where
  blocks : s.Blocks RunBlock
  trail : OnTrail s.db
  log : db.auditLog <+: s.db.auditLog
  named : db.RecordsNamed → s.db.RecordsNamed

theorem trailed_run (env : Env) (events : List DealEvent) (start : OnTrail db) :
    Along (dealStep env) (Trailed db) { db } events := by
  refine along_of_step ?_ ⟨fun _ ht => absurd ht List.not_mem_nil, start, List.prefix_rfl, id⟩
  rintro s a ⟨hb, trail, hlog, hnamed⟩
  have hb' : (dealStep env s a).Blocks RunBlock := blocks_step hb a processJob_runBlocks
  rw [onTrail_iff] at trail
  obtain same | ⟨id, verdict, o, key, -, hverdicts, htold, hlog', hnamed'⟩ := verdicts_step a hb
  · exact ⟨hb', onTrail_iff.mpr (same.stored.trans (trail.trans same.told.symm)),
      hlog.trans same.log, same.named ∘ hnamed⟩
  · exact ⟨hb', onTrail_iff.mpr (by rw [hverdicts, htold, trail]), hlog.trans hlog',
      hnamed' ∘ hnamed⟩

/-- The log is only appended to, and in every run it goes on telling what the opportunities
store. -/
theorem decisions_stay_on_trail (env : Env) (db : Db) (events : List DealEvent)
    (start : OnTrail db) :
    Along (dealStep env) (fun s => OnTrail s.db ∧ db.auditLog <+: s.db.auditLog) { db } events :=
  (trailed_run env events start).mono fun _ h => ⟨h.trail, h.log⟩

/-- Where the trail tells what is stored, a decision that is no replay has a new key: no record of
the fund about the opportunity carries it. -/
theorem Decides.fresh {env : Env} {a : DealEvent} {id : Uuid} {verdict : Verdict} {o : Opportunity}
    {key : String} (h : Decides env db a id verdict o key) (trail : OnTrail db)
    (named : db.RecordsNamed) : alreadyDecided o.orgId o.id key db = false := by
  obtain ⟨credentials, d, body, idempotencyKey, principal, -, -, reaches, hnew, -, -⟩ := h
  by_contra used
  rw [Bool.not_eq_false] at used
  refine hnew ⟨used, ?_⟩
  obtain ⟨a, ha, -, haction, htarget, -⟩ : ∃ a ∈ db.auditLog, a.orgId = some o.orgId ∧
      a.action = "opportunity.decide" ∧ a.targetId = some o.id ∧
        a.metaIdempotencyKey = some key := by
    simpa [alreadyDecided] using used
  obtain ⟨⟨target, told⟩, htells⟩ := Option.isSome_iff_exists.mp (named a ha haction)
  obtain rfl : target = o.id := by
    rw [AuditLog.tells, if_pos haction, htarget] at htells
    obtain ⟨kind, -, heq⟩ := Option.map_eq_some_iff.mp htells
    exact (congrArg Prod.fst heq).symm
  have stored : (db.verdicts o.id).isSome := by
    rw [onTrail_iff.mp trail]
    exact replay_isSome ha htells
  rw [Db.verdicts, Table.find?_of_mem reaches.found.1] at stored
  simpa [Opportunity.verdict] using stored

/-- In every run an opportunity is decided anew only by such a request, with a key that no record
about it carries, and then stores what it asked for. -/
theorem only_deciders_decide (env : Env) (db : Db) (events : List DealEvent) (start : OnTrail db)
    (named : db.RecordsNamed) :
    Meets (dealStep env) (fun s a => ∀ id, (dealStep env s a).db.verdicts id ≠ s.db.verdicts id →
      ∃ verdict o key, Decides env s.db a id verdict o key ∧
        alreadyDecided o.orgId id key s.db = false ∧
        (dealStep env s a).db.verdicts id = some verdict) { db } events := by
  refine meets_of_along (trailed_run env events start) ?_
  intro s a h id hchanged
  rcases verdicts_step a h.blocks with
    same | ⟨id', verdict, o, key, hdecides, hverdicts, -, -, -⟩
  · exact absurd (congrFun same.stored id) hchanged
  · by_cases hid : id = id'
    · subst hid
      have fresh := hdecides.fresh h.trail (h.named named)
      have aimed : o.id = id := by
        obtain ⟨_, _, _, _, _, -, -, reaches, -⟩ := hdecides
        exact reaches.found.2.1
      rw [aimed] at fresh
      exact ⟨verdict, o, key, hdecides, fresh, by rw [hverdicts, record_self]⟩
    · rw [hverdicts, record_of_ne hid] at hchanged
      exact absurd rfl hchanged

theorem tidal_onTrail : OnTrail tidalDb := by
  refine onTrail_iff.mpr (funext fun id => ?_)
  unfold Db.verdicts
  cases h : tidalDb.opportunities.find? id with
  | none => rfl
  | some o =>
      obtain rfl := List.mem_singleton.mp (Table.mem_of_find? h)
      rfl

theorem tidal_decisions_on_trail :
    OnTrail tidalDb ∧ Along (dealStep fundEnv)
      (fun s => OnTrail s.db ∧ tidalDb.auditLog <+: s.db.auditLog) { db := tidalDb }
      tidalDecisions :=
  ⟨tidal_onTrail, decisions_stay_on_trail fundEnv tidalDb tidalDecisions tidal_onTrail⟩

/-- Carol's first request changes what the opportunity stores, under a new key. -/
theorem carol_decides :
    ∃ verdict o key, Decides fundEnv tidalDb (tidalDecisions.head (by decide)) 91 verdict o key ∧
      alreadyDecided o.orgId 91 key tidalDb = false ∧
      (dealStep fundEnv { db := tidalDb } (tidalDecisions.head (by decide))).db.verdicts 91 =
        some verdict := by
  have named : tidalDb.RecordsNamed := fun _ ha => absurd ha List.not_mem_nil
  have run := only_deciders_decide fundEnv tidalDb tidalDecisions tidal_onTrail named
  refine run.1 91 ?_
  decide +kernel

end Trail

end DolphinVC
