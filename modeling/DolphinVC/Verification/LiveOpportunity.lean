import DolphinVC.Transition.Run
import DolphinVC.Verification.AuthWrites
import DolphinVC.Verification.Deals
import DolphinVC.Verification.HarvestLoop

/-!
# At most one live opportunity per fund and company

The three creators look for a live row in the block that inserts one, so their write
sets are `Safe`: they keep the invariant whatever the store is. `Guarded` is the session
invariant behind that. An analysis is not safe: it moves the row of its opportunity to
SCREENING and later to DECISION without looking at its stage, and so does an edit that
assigns a stage. Both break the rule in one way only, by reviving an archived row beside
a live one of the same fund and company (`Revives`).
-/

namespace DolphinVC

open Transaction Transition Relational

def LiveUnique (db : Db) : Prop :=
  ∀ o ∈ db.opportunities, ∀ o' ∈ db.opportunities, o.stage ≠ .archived → o'.stage ≠ .archived →
    o.orgId = o'.orgId → o.companyId = o'.companyId → o = o'

/-- An archived row goes live beside another live row of its fund and company. -/
def Revives (db : Db) (o o' : Opportunity) : Prop :=
  o.stage = .archived ∧ o'.stage ≠ .archived ∧
    ∃ other ∈ db.opportunities, other.orgId = o.orgId ∧ other.companyId = o.companyId ∧
      other.stage ≠ .archived

section Rows

variable {db db' : Db}

theorem LiveUnique.of_eq (h : LiveUnique db) (heq : db'.opportunities = db.opportunities) :
    LiveUnique db' := by
  unfold LiveUnique
  rw [heq]
  exact h

theorem liveOpportunity?_eq_none {orgId companyId : Uuid} :
    liveOpportunity? orgId companyId db = none ↔
      ∀ o ∈ db.opportunities, o.orgId = orgId → o.companyId = companyId → o.stage = .archived := by
  simp only [liveOpportunity?, List.find?_eq_none, decide_eq_true_eq, not_and, not_not]
  rfl

/-- A row may be inserted when the look-up found no live row of its pair. -/
theorem LiveUnique.insert {row : Opportunity} (h : LiveUnique db)
    (absent : liveOpportunity? row.orgId row.companyId db = none)
    (hins : db.opportunities.insert? row = some db'.opportunities) : LiveUnique db' := by
  have archived := liveOpportunity?_eq_none.mp absent
  intro o ho o' ho' live live' horg hcompany
  obtain ho | rfl := (Table.mem_insert? hins).mp ho
  · obtain ho' | rfl := (Table.mem_insert? hins).mp ho'
    · exact h o ho o' ho' live live' horg hcompany
    · exact absurd (archived o ho horg hcompany) live
  · obtain ho' | rfl := (Table.mem_insert? hins).mp ho'
    · exact absurd (archived o' ho' horg.symm hcompany.symm) live'
    · rfl

/-- Changing rows in place keeps the rule unless it revives one: `target` is the only
row whose stage may change, and it keeps its fund and company. -/
theorem LiveUnique.change (h : LiveUnique db) (target : Uuid)
    (rows : ∀ x' ∈ db'.opportunities, ∃ x ∈ db.opportunities,
      x'.id = x.id ∧ x'.orgId = x.orgId ∧ x'.companyId = x.companyId ∧
        (x'.stage = x.stage ∨ x.id = target ∧ ¬ Revives db x x')) : LiveUnique db' := by
  intro a' ha' b' hb' livea liveb horg hcompany
  obtain ⟨a, ha, haid, haorg, hacompany, hastage⟩ := rows a' ha'
  obtain ⟨b, hb, hbid, hborg, hbcompany, hbstage⟩ := rows b' hb'
  have pair : a.orgId = b.orgId ∧ a.companyId = b.companyId :=
    ⟨haorg.symm.trans (horg.trans hborg), hacompany.symm.trans (hcompany.trans hbcompany)⟩
  have same (heq : a.id = b.id) : a' = b' :=
    Table.eq_of_key ha' hb' (haid.trans (heq.trans hbid.symm))
  by_cases hla : a.stage = .archived
  · obtain hastage | ⟨hat, hnot⟩ := hastage
    · exact absurd (hastage.trans hla) livea
    · by_cases hlb : b.stage = .archived
      · obtain hbstage | ⟨hbt, -⟩ := hbstage
        · exact absurd (hbstage.trans hlb) liveb
        · exact same (hat.trans hbt.symm)
      · exact absurd ⟨hla, livea, b, hb, pair.1.symm, pair.2.symm, hlb⟩ hnot
  · by_cases hlb : b.stage = .archived
    · obtain hbstage | ⟨-, hnot⟩ := hbstage
      · exact absurd (hbstage.trans hlb) liveb
      · exact absurd ⟨hlb, liveb, a, ha, pair.1, pair.2, hla⟩ hnot
    · exact same (congrArg Opportunity.id (h a ha b hb hla hlb pair.1 pair.2))

theorem LiveUnique.replaces {o o' : Opportunity} (h : LiveUnique db) (hr : Replaces db db' o o')
    (hid : o'.id = o.id) (horg : o'.orgId = o.orgId) (hcompany : o'.companyId = o.companyId)
    (hnot : ¬ Revives db o o') : LiveUnique db' := by
  refine h.change o.id fun x' hx' => ?_
  obtain rfl | ⟨hx, -⟩ := (hr.2 x').mp hx'
  · exact ⟨o, hr.1, hid, horg, hcompany, Or.inr ⟨rfl, hnot⟩⟩
  · exact ⟨x', hx, rfl, rfl, rfl, Or.inl rfl⟩

end Rows

section Analysis

variable {db db' : Db} {job : Job} {ws : List Write}

/-- A write set of an analysis keeps the rows and changes the stage of its own opportunity
only, to a stage that some update of the set assigns. -/
theorem analysis_rows (hws : ∀ w ∈ ws, w.OfAnalysis job) (h : backend.applyAll db ws = .ok db') :
    ∀ x' ∈ db'.opportunities, ∃ x ∈ db.opportunities,
      x'.id = x.id ∧ x'.orgId = x.orgId ∧ x'.companyId = x.companyId ∧
        (x'.stage = x.stage ∨ job.opportunityId = some x.id ∧
          ∃ set, Write.updateOpportunity x.id set ∈ ws ∧ set.stage = some x'.stage) := by
  induction ws generalizing db with
  | nil =>
      cases h
      exact fun x hx => ⟨x, hx, rfl, rfl, rfl, Or.inl rfl⟩
  | cons w ws ih =>
      obtain ⟨mid, hw, hrest⟩ := Backend.applyAll_cons_eq_ok.mp h
      intro x' hx'
      obtain ⟨m, hm, hid, horg, hcompany, hstage⟩ :=
        ih (fun v hv => hws v (List.mem_cons_of_mem w hv)) hrest x' hx'
      obtain ⟨row, rfl, -⟩ | ⟨id, set, rfl, hupd⟩ | ⟨-, heq⟩ := opportunities_apply hw
      · exact nomatch hws _ List.mem_cons_self
      · rw [hupd] at hm
        obtain ⟨x, hx, hpatch⟩ := Table.mem_update.mp hm
        split at hpatch
        · rename_i hxid
          subst hpatch
          have htarget := (hws _ List.mem_cons_self).1
          refine ⟨x, hx, hid, horg, hcompany, ?_⟩
          obtain hstage | ⟨htarget', set', hset', hs'⟩ := hstage
          · cases hs : set.stage with
            | none => exact Or.inl (by simp [hstage, Opportunity.patch, hs])
            | some s =>
                refine Or.inr ⟨hxid ▸ htarget, set, hxid ▸ List.mem_cons_self, ?_⟩
                simp [hstage, Opportunity.patch, hs]
          · exact Or.inr ⟨htarget', set', List.mem_cons_of_mem _ hset', hs'⟩
        · subst hpatch
          refine ⟨x, hx, hid, horg, hcompany, hstage.imp_right ?_⟩
          rintro ⟨htarget', set', hset', hs'⟩
          exact ⟨htarget', set', List.mem_cons_of_mem _ hset', hs'⟩
      · rw [heq] at hm
        refine ⟨m, hm, hid, horg, hcompany, hstage.imp_right ?_⟩
        rintro ⟨htarget', set', hset', hs'⟩
        exact ⟨htarget', set', List.mem_cons_of_mem _ hset', hs'⟩

/-- Some update of the write set revives a row. -/
def RevivesOne (db : Db) (ws : List Write) : Prop :=
  ∃ o ∈ db.opportunities, ∃ set, Write.updateOpportunity o.id set ∈ ws ∧
    Revives db o (o.patch set)

theorem LiveUnique.analysis (h : LiveUnique db) (hws : ∀ w ∈ ws, w.OfAnalysis job)
    (hnot : ¬ RevivesOne db ws) (happly : backend.applyAll db ws = .ok db') : LiveUnique db' := by
  refine h.change (job.opportunityId.getD 0) fun x' hx' => ?_
  obtain ⟨x, hx, hid, horg, hcompany, hstage⟩ := analysis_rows hws happly x' hx'
  refine ⟨x, hx, hid, horg, hcompany, hstage.imp_right ?_⟩
  rintro ⟨htarget, set, hset, hs⟩
  refine ⟨by simp [htarget], ?_⟩
  rintro ⟨harchived, hlive, hother⟩
  exact hnot ⟨x, hx, set, hset, harchived, by simpa [Opportunity.patch, hs] using hlive, hother⟩

end Analysis

section Guarded

/-- The write set keeps the rule on every store that accepts it. -/
def Safe (db : Db) (ws : List Write) : Prop :=
  ∀ db', backend.applyAll db ws = .ok db' → LiveUnique db → LiveUnique db'

/-- What is flushed is safe and what is staged is quiet. -/
def Guarded (db : Db) (s : Session Write) : Prop :=
  s.failed = true ∨ Safe db s.flushed ∧ ∀ w ∈ s.dirty, w.Quiet

variable {db : Db} {s : Session Write}

theorem Guarded.pending (h : Guarded db s) (hf : s.failed = false) : Safe db s.pending := by
  obtain ⟨hsafe, hdirty⟩ := h.resolve_left (by simp [hf])
  intro db' happly hone
  obtain ⟨mid, hmid, hrest⟩ := Backend.applyAll_append_eq_ok.mp happly
  exact (hsafe mid hmid hone).of_eq (applyAll_quiet hdirty hrest)

theorem guarded_invariant : SessionInvariant backend Safe Write.Quiet Guarded where
  clean := fun db _ => Or.inr ⟨fun db' h hone => by cases h; exact hone, by simp⟩
  failed := fun _ _ h => Or.inl h
  stage := fun db s w hw h => h.imp_right fun ⟨hsafe, hdirty⟩ =>
    ⟨hsafe, by simpa [Session.stage, or_imp, forall_and, hw] using hdirty⟩
  flush := fun db s h => by
    by_cases hf : s.failed = false
    · exact Or.inr ⟨h.pending hf, by simp⟩
    · exact Or.inl (by simpa using hf)
  commit := fun _ _ h hf => h.pending hf

/-- The live row that a session would see is not there. -/
def Unclaimed (orgId companyId : Uuid) (db : Db) (s : Session Write) : Prop :=
  ∀ view, backend.applyAll db s.flushed = .ok view → liveOpportunity? orgId companyId view = none

theorem Unclaimed.of_view {orgId companyId : Uuid} {view : Db}
    (hview : backend.applyAll db s.flushed = .ok view)
    (absent : liveOpportunity? orgId companyId view = none) : Unclaimed orgId companyId db s := by
  intro view' hview'
  obtain rfl := Except.ok.inj (hview.symm.trans hview')
  exact absent

/-- Inserting right after the look-up keeps the session guarded. -/
theorem guarded_insert {row : Opportunity} (h : Guarded db s)
    (absent : Unclaimed row.orgId row.companyId db s) (fault : Option Exc) :
    Guarded db ((s.stage (.insertOpportunity row)).flush backend db fault).2 := by
  simp only [Session.flush]
  split
  · rename_i hs
    obtain ⟨hf, -, -⟩ := Session.send_eq_ok_iff.mp hs
    obtain ⟨hsafe, hdirty⟩ := h.resolve_left (by simp at hf; simp [hf])
    refine Or.inr ⟨fun db' happly hone => ?_, by simp⟩
    rw [Session.pending_stage] at happly
    obtain ⟨mid, hmid, hlast⟩ := Backend.applyAll_append_eq_ok.mp happly
    obtain ⟨view, hview, hquiet⟩ := Backend.applyAll_append_eq_ok.mp hmid
    have heq := applyAll_quiet hdirty hquiet
    have absent' : liveOpportunity? row.orgId row.companyId mid = none := by
      rw [liveOpportunity?_eq_none, heq, ← liveOpportunity?_eq_none]
      exact absent view hview
    rw [Backend.applyAll_singleton] at hlast
    rcases opportunities_apply (w := .insertOpportunity row) hlast with
      ⟨_, hrow, hins⟩ | ⟨_, _, hrow, -⟩ | ⟨hrow, -⟩
    · cases hrow
      exact ((hsafe view hview hone).of_eq heq).insert absent' hins
    · cases hrow
    · exact absurd rfl hrow
  · exact Or.inl rfl

end Guarded

section Creators

open Tx

variable {env : Env} {orgId : Uuid} {company : Company} {d : DealDraws}

theorem Write.Elsewhere.quiet {w : Write} (h : w.Elsewhere) : w.Quiet := by
  unfold Write.Quiet
  rw [show w.target = .other from h]
  decide

theorem keeps_of_elsewhere {α : Type} {p : DolphinVC.Tx α} (h : Emits Write.Elsewhere p) :
    Keeps backend Safe Guarded p :=
  (h.weaken fun _ hw => hw.quiet).keeps guarded_invariant

theorem keeps_of_quiet {α : Type} {p : DolphinVC.Tx α} (h : Emits Write.Quiet p) :
    Keeps backend Safe Guarded p := h.keeps guarded_invariant

theorem keeps_of_reads {α : Type} {p : DolphinVC.Tx α} (h : Reads p) :
    Keeps backend Safe Guarded p := keeps_of_quiet h.emits

/-- An insertion that follows the look-up, and what comes after it. -/
theorem blocks_insert {α : Type} {row : Opportunity} {rest : Unit → DolphinVC.Tx α} {db : Db}
    {s : Session Write} (h : Guarded db s) (absent : Unclaimed row.orgId row.companyId db s)
    (hrest : ∀ u, Keeps backend Safe Guarded (rest u)) :
    ((do
      Tx.stage (.insertOpportunity row)
      Tx.flush
      rest () : DolphinVC.Tx α)).run.Blocks backend Safe (fun _ db s => Guarded db s) db s := by
  intro fault
  have guarded := guarded_insert h absent fault
  cases ((s.stage (.insertOpportunity row)).flush backend db fault).1 with
  | error e => exact guarded
  | ok u => exact hrest u db _ guarded

theorem resolveOpportunity_keeps {orgId : Option Uuid} {signal : NormalizedSignal}
    {channel? : Option SourcingChannel} {id : Uuid} {now : Timestamp} :
    Keeps backend Safe Guarded
      (resolveOpportunity env orgId company signal channel? id now) := by
  cases orgId with
  | none =>
      exact keeps_of_elsewhere (Emits.bind (emits_of_linking advanceChannel_stages)
        fun _ => Emits.bind (Emits.stage (by rfl)) fun _ =>
          Emits.bind Emits.flush fun _ => Emits.pure _)
  | some orgId =>
      intro db s hj
      refine blocks_query_bind (fun _ => hj) fun view _ hview => ?_
      cases hfound : liveOpportunity? orgId company.id view with
      | some o =>
          exact keeps_of_quiet (Emits.bind Emits.flush fun _ => Emits.pure _) db s hj
      | none =>
          have counted (w : Write) (hw : w.Quiet) : Guarded db (s.stage w) :=
            guarded_invariant.stage db s w hw hj
          cases channel? with
          | none => exact blocks_insert hj (.of_view hview hfound) fun _ => Keeps.pure _
          | some channel =>
              exact blocks_insert (counted _ (Write.quiet_of_target rfl)) (.of_view hview hfound)
                fun _ => Keeps.pure _

theorem applicationOpportunity_keeps :
    Keeps backend Safe Guarded (applicationOpportunity env orgId company d) := by
  intro db s hj
  refine blocks_query_bind (fun _ => hj) fun view _ hview => ?_
  cases hfound : liveOpportunity? orgId company.id view with
  | some o => exact Keeps.pure (B := backend) o.id db s hj
  | none =>
      refine blocks_query_bind (fun _ => hj) fun _ _ _ => ?_
      exact blocks_insert hj (.of_view hview hfound) fun _ => Keeps.pure _

theorem manualCompany_stages {ref : CompanyRef} {id : Uuid} :
    Stages Write.Elsewhere (manualCompany env ref id) := by
  cases ref with
  | id companyId =>
      refine Stages.bind (Stages.query _) fun company? => ?_
      cases company? with
      | some company => exact Stages.pure _
      | none => exact (Reads.throw _).stages
  | name companyName =>
      refine Stages.bind (Stages.query _) fun company? => ?_
      cases company? with
      | some company => exact Stages.pure _
      | none => exact elsewhere_of_stages insertCompany_stages

theorem createManualOpportunity_keeps {body : OpportunityCreate} :
    Keeps backend Safe Guarded (createManualOpportunity env orgId body d) := by
  refine (keeps_of_elsewhere manualCompany_stages.emits).bind fun company db s hj => ?_
  refine blocks_query_bind (fun _ => hj) fun view _ hview => ?_
  cases hfound : liveOpportunity? orgId company.id view with
  | some o => exact hj
  | none => exact blocks_insert hj (.of_view hview hfound) fun _ => Keeps.pure _

theorem validateApplication_reads {form : ApplicationForm} :
    Reads (validateApplication env form) :=
  Reads.ite (fun _ => Reads.throw _) fun _ =>
    Reads.ite (fun _ => Reads.throw _) fun _ => Reads.pure _

theorem applicationCompany_stages {form : ApplicationForm} {id : Uuid} :
    Stages Write.Elsewhere (applicationCompany env form id) := by
  refine Stages.bind (reads_findCompany _ _).stages fun company? => ?_
  cases company? with
  | some company => exact Stages.pure _
  | none => exact elsewhere_of_stages insertCompany_stages

theorem applicationDocument_stages {submission : Submission} {deck? : Option Deck}
    {companyId id : Uuid} :
    Stages Write.Elsewhere (applicationDocument submission deck? companyId id) := by
  cases deck? with
  | none => exact Stages.pure _
  | some deck =>
      refine Stages.bind (Stages.call _) fun _ => Stages.bind (Stages.query _) fun document? => ?_
      cases document? with
      | some document => exact Stages.pure _
      | none =>
          exact Stages.bind (Stages.call _) fun _ => Stages.bind (Stages.stage (by rfl)) fun _ =>
            Stages.bind Stages.flush fun _ => Stages.pure _

theorem applicationFounder_stages {form : ApplicationForm} {company : Company} {id : Uuid} :
    Stages Write.Candidate (applicationFounder env company form id) := by
  refine Stages.bind (reads_findFounder _ _ _).stages fun person? => ?_
  cases person? with
  | none =>
      exact Stages.bind (Stages.stage (by rfl)) fun _ =>
        Stages.bind Stages.flush fun _ => Stages.pure _
  | some person =>
      refine Stages.bind ?_ fun _ => Stages.pure _
      unfold addContactEmail
      cases (given form.contactEmail).map env.casefold with
      | none => exact Stages.pure _
      | some email => exact Stages.ite (fun _ => Stages.pure _) fun _ => Stages.stage (by rfl)

theorem recordWorkSamples_stages {personId id : Uuid} {artifacts : List String} {now : Timestamp} :
    Stages Write.Linking (recordWorkSamples personId id artifacts now) :=
  Stages.ite (fun _ => Stages.pure _) fun _ => Stages.bind (Stages.query _) fun _ =>
    Stages.ite (fun _ => Stages.pure _) fun _ => Stages.stage (by exact ⟨rfl, trivial⟩)

theorem linkFounder_stages {form : ApplicationForm} {company : Company} {person : Person} :
    Stages Write.Linking (do
      ensureAffiliation person.id company.id (35 / 100)
      Tx.flush
      recordWorkSamples person.id d.eventId form.artifacts d.now
      Tx.flush
      recomputeFounderScore env person.id d.now
      return person : DolphinVC.Tx Person) :=
  Stages.bind ensureAffiliation_stages fun _ => Stages.bind Stages.flush fun _ =>
    Stages.bind recordWorkSamples_stages fun _ => Stages.bind Stages.flush fun _ =>
      Stages.bind (linking_of_scoring recomputeFounderScore_stages) fun _ => Stages.pure _

theorem ensureApplicationFounder_stages {form : ApplicationForm} {company : Company} :
    Stages Write.Candidate (ensureApplicationFounder env company form d) :=
  Stages.bind (Stages.call _) fun _ => Stages.bind applicationFounder_stages fun _ =>
    candidate_of_linking linkFounder_stages

theorem createApplication_keeps {form : ApplicationForm} {submission : Submission} :
    Keeps backend Safe Guarded (createApplication env form submission d) := by
  refine (keeps_of_reads validateApplication_reads).bind fun _ =>
    (Keeps.query _).bind fun prior? => ?_
  cases prior? with
  | some prior => exact Keeps.pure _
  | none =>
      refine (keeps_of_elsewhere applicationCompany_stages.emits).bind fun company =>
        (keeps_of_elsewhere applicationDocument_stages.emits).bind fun documentId =>
          Keeps.bind applicationOpportunity_keeps fun opportunityId => keeps_of_quiet ?_
      exact Emits.bind (ensureApplicationFounder_stages.emits.weaken fun _ h =>
          h.elsewhere.quiet) fun _ =>
        Emits.bind (Emits.stage (Write.quiet_of_target rfl)) fun _ =>
          Emits.bind Emits.flush fun _ =>
            Emits.bind (Emits.stage (Write.quiet_of_target rfl)) fun _ =>
              Emits.bind Emits.flush fun _ => Emits.pure _

variable {credentials : Option Credentials}

theorem createOpportunity_keeps {body : OpportunityCreate} :
    Keeps backend Safe Guarded (createOpportunityEndpoint env credentials d body) :=
  (keeps_of_reads (reads_require _ _ _ _)).bind fun _ =>
    Keeps.bind createManualOpportunity_keeps fun _ => (Keeps.commit guarded_invariant).bind fun _ =>
      keeps_of_reads (reads_refreshedDetail _)

theorem submitApplication_keeps {form : ApplicationForm}
    {submittedIp idempotencyKey : Option String} :
    Keeps backend Safe Guarded
      (submitApplicationEndpoint env credentials d form submittedIp idempotencyKey) := by
  refine (keeps_of_reads (reads_require _ _ _ _)).bind fun principal => ?_
  unfold submitApplication
  cases given idempotencyKey with
  | none => exact Keeps.throw _
  | some key =>
      refine (Keeps.call _).bind fun _ => Keeps.bind createApplication_keeps fun result =>
        (Keeps.commit guarded_invariant).bind fun _ => keeps_of_quiet ?_
      cases result.replayed with
      | true => exact Emits.pure _
      | false => exact Emits.bind dispatchJob_emits fun _ => Emits.pure _

theorem publicApply_keeps {orgSlug : String} {form : ApplicationForm}
    {submittedIp : Option String} :
    Keeps backend Safe Guarded (publicApplyEndpoint env d orgSlug form submittedIp) := by
  refine (Keeps.query _).bind fun org? => ?_
  cases org? with
  | none => exact Keeps.throw _
  | some org =>
      exact (Keeps.call _).bind fun _ => Keeps.bind createApplication_keeps fun result =>
        (Keeps.commit guarded_invariant).bind fun _ =>
          keeps_of_quiet (Emits.bind dispatchJob_emits fun _ => Emits.pure _)

/-- What a guarded request served alone leaves behind. -/
theorem LiveUnique.atomically {α : Type} {p : DolphinVC.Tx α} {db : Db} (h : LiveUnique db)
    (hp : Keeps backend Safe Guarded p) : LiveUnique (p.atomically backend db).2 :=
  hp.atomically guarded_invariant (fun _ _ db' hsafe hone happly => hsafe db' happly hone) h

end Creators

section Pipeline

open Tx

variable {run : RunEnv} {job : Job} {item : NormalizedSignal} {source : Source}

theorem linkCandidates_keeps {env : Env} {person? : Option Person} {ids : CandidateIds}
    {company : Company} {now : Timestamp} :
    Keeps backend Safe Guarded (linkCandidates env person? company item ids now) :=
  (Keeps.stage guarded_invariant (Write.quiet_of_target rfl)).bind fun _ =>
    keeps_of_elsewhere (emits_of_linking linkPerson_stages)

theorem resolveOutboundSignal_keeps {env : Env} {orgId : Option Uuid} {sourceId : Uuid}
    {channel? : Option SourcingChannel} {ids : CandidateIds} {now : Timestamp} :
    Keeps backend Safe Guarded
      (resolveOutboundSignal env orgId item sourceId channel? ids now) :=
  (Keeps.call _).bind fun _ =>
    (keeps_of_elsewhere (emits_of_candidate ensureCompany_stages)).bind fun _ =>
    (keeps_of_elsewhere (emits_of_candidate ensureSignalPerson_stages)).bind fun _ =>
      Keeps.bind linkCandidates_keeps fun _ =>
        (keeps_of_elsewhere (emits_of_linking recordMemory_stages)).bind fun _ =>
          Keeps.bind resolveOpportunity_keeps fun _ => Keeps.pure _

theorem ingestItem_keeps {channel : SourcingChannel} {seq index : Nat} :
    Keeps backend Safe Guarded (ingestItem run job source channel seq index item) :=
  (Keeps.call _).bind fun _ =>
    (Keeps.stage guarded_invariant (Write.quiet_of_target rfl)).bind fun _ =>
    (Keeps.flush guarded_invariant).bind fun _ => Keeps.bind resolveOutboundSignal_keeps fun _ =>
      (Keeps.stage guarded_invariant (Write.quiet_of_target rfl)).bind fun _ =>
        (Keeps.flush guarded_invariant).bind fun _ =>
          (Keeps.stage guarded_invariant (Write.quiet_of_target rfl)).bind fun _ => Keeps.pure _

theorem harvestItem_keeps {channel : SourcingChannel} {seq index : Nat} :
    Keeps backend Safe Guarded (harvestItem run job source channel seq index item) :=
  (Keeps.query _).bind fun _ => Keeps.ite (fun _ => Keeps.pure _) fun _ =>
    Keeps.bind ingestItem_keeps fun _ => Keeps.pure _

/-- The write sets that creators and analyses commit. -/
def LiveBlock (db : Db) (ws : List Write) : Prop :=
  Safe db ws ∨ ∃ job : Job, ∀ w ∈ ws, w.OfAnalysis job

theorem quiet_of_around (w : Write) (h : w.Around) : w.Quiet := by
  cases w with
  | _ => first | exact h.elim | exact Write.quiet_of_target rfl

theorem startJob_keeps (hkind : job.kind = "ingest.harvest") :
    Keeps backend Safe Guarded (startJob run job) :=
  keeps_startHarvest guarded_invariant quiet_of_around (fun _ _ _ _ _ _ _ _ => harvestItem_keeps)
    hkind

theorem startJob_ofAnalysis (guard : job.status ≠ .cancelled)
    (hkind : job.kind ≠ "ingest.harvest") :
    Emits (Write.OfAnalysis job) (startJob run job) :=
  startJob_emits guard (fun _ h => ⟨rfl, h⟩)
    (Emits.ite (fun heq => absurd heq hkind) fun _ =>
      (processAnalysis_emits rfl).weaken fun _ h => h.of_started)

theorem processJob_blocks (run : RunEnv) (jobId : Uuid) (db : Db) :
    (processJob run jobId).run.Blocks backend LiveBlock (fun _ _ _ => True) db {} := by
  refine blocks_query_bind (fun _ => trivial) fun view _ hview => ?_
  cases view.jobs.find? jobId with
  | none => trivial
  | some job =>
      by_cases guard : job.status = .cancelled
      · simp only [if_pos guard]
        trivial
      · simp only [if_neg guard]
        by_cases hkind : job.kind = "ingest.harvest"
        · exact (startJob_keeps hkind db {} (guarded_invariant.clean db [])).weaken
            (fun _ _ => Or.inl) fun _ _ _ _ => trivial
        · have inv : SessionInvariant backend LiveBlock (Write.OfAnalysis job) _ :=
            SessionInvariant.ofWrites fun _ _ h => Or.inr ⟨job, h⟩
          exact ((startJob_ofAnalysis guard hkind).keeps inv db {} (inv.clean db [])).mono
            fun _ _ _ _ => trivial

end Pipeline

section System

variable {env : Env} {s : DealState}

/-- No edit that is accepted and no write set of a job run revives a row. -/
def NoRevival (env : Env) (s : DealState) : DealEvent → Prop
  | .request credentials d (.updateOpportunity opportunityId body ifMatch) =>
      ∀ principal o, AcceptsUpdate env s.db credentials d.now opportunityId ifMatch principal o →
        ¬ Revives s.db o (body.assign o)
  | .run i faults => ∀ ws, s.due (.run i faults) = some ws → ¬ RevivesOne s.db ws
  | _ => True

theorem liveUnique_request {credentials : Option Credentials} {d : DealDraws} (r : DealRequest)
    (h : LiveUnique s.db) (hc : NoRevival env s (.request credentials d r)) :
    LiveUnique (dealStep env s (.request credentials d r)).db := by
  have queue {p : Tx Unit} (hp : Tx.Emits Write.OfQueue p) :
      LiveUnique (p.atomically backend s.db).2 :=
    h.of_eq (opportunities_of_quiet (hp.weaken fun _ hw => hw.quiet) s.db)
  cases r with
  | createOpportunity body => exact h.atomically createOpportunity_keeps.void
  | submitApplication form submittedIp idempotencyKey =>
      exact h.atomically submitApplication_keeps.void
  | publicApply orgSlug form submittedIp => exact h.atomically publicApply_keeps.void
  | updateOpportunity opportunityId body ifMatch =>
      obtain heq | ⟨principal, o, haccepts, hr⟩ := update_step body ifMatch
      · exact h.of_eq heq
      · exact h.replaces hr rfl rfl rfl (hc principal o haccepts)
  | decide opportunityId body idempotencyKey =>
      rcases decide_step body idempotencyKey with
        heq | ⟨principal, o, -, -, hstage, hr⟩
      · exact h.of_eq heq
      · exact h.replaces hr rfl rfl rfl fun hrev => hstage hrev.1
  | archive opportunityId =>
      obtain heq | ⟨o, hr⟩ := archive_step
      · exact h.of_eq heq
      · exact h.replaces hr rfl rfl rfl fun hrev => hrev.2.1 rfl
  | startJob kind opportunityId idempotencyKey => exact queue startJob_queues.void
  | regenerateSection memoId idempotencyKey => exact queue regenerateSection_queues.void
  | harvest channels => exact queue harvest_queues.void
  | cancelJob jobId => exact queue cancelJob_queues
  | retryJob jobId => exact queue retryJob_queues.void

theorem liveUnique_step (a : DealEvent) (hb : s.Blocks LiveBlock) (h : LiveUnique s.db)
    (hc : NoRevival env s a) : LiveUnique (dealStep env s a).db := by
  cases a with
  | request credentials d r => exact liveUnique_request r h hc
  | auth r d => exact h.of_eq (opportunities_of_quiet
      ((auth_writes r).weaken fun _ hw => hw.target_ne.1) s.db)
  | reap now => exact h.of_eq (opportunities_of_quiet
      (reapStaleJobs_queues.weaken fun _ hw => hw.quiet) s.db)
  | deliver run jobId => exact h
  | run i faults =>
      obtain heq | ⟨ws, hdue, hsafe | ⟨job, hws⟩, happly⟩ := run_cases env hb i faults
      · rw [heq]
        exact h
      · exact hsafe _ happly h
      · exact h.analysis hws (hc ws hdue) happly

/-- As long as no edit and no job run revives an archived opportunity beside a live one,
every state has at most one live opportunity of each fund and company. -/
theorem one_live_opportunity (env : Env) (db : Db) (events : List DealEvent)
    (start : LiveUnique db) (run : Meets (dealStep env) (NoRevival env) { db } events) :
    Along (dealStep env) (fun s => LiveUnique s.db) { db } events := by
  have keep : Along (dealStep env) (fun s => s.Blocks LiveBlock ∧ LiveUnique s.db) { db } events :=
    along_of_meets
      (fun _ a hI hc => ⟨blocks_step hI.1 a processJob_blocks, liveUnique_step a hI.1 hI.2 hc⟩)
      ⟨fun _ hj => absurd hj List.not_mem_nil, start⟩ run
  exact keep.mono fun _ hI => hI.2

/-- Dan opens a deal, archives it, opens another on the same company and then moves the
archived one back to screening. -/
def reopened : List DealEvent :=
  [danAt 1 (.createOpportunity { company := .id 10 }), danAt 2 (.archive 101),
    danAt 3 (.createOpportunity { company := .id 10 }),
    danAt 4 (.updateOpportunity 101 { stage := some (some .screening) } (some "2"))]

theorem liveUnique_fundDb : LiveUnique fundDb := fun o ho => absurd ho (Table.not_mem_empty o)

theorem two_live_opportunities :
    LiveUnique fundDb ∧
      ¬ Along (dealStep fundEnv) (fun s => LiveUnique s.db) { db := fundDb } reopened := by
  refine ⟨liveUnique_fundDb, fun run => ?_⟩
  have rows : ((reopened.foldl (dealStep fundEnv) { db := fundDb }).db.opportunities.rows.map
      fun o => (o.id, o.orgId, o.companyId, o.stage)) =
      [(101, 1, 10, .screening), (103, 1, 10, .sourced)] := by decide +kernel
  obtain ⟨o, ho, hfirst⟩ := List.mem_map.mp (rows ▸ List.mem_cons_self)
  obtain ⟨o', ho', hsecond⟩ := List.mem_map.mp (rows ▸ List.mem_cons_of_mem _ List.mem_cons_self)
  simp only [Prod.mk.injEq] at hfirst hsecond
  have same := run.last o ho o' ho' (by simp [hfirst]) (by simp [hsecond])
    (hfirst.2.1.trans hsecond.2.1.symm) (hfirst.2.2.1.trans hsecond.2.2.1.symm)
  rw [same, hsecond.1] at hfirst
  exact absurd hfirst.1 (by decide)

/-- Without the edit the rule stands. -/
theorem one_live_after_reopening :
    Along (dealStep fundEnv) (fun s => LiveUnique s.db) { db := fundDb } (reopened.take 3) :=
  one_live_opportunity fundEnv fundDb _ liveUnique_fundDb ⟨trivial, trivial, trivial, trivial⟩

end System

end DolphinVC
