import DolphinVC.Transaction.Evidence
import DolphinVC.Verification.Tenancy

/-!
# The rows of a fund

A row belongs to a fund by its own column or through the row it is a part of, and it never changes
hands. Rows lead to others: a job to the opportunity, the application and the deck that its run
works on, a memo to its opportunity, an application to its opportunity and back. A write is within
a fund when the rows it is about are known to be the fund's, or are led to by such rows. As long
as all links stay within funds, what other funds have then stays as it is.
-/

namespace DolphinVC

open Relational Transaction

/-- The tables whose rows name their fund. -/
inductive FundTable where
  | theses | documents | signals | opportunities | applications | claims | memos | jobs | outreach
  deriving DecidableEq

/-- The ids of a table, each with the fund that the row names, if any. -/
def Db.owners (db : Db) : FundTable → List (Uuid × Option Uuid)
  | .theses => db.theses.rows.map fun r => (r.id, some r.orgId)
  | .documents => db.documents.rows.map fun r => (r.id, r.orgId)
  | .signals => db.signals.rows.map fun r => (r.id, r.orgId)
  | .opportunities => db.opportunities.rows.map fun r => (r.id, some r.orgId)
  | .applications => db.applications.rows.map fun r => (r.id, some r.orgId)
  | .claims => db.claims.rows.map fun r => (r.id, some r.orgId)
  | .memos => db.memos.rows.map fun r => (r.id, some r.orgId)
  | .jobs => db.jobs.rows.map fun r => (r.id, r.orgId)
  | .outreach => db.outreach.rows.map fun r => (r.id, some r.orgId)

abbrev RowRef := FundTable × Uuid

def Db.Owns (db : Db) (r : RowRef) (owner : Option Uuid) : Prop := (r.2, owner) ∈ db.owners r.1

section Owners

variable {db db' : Db} {w : Write} {r : RowRef}

theorem owns_unique {a b : Option Uuid} (ha : db.Owns r a) (hb : db.Owns r b) : a = b := by
  obtain ⟨t, id⟩ := r
  cases t with
  | _ =>
      obtain ⟨x, hx, hax⟩ := List.mem_map.mp ha
      obtain ⟨y, hy, hby⟩ := List.mem_map.mp hb
      obtain ⟨hid, rfl⟩ := Prod.mk.inj hax
      obtain ⟨hid', rfl⟩ := Prod.mk.inj hby
      rw [Table.eq_of_key hx hy (hid.trans hid'.symm)]

/-- The row that an INSERT adds to such a table. -/
def Write.created : Write → FundTable → Option (Uuid × Option Uuid)
  | .insertThesis r, .theses => some (r.id, some r.orgId)
  | .insertDocument r, .documents => some (r.id, r.orgId)
  | .insertSignal r, .signals => some (r.id, r.orgId)
  | .insertOpportunity r, .opportunities => some (r.id, some r.orgId)
  | .insertApplication r, .applications => some (r.id, some r.orgId)
  | .insertClaim r, .claims => some (r.id, some r.orgId)
  | .insertMemo r, .memos => some (r.id, some r.orgId)
  | .insertJob r, .jobs => some (r.id, r.orgId)
  | _, _ => none

/-- Rows are added, and none changes hands. -/
theorem owners_apply (h : db.apply w = .ok db') (t : FundTable) :
    db'.owners t = db.owners t ++ (w.created t).toList := by
  have inserted {ρ : Type} {key : ρ → Uuid} {name : String} {T T' : Table Uuid ρ key}
      {clash : ρ → Bool} {row : ρ} {f : ρ → Uuid × Option Uuid}
      (hT : insertRow name T clash row = .ok T') : T'.rows.map f = T.rows.map f ++ [f row] := by
    rw [Table.rows_insert? (insertRow_eq_ok.mp hT).2, List.map_append, List.map_singleton]
  cases w with
  | insertThesis row =>
      obtain ⟨T, hT, rfl⟩ := map_eq_ok.mp h
      cases t with
      | theses => exact inserted hT
      | _ => exact (List.append_nil _).symm
  | insertDocument row =>
      obtain ⟨T, hT, rfl⟩ := map_eq_ok.mp h
      cases t with
      | documents => exact inserted hT
      | _ => exact (List.append_nil _).symm
  | insertSignal row =>
      obtain ⟨T, hT, rfl⟩ := map_eq_ok.mp h
      cases t with
      | signals => exact inserted hT
      | _ => exact (List.append_nil _).symm
  | insertOpportunity row =>
      obtain ⟨T, hT, rfl⟩ := map_eq_ok.mp (ite_error_eq_ok.mp h).2
      cases t with
      | opportunities => exact inserted hT
      | _ => exact (List.append_nil _).symm
  | insertApplication row =>
      obtain ⟨T, hT, rfl⟩ := map_eq_ok.mp h
      cases t with
      | applications => exact inserted hT
      | _ => exact (List.append_nil _).symm
  | insertClaim row =>
      obtain ⟨T, hT, rfl⟩ := map_eq_ok.mp h
      cases t with
      | claims => exact inserted hT
      | _ => exact (List.append_nil _).symm
  | insertMemo row =>
      obtain ⟨T, hT, rfl⟩ := map_eq_ok.mp h
      cases t with
      | memos => exact inserted hT
      | _ => exact (List.append_nil _).symm
  | insertJob row =>
      obtain ⟨T, hT, rfl⟩ := map_eq_ok.mp h
      cases t with
      | jobs => exact inserted hT
      | _ => exact (List.append_nil _).symm
  | updateMemo id sections version =>
      obtain ⟨T, hT, rfl⟩ := map_eq_ok.mp h
      obtain ⟨-, rfl⟩ := renumberMemo_eq_ok.mp hT
      rw [show (Write.updateMemo id sections version).created t = none by cases t <;> rfl]
      refine Eq.trans ?_ (List.append_nil _).symm
      cases t with
      | memos =>
          simp only [Db.owners]
          exact Table.map_updateWhere _ fun _ => rfl
      | _ => rfl
  | refused e => cases h
  | _ =>
      simp only [Db.apply, map_eq_ok, ite_error_eq_ok, Except.ok.injEq] at h
      first
      | subst h
      | obtain ⟨T, -, rfl⟩ := h
      cases t <;> first
      | exact (List.append_nil _).symm
      | simp only [Db.owners, Write.created, Option.toList_none, List.append_nil]
        exact Table.map_updateWhere _ fun _ => rfl

end Owners


/-- The rows that an application names. -/
def Application.leads (a : Application) : List RowRef :=
  (a.opportunityId.map fun id => (.opportunities, id)).toList ++
    (a.deckDocumentId.map fun id => (.documents, id)).toList

/-- The job is about an opportunity or a fund. A job that records an export or a new score is
about a memo or a person: it is stored as done, and no worker is given it. -/
def Job.ForWorkers (j : Job) : Prop := j.targetType ≠ some "memo" ∧ j.targetType ≠ some "person"

theorem Job.forWorkers_of_opportunity {j : Job} (h : j.targetType = some "opportunity") :
    j.ForWorkers := by
  simp [Job.ForWorkers, h]

/-- The rows that a job brings its run to; a harvest looks for none. An export leads to its memo,
a new score to no row of a fund. -/
def Job.leads (j : Job) : List RowRef :=
  if j.kind = "ingest.harvest" ∨ j.targetType = some "person" then []
  else if j.targetType = some "memo" then (j.targetId.map fun id => (.memos, id)).toList
  else
    (j.opportunityId.map fun id => (.opportunities, id)).toList ++
      (j.input.applicationId.map fun id => (.applications, id)).toList ++
      (j.input.documentId.map fun id => (.documents, id)).toList

theorem Application.mem_leads {a : Application} {r : RowRef} : r ∈ a.leads ↔
    (∃ id, a.opportunityId = some id ∧ (.opportunities, id) = r) ∨
      ∃ id, a.deckDocumentId = some id ∧ (.documents, id) = r := by
  simp only [Application.leads, List.mem_append, Option.mem_toList, Option.map_eq_some_iff]

theorem Job.mem_leads {j : Job} {r : RowRef} (hworkers : j.ForWorkers) :
    r ∈ j.leads ↔ j.kind ≠ "ingest.harvest" ∧
      ((∃ id, j.opportunityId = some id ∧ (.opportunities, id) = r) ∨
        (∃ id, j.input.applicationId = some id ∧ (.applications, id) = r) ∨
          ∃ id, j.input.documentId = some id ∧ (.documents, id) = r) := by
  by_cases h : j.kind = "ingest.harvest"
  · simp [Job.leads, h]
  · simp only [Job.leads, h, hworkers.1, hworkers.2, or_self, if_false, ne_eq, not_false_eq_true,
      true_and, List.mem_append, Option.mem_toList, Option.map_eq_some_iff, or_assoc]

/-- A way from one row to another. -/
abbrev RowLink := RowRef × RowRef

/-- From an application to what it names, and from the opportunity to the application. -/
def Application.links (a : Application) : List RowLink :=
  a.leads.map (fun r => ((.applications, a.id), r)) ++
    (a.opportunityId.map fun id => ((.opportunities, id), (.applications, a.id))).toList

def Memo.links (m : Memo) : List RowLink := [((.memos, m.id), (.opportunities, m.opportunityId))]

def Job.links (j : Job) : List RowLink := j.leads.map fun r => ((.jobs, j.id), r)

def Db.Links (db : Db) (l : RowLink) : Prop :=
  (∃ a ∈ db.applications, l ∈ a.links) ∨ (∃ m ∈ db.memos, l ∈ m.links) ∨ ∃ j ∈ db.jobs, l ∈ j.links

def Write.links : Write → List RowLink
  | .insertApplication a => a.links
  | .insertMemo m => m.links
  | .insertJob j => j.links
  | _ => []

/-- A link leads from a row to a row of the same fund, and a job that is no harvest has a target. -/
structure Linked (db : Db) : Prop where
  ends : ∀ l, db.Links l → ∃ owner, db.Owns l.1 owner ∧ db.Owns l.2 owner
  aimed : ∀ j ∈ db.jobs, j.kind ≠ "ingest.harvest" → j.targetId ≠ none

/-- What a session can find out about rows. -/
inductive FundFact where
  | row (r : RowRef) (owner : Option Uuid)
  | link (l : RowLink)

def FundFact.Holds (db : Db) : FundFact → Prop
  | .row r owner => db.Owns r owner
  | .link l => db.Links l

def Write.Attests (w : Write) : FundFact → Prop
  | .row r owner => w.created r.1 = some (r.2, owner)
  | .link l => l ∈ w.links

/-- A row that, going by these facts, is the owner's: one that names the owner, or one that
another row of the owner leads to or names the same fund as. -/
inductive Traced (owner : Option Uuid) (K : FundFact → Prop) : RowRef → Prop
  | row {r : RowRef} : K (.row r owner) → Traced owner K r
  | link {r r' : RowRef} : Traced owner K r → K (.link (r, r')) → Traced owner K r'
  | alike {r r' : RowRef} {fund : Option Uuid} :
      Traced owner K r → K (.row r fund) → K (.row r' fund) → Traced owner K r'

/-- The fund is the owner, or that of a row of the owner. -/
def OfOwner (owner : Option Uuid) (K : FundFact → Prop) (fund : Option Uuid) : Prop :=
  fund = owner ∨ ∃ r, Traced owner K r ∧ K (.row r fund)

/-- The write is about rows of the owner, as far as it is about rows of a fund. -/
def Write.Within (owner : Option Uuid) (K : FundFact → Prop) : Write → Prop
  | .insertThesis row => OfOwner owner K (some row.orgId)
  | .updateThesis id _ => Traced owner K (.theses, id)
  | .clearDefaults ids => ∀ id ∈ ids, Traced owner K (.theses, id)
  | .insertSignal row => OfOwner owner K row.orgId
  | .assignSignal id _ _ => Traced owner K (.signals, id)
  | .insertKBChunk row => OfOwner owner K row.orgId
  | .insertDocument row => OfOwner owner K row.orgId
  | .insertDocumentPage row => Traced owner K (.documents, row.documentId)
  | .insertOpportunity row => OfOwner owner K (some row.orgId)
  | .updateOpportunity id _ => Traced owner K (.opportunities, id)
  | .insertApplication row =>
      OfOwner owner K (some row.orgId) ∧ ∀ r ∈ row.leads, Traced owner K r
  | .updateApplication id _ => Traced owner K (.applications, id)
  | .insertOpportunityScore row => Traced owner K (.opportunities, row.opportunityId)
  | .insertPrescreenResult row => Traced owner K (.opportunities, row.opportunityId)
  | .insertClaim row => OfOwner owner K (some row.orgId)
  | .insertEvidence row => Traced owner K (.claims, row.claimId)
  | .insertMemo row =>
      OfOwner owner K (some row.orgId) ∧ Traced owner K (.opportunities, row.opportunityId)
  | .updateMemo id _ _ => Traced owner K (.memos, id)
  | .insertJob row =>
      OfOwner owner K row.orgId ∧ (∀ r ∈ row.leads, Traced owner K r) ∧
        (row.kind ≠ "ingest.harvest" → row.targetId ≠ none)
  | .updateJob id _ => Traced owner K (.jobs, id)
  | .insertAgentStep row => Traced owner K (.jobs, row.jobId)
  | .updateOutreach id _ => Traced owner K (.outreach, id)
  | _ => True

/-- What a session that writes for the owner knows about the rows that it writes. -/
def fenced (owner : Option Uuid) : Transaction.Evidence Db Write FundFact where
  Holds f db := f.Holds db
  Provides w f := w.Attests f
  Fits K w := w.Within owner K
  Doomed w := ∃ e, w = .refused e

section Facts

variable {db db' : Db} {w : Write} {r : RowRef} {owner : Option Uuid} {K K' : FundFact → Prop}

theorem owns_apply {fund : Option Uuid} (h : db.apply w = .ok db') :
    db'.Owns r fund ↔ db.Owns r fund ∨ w.created r.1 = some (r.2, fund) := by
  unfold Db.Owns
  rw [owners_apply h, List.mem_append, Option.mem_toList]

theorem applications_held {p : Application → Prop}
    (keeps : ∀ (a : Application) status, p { a with status } ↔ p a) (h : db.apply w = .ok db') :
    (∃ a ∈ db'.applications, p a) ↔
      (∃ a ∈ db.applications, p a) ∨ ∃ row, w = .insertApplication row ∧ p row := by
  obtain ⟨row, rfl, hins⟩ | ⟨id, status, rfl, hupd⟩ | ⟨hw, heq⟩ := applications_apply h
  · rw [Table.exists_insert? hins]
    simp
  · rw [hupd]
    refine (Table.exists_update fun a => keeps a status).trans ?_
    simp
  · rw [heq]
    refine (or_iff_left ?_).symm
    rintro ⟨row, rfl, -⟩
    exact hw rfl

theorem links_apply {l : RowLink} (h : db.apply w = .ok db') :
    db'.Links l ↔ db.Links l ∨ l ∈ w.links := by
  have application := applications_held (p := fun a => l ∈ a.links) (fun _ _ => Iff.rfl) h
  have memo := memos_held (p := fun m => l ∈ m.links) (fun _ _ _ => Iff.rfl) h
  have job := jobs_held (p := fun j => l ∈ j.links) (fun j j' keeps => by
    simp only [Job.links, Job.leads, Job.opportunityId, keeps.id, keeps.kind, keeps.targetType,
      keeps.targetId, keeps.input]) h
  have created : l ∈ w.links ↔ (∃ a, w = .insertApplication a ∧ l ∈ a.links) ∨
      (∃ m, w = .insertMemo m ∧ l ∈ m.links) ∨ ∃ j, w = .insertJob j ∧ l ∈ j.links := by
    cases w with
    | _ => simp [Write.links]
  exact ((or_congr application ((or_congr memo job).trans or_or_or_comm)).trans or_or_or_comm).trans
    (or_congr Iff.rfl created.symm)

theorem holds_attested {f : FundFact} (h : db.apply w = .ok db') :
    f.Holds db' ↔ f.Holds db ∨ w.Attests f := by
  cases f with
  | row r owner => exact owns_apply h
  | link l => exact links_apply h

theorem Traced.mono (weaken : ∀ f, K f → K' f) (h : Traced owner K r) : Traced owner K' r := by
  induction h with
  | row hrow => exact .row (weaken _ hrow)
  | link _ hlink ih => exact .link ih (weaken _ hlink)
  | alike _ hfrom hto ih => exact .alike ih (weaken _ hfrom) (weaken _ hto)

theorem OfOwner.mono {fund : Option Uuid} (weaken : ∀ f, K f → K' f) (h : OfOwner owner K fund) :
    OfOwner owner K' fund := by
  obtain rfl | ⟨r, htraced, hrow⟩ := h
  · exact Or.inl rfl
  · exact Or.inr ⟨r, htraced.mono weaken, weaken _ hrow⟩

theorem Write.Within.mono (weaken : ∀ f, K f → K' f) (h : w.Within owner K) :
    w.Within owner K' := by
  cases w with
  | insertThesis row => exact OfOwner.mono weaken h
  | insertSignal row => exact OfOwner.mono weaken h
  | insertKBChunk row => exact OfOwner.mono weaken h
  | insertDocument row => exact OfOwner.mono weaken h
  | insertOpportunity row => exact OfOwner.mono weaken h
  | insertClaim row => exact OfOwner.mono weaken h
  | insertApplication row => exact ⟨h.1.mono weaken, fun r hr => (h.2 r hr).mono weaken⟩
  | insertMemo row => exact ⟨h.1.mono weaken, h.2.mono weaken⟩
  | insertJob row => exact ⟨h.1.mono weaken, fun r hr => (h.2.1 r hr).mono weaken, h.2.2⟩
  | clearDefaults ids => exact fun id hid => (h id hid).mono weaken
  | updateThesis id set => exact Traced.mono weaken h
  | assignSignal id companyId personId => exact Traced.mono weaken h
  | insertDocumentPage row => exact Traced.mono weaken h
  | updateOpportunity id set => exact Traced.mono weaken h
  | updateApplication id status => exact Traced.mono weaken h
  | insertOpportunityScore row => exact Traced.mono weaken h
  | insertPrescreenResult row => exact Traced.mono weaken h
  | insertEvidence row => exact Traced.mono weaken h
  | updateMemo id sections version => exact Traced.mono weaken h
  | updateJob id set => exact Traced.mono weaken h
  | insertAgentStep row => exact Traced.mono weaken h
  | updateOutreach id set => exact Traced.mono weaken h
  | _ => trivial

theorem fenced_lawful (owner : Option Uuid) : (fenced owner).Lawful backend where
  keeps _ _ _ _ h hf := (holds_attested h).mpr (Or.inl hf)
  provides _ _ _ _ h hf := (holds_attested h).mpr (Or.inr hf)
  origin _ _ _ _ h hf := (holds_attested h).mp hf
  doomed := by
    rintro db w db' ⟨column, rfl⟩ h
    cases h
  fits _ _ _ weaken h := h.mono weaken

/-- Links lead nowhere else. -/
theorem Linked.traced (linked : Linked db) (h : Traced owner (fun f => f.Holds db) r) :
    db.Owns r owner := by
  induction h with
  | row hrow => exact hrow
  | link _ hlink ih =>
      obtain ⟨fund, hfrom, hto⟩ := linked.ends _ hlink
      exact owns_unique hfrom ih ▸ hto
  | alike _ hfrom hto ih => exact owns_unique hfrom ih ▸ hto

theorem Linked.ofOwner {fund : Option Uuid} (linked : Linked db)
    (h : OfOwner owner (fun f => f.Holds db) fund) : fund = owner := by
  obtain rfl | ⟨r, htraced, hrow⟩ := h
  · rfl
  · exact owns_unique hrow (linked.traced htraced)

/-- A row that the write creates is the owner's. -/
theorem Linked.created {t : FundTable} {id : Uuid} {fund : Option Uuid} (linked : Linked db)
    (hw : w.Within owner fun f => f.Holds db) (h : w.created t = some (id, fund)) :
    fund = owner := by
  cases w with
  | insertThesis row => cases t <;> cases h; exact linked.ofOwner hw
  | insertDocument row => cases t <;> cases h; exact linked.ofOwner hw
  | insertSignal row => cases t <;> cases h; exact linked.ofOwner hw
  | insertOpportunity row => cases t <;> cases h; exact linked.ofOwner hw
  | insertApplication row => cases t <;> cases h; exact linked.ofOwner hw.1
  | insertClaim row => cases t <;> cases h; exact linked.ofOwner hw
  | insertMemo row => cases t <;> cases h; exact linked.ofOwner hw.1
  | insertJob row => cases t <;> cases h; exact linked.ofOwner hw.1
  | _ => cases h

/-- Both ends of a link that the write creates are the owner's. -/
theorem Linked.joined {l : RowLink} (linked : Linked db)
    (hw : w.Within owner fun f => f.Holds db) (h : db.apply w = .ok db') (hl : l ∈ w.links) :
    db'.Owns l.1 owner ∧ db'.Owns l.2 owner := by
  have old {r : RowRef} (hr : Traced owner (fun f => f.Holds db) r) : db'.Owns r owner :=
    (owns_apply h).mpr (Or.inl (linked.traced hr))
  have new {r : RowRef} (hr : w.created r.1 = some (r.2, owner)) : db'.Owns r owner :=
    (owns_apply h).mpr (Or.inr hr)
  cases w with
  | insertApplication a =>
      have own : db'.Owns (.applications, a.id) owner :=
        new (congrArg (fun fund => some (a.id, fund)) (linked.ofOwner hw.1))
      obtain hl | hl := List.mem_append.mp hl
      · obtain ⟨r, hr, rfl⟩ := List.mem_map.mp hl
        exact ⟨own, old (hw.2 r hr)⟩
      · obtain ⟨id, hid, rfl⟩ : ∃ id, a.opportunityId = some id ∧
            ((FundTable.opportunities, id), (FundTable.applications, a.id)) = l := by simpa using hl
        exact ⟨old (hw.2 _ (by simp [Application.leads, hid])), own⟩
  | insertMemo m =>
      obtain rfl := List.mem_singleton.mp hl
      exact ⟨new (congrArg (fun fund => some (m.id, fund)) (linked.ofOwner hw.1)), old hw.2⟩
  | insertJob j =>
      obtain ⟨r, hr, rfl⟩ := List.mem_map.mp hl
      exact ⟨new (congrArg (fun fund => some (j.id, fund)) (linked.ofOwner hw.1)),
        old (hw.2.1 r hr)⟩
  | _ => cases hl

/-- Such writes leave no link from fund to fund. -/
theorem Linked.apply (linked : Linked db) (hw : w.Within owner fun f => f.Holds db)
    (h : db.apply w = .ok db') : Linked db' := by
  constructor
  case ends =>
    intro l hl
    obtain hl | hl := (links_apply h).mp hl
    · obtain ⟨fund, hfrom, hto⟩ := linked.ends l hl
      exact ⟨fund, (owns_apply h).mpr (Or.inl hfrom), (owns_apply h).mpr (Or.inl hto)⟩
    · exact ⟨owner, linked.joined hw h hl⟩
  case aimed =>
    intro j' hj' hkind
    obtain ⟨j, hj, keeps⟩ | rfl := job_origin hj' h
    · rw [keeps.kind] at hkind
      rw [keeps.targetId]
      exact linked.aimed j hj hkind
    · exact hw.2.2 hkind

end Facts

/-- What a fund has of the work on deals: the rows that name it and the parts of these. -/
structure FundRows where
  theses : List Thesis
  documents : List Document
  pages : List DocumentPage
  signals : List Signal
  kbChunks : List KBChunk
  opportunities : List Opportunity
  scores : List OpportunityScore
  prescreens : List PrescreenResult
  applications : List Application
  claims : List Claim
  evidence : List Evidence
  memos : List Memo
  jobs : List Job
  steps : List AgentStep
  outreach : List Outreach

def Db.fundRows (db : Db) (orgId : Uuid) (holds : RowRef → Bool) : FundRows where
  theses := db.theses.rows.filter fun r => r.orgId = orgId
  documents := db.documents.rows.filter fun r => r.orgId = some orgId
  pages := db.documentPages.rows.filter fun r => holds (.documents, r.documentId)
  signals := db.signals.rows.filter fun r => r.orgId = some orgId
  kbChunks := db.kbChunks.rows.filter fun r => r.orgId = some orgId
  opportunities := db.opportunities.rows.filter fun r => r.orgId = orgId
  scores := db.opportunityScores.rows.filter fun r => holds (.opportunities, r.opportunityId)
  prescreens := db.prescreenResults.rows.filter fun r => holds (.opportunities, r.opportunityId)
  applications := db.applications.rows.filter fun r => r.orgId = orgId
  claims := db.claims.rows.filter fun r => r.orgId = orgId
  evidence := db.evidence.rows.filter fun r => holds (.claims, r.claimId)
  memos := db.memos.rows.filter fun r => r.orgId = orgId
  jobs := db.jobs.rows.filter fun r => r.orgId = some orgId
  steps := db.agentSteps.rows.filter fun r => holds (.jobs, r.jobId)
  outreach := db.outreach.rows.filter fun r => r.orgId = orgId

def Db.fund (db : Db) (orgId : Uuid) : FundRows :=
  db.fundRows orgId fun r => (r.2, some orgId) ∈ db.owners r.1

section Others

variable {db db' : Db} {w : Write} {r : RowRef} {owner : Option Uuid} {other : Uuid}

theorem fund_eq_fundRows (linked : Linked db) (hw : w.Within owner fun f => f.Holds db)
    (hother : owner ≠ some other) (h : db.apply w = .ok db') :
    db'.fund other = db'.fundRows other fun r => (r.2, some other) ∈ db.owners r.1 := by
  unfold Db.fund
  congr 1
  funext r
  refine decide_eq_decide.mpr ((owns_apply h).trans (or_iff_left fun hnew => hother ?_))
  exact (linked.created hw hnew).symm

/-- An UPDATE of a row of the owner leaves what others have in the table alone. -/
theorem filter_traced {ρ : Type} {key : ρ → Uuid} (T : Table Uuid ρ key) {t : FundTable} {id : Uuid}
    {f : ρ → ρ} {p : ρ → Bool} (howns : db.Owns (t, id) owner) (hother : owner ≠ some other)
    (hp : ∀ r ∈ T, p r = true → (key r, some other) ∈ db.owners t) (hf : ∀ r, p (f r) = p r)
    (keeps : ∀ r, key (f r) = key r := by intros; rfl) :
    (T.update id f keeps).rows.filter p = T.rows.filter p := by
  refine Table.filter_update (fun r hr hid => ?_) keeps
  have out : p r = false := by
    refine Bool.eq_false_iff.mpr fun htrue => hother ?_
    exact owns_unique howns (hid ▸ hp r hr htrue)
  exact ⟨out, (hf r).trans out⟩

/-- Writes within one fund leave the rows of every other one alone. -/
theorem within_apply (linked : Linked db) (hw : w.Within owner fun f => f.Holds db)
    (hother : owner ≠ some other) (h : db.apply w = .ok db') : db'.fund other = db.fund other := by
  rw [fund_eq_fundRows linked hw hother h]
  have named {fund : Option Uuid} (hfund : OfOwner owner (fun f => f.Holds db) fund) :
      decide (fund = some other) = false :=
    decide_eq_false ((linked.ofOwner hfund).symm ▸ hother)
  have named' {fund : Uuid} (hfund : OfOwner owner (fun f => f.Holds db) (some fund)) :
      decide (fund = other) = false :=
    decide_eq_false fun heq => hother ((linked.ofOwner hfund).symm.trans (congrArg some heq))
  have traced {r : RowRef} (hr : Traced owner (fun f => f.Holds db) r) :
      decide ((r.2, some other) ∈ db.owners r.1) = false :=
    decide_eq_false fun hmem => hother (owns_unique (linked.traced hr) hmem)
  cases w with
  | insertThesis row =>
      obtain ⟨T, hT, rfl⟩ := map_eq_ok.mp h
      refine congrArg (fun rows => { db.fund other with theses := rows }) ?_
      exact Table.filter_insert? (insertRow_eq_ok.mp hT).2 (named' hw)
  | insertDocument row =>
      obtain ⟨T, hT, rfl⟩ := map_eq_ok.mp h
      refine congrArg (fun rows => { db.fund other with documents := rows }) ?_
      exact Table.filter_insert? (insertRow_eq_ok.mp hT).2 (named hw)
  | insertDocumentPage row =>
      obtain ⟨T, hT, rfl⟩ := map_eq_ok.mp h
      refine congrArg (fun rows => { db.fund other with pages := rows }) ?_
      exact Table.filter_insert? (insertRow_eq_ok.mp hT).2 (traced hw)
  | insertSignal row =>
      obtain ⟨T, hT, rfl⟩ := map_eq_ok.mp h
      refine congrArg (fun rows => { db.fund other with signals := rows }) ?_
      exact Table.filter_insert? (insertRow_eq_ok.mp hT).2 (named hw)
  | insertKBChunk row =>
      obtain ⟨T, hT, rfl⟩ := map_eq_ok.mp h
      refine congrArg (fun rows => { db.fund other with kbChunks := rows }) ?_
      exact Table.filter_insert? (insertRow_eq_ok.mp hT).2 (named hw)
  | insertOpportunity row =>
      obtain ⟨T, hT, rfl⟩ := map_eq_ok.mp (ite_error_eq_ok.mp h).2
      refine congrArg (fun rows => { db.fund other with opportunities := rows }) ?_
      exact Table.filter_insert? (insertRow_eq_ok.mp hT).2 (named' hw)
  | insertOpportunityScore row =>
      obtain ⟨T, hT, rfl⟩ := map_eq_ok.mp h
      refine congrArg (fun rows => { db.fund other with scores := rows }) ?_
      exact Table.filter_insert? (insertRow_eq_ok.mp hT).2 (traced hw)
  | insertPrescreenResult row =>
      obtain ⟨T, hT, rfl⟩ := map_eq_ok.mp h
      refine congrArg (fun rows => { db.fund other with prescreens := rows }) ?_
      exact Table.filter_insert? (insertRow_eq_ok.mp hT).2 (traced hw)
  | insertApplication row =>
      obtain ⟨T, hT, rfl⟩ := map_eq_ok.mp h
      refine congrArg (fun rows => { db.fund other with applications := rows }) ?_
      exact Table.filter_insert? (insertRow_eq_ok.mp hT).2 (named' hw.1)
  | insertClaim row =>
      obtain ⟨T, hT, rfl⟩ := map_eq_ok.mp h
      refine congrArg (fun rows => { db.fund other with claims := rows }) ?_
      exact Table.filter_insert? (insertRow_eq_ok.mp hT).2 (named' hw)
  | insertEvidence row =>
      obtain ⟨T, hT, rfl⟩ := map_eq_ok.mp h
      refine congrArg (fun rows => { db.fund other with evidence := rows }) ?_
      exact Table.filter_insert? (insertRow_eq_ok.mp hT).2 (traced hw)
  | insertMemo row =>
      obtain ⟨T, hT, rfl⟩ := map_eq_ok.mp h
      refine congrArg (fun rows => { db.fund other with memos := rows }) ?_
      exact Table.filter_insert? (insertRow_eq_ok.mp hT).2 (named' hw.1)
  | insertJob row =>
      obtain ⟨T, hT, rfl⟩ := map_eq_ok.mp h
      refine congrArg (fun rows => { db.fund other with jobs := rows }) ?_
      exact Table.filter_insert? (insertRow_eq_ok.mp hT).2 (named hw.1)
  | insertAgentStep row =>
      obtain ⟨T, hT, rfl⟩ := map_eq_ok.mp h
      refine congrArg (fun rows => { db.fund other with steps := rows }) ?_
      exact Table.filter_insert? (insertRow_eq_ok.mp hT).2 (traced hw)
  | updateThesis id set =>
      cases h
      refine congrArg (fun rows => { db.fund other with theses := rows }) ?_
      refine filter_traced db.theses (linked.traced hw) hother (fun r hr hp => ?_) fun _ => ?_
      · exact of_decide_eq_true hp ▸ List.mem_map_of_mem hr
      · rfl
  | assignSignal id companyId personId =>
      cases h
      refine congrArg (fun rows => { db.fund other with signals := rows }) ?_
      refine filter_traced db.signals (linked.traced hw) hother (fun r hr hp => ?_) fun _ => ?_
      · exact of_decide_eq_true hp ▸ List.mem_map_of_mem hr
      · rfl
  | updateOpportunity id set =>
      cases (ite_error_eq_ok.mp h).2
      refine congrArg (fun rows => { db.fund other with opportunities := rows }) ?_
      refine filter_traced db.opportunities (linked.traced hw) hother (fun r hr hp => ?_)
        fun _ => ?_
      · exact of_decide_eq_true hp ▸ List.mem_map_of_mem hr
      · rfl
  | updateApplication id status =>
      cases h
      refine congrArg (fun rows => { db.fund other with applications := rows }) ?_
      refine filter_traced db.applications (linked.traced hw) hother (fun r hr hp => ?_) fun _ => ?_
      · exact of_decide_eq_true hp ▸ List.mem_map_of_mem hr
      · rfl
  | updateMemo id sections version =>
      obtain ⟨T, hT, rfl⟩ := map_eq_ok.mp h
      obtain ⟨-, rfl⟩ := renumberMemo_eq_ok.mp hT
      refine congrArg (fun rows => { db.fund other with memos := rows }) ?_
      refine filter_traced db.memos (linked.traced hw) hother (fun r hr hp => ?_) fun _ => ?_
      · exact of_decide_eq_true hp ▸ List.mem_map_of_mem hr
      · rfl
  | updateJob id set =>
      cases h
      refine congrArg (fun rows => { db.fund other with jobs := rows }) ?_
      refine filter_traced db.jobs (linked.traced hw) hother (fun r hr hp => ?_) fun _ => ?_
      · exact of_decide_eq_true hp ▸ List.mem_map_of_mem hr
      · rfl
  | updateOutreach id set =>
      cases (ite_error_eq_ok.mp h).2
      refine congrArg (fun rows => { db.fund other with outreach := rows }) ?_
      refine filter_traced db.outreach (linked.traced hw) hother (fun r hr hp => ?_) fun _ => ?_
      · exact of_decide_eq_true hp ▸ List.mem_map_of_mem hr
      · rfl
  | clearDefaults ids =>
      cases h
      refine congrArg (fun rows => { db.fund other with theses := rows }) ?_
      refine Table.filter_updateWhere (fun r hr hid => ?_)
      have htraced : Traced owner (fun f => f.Holds db) (.theses, r.id) :=
        hw r.id (of_decide_eq_true hid)
      have hname : decide (r.orgId = other) = false := decide_eq_false fun heq =>
        hother (owns_unique (linked.traced htraced) (heq ▸ List.mem_map_of_mem hr))
      exact ⟨hname, hname⟩
  | refused e => cases h
  | _ =>
      simp only [Db.apply, map_eq_ok, Except.ok.injEq] at h
      first
      | (subst h; rfl)
      | (obtain ⟨T, -, rfl⟩ := h; rfl)

end Others

end DolphinVC
