import DolphinVC.Routers.Theses
import DolphinVC.Transaction.Evidence
import DolphinVC.Verification.LiveOpportunity

/-!
# References between the rows of a fund

The foreign keys say that the row a column names exists, not whose it is. A session knows
whose it is when it has loaded the row by id and fund, or created it, and these are the
facts that `tenancy` asks of a write that names a row. Two writes name rows that nobody
has looked up: a manual creation takes the thesis from its body, and an edit the user the
opportunity is assigned to.
-/

namespace DolphinVC

open Transaction Transition Relational

section Owners

variable (db : Db) (id orgId : Uuid)

def HasOpportunity : Prop := ∃ o ∈ db.opportunities, o.id = id ∧ o.orgId = orgId

def HasThesis : Prop := ∃ t ∈ db.theses, t.id = id ∧ t.orgId = orgId

def HasUser : Prop := ∃ u ∈ db.users, u.id = id ∧ u.orgId = orgId

def HasDocument : Prop := ∃ r ∈ db.documents, r.id = id ∧ r.orgId = some orgId

end Owners

/-- Whatever names an opportunity or a deck names one of its own fund. -/
structure OwnRows (db : Db) : Prop where
  application : ∀ a ∈ db.applications, ∀ id, a.opportunityId = some id →
    HasOpportunity db id a.orgId
  deck : ∀ a ∈ db.applications, ∀ id, a.deckDocumentId = some id → HasDocument db id a.orgId
  claim : ∀ c ∈ db.claims, ∀ id, c.opportunityId = some id → HasOpportunity db id c.orgId
  memo : ∀ m ∈ db.memos, HasOpportunity db m.opportunityId m.orgId
  job : ∀ j ∈ db.jobs, j.targetType = some "opportunity" →
    ∃ id orgId, j.targetId = some id ∧ j.orgId = some orgId ∧ HasOpportunity db id orgId

/-- An opportunity names a thesis and people of its own fund. -/
structure OwnPeople (db : Db) : Prop where
  thesis : ∀ o ∈ db.opportunities, ∀ id, o.thesisId = some id → HasThesis db id o.orgId
  assigned : ∀ o ∈ db.opportunities, ∀ id, o.assignedTo = some id → HasUser db id o.orgId
  decided : ∀ o ∈ db.opportunities, ∀ id, o.decisionBy = some id → HasUser db id o.orgId

/-- No reference crosses from one fund to another; in particular an analysis scores an
opportunity with a thesis of its fund. -/
structure NoCrossing (db : Db) : Prop where
  rows : OwnRows db
  people : OwnPeople db
  scored : ∀ o ∈ db.opportunities, ∀ t, o.thesisId.bind db.theses.find? = some t → t.orgId = o.orgId

inductive Fact where
  | opportunity (id : Uuid) (orgId : Option Uuid)
  | thesis (id orgId : Uuid)
  | user (id orgId : Uuid)
  | document (id orgId : Uuid)

/-- The job was created for the opportunity. -/
def Job.Targets (j : Job) (id : Uuid) (orgId : Option Uuid) : Prop :=
  j.targetType = some "opportunity" ∧ j.orgId = orgId ∧
    ∀ target, j.targetId = some target → target = id

/-- Whose an opportunity is shows in its row, and in a memo or a job for it. -/
def Fact.Holds (db : Db) : Fact → Prop
  | .opportunity id orgId =>
      (∃ o ∈ db.opportunities, o.id = id ∧ some o.orgId = orgId) ∨
      (∃ m ∈ db.memos, m.opportunityId = id ∧ some m.orgId = orgId) ∨
      ∃ j ∈ db.jobs, j.Targets id orgId
  | .thesis id orgId => HasThesis db id orgId
  | .user id orgId => HasUser db id orgId
  | .document id orgId => HasDocument db id orgId

def Write.Provides (w : Write) : Fact → Prop
  | .opportunity id orgId =>
      (∃ row, w = .insertOpportunity row ∧ row.id = id ∧ some row.orgId = orgId) ∨
      (∃ row, w = .insertMemo row ∧ row.opportunityId = id ∧ some row.orgId = orgId) ∨
      ∃ row, w = .insertJob row ∧ row.Targets id orgId
  | .thesis id orgId => ∃ row, w = .insertThesis row ∧ row.id = id ∧ row.orgId = orgId
  | .user id orgId => ∃ row, w = .insertUser row ∧ row.id = id ∧ row.orgId = orgId
  | .document id orgId => ∃ row, w = .insertDocument row ∧ row.id = id ∧ row.orgId = some orgId

/-- The facts that the references of a write have to be backed by; those to a thesis or a
user only when the reading is strict. -/
def Write.Fits (strict : Prop) (K : Fact → Prop) : Write → Prop
  | .insertOpportunity row => row.assignedTo = none ∧ row.decisionBy = none ∧
      (strict → ∀ id, row.thesisId = some id → K (.thesis id row.orgId))
  | .updateOpportunity id set => strict → ∀ userId,
      set.assignedTo = some (some userId) ∨ set.decisionBy = some (some userId) →
        ∃ orgId, K (.opportunity id (some orgId)) ∧ K (.user userId orgId)
  | .insertApplication row =>
      (∀ id, row.opportunityId = some id → K (.opportunity id (some row.orgId))) ∧
      ∀ id, row.deckDocumentId = some id → K (.document id row.orgId)
  | .insertClaim row => ∀ id, row.opportunityId = some id → K (.opportunity id (some row.orgId))
  | .insertMemo row => K (.opportunity row.opportunityId (some row.orgId))
  | .insertJob row => row.targetType = some "opportunity" →
      ∃ id, row.targetId = some id ∧ K (.opportunity id row.orgId)
  | _ => True

/-- What a session has to know before it names a row. -/
def tenancy (strict : Prop) : Transaction.Evidence Db Write Fact where
  Holds f db := f.Holds db
  Provides w f := w.Provides f
  Fits K w := w.Fits strict K
  Doomed w := ∃ e, w = .refused e

section Rows

variable {db db' : Db} {w : Write}

theorem opportunities_held {p : Opportunity → Prop} (keeps : ∀ o o', o.Keeps o' → (p o' ↔ p o))
    (h : db.apply w = .ok db') : (∃ o ∈ db'.opportunities, p o) ↔
      (∃ o ∈ db.opportunities, p o) ∨ ∃ row, w = .insertOpportunity row ∧ p row := by
  obtain ⟨row, rfl, hins⟩ | ⟨id, set, rfl, hupd⟩ | ⟨hw, heq⟩ := opportunities_apply h
  · rw [Table.exists_insert? hins]
    simp
  · rw [hupd]
    refine (Table.exists_update fun o => keeps o (o.patch set) ⟨rfl, rfl, rfl, rfl⟩).trans ?_
    simp
  · rw [heq]
    refine (or_iff_left ?_).symm
    rintro ⟨row, rfl, -⟩
    exact hw rfl

theorem jobs_held {p : Job → Prop} (keeps : ∀ j j', j.Keeps j' → (p j' ↔ p j))
    (h : db.apply w = .ok db') : (∃ j ∈ db'.jobs, p j) ↔
      (∃ j ∈ db.jobs, p j) ∨ ∃ row, w = .insertJob row ∧ p row := by
  obtain ⟨row, rfl, hins⟩ | ⟨id, set, rfl, hupd⟩ | ⟨hw, heq⟩ := jobs_apply h
  · rw [Table.exists_insert? hins]
    simp
  · rw [hupd]
    refine (Table.exists_update fun j =>
      keeps j (j.patch set) ⟨rfl, rfl, rfl, rfl, rfl, rfl, rfl⟩).trans ?_
    simp
  · rw [heq]
    refine (or_iff_left ?_).symm
    rintro ⟨row, rfl, -⟩
    exact hw rfl

theorem memos_held {p : Memo → Prop}
    (keeps : ∀ m sections version, p { m with sections, version } ↔ p m)
    (h : db.apply w = .ok db') :
    (∃ m ∈ db'.memos, p m) ↔ (∃ m ∈ db.memos, p m) ∨ ∃ row, w = .insertMemo row ∧ p row := by
  obtain ⟨row, rfl, -, hins⟩ | ⟨id, sections, version, rfl, -, hupd⟩ | ⟨hw, heq⟩ := memos_apply h
  · rw [Table.exists_insert? hins]
    simp
  · rw [hupd]
    refine (Table.exists_update fun m => keeps m sections version).trans ?_
    simp
  · rw [heq]
    refine (or_iff_left ?_).symm
    rintro ⟨row, rfl, -⟩
    exact hw rfl

theorem hasUser_apply {id orgId : Uuid} (h : db.apply w = .ok db') : HasUser db' id orgId ↔
    HasUser db id orgId ∨ ∃ row, w = .insertUser row ∧ row.id = id ∧ row.orgId = orgId := by
  unfold HasUser
  obtain ⟨row, rfl, hins⟩ | ⟨k, set, rfl, hupd⟩ | ⟨hw, heq⟩ := users_apply h
  · rw [Table.exists_insert? hins]
    simp
  · rw [hupd]
    refine (Table.exists_update (f := User.patch set) fun u => Iff.rfl).trans ?_
    simp
  · rw [heq]
    refine (or_iff_left ?_).symm
    rintro ⟨row, rfl, -⟩
    exact hw rfl

theorem hasThesis_apply {id orgId : Uuid} (h : db.apply w = .ok db') : HasThesis db' id orgId ↔
    HasThesis db id orgId ∨ ∃ row, w = .insertThesis row ∧ row.id = id ∧ row.orgId = orgId := by
  unfold HasThesis
  by_cases hw : ∃ row, w = .insertThesis row
  · obtain ⟨row, rfl⟩ := hw
    obtain ⟨t, ht, rfl⟩ := map_eq_ok.mp h
    rw [Table.exists_insert? (insertRow_eq_ok.mp ht).2]
    simp
  · rw [or_iff_left fun ⟨row, hrow, _⟩ => hw ⟨row, hrow⟩]
    obtain ⟨row, hrow, -⟩ | ⟨k, set, rfl, hupd⟩ | ⟨ids, rfl, hupd⟩ | heq := theses_apply h
    · exact absurd ⟨row, hrow⟩ hw
    · rw [hupd]
      exact Table.exists_update (f := Thesis.patch set) fun t => Iff.rfl
    · rw [hupd]
      constructor
      · rintro ⟨t, ht, hp⟩
        obtain ⟨r, hr, rfl⟩ := Table.mem_updateWhere.mp ht
        refine ⟨r, hr, ?_⟩
        split at hp
        · exact hp
        · exact hp
      · rintro ⟨r, hr, hp⟩
        refine ⟨_, Table.mem_updateWhere.mpr ⟨r, hr, rfl⟩, ?_⟩
        split
        · exact hp
        · exact hp
    · rw [heq]

theorem hasDocument_apply {id orgId : Uuid} (h : db.apply w = .ok db') : HasDocument db' id orgId ↔
    HasDocument db id orgId ∨
      ∃ row, w = .insertDocument row ∧ row.id = id ∧ row.orgId = some orgId := by
  unfold HasDocument
  obtain ⟨row, rfl, hins⟩ | ⟨hw, heq⟩ := documents_apply h
  · rw [Table.exists_insert? hins]
    simp
  · rw [heq, or_iff_left]
    rintro ⟨row, rfl, -⟩
    exact hw row rfl

theorem hasOpportunity_apply {id orgId : Uuid} (h : db.apply w = .ok db') :
    HasOpportunity db' id orgId ↔ HasOpportunity db id orgId ∨
      ∃ row, w = .insertOpportunity row ∧ row.id = id ∧ row.orgId = orgId :=
  opportunities_held (fun _ _ keeps => by rw [keeps.id, keeps.orgId]) h

theorem Job.Targets.of_keeps {j j' : Job} {id : Uuid} {orgId : Option Uuid} (keeps : j.Keeps j') :
    j'.Targets id orgId ↔ j.Targets id orgId := by
  unfold Job.Targets
  rw [keeps.targetType, keeps.orgId, keeps.targetId]

theorem holds_apply (f : Fact) (h : db.apply w = .ok db') :
    f.Holds db' ↔ f.Holds db ∨ w.Provides f := by
  cases f with
  | thesis id orgId => exact hasThesis_apply h
  | user id orgId => exact hasUser_apply h
  | document id orgId => exact hasDocument_apply h
  | opportunity id orgId =>
      have memosAndJobs := (or_congr (memos_held (p := fun m => m.opportunityId = id ∧
        some m.orgId = orgId) (fun _ _ _ => Iff.rfl) h)
        (jobs_held (p := fun j => j.Targets id orgId)
          (fun _ _ keeps => Job.Targets.of_keeps keeps) h)).trans or_or_or_comm
      exact (or_congr (opportunities_held (fun _ _ keeps => by rw [keeps.id, keeps.orgId]) h)
        memosAndJobs).trans or_or_or_comm

theorem Write.Fits.mono {strict : Prop} {K K' : Fact → Prop} (weaken : ∀ f, K f → K' f)
    (h : w.Fits strict K) : w.Fits strict K' := by
  cases w with
  | insertOpportunity row => exact ⟨h.1, h.2.1, fun hs id hid => weaken _ (h.2.2 hs id hid)⟩
  | updateOpportunity id set =>
      intro hs userId hset
      obtain ⟨orgId, hopportunity, huser⟩ := h hs userId hset
      exact ⟨orgId, weaken _ hopportunity, weaken _ huser⟩
  | insertApplication row =>
      exact ⟨fun id hid => weaken _ (h.1 id hid), fun id hid => weaken _ (h.2 id hid)⟩
  | insertClaim row => exact fun id hid => weaken _ (h id hid)
  | insertMemo row => exact weaken _ h
  | insertJob row =>
      intro htype
      obtain ⟨id, hid, hK⟩ := h htype
      exact ⟨id, hid, weaken _ hK⟩
  | _ => trivial

theorem tenancy_lawful (strict : Prop) : (tenancy strict).Lawful backend where
  keeps _ _ _ f h hf := (holds_apply f h).mpr (Or.inl hf)
  provides _ _ _ f h hf := (holds_apply f h).mpr (Or.inr hf)
  origin _ _ _ f h hf := (holds_apply f h).mp hf
  doomed := by
    rintro db w db' ⟨column, rfl⟩ h
    cases h
  fits _ _ _ weaken h := h.mono weaken

/-- Behind every sign of an opportunity stands the row itself. -/
theorem OwnRows.opportunity {id : Uuid} {orgId : Option Uuid} (h : OwnRows db)
    (hf : (Fact.opportunity id orgId).Holds db) :
    ∃ owner, orgId = some owner ∧ HasOpportunity db id owner := by
  obtain ⟨o, ho, hid, horg⟩ | ⟨m, hm, rfl, horg⟩ | ⟨j, hj, htype, horg, htarget⟩ := hf
  · exact ⟨o.orgId, horg.symm, o, ho, hid, rfl⟩
  · exact ⟨m.orgId, horg.symm, h.memo m hm⟩
  · obtain ⟨target, owner, hid, howner, hrow⟩ := h.job j hj htype
    obtain rfl := htarget target hid
    exact ⟨owner, horg.symm.trans howner, hrow⟩

theorem OwnRows.hasOpportunity {id orgId : Uuid} (h : OwnRows db)
    (hf : (Fact.opportunity id (some orgId)).Holds db) : HasOpportunity db id orgId := by
  obtain ⟨owner, howner, hrow⟩ := h.opportunity hf
  cases howner
  exact hrow

theorem OwnRows.apply {strict : Prop} (h : OwnRows db)
    (fits : w.Fits strict fun f => f.Holds db) (happly : db.apply w = .ok db') : OwnRows db' := by
  have opportunity {id orgId : Uuid} (hrow : HasOpportunity db id orgId) :
      HasOpportunity db' id orgId := (hasOpportunity_apply happly).mpr (Or.inl hrow)
  constructor
  case application =>
    intro a' ha' id hid
    obtain ⟨a, ha, keeps⟩ | rfl := application_origin ha' happly
    · rw [keeps.opportunityId] at hid
      exact opportunity (keeps.orgId ▸ h.application a ha id hid)
    · exact opportunity (h.hasOpportunity (fits.1 id hid))
  case deck =>
    intro a' ha' id hid
    refine (hasDocument_apply happly).mpr (Or.inl ?_)
    obtain ⟨a, ha, keeps⟩ | rfl := application_origin ha' happly
    · rw [keeps.deckDocumentId] at hid
      exact keeps.orgId ▸ h.deck a ha id hid
    · exact fits.2 id hid
  case claim =>
    intro c hc id hid
    obtain ⟨row, rfl, hins⟩ | ⟨-, heq⟩ := claims_apply happly
    · obtain hc | rfl := (Table.mem_insert? hins).mp hc
      · exact opportunity (h.claim c hc id hid)
      · exact opportunity (h.hasOpportunity (fits id hid))
    · exact opportunity (h.claim c (heq ▸ hc) id hid)
  case memo =>
    intro m hm
    rcases memos_apply happly with
      ⟨row, rfl, -, hins⟩ | ⟨id, sections, version, rfl, -, hupd⟩ | ⟨-, heq⟩
    · obtain hm | rfl := (Table.mem_insert? hins).mp hm
      · exact opportunity (h.memo m hm)
      · exact opportunity (h.hasOpportunity fits)
    · rw [hupd] at hm
      obtain ⟨m', hm', rfl⟩ := Table.mem_update.mp hm
      split
      · exact opportunity (h.memo m' hm')
      · exact opportunity (h.memo m' hm')
    · exact opportunity (h.memo m (heq ▸ hm))
  case job =>
    intro j' hj' htype
    obtain ⟨j, hj, keeps⟩ | rfl := job_origin hj' happly
    · rw [keeps.targetType] at htype
      obtain ⟨id, orgId, hid, horg, hrow⟩ := h.job j hj htype
      exact ⟨id, orgId, keeps.targetId.trans hid, keeps.orgId.trans horg, opportunity hrow⟩
    · obtain ⟨id, hid, hfact⟩ := fits htype
      obtain ⟨orgId, horg, hrow⟩ := h.opportunity hfact
      exact ⟨id, orgId, hid, horg, opportunity hrow⟩

/-- A user that an accepted edit names, or that the row named before. -/
theorem hasUser_patch {o : Opportunity} (rows : OwnRows db) (ho : o ∈ db.opportunities)
    {userId : Uuid} {named : Option (Option Uuid)} {before : Option Uuid}
    (hold : ∀ id, before = some id → HasUser db id o.orgId)
    (hnew : named = some (some userId) →
      ∃ orgId, (Fact.opportunity o.id (some orgId)).Holds db ∧ (Fact.user userId orgId).Holds db)
    (h : named.getD before = some userId) : HasUser db userId o.orgId := by
  cases named with
  | none => exact hold userId h
  | some value =>
      obtain ⟨orgId, hopportunity, huser⟩ := hnew (congrArg some h)
      obtain ⟨row, hrow, hid, horg⟩ := rows.hasOpportunity hopportunity
      obtain rfl := Table.eq_of_key hrow ho hid
      exact horg ▸ huser

theorem OwnPeople.apply (rows : OwnRows db) (h : OwnPeople db)
    (fits : w.Fits True fun f => f.Holds db) (happly : db.apply w = .ok db') : OwnPeople db' := by
  have user {id orgId : Uuid} (hrow : HasUser db id orgId) : HasUser db' id orgId :=
    (hasUser_apply happly).mpr (Or.inl hrow)
  have thesis {id orgId : Uuid} (hrow : HasThesis db id orgId) : HasThesis db' id orgId :=
    (hasThesis_apply happly).mpr (Or.inl hrow)
  obtain ⟨row, rfl, hins⟩ | ⟨id, set, rfl, hupd⟩ | ⟨-, heq⟩ := opportunities_apply happly
  case inl =>
    obtain ⟨hassigned, hdecided, hthesis⟩ := fits
    constructor
    · intro o ho id hid
      obtain ho | rfl := (Table.mem_insert? hins).mp ho
      · exact thesis (h.thesis o ho id hid)
      · exact thesis (hthesis trivial id hid)
    · intro o ho id hid
      obtain ho | rfl := (Table.mem_insert? hins).mp ho
      · exact user (h.assigned o ho id hid)
      · rw [hassigned] at hid
        cases hid
    · intro o ho id hid
      obtain ho | rfl := (Table.mem_insert? hins).mp ho
      · exact user (h.decided o ho id hid)
      · rw [hdecided] at hid
        cases hid
  case inr.inl =>
    have row {o' : Opportunity} (ho' : o' ∈ db'.opportunities) : ∃ o ∈ db.opportunities,
        (o.id = id ∧ o.patch set = o') ∨ o = o' := by
      rw [hupd] at ho'
      obtain ⟨o, ho, heq⟩ := Table.mem_update.mp ho'
      refine ⟨o, ho, ?_⟩
      split at heq
      · rename_i hid
        exact Or.inl ⟨hid, heq⟩
      · exact Or.inr heq
    constructor
    · intro o' ho' id hid
      obtain ⟨o, ho, ⟨-, rfl⟩ | rfl⟩ := row ho'
      · exact thesis (h.thesis o ho id hid)
      · exact thesis (h.thesis o ho id hid)
    · intro o' ho' userId huser
      obtain ⟨o, ho, ⟨rfl, rfl⟩ | rfl⟩ := row ho'
      · exact user (hasUser_patch rows ho (h.assigned o ho)
          (fun hset => fits trivial userId (Or.inl hset)) huser)
      · exact user (h.assigned o ho userId huser)
    · intro o' ho' userId huser
      obtain ⟨o, ho, ⟨rfl, rfl⟩ | rfl⟩ := row ho'
      · exact user (hasUser_patch rows ho (h.decided o ho)
          (fun hset => fits trivial userId (Or.inr hset)) huser)
      · exact user (h.decided o ho userId huser)
  case inr.inr =>
    refine ⟨fun o ho id hid => ?_, fun o ho id hid => ?_, fun o ho id hid => ?_⟩
    · exact thesis (h.thesis o (heq ▸ ho) id hid)
    · exact user (h.assigned o (heq ▸ ho) id hid)
    · exact user (h.decided o (heq ▸ ho) id hid)

/-- The references, those of opportunities only under the strict reading. -/
def Refs (strict : Prop) (db : Db) : Prop := OwnRows db ∧ (strict → OwnPeople db)

theorem Refs.apply {strict : Prop} (h : Refs strict db) (fits : w.Fits strict fun f => f.Holds db)
    (happly : db.apply w = .ok db') : Refs strict db' := by
  refine ⟨h.1.apply fits happly, fun hs => ?_⟩
  obtain rfl : strict = True := eq_true hs
  exact (h.2 hs).apply h.1 fits happly

end Rows

section Vouched

open Tx

variable {α β : Type} {strict : Prop} {fs hs : List Fact} {p : DolphinVC.Tx α} {G : α → List Fact}

/-- The program knows of every row that it names whose it is. -/
abbrev Vouched (strict : Prop) (fs : List Fact) (p : DolphinVC.Tx α) (G : α → List Fact) : Prop :=
  Shows (tenancy strict) backend fs p G

/-- A write that names no row which could be another fund's. -/
def Write.Idle (w : Write) : Prop := ∀ strict K, w.Fits strict K

theorem Write.Elsewhere.idle {w : Write} (h : w.Elsewhere) : w.Idle := by
  intro strict K
  cases w with
  | insertOpportunity row => cases h
  | updateOpportunity id set => cases h
  | insertApplication row => cases h
  | insertClaim row => cases h
  | insertMemo row => cases h
  | insertJob row => cases h
  | _ => trivial

theorem idle_update {id : Uuid} {set : OpportunityPatch} (hassigned : set.assignedTo = none)
    (hdecided : set.decisionBy = none) : (Write.updateOpportunity id set).Idle := by
  rintro strict K - userId (h | h)
  · rw [hassigned] at h
    cases h
  · rw [hdecided] at h
    cases h

theorem vouched_of_idle (h : Emits Write.Idle p) : Vouched strict fs p fun _ => fs :=
  Emits.shows (tenancy_lawful strict) (h.weaken fun _ hw => hw strict _)

theorem vouched_of_elsewhere (h : Emits Write.Elsewhere p) : Vouched strict fs p fun _ => fs :=
  vouched_of_idle (h.weaken fun _ hw => hw.idle)

theorem vouched_of_reads (h : Reads p) : Vouched strict fs p fun _ => fs := vouched_of_idle h.emits

theorem vouched_query {q : Db → α} (h : ∀ view, ∀ f ∈ G (q view), f ∈ fs ∨ f.Holds view) :
    Vouched strict fs (Tx.query q) G := Shows.query (tenancy_lawful strict) h

/-- A look-up makes known what holds of the row that it finds. -/
theorem vouched_find {ρ : Type} {q : Db → Option ρ} (fact : ρ → Fact)
    (h : ∀ view r, q view = some r → (fact r).Holds view) :
    Vouched strict fs (Tx.query q) fun r => (r.map fact).toList ++ fs := by
  refine vouched_query fun view f hf => ?_
  obtain hf | hf := List.mem_append.mp hf
  · obtain ⟨r, hr, rfl⟩ : ∃ r, q view = some r ∧ fact r = f := by simpa using hf
    exact Or.inr (h view r hr)
  · exact Or.inl hf

theorem vouched_stage {w : Write} {G : Unit → List Fact} (fits : w.Fits strict fun f => f ∈ fs)
    (provides : ∀ g ∈ G (), g ∈ fs ∨ w.Provides g) : Vouched strict fs (Tx.stage w) G :=
  Shows.stage (tenancy_lawful strict) fits provides

theorem vouched_write {w : Write} (fits : w.Fits strict fun f => f ∈ fs) :
    Vouched strict fs (Tx.stage w) fun _ => fs := vouched_stage fits fun _ hg => Or.inl hg

theorem vouched_flush : Vouched strict fs (Tx.flush : DolphinVC.Tx Unit) fun _ => fs :=
  vouched_of_idle Emits.flush

theorem vouched_commit : Vouched strict fs (Tx.commit : DolphinVC.Tx Unit) fun _ => fs :=
  vouched_of_idle Emits.commit

theorem vouched_dispatch {queueEager : Bool} {id : Uuid} :
    Vouched strict fs (dispatchJob queueEager id) fun _ => fs := vouched_of_idle dispatchJob_emits

/-- Forget everything. -/
theorem Vouched.drop (h : Vouched strict fs p G) : Vouched strict fs p fun _ => [] :=
  h.consequence (fun _ hf => hf) fun _ _ hf => absurd hf List.not_mem_nil

/-- An attempt that may have failed midway makes nothing known. -/
theorem vouched_attempt (h : Vouched strict fs p G) :
    Vouched strict fs (Tx.attempt p) fun _ => [] := Vouched.drop (Shows.attempt h)

theorem Vouched.refs {db : Db} (h : Vouched strict fs p G) (known : ∀ f ∈ fs, f.Holds db)
    (hrefs : Refs strict db) : Refs strict (p.atomically backend db).2 :=
  Shows.atomically (tenancy_lawful strict) h known
    (fun _ _ _ hI fits happly => hI.apply fits happly) hrefs

/-- A request that starts from nothing known. -/
theorem Vouched.served {db : Db} (h : Vouched strict [] p G) (hrefs : Refs strict db) :
    Refs strict (p.atomically backend db).2 :=
  h.refs (fun _ hf => absurd hf List.not_mem_nil) hrefs

end Vouched

section Creators

open Tx

variable {strict : Prop} {fs : List Fact} {env : Env} {orgId : Uuid} {company : Company}
variable {d : DealDraws}

theorem applicationDocument_vouched {submission : Submission} {deck? : Option Deck}
    {companyId id : Uuid} :
    Vouched strict fs (applicationDocument submission deck? companyId id) fun r =>
      (r.map fun id => Fact.document id submission.orgId).toList ++ fs := by
  cases deck? with
  | none => exact Shows.pure (by simp)
  | some deck =>
      refine Shows.bind (Shows.call _) fun _ => Shows.bind
        (vouched_find (fun r : Document => .document r.id submission.orgId) ?_) fun document? => ?_
      · intro view r hr
        have hrow := List.find?_some hr
        simp only [decide_eq_true_eq] at hrow
        exact ⟨r, List.mem_of_find?_eq_some hr, rfl, hrow.1⟩
      · cases document? with
        | some document => exact Shows.pure (by simp)
        | none =>
            refine Shows.bind (Shows.call _) fun _ => Shows.bind (vouched_stage
              (G := fun _ => .document id submission.orgId :: fs) trivial ?_) fun _ =>
                Shows.bind vouched_flush fun _ => Shows.pure (by simp)
            intro g hg
            obtain rfl | hg := List.mem_cons.mp hg
            · exact Or.inr ⟨_, rfl, rfl, rfl⟩
            · exact Or.inl (by simpa using hg)

/-- An insertion makes known whose the opportunity is. -/
theorem vouched_insert {row : Opportunity} (hassigned : row.assignedTo = none)
    (hdecided : row.decisionBy = none)
    (hthesis : strict → ∀ id, row.thesisId = some id → Fact.thesis id row.orgId ∈ fs) :
    Vouched strict fs (Tx.stage (.insertOpportunity row)) fun _ =>
      .opportunity row.id (some row.orgId) :: fs := by
  refine vouched_stage ⟨hassigned, hdecided, hthesis⟩ fun g hg => ?_
  obtain rfl | hg := List.mem_cons.mp hg
  · exact Or.inr (Or.inl ⟨row, rfl, rfl, rfl⟩)
  · exact Or.inl hg

/-- What the look-up of a live opportunity makes known. -/
theorem vouched_liveOpportunity {companyId : Uuid} :
    Vouched strict fs (Tx.query (liveOpportunity? orgId companyId)) fun r =>
      (r.map fun o => Fact.opportunity o.id (some orgId)).toList ++ fs := by
  refine vouched_find (fun o : Opportunity => .opportunity o.id (some orgId)) fun view o ho => ?_
  have hrow := List.find?_some ho
  simp only [decide_eq_true_eq] at hrow
  exact Or.inl ⟨o, List.mem_of_find?_eq_some ho, rfl, congrArg some hrow.1⟩

theorem applicationOpportunity_vouched :
    Vouched strict fs (applicationOpportunity env orgId company d) fun id =>
      .opportunity id (some orgId) :: fs := by
  refine Shows.bind vouched_liveOpportunity fun opportunity? => ?_
  cases opportunity? with
  | some o => exact Shows.pure (by simp)
  | none =>
      refine Shows.bind (vouched_find (fun t : Thesis => .thesis t.id orgId) ?_) fun thesis? => ?_
      · intro view t ht
        have hrow := List.find?_some ht
        simp only [decide_eq_true_eq] at hrow
        exact ⟨t, List.mem_of_find?_eq_some ht, rfl, hrow.1⟩
      · refine Shows.bind (vouched_insert rfl rfl ?_) fun _ => Shows.bind vouched_flush fun _ =>
          Shows.pure ?_
        · rintro - id hid
          obtain ⟨t, rfl, rfl⟩ : ∃ t, thesis? = some t ∧ t.id = id := by
            simpa [newOpportunity] using hid
          simp [newOpportunity]
        · intro f hf
          obtain rfl | hf := List.mem_cons.mp hf
          · exact List.mem_cons_self
          · exact List.mem_cons_of_mem _ (List.mem_append_right _ hf)

theorem createApplication_vouched {form : ApplicationForm} {submission : Submission} :
    Vouched strict [] (createApplication env form submission d) fun _ => [] := by
  refine Shows.bind (vouched_of_reads validateApplication_reads) fun _ =>
    Shows.bind (vouched_of_reads (Reads.query _)) fun prior? => ?_
  cases prior? with
  | some prior => exact Shows.pure (by simp)
  | none =>
      refine Shows.bind (vouched_of_elsewhere applicationCompany_stages.emits) fun company =>
        Shows.bind applicationDocument_vouched fun documentId =>
          Shows.bind applicationOpportunity_vouched fun opportunityId =>
            Shows.bind (vouched_of_elsewhere (elsewhere_of_stages
              ensureApplicationFounder_stages).emits) fun _ =>
              Shows.bind (vouched_write ?application) fun _ => Shows.bind vouched_flush fun _ =>
                Shows.bind (vouched_write ?job) fun _ => Shows.bind vouched_flush fun _ =>
                  Shows.pure (by simp)
      case application =>
        refine ⟨fun id hid => ?_, fun id hid => ?_⟩
        · obtain rfl := Option.some.inj hid
          exact List.mem_cons_self
        · have hdocument : documentId = some id := hid
          simp [hdocument, newApplication]
      case job =>
        intro _
        exact ⟨opportunityId, rfl, List.mem_cons_self⟩

theorem createManualOpportunity_vouched {body : OpportunityCreate}
    (hthesis : strict → ∀ id, body.thesisId = some id → Fact.thesis id orgId ∈ fs) :
    Vouched strict fs (createManualOpportunity env orgId body d) fun _ => fs := by
  refine Shows.bind (vouched_of_elsewhere manualCompany_stages.emits) fun company =>
    Shows.bind (vouched_of_reads (Reads.query _)) fun existing => Shows.ite
      (fun _ => Shows.throw) fun _ => Shows.bind (vouched_insert rfl rfl hthesis) fun _ =>
        Shows.bind vouched_flush fun _ => Shows.pure fun _ hf => List.mem_cons_of_mem _ hf

end Creators

end DolphinVC
