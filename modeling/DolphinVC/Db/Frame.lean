import DolphinVC.Db.State

/-!
# What a statement can do to a table

One inversion lemma per table that some invariant speaks about. It names the
statements that write the table, with what each of them does, and says that
every other statement leaves it alone.
-/

namespace DolphinVC

open Relational Transaction

variable {db db' : Db} {w : Write}

theorem map_eq_ok {ε α β : Type} {x : Except ε α} {f : α → β} {b : β} :
    x.map f = .ok b ↔ ∃ a, x = .ok a ∧ f a = b := by
  cases x with
  | error e => simp [Except.map]
  | ok a => simp [Except.map]

theorem ite_error_eq_ok {ε α : Type} {c : Prop} [Decidable c] {x : Except ε α} {e : ε} {b : α} :
    (if c then x else .error e) = .ok b ↔ c ∧ x = .ok b := by
  by_cases h : c <;> simp [h]

/-- The tables that the invariants below speak about, and the statements that write them. -/
inductive Target where
  | users | refreshTokens | opportunities | applications | jobs | signals | claims | memos | scores
  | audit | other
  deriving DecidableEq

def Write.target : Write → Target
  | .insertUser _ | .updateUser _ _ => .users
  | .insertRefreshToken _ | .revokeRefreshToken _ _ _ | .revokeRefreshTokens _ _ _ _ =>
      .refreshTokens
  | .insertOpportunity _ | .updateOpportunity _ _ => .opportunities
  | .insertApplication _ | .updateApplication _ _ => .applications
  | .insertJob _ | .updateJob _ _ => .jobs
  | .insertSignal _ | .assignSignal _ _ _ => .signals
  | .insertClaim _ => .claims
  | .insertMemo _ | .updateMemo _ _ _ => .memos
  | .insertOpportunityScore _ => .scores
  | .insertAuditLog _ => .audit
  | _ => .other

/-- A statement changes its own table only. -/
theorem apply_frame (h : db.apply w = .ok db') :
    (w.target ≠ .users → db'.users = db.users) ∧
    (w.target ≠ .refreshTokens → db'.refreshTokens = db.refreshTokens) ∧
    (w.target ≠ .opportunities → db'.opportunities = db.opportunities) ∧
    (w.target ≠ .applications → db'.applications = db.applications) ∧
    (w.target ≠ .jobs → db'.jobs = db.jobs) ∧
    (w.target ≠ .signals → db'.signals = db.signals) := by
  cases w with
  | refused e => cases h
  | _ =>
      simp only [Db.apply, map_eq_ok, ite_error_eq_ok, Except.ok.injEq] at h
      first
      | (subst h; simp [Write.target])
      | (obtain ⟨t, -, rfl⟩ := h; simp [Write.target])
      | (obtain ⟨-, t, -, rfl⟩ := h; simp [Write.target])

theorem users_apply (h : db.apply w = .ok db') :
    (∃ row, w = .insertUser row ∧ db.users.insert? row = some db'.users) ∨
    (∃ id set, w = .updateUser id set ∧ db'.users = db.users.update id (User.patch set)) ∨
    w.target ≠ .users ∧ db'.users = db.users := by
  by_cases ht : w.target = .users
  · cases w with
    | insertUser row =>
        obtain ⟨t, ht, rfl⟩ := map_eq_ok.mp h
        exact Or.inl ⟨row, rfl, (insertRow_eq_ok.mp ht).2⟩
    | updateUser id set =>
        cases h
        exact Or.inr (Or.inl ⟨id, set, rfl, rfl⟩)
    | _ => cases ht
  · exact Or.inr (Or.inr ⟨ht, (apply_frame h).1 ht⟩)

theorem refreshTokens_apply (h : db.apply w = .ok db') :
    (∃ row, w = .insertRefreshToken row ∧ (∀ r ∈ db.refreshTokens, r.tokenHash ≠ row.tokenHash) ∧
      db.refreshTokens.insert? row = some db'.refreshTokens) ∨
    (∃ loaded at' reason, w = .revokeRefreshToken loaded at' reason ∧
      db'.refreshTokens = db.refreshTokens.update loaded.id (RefreshToken.revoke at' reason)) ∨
    (∃ ids live at' reason, w = .revokeRefreshTokens ids live at' reason ∧
      db'.refreshTokens = db.refreshTokens.updateWhere
        (fun r => r.id ∈ ids ∧ (live = true → r.revokedAt = none))
        (RefreshToken.revoke at' reason)) ∨
    w.target ≠ .refreshTokens ∧ db'.refreshTokens = db.refreshTokens := by
  by_cases ht : w.target = .refreshTokens
  · cases w with
    | insertRefreshToken row =>
        obtain ⟨t, ht, rfl⟩ := map_eq_ok.mp h
        obtain ⟨fresh, hins⟩ := insertRow_eq_ok.mp ht
        exact Or.inl ⟨row, rfl, by simpa using fresh, hins⟩
    | revokeRefreshToken loaded at' reason =>
        cases h
        exact Or.inr (Or.inl ⟨loaded, at', reason, rfl, rfl⟩)
    | revokeRefreshTokens ids live at' reason =>
        cases h
        exact Or.inr (Or.inr (Or.inl ⟨ids, live, at', reason, rfl, rfl⟩))
    | _ => cases ht
  · exact Or.inr (Or.inr (Or.inr ⟨ht, (apply_frame h).2.1 ht⟩))

theorem opportunities_apply (h : db.apply w = .ok db') :
    (∃ row, w = .insertOpportunity row ∧ db.opportunities.insert? row = some db'.opportunities) ∨
    (∃ id set, w = .updateOpportunity id set ∧
      db'.opportunities = db.opportunities.update id (Opportunity.patch set)) ∨
    w.target ≠ .opportunities ∧ db'.opportunities = db.opportunities := by
  by_cases ht : w.target = .opportunities
  · cases w with
    | insertOpportunity row =>
        obtain ⟨-, h⟩ := ite_error_eq_ok.mp h
        obtain ⟨t, ht, rfl⟩ := map_eq_ok.mp h
        exact Or.inl ⟨row, rfl, (insertRow_eq_ok.mp ht).2⟩
    | updateOpportunity id set =>
        obtain ⟨-, h⟩ := ite_error_eq_ok.mp h
        cases h
        exact Or.inr (Or.inl ⟨id, set, rfl, rfl⟩)
    | _ => cases ht
  · exact Or.inr (Or.inr ⟨ht, (apply_frame h).2.2.1 ht⟩)

/-- The write leaves the table of opportunities alone. -/
def Write.Quiet (w : Write) : Prop := w.target ≠ .opportunities

theorem Write.quiet_of_target (h : decide (w.target = .opportunities) = false) : w.Quiet :=
  of_decide_eq_false h

theorem applications_apply (h : db.apply w = .ok db') :
    (∃ row, w = .insertApplication row ∧ db.applications.insert? row = some db'.applications) ∨
    (∃ id status, w = .updateApplication id status ∧
      db'.applications = db.applications.update id fun r => { r with status }) ∨
    w.target ≠ .applications ∧ db'.applications = db.applications := by
  by_cases ht : w.target = .applications
  · cases w with
    | insertApplication row =>
        obtain ⟨t, ht, rfl⟩ := map_eq_ok.mp h
        exact Or.inl ⟨row, rfl, (insertRow_eq_ok.mp ht).2⟩
    | updateApplication id status =>
        cases h
        exact Or.inr (Or.inl ⟨id, status, rfl, rfl⟩)
    | _ => cases ht
  · exact Or.inr (Or.inr ⟨ht, (apply_frame h).2.2.2.1 ht⟩)

theorem jobs_apply (h : db.apply w = .ok db') :
    (∃ row, w = .insertJob row ∧ db.jobs.insert? row = some db'.jobs) ∨
    (∃ id set, w = .updateJob id set ∧ db'.jobs = db.jobs.update id (Job.patch set)) ∨
    w.target ≠ .jobs ∧ db'.jobs = db.jobs := by
  by_cases ht : w.target = .jobs
  · cases w with
    | insertJob row =>
        obtain ⟨t, ht, rfl⟩ := map_eq_ok.mp h
        exact Or.inl ⟨row, rfl, (insertRow_eq_ok.mp ht).2⟩
    | updateJob id set =>
        cases h
        exact Or.inr (Or.inl ⟨id, set, rfl, rfl⟩)
    | _ => cases ht
  · exact Or.inr (Or.inr ⟨ht, (apply_frame h).2.2.2.2.1 ht⟩)

theorem signals_apply (h : db.apply w = .ok db') :
    (∃ row, w = .insertSignal row ∧ db.signals.insert? row = some db'.signals) ∨
    (∃ id companyId personId, w = .assignSignal id companyId personId ∧
      db'.signals = db.signals.update id fun r =>
        { r with companyId := some companyId, personId := personId.or r.personId }) ∨
    w.target ≠ .signals ∧ db'.signals = db.signals := by
  by_cases ht : w.target = .signals
  · cases w with
    | insertSignal row =>
        obtain ⟨t, ht, rfl⟩ := map_eq_ok.mp h
        exact Or.inl ⟨row, rfl, (insertRow_eq_ok.mp ht).2⟩
    | assignSignal id companyId personId =>
        cases h
        exact Or.inr (Or.inl ⟨id, companyId, personId, rfl, rfl⟩)
    | _ => cases ht
  · exact Or.inr (Or.inr ⟨ht, (apply_frame h).2.2.2.2.2 ht⟩)

theorem theses_apply (h : db.apply w = .ok db') :
    (∃ row, w = .insertThesis row ∧ db.theses.insert? row = some db'.theses) ∨
    (∃ id set, w = .updateThesis id set ∧
      db'.theses = db.theses.update id (Thesis.patch set)) ∨
    (∃ ids, w = .clearDefaults ids ∧ db'.theses = db.theses.updateWhere (fun r => r.id ∈ ids)
      fun r => { r with isDefault := false }) ∨
    db'.theses = db.theses := by
  cases w with
  | insertThesis row =>
      obtain ⟨t, ht, rfl⟩ := map_eq_ok.mp h
      exact Or.inl ⟨row, rfl, (insertRow_eq_ok.mp ht).2⟩
  | updateThesis id set =>
      cases h
      exact Or.inr (Or.inl ⟨id, set, rfl, rfl⟩)
  | clearDefaults ids =>
      cases h
      exact Or.inr (Or.inr (Or.inl ⟨ids, rfl, rfl⟩))
  | refused e => cases h
  | _ =>
      refine Or.inr (Or.inr (Or.inr ?_))
      simp only [Db.apply, map_eq_ok, ite_error_eq_ok, Except.ok.injEq] at h
      first
      | (subst h; rfl)
      | (obtain ⟨t, -, rfl⟩ := h; rfl)
      | (obtain ⟨-, t, -, rfl⟩ := h; rfl)

theorem claims_apply (h : db.apply w = .ok db') :
    (∃ row, w = .insertClaim row ∧ db.claims.insert? row = some db'.claims) ∨
    w.target ≠ .claims ∧ db'.claims = db.claims := by
  cases w with
  | insertClaim row =>
      obtain ⟨t, ht, rfl⟩ := map_eq_ok.mp h
      exact Or.inl ⟨row, rfl, (insertRow_eq_ok.mp ht).2⟩
  | refused e => cases h
  | _ =>
      refine Or.inr ⟨by simp [Write.target], ?_⟩
      simp only [Db.apply, map_eq_ok, ite_error_eq_ok, Except.ok.injEq] at h
      first
      | (subst h; rfl)
      | (obtain ⟨t, -, rfl⟩ := h; rfl)
      | (obtain ⟨-, t, -, rfl⟩ := h; rfl)

theorem renumberMemo_eq_ok {t t' : Table Uuid Memo Memo.id} {id : Uuid}
    {sections : List MemoSection} {version : Nat} :
    renumberMemo t id sections version = .ok t' ↔
      (∀ m ∈ t, m.id = id → ∀ r ∈ t, r.id ≠ id → r.opportunityId = m.opportunityId →
        r.version ≠ version) ∧
      t' = t.update id fun r => { r with sections, version } := by
  simp only [renumberMemo, List.any_eq_true, decide_eq_true_eq, Table.mem_rows]
  split
  · rename_i h
    obtain ⟨m, hm, hid, r, hr, hne, hopp, hversion⟩ := h
    constructor
    · intro h
      cases h
    · rintro ⟨free, -⟩
      exact absurd hversion (free m hm hid r hr hne hopp)
  · rename_i h
    simp only [Except.ok.injEq]
    constructor
    · rintro rfl
      exact ⟨fun m hm hid r hr hne hopp hversion =>
        h ⟨m, hm, hid, r, hr, hne, hopp, hversion⟩, rfl⟩
    · rintro ⟨-, rfl⟩
      rfl

theorem memos_apply (h : db.apply w = .ok db') :
    (∃ row, w = .insertMemo row ∧
      (∀ r ∈ db.memos, r.opportunityId = row.opportunityId → r.version ≠ row.version) ∧
      db.memos.insert? row = some db'.memos) ∨
    (∃ id sections version, w = .updateMemo id sections version ∧
      (∀ m ∈ db.memos, m.id = id → ∀ r ∈ db.memos, r.id ≠ id →
        r.opportunityId = m.opportunityId → r.version ≠ version) ∧
      db'.memos = db.memos.update id fun r => { r with sections, version }) ∨
    w.target ≠ .memos ∧ db'.memos = db.memos := by
  cases w with
  | insertMemo row =>
      obtain ⟨t, ht, rfl⟩ := map_eq_ok.mp h
      obtain ⟨fresh, hins⟩ := insertRow_eq_ok.mp ht
      refine Or.inl ⟨row, rfl, fun r hr hopp hversion => ?_, hins⟩
      have := fresh r hr
      simp [hopp, hversion] at this
  | updateMemo id sections version =>
      obtain ⟨t, ht, rfl⟩ := map_eq_ok.mp h
      obtain ⟨free, rfl⟩ := renumberMemo_eq_ok.mp ht
      exact Or.inr (Or.inl ⟨id, sections, version, rfl, free, rfl⟩)
  | refused e => cases h
  | _ =>
      refine Or.inr (Or.inr ⟨by simp [Write.target], ?_⟩)
      simp only [Db.apply, map_eq_ok, ite_error_eq_ok, Except.ok.injEq] at h
      first
      | (subst h; rfl)
      | (obtain ⟨t, -, rfl⟩ := h; rfl)
      | (obtain ⟨-, t, -, rfl⟩ := h; rfl)

theorem opportunityScores_apply (h : db.apply w = .ok db') :
    (∃ row, w = .insertOpportunityScore row ∧
      (∀ r ∈ db.opportunityScores, r.opportunityId = row.opportunityId → r.axis = row.axis →
        r.version ≠ row.version) ∧
      db.opportunityScores.insert? row = some db'.opportunityScores) ∨
    w.target ≠ .scores ∧ db'.opportunityScores = db.opportunityScores := by
  cases w with
  | insertOpportunityScore row =>
      obtain ⟨t, ht, rfl⟩ := map_eq_ok.mp h
      obtain ⟨fresh, hins⟩ := insertRow_eq_ok.mp ht
      refine Or.inl ⟨row, rfl, fun r hr hopp haxis hversion => ?_, hins⟩
      have := fresh r hr
      simp [hopp, haxis, hversion] at this
  | refused e => cases h
  | _ =>
      refine Or.inr ⟨by simp [Write.target], ?_⟩
      simp only [Db.apply, map_eq_ok, ite_error_eq_ok, Except.ok.injEq] at h
      first
      | (subst h; rfl)
      | (obtain ⟨t, -, rfl⟩ := h; rfl)
      | (obtain ⟨-, t, -, rfl⟩ := h; rfl)

theorem auditLog_apply (h : db.apply w = .ok db') :
    (∃ row, w = .insertAuditLog row ∧ db'.auditLog = db.auditLog ++ [row]) ∨
    w.target ≠ .audit ∧ db'.auditLog = db.auditLog := by
  cases w with
  | insertAuditLog row =>
      cases h
      exact Or.inl ⟨row, rfl, rfl⟩
  | refused e => cases h
  | _ =>
      refine Or.inr ⟨by simp [Write.target], ?_⟩
      simp only [Db.apply, map_eq_ok, ite_error_eq_ok, Except.ok.injEq] at h
      first
      | (subst h; rfl)
      | (obtain ⟨t, -, rfl⟩ := h; rfl)
      | (obtain ⟨-, t, -, rfl⟩ := h; rfl)

theorem documents_apply (h : db.apply w = .ok db') :
    (∃ row, w = .insertDocument row ∧ db.documents.insert? row = some db'.documents) ∨
    (∀ row, w ≠ .insertDocument row) ∧ db'.documents = db.documents := by
  cases w with
  | insertDocument row =>
      obtain ⟨t, ht, rfl⟩ := map_eq_ok.mp h
      exact Or.inl ⟨row, rfl, (insertRow_eq_ok.mp ht).2⟩
  | refused e => cases h
  | _ =>
      refine Or.inr ⟨by simp, ?_⟩
      simp only [Db.apply, map_eq_ok, ite_error_eq_ok, Except.ok.injEq] at h
      first
      | (subst h; rfl)
      | (obtain ⟨t, -, rfl⟩ := h; rfl)
      | (obtain ⟨-, t, -, rfl⟩ := h; rfl)

theorem emailTokens_apply (h : db.apply w = .ok db') :
    (∃ row, w = .insertEmailToken row ∧ (∀ r ∈ db.emailTokens, r.tokenHash ≠ row.tokenHash) ∧
      db.emailTokens.insert? row = some db'.emailTokens) ∨
    (∃ id at', w = .useEmailToken id at' ∧
      db'.emailTokens = db.emailTokens.update id fun r => { r with usedAt := some at' }) ∨
    db'.emailTokens = db.emailTokens := by
  cases w with
  | insertEmailToken row =>
      obtain ⟨t, ht, rfl⟩ := map_eq_ok.mp h
      obtain ⟨fresh, hins⟩ := insertRow_eq_ok.mp ht
      exact Or.inl ⟨row, rfl, fun r hr => by simpa using fresh r hr, hins⟩
  | useEmailToken id at' =>
      cases h
      exact Or.inr (Or.inl ⟨id, at', rfl, rfl⟩)
  | refused e => cases h
  | _ =>
      refine Or.inr (Or.inr ?_)
      simp only [Db.apply, map_eq_ok, ite_error_eq_ok, Except.ok.injEq] at h
      first
      | (subst h; rfl)
      | (obtain ⟨t, -, rfl⟩ := h; rfl)
      | (obtain ⟨-, t, -, rfl⟩ := h; rfl)

section Rows

/-- What no statement changes in a row of opportunities. -/
structure Opportunity.Keeps (o o' : Opportunity) : Prop where
  id : o'.id = o.id
  orgId : o'.orgId = o.orgId
  companyId : o'.companyId = o.companyId
  thesisId : o'.thesisId = o.thesisId

/-- What no statement changes in a row of applications. -/
structure Application.Keeps (a a' : Application) : Prop where
  id : a'.id = a.id
  orgId : a'.orgId = a.orgId
  opportunityId : a'.opportunityId = a.opportunityId
  deckDocumentId : a'.deckDocumentId = a.deckDocumentId

/-- What no statement changes in a row of jobs. -/
structure Job.Keeps (j j' : Job) : Prop where
  id : j'.id = j.id
  orgId : j'.orgId = j.orgId
  kind : j'.kind = j.kind
  targetType : j'.targetType = j.targetType
  targetId : j'.targetId = j.targetId
  idempotencyKey : j'.idempotencyKey = j.idempotencyKey
  input : j'.input = j.input

theorem Opportunity.Keeps.refl (o : Opportunity) : o.Keeps o := ⟨rfl, rfl, rfl, rfl⟩

theorem Application.Keeps.refl (a : Application) : a.Keeps a := ⟨rfl, rfl, rfl, rfl⟩

theorem Job.Keeps.refl (j : Job) : j.Keeps j := ⟨rfl, rfl, rfl, rfl, rfl, rfl, rfl⟩

theorem Job.Keeps.trans {j j' j'' : Job} (h : j.Keeps j') (h' : j'.Keeps j'') : j.Keeps j'' :=
  ⟨h'.id.trans h.id, h'.orgId.trans h.orgId, h'.kind.trans h.kind,
    h'.targetType.trans h.targetType, h'.targetId.trans h.targetId,
    h'.idempotencyKey.trans h.idempotencyKey, h'.input.trans h.input⟩

theorem Job.Keeps.symm {j j' : Job} (h : j.Keeps j') : j'.Keeps j :=
  ⟨h.id.symm, h.orgId.symm, h.kind.symm, h.targetType.symm, h.targetId.symm,
    h.idempotencyKey.symm, h.input.symm⟩

theorem opportunity_persists {o : Opportunity} (ho : o ∈ db.opportunities)
    (h : db.apply w = .ok db') : ∃ o' ∈ db'.opportunities, o.Keeps o' := by
  obtain ⟨row, rfl, hins⟩ | ⟨id, set, rfl, hupd⟩ | ⟨-, heq⟩ := opportunities_apply h
  · exact ⟨o, (Table.mem_insert? hins).mpr (Or.inl ho), .refl o⟩
  · rw [hupd]
    refine ⟨if o.id = id then o.patch set else o, Table.mem_update.mpr ⟨o, ho, rfl⟩, ?_⟩
    split
    · exact ⟨rfl, rfl, rfl, rfl⟩
    · exact .refl o
  · exact ⟨o, heq ▸ ho, .refl o⟩

/-- Every row was there or is the one that the statement inserts. -/
theorem opportunity_origin {o' : Opportunity} (ho' : o' ∈ db'.opportunities)
    (h : db.apply w = .ok db') :
    (∃ o ∈ db.opportunities, o.Keeps o') ∨ w = .insertOpportunity o' := by
  obtain ⟨row, rfl, hins⟩ | ⟨id, set, rfl, hupd⟩ | ⟨-, heq⟩ := opportunities_apply h
  · exact ((Table.mem_insert? hins).mp ho').imp (fun ho => ⟨o', ho, .refl o'⟩)
      fun hrow => by rw [hrow]
  · rw [hupd] at ho'
    obtain ⟨o, ho, rfl⟩ := Table.mem_update.mp ho'
    refine Or.inl ⟨o, ho, ?_⟩
    split
    · exact ⟨rfl, rfl, rfl, rfl⟩
    · exact .refl o
  · exact Or.inl ⟨o', heq ▸ ho', .refl o'⟩

theorem application_persists {a : Application} (ha : a ∈ db.applications)
    (h : db.apply w = .ok db') : ∃ a' ∈ db'.applications, a.Keeps a' := by
  obtain ⟨row, rfl, hins⟩ | ⟨id, status, rfl, hupd⟩ | ⟨-, heq⟩ := applications_apply h
  · exact ⟨a, (Table.mem_insert? hins).mpr (Or.inl ha), .refl a⟩
  · rw [hupd]
    refine ⟨if a.id = id then { a with status } else a, Table.mem_update.mpr ⟨a, ha, rfl⟩, ?_⟩
    split
    · exact ⟨rfl, rfl, rfl, rfl⟩
    · exact .refl a
  · exact ⟨a, heq ▸ ha, .refl a⟩

theorem application_origin {a' : Application} (ha' : a' ∈ db'.applications)
    (h : db.apply w = .ok db') :
    (∃ a ∈ db.applications, a.Keeps a') ∨ w = .insertApplication a' := by
  obtain ⟨row, rfl, hins⟩ | ⟨id, status, rfl, hupd⟩ | ⟨-, heq⟩ := applications_apply h
  · exact ((Table.mem_insert? hins).mp ha').imp (fun ha => ⟨a', ha, .refl a'⟩)
      fun hrow => by rw [hrow]
  · rw [hupd] at ha'
    obtain ⟨a, ha, rfl⟩ := Table.mem_update.mp ha'
    refine Or.inl ⟨a, ha, ?_⟩
    split
    · exact ⟨rfl, rfl, rfl, rfl⟩
    · exact .refl a
  · exact Or.inl ⟨a', heq ▸ ha', .refl a'⟩

theorem job_persists {j : Job} (hj : j ∈ db.jobs) (h : db.apply w = .ok db') :
    ∃ j' ∈ db'.jobs, j.Keeps j' := by
  obtain ⟨row, rfl, hins⟩ | ⟨id, set, rfl, hupd⟩ | ⟨-, heq⟩ := jobs_apply h
  · exact ⟨j, (Table.mem_insert? hins).mpr (Or.inl hj), .refl j⟩
  · rw [hupd]
    refine ⟨if j.id = id then j.patch set else j, Table.mem_update.mpr ⟨j, hj, rfl⟩, ?_⟩
    split
    · exact ⟨rfl, rfl, rfl, rfl, rfl, rfl, rfl⟩
    · exact .refl j
  · exact ⟨j, heq ▸ hj, .refl j⟩

theorem job_origin {j' : Job} (hj' : j' ∈ db'.jobs) (h : db.apply w = .ok db') :
    (∃ j ∈ db.jobs, j.Keeps j') ∨ w = .insertJob j' := by
  obtain ⟨row, rfl, hins⟩ | ⟨id, set, rfl, hupd⟩ | ⟨-, heq⟩ := jobs_apply h
  · exact ((Table.mem_insert? hins).mp hj').imp (fun hj => ⟨j', hj, .refl j'⟩)
      fun hrow => by rw [hrow]
  · rw [hupd] at hj'
    obtain ⟨j, hj, rfl⟩ := Table.mem_update.mp hj'
    refine Or.inl ⟨j, hj, ?_⟩
    split
    · exact ⟨rfl, rfl, rfl, rfl, rfl, rfl, rfl⟩
    · exact .refl j
  · exact Or.inl ⟨j', heq ▸ hj', .refl j'⟩

end Rows

end DolphinVC
