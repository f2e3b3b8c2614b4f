import DolphinVC.Transition.Run
import DolphinVC.Transaction.OneCommit
import DolphinVC.Routers.Operations
import DolphinVC.Verification.Credentials
import DolphinVC.Verification.Deals

/-!
# Outreach is sent once and with approval

Only an approved outreach can be sent. But an outreach in any status can be approved, so
after it was sent or rejected it can be approved and sent again, and an approval by the
service or an API key names no user. `Sound` says what a send must find for none of this to
matter.
-/

namespace DolphinVC

open Relational Transaction Transition

section History

inductive Deed where
  | sent (outreachId : Uuid)
  | rejected (outreachId : Uuid)
  deriving DecidableEq

/-- The store, and the successful sends and rejections so far. -/
structure OutreachState where
  db : Db
  log : List Deed := []

structure OutreachEvent where
  credentials : Option Credentials
  now : Timestamp
  request : OutreachRequest

def OutreachRequest.deeds : OutreachRequest → List Deed
  | .approve _ => []
  | .send outreachId => [.sent outreachId]
  | .reject outreachId _ => [.rejected outreachId]

def OutreachEvent.serve (env : Env) (db : Db) (e : OutreachEvent) : Except Exc Unit × Db :=
  (e.request.serve env e.credentials e.now).atomically backend db

def outreachStep (env : Env) (s : OutreachState) (e : OutreachEvent) : OutreachState where
  db := (e.serve env s.db).2
  log := s.log ++ if (e.serve env s.db).1.toBool then e.request.deeds else []

/-- No send comes after a send or a rejection of the same outreach. -/
def SentOnce (log : List Deed) : Prop :=
  log.Pairwise fun earlier later => ∀ outreachId, later = .sent outreachId →
    earlier ≠ .sent outreachId ∧ earlier ≠ .rejected outreachId

/-- Outreach is sent at most once, not after a rejection, and with a user's approval. -/
structure SentWithApproval (s : OutreachState) : Prop where
  once : SentOnce s.log
  approved : ∀ o ∈ s.db.outreach, o.status = .sent →
    ∃ user ∈ s.db.users, o.approvedBy = some user.id

/-- The rows record what the log tells, and approvals name stored users. -/
structure Logged (s : OutreachState) : Prop where
  sent : ∀ o ∈ s.db.outreach, o.sentAt ≠ none ↔ .sent o.id ∈ s.log
  rejected : ∀ o ∈ s.db.outreach, o.rejectionReason ≠ none ↔ .rejected o.id ∈ s.log
  approver : ∀ o ∈ s.db.outreach, ∀ userId, o.approvedBy = some userId →
    ∃ user ∈ s.db.users, user.id = userId

def fundOutreach? (orgId outreachId : Uuid) (db : Db) : Option Outreach :=
  db.outreach.rows.find? fun o => o.id = outreachId ∧ o.orgId = orgId

/-- A send that finds an approved outreach finds it unsent, not rejected and approved by a user. -/
def OutreachEvent.Sound (env : Env) (s : OutreachState) (e : OutreachEvent) : Prop :=
  ∀ outreachId, e.request = .send outreachId → ∀ principal,
    Admits env s.db .screen e.credentials e.now principal → ∀ o,
      fundOutreach? principal.orgId outreachId s.db = some o → o.status = .approved →
        o.sentAt = none ∧ o.rejectionReason = none ∧ o.approvedBy ≠ none

end History

section Effect

variable {env : Env} {credentials : Option Credentials} {now : Timestamp} {db : Db}
variable {principal : Principal} {o o' : Outreach} {orgId outreachId : Uuid}

theorem fundOutreach?_eq_some_iff : fundOutreach? orgId outreachId db = some o ↔
    o ∈ db.outreach ∧ o.id = outreachId ∧ o.orgId = orgId := by
  constructor
  · intro h
    exact ⟨List.mem_of_find?_eq_some h, by simpa using List.find?_some h⟩
  · rintro ⟨ho, hid, horg⟩
    refine Table.find?_eq_some_of_unique ho (by simp [hid, horg]) fun r hr hrow => ?_
    simp only [decide_eq_true_eq] at hrow
    exact Table.eq_of_key hr ho (hrow.1.trans hid.symm)

theorem reads_getOutreach (orgId outreachId : Uuid) : Tx.Reads (getOutreach orgId outreachId) := by
  refine Tx.Reads.bind (Tx.Reads.query _) fun row? => ?_
  cases row? with
  | none => exact Tx.Reads.throw _
  | some row => exact Tx.Reads.pure _

/-- What an endpoint is told that asks for an outreach of the fund. -/
theorem getOutreach_bind {α : Type} {k : Outreach → Tx α} :
    (getOutreach orgId outreachId >>= k).atomically backend db =
      match fundOutreach? orgId outreachId db with
      | none => (.error (Exc.notFound "Outreach"), db)
      | some o => (k o).atomically backend db := by
  have hget : ((getOutreach orgId outreachId).atomically backend db).1 =
      match fundOutreach? orgId outreachId db with
      | none => .error (Exc.notFound "Outreach")
      | some o => .ok o := by
    unfold getOutreach
    rw [Tx.atomically_query_bind]
    show ((match fundOutreach? orgId outreachId db with
      | none => _
      | some o => _ : Tx Outreach).atomically backend db).1 = _
    cases fundOutreach? orgId outreachId db with
    | none => rfl
    | some o => rfl
  cases ho : fundOutreach? orgId outreachId db with
  | none =>
      rw [ho] at hget
      exact Tx.Reads.atomically_bind_error (reads_getOutreach _ _) hget
  | some o =>
      rw [ho] at hget
      exact Tx.Reads.atomically_bind (reads_getOutreach _ _) hget

/-- The row after a request that reaches it, or what the request is refused with. -/
def OutreachRequest.assign (now : Timestamp) (userId : Option Uuid) (o : Outreach) :
    OutreachRequest → Except Exc Outreach
  | .approve _ => .ok { o with status := .approved, approvedBy := userId }
  | .send _ =>
      if o.status ≠ .approved then
        .error (Exc.unprocessable "Outreach must be approved before sending.")
      else .ok { o with status := .sent, sentAt := some now }
  | .reject _ body => .ok { o with status := .declined, rejectionReason := some body.reason }

def OutreachRequest.target : OutreachRequest → Uuid
  | .approve outreachId => outreachId
  | .send outreachId => outreachId
  | .reject outreachId _ => outreachId

/-- The row is replaced and nothing else changes. -/
def ReplacesOutreach (db db' : Db) (o o' : Outreach) : Prop :=
  db'.users = db.users ∧
    ∀ r, r ∈ db'.outreach ↔ ∃ r₀ ∈ db.outreach, (if r₀.id = o.id then o' else r₀) = r

theorem outreach_patch_changes (hid : o'.id = o.id) (horg : o'.orgId = o.orgId)
    (hsent : o'.sentAt = o.sentAt ∨ o'.sentAt.isSome)
    (hreason : o'.rejectionReason = o.rejectionReason ∨ o'.rejectionReason.isSome) :
    o.patch (o.changes o') = o' := by
  simp only [Outreach.patch, Outreach.changes, changed_getD, changed_orElse hsent,
    changed_orElse hreason, ← hid, ← horg]

theorem replaces_update (ho : o ∈ db.outreach) (hpatch : o.patch (o.changes o') = o')
    (approver : ∀ userId, o'.approvedBy = some userId → ∃ user ∈ db.users, user.id = userId) :
    ∃ db', db.apply (.updateOutreach o.id (o.changes o')) = .ok db' ∧
      ReplacesOutreach db db' o o' := by
  have hfk : fkOk db.users ((o.changes o').approvedBy.getD none) = true := by
    show fkOk db.users ((changed o.approvedBy o'.approvedBy).getD none) = true
    unfold changed
    split
    · rfl
    · cases huser : o'.approvedBy with
      | none => rfl
      | some userId =>
          obtain ⟨user, hmem, rfl⟩ := approver userId huser
          show (db.users.find? user.id).isSome = true
          rw [Table.find?_of_mem hmem]
          rfl
  refine ⟨_, ite_error_eq_ok.mpr ⟨hfk, rfl⟩, rfl, fun r => ?_⟩
  have hmem : r ∈ db.outreach.update o.id (Outreach.patch (o.changes o')) ↔ ∃ r₀ ∈ db.outreach,
      (if r₀.id = o.id then Outreach.patch (o.changes o') r₀ else r₀) = r := Table.mem_update
  refine hmem.trans (exists_congr fun r₀ => and_congr_right fun hr₀ => ?_)
  by_cases hid : r₀.id = o.id
  · rw [if_pos hid, if_pos hid, Table.eq_of_key hr₀ ho hid, hpatch]
  · rw [if_neg hid, if_neg hid]

theorem assign_ok {r : OutreachRequest} {userId : Option Uuid}
    (h : r.assign now userId o = .ok o') :
    o'.id = o.id ∧ o.patch (o.changes o') = o' ∧
      (o'.approvedBy = userId ∨ o'.approvedBy = o.approvedBy) := by
  cases r with
  | approve _ =>
      cases h
      exact ⟨rfl, outreach_patch_changes rfl rfl (Or.inl rfl) (Or.inl rfl), Or.inl rfl⟩
  | send _ =>
      dsimp only [OutreachRequest.assign] at h
      split at h
      · cases h
      · cases h
        exact ⟨rfl, outreach_patch_changes rfl rfl (Or.inr rfl) (Or.inl rfl), Or.inr rfl⟩
  | reject _ body =>
      cases h
      exact ⟨rfl, outreach_patch_changes rfl rfl (Or.inl rfl) (Or.inr rfl), Or.inr rfl⟩

/-- What follows the look-up in the endpoints: the UPDATE of the assigned row, or a refusal. -/
def Assigns {α : Type} (db : Db) (o : Outreach) (assigned : Except Exc Outreach)
    (p : Tx α) : Prop :=
  match assigned with
  | .error e => p.atomically backend db = (.error e, db)
  | .ok o' => ∀ db', db.apply (.updateOutreach o.id (o.changes o')) = .ok db' →
      ∃ a, p.atomically backend db = (.ok a, db')

/-- What an outreach request does: nothing, or the assignment of the outreach it names. -/
def OutreachEffect (env : Env) (db : Db) (e : OutreachEvent)
    (served : Except Exc Unit × Db) : Prop :=
  (served.1.toBool = false ∧ served.2 = db ∧ ∀ principal o,
      Admits env db .screen e.credentials e.now principal →
        fundOutreach? principal.orgId e.request.target db = some o →
          ∀ o', e.request.assign e.now principal.userId o ≠ .ok o') ∨
    ∃ principal o o', Admits env db .screen e.credentials e.now principal ∧
      fundOutreach? principal.orgId e.request.target db = some o ∧
      e.request.assign e.now principal.userId o = .ok o' ∧
      served.1.toBool = true ∧ ReplacesOutreach db served.2 o o'

theorem effect_of_assigns {α : Type} {e : OutreachEvent} {k : Principal → Outreach → Tx α}
    (approvers : ∀ o ∈ db.outreach, ∀ userId, o.approvedBy = some userId →
      ∃ user ∈ db.users, user.id = userId)
    (hk : ∀ principal o, Assigns db o (e.request.assign e.now principal.userId o) (k principal o)) :
    OutreachEffect env db e ((Tx.void (do
      let principal ← require .screen env e.credentials e.now
      let row ← getOutreach principal.orgId e.request.target
      k principal row)).atomically backend db) := by
  unfold Tx.void
  rw [Tx.atomically_map]
  cases hadmits : ((require .screen env e.credentials e.now).atomically backend db).1 with
  | error exc =>
      rw [Tx.Reads.atomically_bind_error (reads_require _ _ _ _) hadmits]
      refine Or.inl ⟨rfl, rfl, fun principal o admitted => ?_⟩
      rw [Admits, hadmits] at admitted
      cases admitted
  | ok principal =>
      rw [Tx.Reads.atomically_bind (reads_require _ _ _ _) hadmits, getOutreach_bind]
      have only {other : Principal} (admitted : Admits env db .screen e.credentials e.now other) :
          other = principal := by
        rw [Admits, hadmits] at admitted
        exact (Except.ok.inj admitted).symm
      cases hfind : fundOutreach? principal.orgId e.request.target db with
      | none =>
          refine Or.inl ⟨rfl, rfl, fun other o admitted hother => ?_⟩
          rw [only admitted, hfind] at hother
          cases hother
      | some o =>
          have hassigns := hk principal o
          cases hassign : e.request.assign e.now principal.userId o with
          | error exc =>
              rw [hassign] at hassigns
              show OutreachEffect env db e
                (((k principal o).atomically backend db).1.map _,
                  ((k principal o).atomically backend db).2)
              rw [show (k principal o).atomically backend db = (.error exc, db) from hassigns]
              refine Or.inl ⟨rfl, rfl, fun other o₁ admitted hother o' hok => ?_⟩
              rw [only admitted, hfind] at hother
              cases hother
              rw [only admitted, hassign] at hok
              cases hok
          | ok o' =>
              rw [hassign] at hassigns
              obtain ⟨hid, hpatch, hby⟩ := assign_ok hassign
              have ho := (fundOutreach?_eq_some_iff.mp hfind).1
              have stored (userId : Uuid) (happroved : o'.approvedBy = some userId) :
                  ∃ user ∈ db.users, user.id = userId := by
                obtain hprincipal | hkept := hby
                · obtain ⟨-, c, -, hstems⟩ := stems_of_require hadmits
                  rw [hprincipal] at happroved
                  cases hstems with
                  | service => cases happroved
                  | apiKey => cases happroved
                  | user _ _ _ huser => exact ⟨_, huser, Option.some.inj happroved⟩
                · exact approvers o ho userId (hkept ▸ happroved)
              obtain ⟨db', happly, hreplaces⟩ := replaces_update ho hpatch stored
              obtain ⟨a, ha⟩ := (show ∀ db', _ → _ from hassigns) db' happly
              show OutreachEffect env db e
                (((k principal o).atomically backend db).1.map _,
                  ((k principal o).atomically backend db).2)
              rw [ha]
              exact Or.inr ⟨principal, o, o', hadmits, hfind, hassign, rfl, hreplaces⟩

theorem outreach_effect (env : Env) (db : Db) (e : OutreachEvent)
    (approvers : ∀ o ∈ db.outreach, ∀ userId, o.approvedBy = some userId →
      ∃ user ∈ db.users, user.id = userId) : OutreachEffect env db e (e.serve env db) := by
  obtain ⟨credentials, now, request⟩ := e
  cases request with
  | approve outreachId =>
      refine effect_of_assigns approvers fun principal o => ?_
      exact fun db' happly => ⟨_, Tx.atomically_stage_commit happly⟩
  | send outreachId =>
      refine effect_of_assigns approvers fun principal o => ?_
      by_cases hstatus : o.status ≠ .approved
      · simp only [OutreachRequest.assign, if_pos hstatus]
        rfl
      · simp only [OutreachRequest.assign, if_neg hstatus]
        exact fun db' happly => ⟨_, Tx.atomically_stage_commit happly⟩
  | reject outreachId body =>
      refine effect_of_assigns approvers fun principal o => ?_
      exact fun db' happly => ⟨_, Tx.atomically_stage_commit happly⟩

end Effect

section Step

variable {env : Env} {s : OutreachState} {e : OutreachEvent} {outreachId : Uuid}

theorem sent_mem_deeds {r : OutreachRequest} :
    .sent outreachId ∈ r.deeds ↔ r = .send outreachId := by
  cases r with
  | approve id => simp [OutreachRequest.deeds]
  | send id => simp [OutreachRequest.deeds, eq_comm]
  | reject id body => simp [OutreachRequest.deeds]

theorem rejected_mem_deeds {r : OutreachRequest} :
    .rejected outreachId ∈ r.deeds ↔ ∃ body, r = .reject outreachId body := by
  cases r with
  | approve id => simp [OutreachRequest.deeds]
  | send id => simp [OutreachRequest.deeds]
  | reject id body => simp [OutreachRequest.deeds, eq_comm]

theorem sentOnce_append {r : OutreachRequest} (h : SentOnce s.log) :
    SentOnce (s.log ++ r.deeds) ↔ ∀ outreachId, r = .send outreachId →
      .sent outreachId ∉ s.log ∧ .rejected outreachId ∉ s.log := by
  unfold SentOnce
  rw [List.pairwise_append]
  constructor
  · rintro ⟨-, -, hcross⟩ outreachId rfl
    have hnot := fun earlier (hmem : earlier ∈ s.log) =>
      hcross earlier hmem (.sent outreachId) List.mem_cons_self outreachId rfl
    exact ⟨fun hsent => (hnot _ hsent).1 rfl, fun hrejected => (hnot _ hrejected).2 rfl⟩
  · intro hnew
    refine ⟨h, ?_, fun earlier hmem later hlater outreachId hsend => ?_⟩
    · cases r with
      | approve id => exact List.Pairwise.nil
      | send id => exact List.pairwise_singleton _ _
      | reject id body => exact List.pairwise_singleton _ _
    · subst hsend
      obtain ⟨hsent, hrejected⟩ := hnew outreachId (sent_mem_deeds.mp hlater)
      exact ⟨fun heq => hsent (heq ▸ hmem), fun heq => hrejected (heq ▸ hmem)⟩

theorem logged_step (h : Logged s) (e : OutreachEvent) : Logged (outreachStep env s e) := by
  rcases outreach_effect env s.db e h.approver with ⟨hanswer, hdb, -⟩ |
    ⟨principal, o, o', hadmits, hfind, hassign, hanswer, husers, hrows⟩
  · have hsame : outreachStep env s e = s := by
      unfold outreachStep
      rw [hanswer, hdb]
      simp
    rw [hsame]
    exact h
  · have hlog : (outreachStep env s e).log = s.log ++ e.request.deeds := by
      unfold outreachStep
      rw [hanswer]
      rfl
    obtain ⟨ho, hid, -⟩ := fundOutreach?_eq_some_iff.mp hfind
    obtain ⟨hid', -, hby⟩ := assign_ok hassign
    have elsewhere {r : Outreach} (hr : r.id ≠ o.id) :
        .sent r.id ∉ e.request.deeds ∧ .rejected r.id ∉ e.request.deeds := by
      refine ⟨fun hsent => hr ?_, fun hrejected => hr ?_⟩
      · rw [hid, sent_mem_deeds.mp hsent]
        rfl
      · obtain ⟨body, hreject⟩ := rejected_mem_deeds.mp hrejected
        rw [hid, hreject]
        rfl
    refine ⟨fun r hr => ?_, fun r hr => ?_, fun r hr userId happroved => ?_⟩
    · rw [hlog, List.mem_append]
      obtain ⟨r₀, hr₀, rfl⟩ := (hrows r).mp hr
      by_cases hsame : r₀.id = o.id
      · rw [if_pos hsame, hid', sent_mem_deeds, ← h.sent o ho]
        cases hrequest : e.request with
        | approve id =>
            rw [hrequest] at hassign
            cases hassign
            simp
        | send id =>
            rw [hrequest] at hassign hid
            dsimp only [OutreachRequest.assign] at hassign
            split at hassign
            · cases hassign
            · cases hassign
              simp [hid, OutreachRequest.target]
        | reject id body =>
            rw [hrequest] at hassign
            cases hassign
            simp
      · rw [if_neg hsame, h.sent r₀ hr₀, or_iff_left (elsewhere hsame).1]
    · rw [hlog, List.mem_append]
      obtain ⟨r₀, hr₀, rfl⟩ := (hrows r).mp hr
      by_cases hsame : r₀.id = o.id
      · rw [if_pos hsame, hid', rejected_mem_deeds, ← h.rejected o ho]
        cases hrequest : e.request with
        | approve id =>
            rw [hrequest] at hassign
            cases hassign
            simp
        | send id =>
            rw [hrequest] at hassign
            dsimp only [OutreachRequest.assign] at hassign
            split at hassign
            · cases hassign
            · cases hassign
              simp
        | reject id body =>
            rw [hrequest] at hassign hid
            cases hassign
            simp [hid, OutreachRequest.target]
      · rw [if_neg hsame, h.rejected r₀ hr₀, or_iff_left (elsewhere hsame).2]
    · show ∃ user ∈ (e.serve env s.db).2.users, user.id = userId
      rw [husers]
      obtain ⟨r₀, hr₀, rfl⟩ := (hrows r).mp hr
      by_cases hsame : r₀.id = o.id
      · rw [if_pos hsame] at happroved
        obtain hprincipal | hkept := hby
        · obtain ⟨-, c, -, hstems⟩ := stems_of_require hadmits
          rw [hprincipal] at happroved
          cases hstems with
          | service => cases happroved
          | apiKey => cases happroved
          | user _ _ _ huser => exact ⟨_, huser, Option.some.inj happroved⟩
        · exact h.approver o ho userId (hkept ▸ happroved)
      · rw [if_neg hsame] at happroved
        exact h.approver r₀ hr₀ userId happroved

/-- Whether outreach is sent once and with approval is decided by what each send finds. -/
theorem sentWithApproval_step_iff (hrec : Logged s) (h : SentWithApproval s) (e : OutreachEvent) :
    SentWithApproval (outreachStep env s e) ↔ e.Sound env s := by
  rcases outreach_effect env s.db e hrec.approver with ⟨hanswer, hdb, hnone⟩ |
    ⟨principal, o, o', hadmits, hfind, hassign, hanswer, husers, hrows⟩
  · have hsame : outreachStep env s e = s := by
      unfold outreachStep
      rw [hanswer, hdb]
      simp
    rw [hsame]
    refine iff_of_true h fun outreachId hsend principal admitted o hfind hstatus => ?_
    have hok := hnone principal o admitted
    rw [hsend] at hok
    exact absurd (if_neg (not_not_intro hstatus)) (hok hfind _)
  · have hlog : (outreachStep env s e).log = s.log ++ e.request.deeds := by
      unfold outreachStep
      rw [hanswer]
      rfl
    obtain ⟨ho, hid, -⟩ := fundOutreach?_eq_some_iff.mp hfind
    have hrow : o' ∈ (outreachStep env s e).db.outreach := (hrows o').mpr ⟨o, ho, if_pos rfl⟩
    have approvedBefore (user? : Option Uuid) : (∃ user ∈ s.db.users, user? = some user.id) ↔
        ∃ user ∈ (outreachStep env s e).db.users, user? = some user.id := by
      rw [show (outreachStep env s e).db.users = s.db.users from husers]
    have rows : (∀ r ∈ (outreachStep env s e).db.outreach, r.status = .sent →
        ∃ user ∈ (outreachStep env s e).db.users, r.approvedBy = some user.id) ↔
          (o'.status = .sent → ∃ user ∈ s.db.users, o'.approvedBy = some user.id) := by
      constructor
      · intro hall hstatus
        exact (approvedBefore _).mpr (hall o' hrow hstatus)
      · intro hnew r hr hstatus
        obtain ⟨r₀, hr₀, rfl⟩ := (hrows r).mp hr
        by_cases hsame : r₀.id = o.id
        · rw [if_pos hsame] at hstatus ⊢
          exact (approvedBefore _).mp (hnew hstatus)
        · rw [if_neg hsame] at hstatus ⊢
          exact (approvedBefore _).mp (h.approved r₀ hr₀ hstatus)
    have hsplit : SentWithApproval (outreachStep env s e) ↔
        (∀ outreachId, e.request = .send outreachId →
          .sent outreachId ∉ s.log ∧ .rejected outreachId ∉ s.log) ∧
        (o'.status = .sent → ∃ user ∈ s.db.users, o'.approvedBy = some user.id) := by
      rw [← rows, ← sentOnce_append h.once, ← hlog]
      exact ⟨fun hs => ⟨hs.once, hs.approved⟩, fun hs => ⟨hs.1, hs.2⟩⟩
    rw [hsplit]
    cases hrequest : e.request with
    | approve id =>
        rw [hrequest] at hassign
        cases hassign
        refine iff_of_true ⟨(fun _ hsend => by cases hsend), fun hsent => by cases hsent⟩ ?_
        intro outreachId hsend
        rw [hrequest] at hsend
        cases hsend
    | reject id body =>
        rw [hrequest] at hassign
        cases hassign
        refine iff_of_true ⟨(fun _ hsend => by cases hsend), fun hsent => by cases hsent⟩ ?_
        intro outreachId hsend
        rw [hrequest] at hsend
        cases hsend
    | send id =>
        rw [hrequest] at hassign hfind hid
        dsimp only [OutreachRequest.assign] at hassign
        split at hassign
        · cases hassign
        · rename_i hstatus
          cases hassign
          have hsent := h.approved o ho
          have hid : o.id = id := hid
          have hunsent : .sent id ∉ s.log ↔ o.sentAt = none := by
            rw [← hid, ← hrec.sent o ho, not_not]
          have hunrejected : .rejected id ∉ s.log ↔ o.rejectionReason = none := by
            rw [← hid, ← hrec.rejected o ho, not_not]
          have hby : (∃ user ∈ s.db.users, o.approvedBy = some user.id) ↔ o.approvedBy ≠ none := by
            constructor
            · rintro ⟨user, -, hby⟩ hnone
              rw [hnone] at hby
              cases hby
            · intro hby
              obtain ⟨userId, hsome⟩ := Option.ne_none_iff_exists'.mp hby
              obtain ⟨user, huser, rfl⟩ := hrec.approver o ho userId hsome
              exact ⟨user, huser, hsome⟩
          constructor
          · rintro ⟨hclear, happroved⟩ outreachId hsend other admitted found hother _
            rw [hrequest] at hsend
            cases hsend
            rw [Admits, hadmits] at admitted
            cases admitted
            rw [show fundOutreach? principal.orgId id s.db = some o from hfind] at hother
            cases hother
            obtain ⟨hs, hr⟩ := hclear id rfl
            exact ⟨hunsent.mp hs, hunrejected.mp hr, hby.mp (happroved rfl)⟩
          · intro sound
            obtain ⟨hs, hr, hu⟩ :=
              sound id hrequest principal hadmits o hfind (not_not.mp hstatus)
            refine ⟨fun outreachId hsend => ?_, fun _ => hby.mpr hu⟩
            cases hsend
            exact ⟨hunsent.mpr hs, hunrejected.mpr hr⟩

end Step

/-- The outreach that nobody has sent or rejected yet. -/
structure Unsent (s : OutreachState) : Prop where
  log : s.log = []
  rows : ∀ o ∈ s.db.outreach, o.status ≠ .sent ∧ o.sentAt = none ∧ o.rejectionReason = none
  approver : ∀ o ∈ s.db.outreach, ∀ userId, o.approvedBy = some userId →
    ∃ user ∈ s.db.users, user.id = userId

theorem Unsent.logged {s : OutreachState} (h : Unsent s) : Logged s :=
  ⟨fun o ho => by simp [h.log, (h.rows o ho).2.1], fun o ho => by simp [h.log, (h.rows o ho).2.2],
    h.approver⟩

theorem Unsent.sentWithApproval {s : OutreachState} (h : Unsent s) : SentWithApproval s :=
  ⟨by rw [h.log]; exact List.Pairwise.nil, fun o ho hsent => absurd hsent (h.rows o ho).1⟩

/-- Along a sequence of outreach requests, outreach is sent at most once, not after a rejection
and with a user's approval, exactly when every send that finds an approved outreach finds it
never sent, never rejected and approved by a user. -/
theorem outreach_sent_once_iff (env : Env) (s : OutreachState) (events : List OutreachEvent)
    (start : Unsent s) :
    Along (outreachStep env) SentWithApproval s events ↔
      Meets (outreachStep env) (fun s e => e.Sound env s) s events :=
  along_iff_meets (I := Logged) (A := fun _ => True) (fun _ e _ h => logged_step h e)
    (fun _ e _ hrec h => sentWithApproval_step_iff hrec h e) (fun _ _ => trivial) start.logged
    start.sentWithApproval

section Strait

/-- A fund with an outreach that was suggested. -/
def straitDb : Db where
  orgs := ⟨[{ id := 61, name := "Strait Fund", slug := "strait-fund" }], by decide⟩
  users := ⟨[
    { id := 62, orgId := 61, email := "kim@strait.fund", passwordHash := none, fullName := "Kim"
      role := .analyst }], by decide⟩
  outreach := ⟨[{ id := 63, orgId := 61 }], by decide⟩

def straitEnv : Env :=
  { plainEnv with
    decodeAccessToken := fun token _ =>
      if token = "kim" then
        .ok { sub := 62, org := 61, role := .analyst, scopes := [], iat := 0, exp := 1 }
      else .error (Exc.unauthenticated) }

def straitEvent (request : OutreachRequest) : OutreachEvent := ⟨some { token := "kim" }, 1, request⟩

theorem strait_unsent : Unsent { db := straitDb } :=
  ⟨rfl, by decide, fun o ho userId happroved => by
    obtain rfl := List.mem_singleton.mp ho
    cases happroved⟩

/-- Kim approves and sends twice. -/
theorem approved_again_and_sent_again :
    ¬ Along (outreachStep straitEnv) SentWithApproval { db := straitDb }
      (List.map straitEvent [.approve 63, .send 63, .approve 63, .send 63]) := by
  intro h
  have hlog : (List.foldl (outreachStep straitEnv) { db := straitDb }
      (List.map straitEvent [.approve 63, .send 63, .approve 63, .send 63])).log =
        [.sent 63, .sent 63] := rfl
  have honce := h.last.once
  rw [hlog] at honce
  exact ((List.pairwise_cons.mp honce).1 (.sent 63) List.mem_cons_self 63 rfl).1 rfl

theorem approved_and_sent :
    Along (outreachStep straitEnv) SentWithApproval { db := straitDb }
      (List.map straitEvent [.approve 63, .send 63]) := by
  refine (outreach_sent_once_iff straitEnv { db := straitDb } _ strait_unsent).mpr ⟨?_, ?_, trivial⟩
  · intro outreachId hsend
    cases hsend
  · intro outreachId hsend principal _ o hfind _
    have hrows : ∀ o ∈
        (outreachStep straitEnv { db := straitDb } (straitEvent (.approve 63))).db.outreach,
        o.sentAt = none ∧ o.rejectionReason = none ∧ o.approvedBy ≠ none := by
      decide +kernel
    exact hrows o (fundOutreach?_eq_some_iff.mp hfind).1

end Strait

end DolphinVC
