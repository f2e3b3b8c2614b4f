import DolphinVC.Transition.Run
import DolphinVC.Verification.AuthWrites
import DolphinVC.Verification.Lockout

/-!
# Killed session families stay dead

Requests are served one at a time here. A family is dead when all its tokens are
revoked. A refresh issues a token only into the family of a token it found live, and
a login or signup only into a family of its own, so no request revives a dead one;
the presentation of a revoked token is answered with an error whatever else happened.

`uuid4` enters as `FreshFamily`: the family id drawn for a new session names no
family yet.
-/

namespace DolphinVC

open Relational Transaction Transition

variable {env : Env} {db db' : Db} {d : Draws} {f : Uuid}

/-- An authentication request with what it draws while it is served. -/
abbrev AuthEvent := AuthRequest × Draws

def AuthEvent.serve (env : Env) (db : Db) (a : AuthEvent) :
    Except Exc (Option IssuedTokens) × Db :=
  (a.1.serve env a.2).atomically backend db

def authStep (env : Env) (db : Db) (a : AuthEvent) : Db := (AuthEvent.serve env db a).2

def FreshFamily (db : Db) (a : AuthEvent) : Prop :=
  ∀ t ∈ db.refreshTokens, t.familyId ≠ a.2.familyId

section Effect

/-- What the write set of a request served alone does to the tokens. -/
def TokenEffect (db : Db) (d : Draws) (ws : List Write) : Prop :=
  (∀ w ∈ ws, w.Settled) ∨ Opens d.familyId ws ∨ ∃ record ∈ db.refreshTokens, RotatesRow record ws

/-- A refresh served alone rotates the record of its token, or rotates nothing and has
no tokens to answer with. -/
def RefreshEffect (env : Env) (db : Db) (body : RefreshRequest) (r : Except Exc IssuedTokens)
    (ws : List Write) : Prop :=
  ((∀ w ∈ ws, w.Settled) ∧ ∃ e, r = .error e) ∨
    ∃ raw record, body.raw = some raw ∧ tokenByHash env raw db = some record ∧ RotatesRow record ws

theorem rotateRecord_then_commit (record : RefreshToken) :
    Tx.Commits (fun _ => True)
      (fun r j => ((∀ w ∈ j.committed.flatten, w.Settled) ∧ ∃ e, r = .error e) ∨
        RotatesRow record j.committed.flatten)
      (do
        let (_, tokens) ← rotateRecord env record d
        Tx.commit
        return tokens) {} := by
  refine Tx.commits_bind.mpr (Program.Commits.weaken (rotateRecord_commits record)
    (fun _ _ => trivial) ?_)
  rintro (e | ⟨user, tokens⟩) j ⟨hsettled, hok⟩
  · exact Or.inl ⟨hsettled, e, rfl⟩
  · obtain ⟨hc, hrot⟩ := hok _ rfl
    refine Tx.commits_bind.mpr (Tx.commits_commit.mpr ⟨trivial, Or.inr ?_, fun e =>
      Or.inl ⟨hsettled, e, rfl⟩⟩)
    rw [Journal.committed_commit, hc, List.nil_append, List.flatten_singleton]
    exact hrot

theorem refresh_served (env : Env) (db : Db) (d : Draws) (body : RefreshRequest) :
    ∃ ws, backend.applyAll db ws = .ok ((refreshEndpoint env body d).atomically backend db).2 ∧
      RefreshEffect env db body ((refreshEndpoint env body d).atomically backend db).1 ws := by
  refine (Tx.atomically_iff (P := fun r db' => ∃ ws, backend.applyAll db ws = .ok db' ∧
    RefreshEffect env db body r ws)).mpr ?_
  have refused (e : Exc) : ∃ ws, backend.applyAll db ws = .ok db ∧
      RefreshEffect env db body (.error e) ws := ⟨[], rfl, Or.inl ⟨by simp, e, rfl⟩⟩
  unfold refreshEndpoint
  split
  · exact refused _
  · rename_i raw hraw
    split
    · exact refused _
    · refine Tx.wp_query_first.mpr ?_
      cases hrec : tokenByHash env raw db with
      | none => exact refused _
      | some record =>
          refine ((rotateRecord_then_commit record).wp
            (show backend.applyAll db [] = .ok db from rfl)).mono ?_
          rintro r db' s ⟨heffect, happly⟩
          refine ⟨_, happly, ?_⟩
          obtain hsettled | hrot := heffect
          · exact Or.inl hsettled
          · exact Or.inr ⟨raw, record, hraw, hrec, hrot⟩

theorem opened_writes {α : Type} {p : Tx α} (h : Tx.Commits (fun j => TokenWrites env j.pending)
    (fun _ => Opened d) p {}) :
    ∃ ws, backend.applyAll db ws = .ok (p.atomically backend db).2 ∧
      ((∀ w ∈ ws, w.Settled) ∨ Opens d.familyId ws) := by
  obtain ⟨j, hj, happly⟩ := h.served (B := backend) db
  refine ⟨_, happly, ?_⟩
  obtain hnone | ⟨ws, hws, hopens⟩ := hj
  · exact Or.inl (by simp [hnone])
  · refine Or.inr ?_
    rw [hws, List.flatten_singleton]
    exact hopens

theorem opened_effect {α : Type} {p : Tx α} (h : Tx.Commits (fun j => TokenWrites env j.pending)
    (fun _ => Opened d) p {}) :
    ∃ ws, backend.applyAll db ws = .ok (p.atomically backend db).2 ∧ TokenEffect db d ws := by
  obtain ⟨ws, happly, heffect⟩ := opened_writes h
  exact ⟨ws, happly, heffect.imp_right Or.inl⟩

theorem settled_effect {α : Type} {p : Tx α} (h : Tx.Emits Write.Settled p) :
    ∃ ws, backend.applyAll db ws = .ok (p.atomically backend db).2 ∧ TokenEffect db d ws := by
  obtain ⟨j, hj, happly⟩ := Tx.Commits.served (B := backend) (h.commits Journal.all_empty) db
  exact ⟨_, happly, Or.inl hj.1⟩

theorem authStep_effect (env : Env) (db : Db) (a : AuthEvent) :
    ∃ ws, backend.applyAll db ws = .ok (authStep env db a) ∧ TokenEffect db a.2 ws := by
  obtain ⟨r, d⟩ := a
  unfold authStep AuthEvent.serve
  cases r <;> simp only [AuthRequest.serve, Tx.atomically_map]
  case signup body => exact opened_effect (signupEndpoint_opens body)
  case login email password => exact opened_effect (loginEndpoint_opens email password)
  case refresh body =>
    obtain ⟨ws, happly, heffect⟩ := refresh_served env db d body
    refine ⟨ws, happly, ?_⟩
    obtain ⟨hsettled, -⟩ | ⟨raw, record, -, hrec, hrot⟩ := heffect
    · exact Or.inl hsettled
    · exact Or.inr (Or.inr ⟨record, List.mem_of_find?_eq_some hrec, hrot⟩)
  case logout => exact settled_effect (logout_settled _ _ _)
  case updateMe => exact settled_effect (updateMe_settled _ _)
  case verifyEmail => exact settled_effect (verifyEmail_settled _)
  case forgotPassword => exact settled_effect (forgotPassword_settled _)
  case resetPassword => exact settled_effect (resetPassword_settled _ _)
  case deleteSession => exact settled_effect (deleteSession_settled _ _)

/-- What every write keeps, every request keeps. -/
theorem authStep_keeps {P : Db → Prop} (keep : ∀ db w db', P db → db.apply w = .ok db' → P db')
    (a : AuthEvent) (h : P db) : P (authStep env db a) := by
  obtain ⟨ws, happly, -⟩ := authStep_effect env db a
  exact Backend.applyAll_inv (Φ := fun _ => True) (fun db w db' _ => keep db w db')
    (fun _ _ => trivial) h happly

end Effect

section Families

/-- The tokens ever issued into the family. -/
def familyTokens (f : Uuid) (db : Db) : List RefreshToken :=
  (issuedTokens db).filter fun t => t.familyId = f

/-- The family exists and none of its tokens is live. -/
def Dead (f : Uuid) (db : Db) : Prop :=
  (∃ t ∈ db.refreshTokens, t.familyId = f) ∧
    ∀ t ∈ db.refreshTokens, t.familyId = f → t.revokedAt ≠ none

/-- All tokens of a family belong to one user. -/
def OneOwner (db : Db) : Prop :=
  ∀ t ∈ issuedTokens db, ∀ s ∈ issuedTokens db, t.familyId = s.familyId → t.userId = s.userId

/-- Every presentation of a token of the family is answered with an error. -/
def Refuses (env : Env) (f : Uuid) (db : Db) : Prop :=
  ∀ (body : RefreshRequest) (d : Draws) (raw : String), body.raw = some raw →
    (∃ t ∈ db.refreshTokens, t.familyId = f ∧ t.tokenHash = env.sha256 raw) →
    ∃ e, (AuthEvent.serve env db (.refresh body, d)).1 = .error e

/-- A request issues at most one token: into a family of its own, or into the family of
a live token and to its user. -/
theorem issued_of_effect {ws : List Write} (h : TokenEffect db d ws) :
    ws.flatMap Write.issues = [] ∨ ∃ row, ws.flatMap Write.issues = [row] ∧
      (row.familyId = d.familyId ∨ ∃ t ∈ db.refreshTokens, t.revokedAt = none ∧
        row.familyId = t.familyId ∧ row.userId = t.userId) := by
  rcases h with hsettled | ⟨⟨row, hrow, hfamily⟩, -⟩ |
    ⟨t, ht, at', child, rfl, hlive, hfam, huser, -⟩
  · exact Or.inl (issues_of_settled hsettled)
  · exact Or.inr ⟨row, hrow, Or.inl hfamily⟩
  · exact Or.inr ⟨child.asIssued, rfl, Or.inr ⟨t, ht, hlive, hfam, huser⟩⟩

variable {ws : List Write}

/-- No request issues a token into a dead family. -/
theorem issues_ne_of_dead (hdead : Dead f db)
    (fresh : ∀ t ∈ db.refreshTokens, t.familyId ≠ d.familyId)
    (h : TokenEffect db d ws) : ∀ row ∈ ws.flatMap Write.issues, row.familyId ≠ f := by
  obtain hnone | ⟨row, hrow, horigin⟩ := issued_of_effect h
  · simp [hnone]
  · rw [hrow]
    intro r hr hf
    obtain rfl := List.mem_singleton.mp hr
    obtain hown | ⟨t, ht, hlive, hfam, -⟩ := horigin
    · obtain ⟨s, hs, hsf⟩ := hdead.1
      exact fresh s hs (hsf.trans (hf.symm.trans hown))
    · exact hdead.2 t ht (hfam.symm.trans hf) hlive

theorem family_persists {ws : List Write} (happly : backend.applyAll db ws = .ok db')
    (h : ∃ t ∈ db.refreshTokens, t.familyId = f) : ∃ t ∈ db'.refreshTokens, t.familyId = f := by
  obtain ⟨t, ht, hf⟩ := h
  have hmem : t.asIssued ∈ issuedTokens db' := by
    rw [issued_applyAll happly]
    exact List.mem_append_left _ (asIssued_mem_issuedTokens ht)
  obtain ⟨s, hs, hst⟩ := List.mem_map.mp hmem
  exact ⟨s, hs, (congrArg RefreshToken.familyId hst).trans hf⟩

theorem dead_of_effect (hdead : Dead f db)
    (fresh : ∀ t ∈ db.refreshTokens, t.familyId ≠ d.familyId) (h : TokenEffect db d ws)
    (happly : backend.applyAll db ws = .ok db') :
    Dead f db' ∧ familyTokens f db' = familyTokens f db := by
  have hother := issues_ne_of_dead hdead fresh h
  have hsame : familyTokens f db' = familyTokens f db := by
    have hnone : (ws.flatMap Write.issues).filter (fun t => t.familyId = f) = [] :=
      List.filter_eq_nil_iff.mpr fun row hrow => by simpa using hother row hrow
    rw [familyTokens, issued_applyAll happly, List.filter_append, hnone, List.append_nil,
      familyTokens]
  refine ⟨⟨family_persists happly hdead.1, ?_⟩, hsame⟩
  · intro t ht hf hlive
    obtain hold | hnew := live_applyAll happly ht hlive
    · exact hdead.2 t hold hf hlive
    · exact hother _ (mem_issues_of_insert hnew) hf

theorem oneOwner_of_effect (howner : OneOwner db)
    (fresh : ∀ t ∈ db.refreshTokens, t.familyId ≠ d.familyId) (h : TokenEffect db d ws)
    (happly : backend.applyAll db ws = .ok db') : OneOwner db' := by
  unfold OneOwner
  rw [issued_applyAll happly]
  obtain hnone | ⟨row, hrow, horigin⟩ := issued_of_effect h
  · rw [hnone, List.append_nil]
    exact howner
  · -- the new token agrees with every older token of its family
    have hnew : ∀ t ∈ issuedTokens db, t.familyId = row.familyId → t.userId = row.userId := by
      intro t ht hf
      obtain hown | ⟨s, hs, -, hfam, huser⟩ := horigin
      · obtain ⟨s, hs, rfl⟩ := List.mem_map.mp ht
        exact absurd (hf.trans hown) (fresh s hs)
      · rw [huser]
        exact howner t ht s.asIssued (asIssued_mem_issuedTokens hs) (hf.trans hfam)
    rw [hrow]
    intro t ht s hs hf
    obtain ht | ht := List.mem_append.mp ht
    · obtain hs | hs := List.mem_append.mp hs
      · exact howner t ht s hs hf
      · rw [List.mem_singleton.mp hs] at hf ⊢
        exact hnew t ht hf
    · rw [List.mem_singleton.mp ht] at hf ⊢
      obtain hs | hs := List.mem_append.mp hs
      · exact (hnew s hs hf.symm).symm
      · rw [List.mem_singleton.mp hs]

theorem refuses_of_dead (hu : UniqueHashes db) (hdead : Dead f db) : Refuses env f db := by
  rintro body d raw hraw ⟨t, ht, hf, hhash⟩
  simp only [AuthEvent.serve, AuthRequest.serve, Tx.atomically_map]
  obtain ⟨ws, -, heffect⟩ := refresh_served env db d body
  obtain ⟨-, e, he⟩ | ⟨raw', record, hraw', hrec, at', child, -, hlive, -⟩ := heffect
  · exact ⟨e, by rw [he]; rfl⟩
  · obtain rfl := Option.some.inj (hraw.symm.trans hraw')
    have hsame : t = record := hu.eq_of_hash ht (List.mem_of_find?_eq_some hrec)
      (hhash.trans (hash_of_tokenByHash hrec).symm)
    exact absurd (hsame ▸ hlive) (hdead.2 t ht hf)

end Families

section Kills

def Owns (userId f : Uuid) (db : Db) : Prop :=
  ∃ t ∈ db.refreshTokens, t.familyId = f ∧ t.userId = userId

/-- The credentials authenticate the user. -/
def ActsFor (env : Env) (db : Db) (credentials : Option Credentials) (now : Timestamp)
    (userId : Uuid) : Prop :=
  ∃ principal, ((getCurrentPrincipal env credentials now).atomically backend db).1 =
    .ok principal ∧ principal.userId = some userId

/-- The request kills the family: it presents a revoked token of it, or it logs out all
devices of the family's user, deletes the session, or changes or resets the password,
and is answered with success. -/
def Kills (env : Env) (db : Db) (a : AuthEvent) (f : Uuid) : Prop :=
  match a.1 with
  | .refresh body => ∃ raw record, body.raw = some raw ∧
      (body.refreshToken.isNone = true → body.csrfOk = true) ∧
      tokenByHash env raw db = some record ∧ record.revokedAt.isSome ∧ record.familyId = f
  | .logout credentials _ allDevices => allDevices = true ∧
      (AuthEvent.serve env db a).1.toBool = true ∧
      ∃ userId, ActsFor env db credentials a.2.now userId ∧ Owns userId f db
  | .deleteSession credentials familyId => familyId = f ∧
      (AuthEvent.serve env db a).1.toBool = true ∧
      ∃ userId, ActsFor env db credentials a.2.now userId ∧ Owns userId f db
  | .updateMe credentials body => body.password.isSome ∧
      (AuthEvent.serve env db a).1.toBool = true ∧
      ∃ userId, ActsFor env db credentials a.2.now userId ∧ Owns userId f db
  | .resetPassword token _ => (AuthEvent.serve env db a).1.toBool = true ∧
      ∃ user, ((consumeEmailToken env token "reset" a.2).atomically backend db).1 = .ok user ∧
        Owns user.id f db
  | _ => False

/-- A bulk revocation that selects every live token of the family kills it. -/
theorem dead_of_bulk (pre post : List Write) {ids : List Uuid} {live : Bool} {at' : Timestamp}
    {reason : String}
    (happly : backend.applyAll db (pre ++ .revokeRefreshTokens ids live at' reason :: post) =
      .ok db')
    (hpre : ∀ w ∈ pre, w.Settled) (hpost : ∀ w ∈ post, w.Settled)
    (selected : ∀ t ∈ db.refreshTokens, t.familyId = f → t.revokedAt = none → t.id ∈ ids)
    (hexists : ∃ t ∈ db.refreshTokens, t.familyId = f) : Dead f db' := by
  have not_inserted {ws : List Write} (h : ∀ w ∈ ws, w.Settled) (t : RefreshToken) :
      .insertRefreshToken t ∉ ws := fun hmem => by simpa [Write.issues] using (h _ hmem).1
  have hsettled : ∀ w ∈ pre ++ .revokeRefreshTokens ids live at' reason :: post, w.Settled := by
    intro w hw
    obtain hw | hw := List.mem_append.mp hw
    · exact hpre w hw
    · obtain rfl | hw := List.mem_cons.mp hw
      · exact ⟨rfl, rfl⟩
      · exact hpost w hw
  obtain ⟨mid, hmid, hrest⟩ := Backend.applyAll_append_eq_ok.mp happly
  obtain ⟨next, hnext, hlast⟩ := Backend.applyAll_cons_eq_ok.mp hrest
  refine ⟨family_persists happly hexists, ?_⟩
  · intro t ht hf hlive
    have hnextmem : t ∈ next.refreshTokens :=
      (live_applyAll hlast ht hlive).resolve_right (not_inserted hpost t)
    have hupd : next.refreshTokens = mid.refreshTokens.updateWhere
        (fun r => r.id ∈ ids ∧ (live = true → r.revokedAt = none))
        (RefreshToken.revoke at' reason) := by
      cases hnext
      rfl
    rw [hupd] at hnextmem
    obtain ⟨r, hr, hrt⟩ := Table.mem_updateWhere.mp hnextmem
    split at hrt
    · rw [← hrt] at hlive
      cases hlive
    · subst hrt
      rename_i hnot
      have hold : r ∈ db.refreshTokens :=
        (live_applyAll hmid hr hlive).resolve_right (not_inserted hpre r)
      exact hnot (by simpa [hlive] using selected r hold hf hlive)

/-- Reuse detection kills the family of the presented token. -/
theorem reuse_kills {body : RefreshRequest} {raw : String} {record : RefreshToken}
    (hraw : body.raw = some raw) (hcsrf : body.refreshToken.isNone = true → body.csrfOk = true)
    (hrec : tokenByHash env raw db = some record) (hrevoked : record.revokedAt.isSome)
    (hf : record.familyId = f) :
    Dead f ((refreshEndpoint env body d).atomically backend db).2 := by
  have hmem : record ∈ db.refreshTokens := List.mem_of_find?_eq_some hrec
  refine (Tx.atomically_iff (P := fun _ db' => Dead f db')).mpr ?_
  unfold refreshEndpoint
  rw [hraw]
  dsimp only
  rw [if_neg (by simpa using hcsrf)]
  refine Tx.wp_query_first.mpr ?_
  have selected (t : RefreshToken) (ht : t ∈ db.refreshTokens) (htf : t.familyId = f)
      (hlive : t.revokedAt = none) : t.id ∈ (db.refreshTokens.rows.filter fun r =>
        r.familyId = record.familyId ∧ r.revokedAt = none).map RefreshToken.id :=
    List.mem_map_of_mem (List.mem_filter.mpr ⟨ht, by simp [htf, hf, hlive]⟩)
  simp only [hrec, rotateRecord, hrevoked, if_true, detectReuse, execute, Tx.wp_bind, Tx.wp_query,
    Session.query_unflushed, Except.map, Tx.wp_stage]
  generalize (db.refreshTokens.rows.filter fun r =>
    r.familyId = record.familyId ∧ r.revokedAt = none).map RefreshToken.id = ids at selected ⊢
  exact dead_of_bulk [] [.insertAuditLog
      { orgId := none, actorUserId := some record.userId, actorKind := "token"
        action := "auth.refresh_reuse", targetType := some "refresh_family"
        targetId := some record.familyId }]
    (show backend.applyAll db (.revokeRefreshTokens ids true d.now "reuse_detected" :: _) = .ok _
      from rfl) (by simp) (by simp [Write.Settled, Write.issues, Write.rotates]) selected
    ⟨record, hmem, hf⟩

theorem wp_revokeUserTokens {userId : Uuid} {reason : String} {dirty : List Write}
    {Q : Except Exc Unit → Db → Session Write → Prop}
    (hok : ∀ ids, (∀ t ∈ db.refreshTokens, t.userId = userId → t.revokedAt = none → t.id ∈ ids) →
      Q (.ok ()) db { flushed := dirty ++ [.revokeRefreshTokens ids true d.now reason] })
    (herr : ∀ e s, Q (.error e) db s) :
    Tx.WP backend Q (revokeUserTokens userId reason d) db { dirty } := by
  refine Tx.wp_bind.mpr ?_
  rw [Tx.wp_query, Session.query_unflushed]
  refine Tx.wp_bind.mpr (Tx.wp_stage.mpr (Tx.wp_flush_cases ?_ fun e => herr e _))
  refine hok _ fun t ht huser hlive => ?_
  exact List.mem_map_of_mem (List.mem_filter.mpr ⟨ht, by simp [huser, hlive]⟩)

theorem owner_of_owns {userId : Uuid} (howner : OneOwner db) (howns : Owns userId f db)
    {t : RefreshToken} (ht : t ∈ db.refreshTokens) (hf : t.familyId = f) : t.userId = userId := by
  obtain ⟨s, hs, hsf, rfl⟩ := howns
  exact howner t.asIssued (asIssued_mem_issuedTokens ht) s.asIssued (asIssued_mem_issuedTokens hs)
    (hf.trans hsf.symm)

theorem wp_actsFor {α : Type} {credentials : Option Credentials} {userId : Uuid}
    {k : Uuid → Tx α} {P : Except Exc α → Db → Session Write → Prop}
    (h : ActsFor env db credentials d.now userId) :
    Tx.WP backend P (do
      let principal ← getCurrentPrincipal env credentials d.now
      let userId ← requireUser principal
      k userId) db {} ↔ Tx.WP backend P (k userId) db {} := by
  obtain ⟨principal, hresult, huser⟩ := h
  obtain ⟨hdb, hs⟩ := Program.Reads.exec (reads_getCurrentPrincipal env credentials d.now) backend
    [] db {}
  rw [Tx.wp_bind_of_result hresult, hdb, hs, requireUser, huser]
  rfl

/-- After one bulk revocation of all tokens of the user, the user's families are dead. -/
theorem dead_of_user_bulk (pre post : List Write) {userId : Uuid} {ids : List Uuid}
    {at' : Timestamp} {reason : String} (howner : OneOwner db) (howns : Owns userId f db)
    (selected : ∀ t ∈ db.refreshTokens, t.userId = userId → t.revokedAt = none → t.id ∈ ids)
    (hpre : ∀ w ∈ pre, w.Settled) (hpost : ∀ w ∈ post, w.Settled)
    (happly : backend.applyAll db (pre ++ .revokeRefreshTokens ids true at' reason :: post) =
      .ok db') : Dead f db' := by
  refine dead_of_bulk pre post happly hpre hpost (fun t ht hf hlive => ?_) ?_
  · exact selected t ht (owner_of_owns howner howns ht hf) hlive
  · obtain ⟨s, hs, hsf, -⟩ := howns
    exact ⟨s, hs, hsf⟩

theorem logout_all_kills {credentials : Option Credentials} {refreshToken : Option String}
    {userId : Uuid} (howner : OneOwner db) (hacts : ActsFor env db credentials d.now userId)
    (howns : Owns userId f db)
    (hok : ((logoutEndpoint env credentials refreshToken true d).atomically backend db).1.toBool =
      true) :
    Dead f ((logoutEndpoint env credentials refreshToken true d).atomically backend db).2 := by
  refine (Tx.atomically_iff (P := fun r db' => r.toBool = true → Dead f db')).mpr ?_ hok
  refine (wp_actsFor hacts).mpr ?_
  refine Tx.wp_bind.mpr (wp_revokeUserTokens (fun ids hids => ?_) fun _ _ h => by cases h)
  refine Tx.wp_commit_cases (fun db' happly _ => ?_) fun _ h => by cases h
  exact dead_of_user_bulk [] [] howner howns hids (by simp) (by simp) happly

theorem deleteSession_kills {credentials : Option Credentials} {userId : Uuid}
    (howner : OneOwner db) (hacts : ActsFor env db credentials d.now userId)
    (howns : Owns userId f db)
    (hok : ((deleteSessionEndpoint env credentials f d).atomically backend db).1.toBool = true) :
    Dead f ((deleteSessionEndpoint env credentials f d).atomically backend db).2 := by
  refine (Tx.atomically_iff (P := fun r db' => r.toBool = true → Dead f db')).mpr ?_ hok
  refine (wp_actsFor hacts).mpr ?_
  refine Tx.wp_bind.mpr ?_
  rw [Tx.wp_query, Session.query_unflushed]
  refine Tx.wp_bind.mpr (Tx.wp_bind.mpr (Tx.wp_stage.mpr
    (Tx.wp_flush_cases ?_ fun _ h => by cases h)))
  refine Tx.wp_commit_cases (fun db' happly _ => ?_) fun _ h => by cases h
  refine dead_of_bulk [] [] happly (by simp) (by simp) (fun t ht hf _ => ?_) ?_
  · exact List.mem_map_of_mem (List.mem_filter.mpr
      ⟨ht, by simp [hf, owner_of_owns howner howns ht hf]⟩)
  · obtain ⟨s, hs, hsf, -⟩ := howns
    exact ⟨s, hs, hsf⟩

theorem updateMe_kills {credentials : Option Credentials} {body : MeUpdateRequest} {userId : Uuid}
    (howner : OneOwner db) (hacts : ActsFor env db credentials d.now userId)
    (howns : Owns userId f db) (hpassword : body.password.isSome)
    (hok : ((updateMeEndpoint env credentials body d).atomically backend db).1.toBool = true) :
    Dead f ((updateMeEndpoint env credentials body d).atomically backend db).2 := by
  obtain ⟨password, hpassword⟩ := Option.isSome_iff_exists.mp hpassword
  refine (Tx.atomically_iff (P := fun r db' => r.toBool = true → Dead f db')).mpr ?_ hok
  refine (wp_actsFor hacts).mpr ?_
  refine Tx.wp_bind.mpr ?_
  rw [Tx.wp_query, Session.query_unflushed]
  simp only [Except.map, hpassword]
  cases huser : db.users.find? userId with
  | none => exact fun h => by cases h
  | some user =>
      have huid : user.id = userId := Table.key_of_find? huser
      dsimp only
      split
      · exact fun h => by cases h
      · refine Tx.Reads.wp_bind (reads_validatePassword _ _ _) (fun _ h => by cases h) fun _ _ => ?_
        refine Tx.wp_bind.mpr (wp_revokeUserTokens (fun ids hids => ?_) fun _ _ h => by cases h)
        refine Tx.wp_bind.mpr (Tx.wp_stage.mpr (Tx.wp_bind.mpr
          (Tx.wp_commit_cases (fun db' happly => ?_) fun _ h => by cases h)))
        refine (reads_refreshRow _).wp.mpr fun _ => ?_
        exact dead_of_user_bulk []
          [.updateUser user.id
            { fullName := body.fullName, passwordHash := some (env.hashPassword password) }]
          howner howns (huid ▸ hids) (by simp)
          (by simp [Write.Settled, Write.issues, Write.rotates]) happly

theorem resetPassword_kills {token password : String} {user : User} (howner : OneOwner db)
    (hconsume : ((consumeEmailToken env token "reset" d).atomically backend db).1 = .ok user)
    (howns : Owns user.id f db)
    (hok : ((resetPasswordEndpoint env token password d).atomically backend db).1.toBool = true) :
    Dead f ((resetPasswordEndpoint env token password d).atomically backend db).2 := by
  -- a consumed token leaves its own update staged
  have hstaged : Tx.WP backend (fun r db' s => db' = db ∧ ∀ u, r = .ok u →
      ∃ w : Write, w.Settled ∧ s = { dirty := [w] }) (consumeEmailToken env token "reset" d) db
      {} := by
    refine Tx.wp_bind.mpr ?_
    rw [Tx.wp_query, Session.query_unflushed]
    simp only [Except.map]
    split
    · exact ⟨rfl, fun _ h => by cases h⟩
    · split
      · exact ⟨rfl, fun _ h => by cases h⟩
      · refine Tx.wp_bind.mpr ?_
        rw [Tx.wp_query, Session.query_unflushed]
        simp only [Except.map]
        split
        · exact ⟨rfl, fun _ h => by cases h⟩
        · exact ⟨rfl, fun _ _ => ⟨_, ⟨rfl, rfl⟩, rfl⟩⟩
  obtain ⟨hdb, hsession⟩ := hstaged
  obtain ⟨w, hw, hs⟩ := hsession user hconsume
  refine (Tx.atomically_iff (P := fun r db' => r.toBool = true → Dead f db')).mpr ?_ hok
  refine (Tx.wp_bind_of_result hconsume).mpr ?_
  rw [hdb, hs]
  refine Tx.Reads.wp_bind (reads_validatePassword _ _ _) (fun _ h => by cases h) fun _ _ => ?_
  refine Tx.wp_bind.mpr (wp_revokeUserTokens (fun ids hids => ?_) fun _ _ h => by cases h)
  refine Tx.wp_bind.mpr (Tx.wp_stage.mpr
    (Tx.wp_commit_cases (fun db' happly _ => ?_) fun _ h => by cases h))
  exact dead_of_user_bulk [w]
    [.updateUser user.id { passwordHash := some (env.hashPassword password) }]
    howner howns hids (by simpa using hw) (by simp [Write.Settled, Write.issues, Write.rotates])
    happly

theorem toBool_map {α β : Type} (x : Except Exc α) (g : α → β) : (x.map g).toBool = x.toBool := by
  cases x with
  | ok a => rfl
  | error e => rfl

theorem dead_of_kills {a : AuthEvent} (howner : OneOwner db) (h : Kills env db a f) :
    Dead f (authStep env db a) := by
  obtain ⟨r, d⟩ := a
  unfold authStep AuthEvent.serve
  cases r <;> simp only [Kills, AuthEvent.serve, AuthRequest.serve, Tx.atomically_map,
    toBool_map] at h ⊢
  case refresh body =>
    obtain ⟨raw, record, hraw, hcsrf, hrec, hrevoked, hf⟩ := h
    exact reuse_kills hraw hcsrf hrec hrevoked hf
  case logout credentials refreshToken allDevices =>
    obtain ⟨rfl, hok, userId, hacts, howns⟩ := h
    exact logout_all_kills howner hacts howns hok
  case deleteSession credentials familyId =>
    obtain ⟨rfl, hok, userId, hacts, howns⟩ := h
    exact deleteSession_kills howner hacts howns hok
  case updateMe credentials body =>
    obtain ⟨hpassword, hok, userId, hacts, howns⟩ := h
    exact updateMe_kills howner hacts howns hpassword hok
  case resetPassword token password =>
    obtain ⟨hok, user, hconsume, howns⟩ := h
    exact resetPassword_kills howner hconsume howns hok

end Kills

section Runs

theorem uniqueHashes_step (env : Env) (a : AuthEvent) (h : UniqueHashes db) :
    UniqueHashes (authStep env db a) :=
  authStep_keeps (fun _ _ _ h happly => uniqueHashes_apply h happly) a h

/-- What every request keeps: hashes name one token, families have one owner. -/
theorem tokens_wellFormed_step (env : Env) {a : AuthEvent} (h : UniqueHashes db ∧ OneOwner db)
    (fresh : FreshFamily db a) :
    UniqueHashes (authStep env db a) ∧ OneOwner (authStep env db a) := by
  obtain ⟨ws, happly, heffect⟩ := authStep_effect env db a
  exact ⟨uniqueHashes_step env a h.1, oneOwner_of_effect h.2 fresh heffect happly⟩

/-- From a database without refresh tokens, let any requests be served and then one that
kills a family. In every later state the family is dead, has the tokens it had when it
was killed, and every presentation of one of them is answered with an error. -/
theorem killed_family_stays_dead (env : Env) (start : Db) (past later : List AuthEvent)
    (kill : AuthEvent) (f : Uuid) (empty : start.refreshTokens = ∅)
    (fresh : Meets (authStep env) FreshFamily start (past ++ kill :: later))
    (kills : Kills env (past.foldl (authStep env) start) kill f) :
    Along (authStep env)
      (fun db => Dead f db ∧
        familyTokens f db = familyTokens f (authStep env (past.foldl (authStep env) start) kill) ∧
        Refuses env f db)
      (authStep env (past.foldl (authStep env) start) kill) later := by
  obtain ⟨hpast, hkill, hlater⟩ := meets_append.mp fresh
  have hstart : UniqueHashes start ∧ OneOwner start := by
    have hnone : issuedTokens start = [] := by simp [issuedTokens, empty]
    simp [UniqueHashes, OneOwner, hnone]
  have hbefore := (along_of_meets (P := fun db => UniqueHashes db ∧ OneOwner db)
    (fun _ _ h hc => tokens_wellFormed_step env h hc) hstart hpast).last
  have hafter := tokens_wellFormed_step env hbefore hkill
  have hdead := dead_of_kills hbefore.2 kills
  generalize authStep env (past.foldl (authStep env) start) kill = killed at hafter hdead hlater ⊢
  have hrun : Along (authStep env) (fun db => (UniqueHashes db ∧ OneOwner db) ∧ Dead f db ∧
      familyTokens f db = familyTokens f killed) killed later := by
    refine along_of_meets (C := FreshFamily) ?_ ⟨hafter, hdead, rfl⟩ hlater
    rintro db a ⟨hwf, hd, hsame⟩ hfresh
    obtain ⟨ws, happly, heffect⟩ := authStep_effect env db a
    obtain ⟨hd', hsame'⟩ := dead_of_effect hd hfresh heffect happly
    exact ⟨tokens_wellFormed_step env hwf hfresh, hd', hsame'.trans hsame⟩
  exact hrun.mono fun db h => ⟨h.2.1, h.2.2, refuses_of_dead h.1.1 h.2.1⟩

def presentAt (second : Nat) (raw issued : String) : AuthEvent :=
  (.refresh { refreshToken := some raw }, drawsAt second issued)

def aliceLogin (second : Nat) (issued : String) : AuthEvent :=
  (.login "alice@fund.com" "correct horse battery", drawsAt second issued)

/-- Alice logs in and refreshes; the first token is replayed. Her second token and a new
login cannot bring the family back. -/
theorem replay_kills_alices_family :
    Along (authStep plainEnv)
      (fun db => Dead 200 db ∧
        familyTokens 200 db = familyTokens 200 (authStep plainEnv
          ([aliceLogin 0 "first", presentAt 1 "first" "second"].foldl (authStep plainEnv) aliceDb)
          (presentAt 2 "first" "stolen")) ∧
        Refuses plainEnv 200 db)
      (authStep plainEnv
        ([aliceLogin 0 "first", presentAt 1 "first" "second"].foldl (authStep plainEnv) aliceDb)
        (presentAt 2 "first" "stolen"))
      [presentAt 3 "second" "third", aliceLogin 4 "fourth"] := by
  refine killed_family_stays_dead plainEnv aliceDb
    [aliceLogin 0 "first", presentAt 1 "first" "second"] _ _ 200 rfl ?_ ?_
  · refine ⟨?_, ?_, ?_, ?_, ?_, trivial⟩ <;>
      (intro t ht; revert t; decide)
  · exact ⟨"first", _, rfl, by decide, rfl, rfl, rfl⟩

end Runs
end DolphinVC
