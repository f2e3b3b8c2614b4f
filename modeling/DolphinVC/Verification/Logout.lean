import Mathlib.Data.Fintype.EquivFin
import DolphinVC.Verification.Credentials
import DolphinVC.Verification.RefreshRotation
import DolphinVC.Verification.SessionFamilies

/-!
# Logout

A refresh takes its token from the body or from the cookie. Logout reads the body only and,
unless it is for all devices, revokes the one row that the token in the body names. A session
is over after it exactly when no other token of its family was still good for an exchange.
-/

namespace DolphinVC

open Relational Transaction Transition

variable {env : Env} {db db' : Db} {d : Draws} {f userId : Uuid} {now : Timestamp}

section Over

/-- The token can be exchanged at the time by a client that holds it. -/
def Exchangeable (env : Env) (now : Timestamp) (t : RefreshToken) : Prop :=
  t.revokedAt = none ∧ now < t.expiresAt ∧ ∃ raw, raw ≠ "" ∧ env.sha256 raw = t.tokenHash

theorem Exchangeable.earlier {later : Timestamp} {t : RefreshToken} (h : Exchangeable env later t)
    (le : now ≤ later) : Exchangeable env now t :=
  ⟨h.1, Int.lt_of_le_of_lt le h.2.1, h.2.2⟩

/-- The family exists, and none of its tokens can be exchanged at the time. -/
def Over (env : Env) (f : Uuid) (now : Timestamp) (db : Db) : Prop :=
  (∃ t ∈ db.refreshTokens, t.familyId = f) ∧
    ∀ t ∈ db.refreshTokens, t.familyId = f → ¬ Exchangeable env now t

/-- Presenting a token of the family at the time or later is answered with an error. -/
def RefusesFrom (env : Env) (f : Uuid) (now : Timestamp) (db : Db) : Prop :=
  ∀ (body : RefreshRequest) (d : Draws) (raw : String), body.raw = some raw → now ≤ d.now →
    (∃ t ∈ db.refreshTokens, t.familyId = f ∧ t.tokenHash = env.sha256 raw) →
    ∃ e, (AuthEvent.serve env db (.refresh body, d)).1 = .error e

theorem RefreshRequest.raw_ne_empty {body : RefreshRequest} {raw : String}
    (h : body.raw = some raw) : raw ≠ "" := by
  unfold RefreshRequest.raw at h
  simpa using (Option.filter_eq_some_iff.mp h).2

/-- A token that is revoked or has run out is not exchanged. -/
theorem refresh_idle {body : RefreshRequest} {raw : String} {record : RefreshToken}
    (hraw : body.raw = some raw) (hrec : tokenByHash env raw db = some record)
    (idle : record.revokedAt ≠ none ∨ record.expiresAt ≤ d.now) :
    ∃ ws, backend.applyAll db ws = .ok ((refreshEndpoint env body d).atomically backend db).2 ∧
      (∀ w ∈ ws, w.Settled) ∧
      ∃ e, ((refreshEndpoint env body d).atomically backend db).1 = .error e := by
  refine (Tx.atomically_iff (P := fun r db' => ∃ ws, backend.applyAll db ws = .ok db' ∧
    (∀ w ∈ ws, w.Settled) ∧ ∃ e, r = .error e)).mpr ?_
  have refused (e : Exc) : ∃ ws, backend.applyAll db ws = .ok db ∧ (∀ w ∈ ws, w.Settled) ∧
      ∃ e', (Except.error e : Except Exc IssuedTokens) = .error e' := ⟨[], rfl, by simp, e, rfl⟩
  unfold refreshEndpoint
  rw [hraw]
  dsimp only
  split
  · exact refused _
  · refine Tx.wp_query_first.mpr ?_
    rw [hrec]
    dsimp only
    have raises : Tx.EmitsTo Write.Settled (fun _ => False) (rotateRecord env record d) := by
      unfold rotateRecord
      split
      · exact Tx.EmitsTo.bind (Tx.Emits.to (Tx.Emits.query _)) fun _ _ =>
          Tx.EmitsTo.bind (Tx.Emits.to (emits_execute ⟨rfl, rfl⟩)) fun _ _ =>
            Tx.EmitsTo.bind (Tx.Emits.to (Tx.Emits.stage ⟨rfl, rfl⟩)) fun _ _ =>
              Tx.EmitsTo.bind (Tx.Emits.to Tx.Emits.commit) fun _ _ => Tx.EmitsTo.throw _
      · rename_i unrevoked
        have expired : record.expiresAt ≤ d.now :=
          idle.resolve_left fun h => unrevoked (Option.isSome_iff_ne_none.mpr h)
        rw [if_pos expired]
        exact Tx.EmitsTo.bind (Tx.Emits.to (Tx.Emits.stage ⟨rfl, by simp [Write.rotates]⟩))
          fun _ _ => Tx.EmitsTo.throw _
    refine Tx.wp_bind.mpr ((Tx.Commits.wp (Program.Emits.commits raises Journal.all_empty)
      (show backend.applyAll db [] = .ok db from rfl)).mono ?_)
    rintro (e | a) after s ⟨⟨hnever, hsettled⟩, happly⟩
    · exact ⟨_, happly, hsettled.1, e, rfl⟩
    · exact (hnever a rfl).elim

/-- What the write set of a request does to the tokens: it rotates one that is good. -/
def GoodEffect (env : Env) (db : Db) (d : Draws) (ws : List Write) : Prop :=
  ((∀ w ∈ ws, w.Settled) ∨ Opens d.familyId ws) ∨
    ∃ record ∈ db.refreshTokens, RotatesRow record ws ∧ Exchangeable env d.now record

theorem refresh_good (env : Env) (db : Db) (d : Draws) (body : RefreshRequest) :
    ∃ ws, backend.applyAll db ws = .ok ((refreshEndpoint env body d).atomically backend db).2 ∧
      GoodEffect env db d ws := by
  obtain ⟨ws, happly, ⟨hsettled, -⟩ | ⟨raw, record, hraw, hrec, hrot⟩⟩ :=
    refresh_served env db d body
  · exact ⟨ws, happly, Or.inl (Or.inl hsettled)⟩
  · by_cases expired : record.expiresAt ≤ d.now
    · obtain ⟨ws', happly', hsettled, -⟩ := refresh_idle hraw hrec (Or.inr expired)
      exact ⟨ws', happly', Or.inl (Or.inl hsettled)⟩
    · have unrevoked : record.revokedAt = none := by
        obtain ⟨-, -, -, h, -⟩ := hrot
        exact h
      exact ⟨ws, happly, Or.inr ⟨record, List.mem_of_find?_eq_some hrec, hrot, unrevoked,
        Int.not_le.mp expired, raw, RefreshRequest.raw_ne_empty hraw,
        (hash_of_tokenByHash hrec).symm⟩⟩

theorem authStep_good (env : Env) (db : Db) (a : AuthEvent) :
    ∃ ws, backend.applyAll db ws = .ok (authStep env db a) ∧ GoodEffect env db a.2 ws := by
  obtain ⟨r, d⟩ := a
  unfold authStep AuthEvent.serve
  have silent {α : Type} {p : Tx α} (h : Tx.Emits Write.Settled p) :
      ∃ ws, backend.applyAll db ws = .ok (p.atomically backend db).2 ∧ GoodEffect env db d ws := by
    obtain ⟨j, hj, happly⟩ := Tx.Commits.served (B := backend) (h.commits Journal.all_empty) db
    exact ⟨_, happly, Or.inl (Or.inl hj.1)⟩
  have opens {p : Tx IssuedTokens} (h : Tx.Commits (fun j => TokenWrites env j.pending)
      (fun _ => Opened d) p {}) :
      ∃ ws, backend.applyAll db ws = .ok (p.atomically backend db).2 ∧ GoodEffect env db d ws := by
    obtain ⟨ws, happly, heffect⟩ : ∃ ws,
        backend.applyAll db ws = .ok (p.atomically backend db).2 ∧
          ((∀ w ∈ ws, w.Settled) ∨ Opens d.familyId ws) := opened_writes h
    exact ⟨ws, happly, Or.inl heffect⟩
  cases r <;> simp only [AuthRequest.serve, Tx.atomically_map]
  case signup body => exact opens (signupEndpoint_opens body)
  case login email password => exact opens (loginEndpoint_opens email password)
  case refresh body => exact refresh_good env db d body
  case logout => exact silent (logout_settled _ _ _)
  case updateMe => exact silent (updateMe_settled _ _)
  case verifyEmail => exact silent (verifyEmail_settled _)
  case forgotPassword => exact silent (forgotPassword_settled _)
  case resetPassword => exact silent (resetPassword_settled _ _)
  case deleteSession => exact silent (deleteSession_settled _ _)

/-- No request issues a token into a family that is over. -/
theorem over_step {a : AuthEvent} (h : Over env f now db) (fresh : FreshFamily db a)
    (later : now ≤ a.2.now) : Over env f now (authStep env db a) := by
  obtain ⟨ws, happly, heffect⟩ := authStep_good env db a
  refine ⟨family_persists happly h.1, fun t ht hf good => ?_⟩
  obtain old | new := live_applyAll happly ht good.1
  · exact h.2 t old hf good
  · have issued : t.asIssued ∈ ws.flatMap Write.issues := mem_issues_of_insert new
    rcases heffect with (settled | ⟨⟨row, hrow, hfamily⟩, -⟩) |
      ⟨record, hrecord, ⟨at', child, rfl, -, hfam, -⟩, exchanged⟩
    · rw [issues_of_settled settled] at issued
      cases issued
    · rw [hrow, List.mem_singleton] at issued
      obtain ⟨s, hs, hsf⟩ := h.1
      refine fresh s hs (hsf.trans (hf.symm.trans ?_))
      exact (congrArg RefreshToken.familyId issued).trans hfamily
    · have hchild : t.asIssued = child.asIssued := by simpa [Write.issues] using issued
      have family : record.familyId = f :=
        hfam.symm.trans ((congrArg RefreshToken.familyId hchild).symm.trans hf)
      exact h.2 record hrecord family (exchanged.earlier later)

theorem refusesFrom_of_over (unique : UniqueHashes db) (h : Over env f now db) :
    RefusesFrom env f now db := by
  rintro body d raw hraw later ⟨t, ht, hf, hhash⟩
  have refused : ∃ e, ((refreshEndpoint env body d).atomically backend db).1 = .error e := by
    obtain ⟨ws, -, ⟨-, e, he⟩ | ⟨raw', record, hraw', hrec, -⟩⟩ := refresh_served env db d body
    · exact ⟨e, he⟩
    · obtain rfl := Option.some.inj (hraw.symm.trans hraw')
      have same : t = record := unique.eq_of_hash ht (List.mem_of_find?_eq_some hrec)
        (hhash.trans (hash_of_tokenByHash hrec).symm)
      have idle : record.revokedAt ≠ none ∨ record.expiresAt ≤ d.now := by
        by_cases hlive : record.revokedAt = none
        · refine Or.inr (Int.not_lt.mp fun good => h.2 t ht hf ?_)
          exact ⟨same ▸ hlive, Int.lt_of_le_of_lt later (same ▸ good), raw,
            RefreshRequest.raw_ne_empty hraw, hhash.symm⟩
        · exact Or.inl hlive
      obtain ⟨-, -, -, e, he⟩ := refresh_idle hraw hrec idle
      exact ⟨e, he⟩
  obtain ⟨e, he⟩ := refused
  simp only [AuthEvent.serve, AuthRequest.serve, Tx.atomically_map, he]
  exact ⟨e, rfl⟩

end Over

section Exchange

theorem active_of_actsFor {credentials : Option Credentials}
    (h : ActsFor env db credentials now userId) :
    ∃ user, db.users.find? userId = some user ∧ user.isActive = true := by
  obtain ⟨principal, answer, acts⟩ := h
  cases credentials with
  | none => cases answer
  | some c =>
      cases stems_of_answer answer with
      | service => cases acts
      | apiKey => cases acts
      | user _ _ _ stored _ active =>
          obtain rfl := Option.some.inj acts
          exact ⟨_, Table.find?_of_mem stored, active⟩

/-- A good token of an active user is exchanged when the drawn token is a new one. -/
theorem refresh_exchanges {t : RefreshToken} {user : User} {raw : String}
    (unique : UniqueHashes db) (ht : t ∈ db.refreshTokens) (unrevoked : t.revokedAt = none)
    (good : d.now < t.expiresAt) (nonempty : raw ≠ "") (hhash : env.sha256 raw = t.tokenHash)
    (huser : db.users.find? t.userId = some user) (active : user.isActive = true)
    (newId : ∀ s ∈ db.refreshTokens, s.id ≠ d.id)
    (newHash : ∀ s ∈ db.refreshTokens, s.tokenHash ≠ env.sha256 d.rawRefresh) :
    ∃ tokens, (AuthEvent.serve env db (.refresh { refreshToken := some raw }, d)).1 =
      .ok (some tokens) := by
  have hrec : tokenByHash env raw db = some t := by
    refine Table.find?_eq_some_of_unique ht (by simp [hhash]) fun s hs h => ?_
    exact unique.eq_of_hash hs ht ((of_decide_eq_true h).trans hhash)
  have stored : ∃ after, backend.applyAll db
      [.revokeRefreshToken t d.now "rotated",
        .insertRefreshToken (newRefreshToken env user d (some t.familyId) (some t.id))] =
      .ok after := by
    have kept (s : RefreshToken) (hs : s ∈ db.refreshTokens.update t.id
        (RefreshToken.revoke d.now "rotated")) : s.id ≠ d.id ∧
          s.tokenHash ≠ env.sha256 d.rawRefresh := by
      obtain ⟨r, hr, rfl⟩ := Table.mem_update.mp hs
      split
      · exact ⟨newId r hr, newHash r hr⟩
      · exact ⟨newId r hr, newHash r hr⟩
    obtain ⟨u, hu⟩ : ∃ u,
        (db.refreshTokens.update t.id (RefreshToken.revoke d.now "rotated")).insert?
          (newRefreshToken env user d (some t.familyId) (some t.id)) = some u :=
      Table.exists_insert?_iff.mpr fun s hs => (kept s hs).1
    have inserted : insertRow "refresh_tokens"
        (db.refreshTokens.update t.id (RefreshToken.revoke d.now "rotated"))
        (fun r => r.tokenHash = env.sha256 d.rawRefresh)
        (newRefreshToken env user d (some t.familyId) (some t.id)) = .ok u :=
      insertRow_eq_ok.mpr ⟨fun s hs => decide_eq_false (kept s hs).2, hu⟩
    refine ⟨_, Backend.applyAll_cons_eq_ok.mpr ⟨_, rfl, Backend.applyAll_cons_eq_ok.mpr
      ⟨_, congrArg (Except.map _) inserted, rfl⟩⟩⟩
  obtain ⟨after, hafter⟩ := stored
  have exchanged : ∃ tokens,
      ((refreshEndpoint env { refreshToken := some raw } d).atomically backend db).1 =
        .ok tokens := by
    refine (Tx.atomically_iff (P := fun r _ => ∃ tokens, r = .ok tokens)).mpr ?_
    have hraw : RefreshRequest.raw { refreshToken := some raw } = some raw := by
      simp [RefreshRequest.raw, nonempty]
    unfold refreshEndpoint
    rw [hraw]
    dsimp only
    rw [if_neg (by simp)]
    refine Tx.wp_query_first.mpr ?_
    rw [hrec]
    dsimp only
    unfold rotateRecord
    rw [if_neg (by simp [unrevoked]), if_neg (Int.not_le.mpr good)]
    simp only [Tx.wp_bind, Tx.wp_query, Tx.wp_stage, issueTokens, Session.stage,
      Session.query_unflushed, Except.map, huser, active, not_true_eq_false, if_false]
    refine (Tx.wp_flush_live rfl).mpr ?_
    simp only [Session.pending, List.nil_append, List.cons_append, hafter, Tx.wp_pure]
    refine (Tx.wp_commit_live rfl).mpr ?_
    simp only [Session.pending, List.append_nil, hafter]
    exact ⟨_, rfl⟩
  obtain ⟨tokens, htokens⟩ := exchanged
  simp only [AuthEvent.serve, AuthRequest.serve, Tx.atomically_map, htokens]
  exact ⟨tokens, rfl⟩

end Exchange

section Logouts

/-- A logout request: its body, and the cookie that the browser sends along. -/
structure LogoutCall where
  credentials : Option Credentials
  refreshToken : Option String := none
  cookieToken : Option String := none
  allDevices : Bool := false

def LogoutCall.event (c : LogoutCall) (d : Draws) : AuthEvent :=
  (.logout c.credentials c.refreshToken c.allDevices, d)

/-- The token that the client presents, found as a refresh finds it. -/
def LogoutCall.raw (c : LogoutCall) : Option String :=
  ({ refreshToken := c.refreshToken, cookieToken := c.cookieToken } : RefreshRequest).raw

/-- The call presents the token and is answered with success for the user of the token. -/
structure LogsOut (env : Env) (db : Db) (c : LogoutCall) (d : Draws) (record : RefreshToken) :
    Prop where
  presents : ∃ raw, c.raw = some raw ∧ tokenByHash env raw db = some record
  acts : ActsFor env db c.credentials d.now record.userId
  answered : (AuthEvent.serve env db (c.event d)).1.toBool = true

/-- From the state on, whatever is served, no token of the family is exchanged. -/
def SessionEnded (env : Env) (f : Uuid) (now : Timestamp) (db : Db) : Prop :=
  ∀ later : List AuthEvent,
    Meets (authStep env) (fun db a => FreshFamily db a ∧ now ≤ a.2.now) db later →
      Along (authStep env) (RefusesFrom env f now) db later

/-- The row that the body of the logout names. -/
def bodyRow (env : Env) (refreshToken : Option String) (db : Db) : Option RefreshToken :=
  (refreshToken.filter (· ≠ "")).bind fun raw => tokenByHash env raw db

/-- The tokens that a logout from one device leaves. -/
def tokensLeft (env : Env) (db : Db) (refreshToken : Option String) (userId : Uuid)
    (now : Timestamp) : Table Uuid RefreshToken RefreshToken.id :=
  match bodyRow env refreshToken db with
  | none => db.refreshTokens
  | some record =>
      if record.userId = userId then
        db.refreshTokens.update record.id (RefreshToken.revoke now "logout")
      else db.refreshTokens

theorem logout_served {credentials : Option Credentials} (refreshToken : Option String)
    (acts : ActsFor env db credentials d.now userId) :
    ((logoutEndpoint env credentials refreshToken false d).atomically backend db).2 =
      { db with refreshTokens := tokensLeft env db refreshToken userId d.now } := by
  refine (Tx.atomically_iff (P := fun _ after => after =
    { db with refreshTokens := tokensLeft env db refreshToken userId d.now })).mpr ?_
  refine (wp_actsFor acts).mpr ?_
  unfold revokeRefresh tokensLeft bodyRow
  rw [if_neg (by decide)]
  cases refreshToken.filter (· ≠ "") with
  | none => rfl
  | some raw =>
      refine Tx.wp_query_first.mpr ?_
      rw [Option.bind_some]
      cases tokenByHash env raw db with
      | none => rfl
      | some record =>
          dsimp only
          split
          · rfl
          · rfl

/-- A logout keeps the ids and the hashes of the tokens. -/
theorem kept_tokensLeft {refreshToken : Option String} {s : RefreshToken}
    (hs : s ∈ tokensLeft env db refreshToken userId now) :
    ∃ r ∈ db.refreshTokens, r.id = s.id ∧ r.tokenHash = s.tokenHash := by
  unfold tokensLeft at hs
  cases hrow : bodyRow env refreshToken db with
  | none =>
      rw [hrow] at hs
      exact ⟨s, hs, rfl, rfl⟩
  | some record =>
      simp only [hrow] at hs
      split at hs
      · obtain ⟨r, hr, rfl⟩ := Table.mem_update.mp hs
        refine ⟨r, hr, ?_⟩
        split
        · exact ⟨rfl, rfl⟩
        · exact ⟨rfl, rfl⟩
      · exact ⟨s, hs, rfl, rfl⟩

theorem bodyRow_eq_some_iff {refreshToken : Option String} {t : RefreshToken}
    (unique : UniqueHashes db) :
    bodyRow env refreshToken db = some t ↔
      t ∈ db.refreshTokens ∧ (refreshToken.filter (· ≠ "")).map env.sha256 = some t.tokenHash := by
  unfold bodyRow
  cases refreshToken.filter (· ≠ "") with
  | none => simp
  | some raw =>
      rw [Option.bind_some, Option.map_some, Option.some.injEq]
      constructor
      · exact fun h => ⟨List.mem_of_find?_eq_some h, (hash_of_tokenByHash h).symm⟩
      · rintro ⟨ht, hhash⟩
        refine Table.find?_eq_some_of_unique ht (by simp [hhash]) fun s hs h => ?_
        exact unique.eq_of_hash hs ht ((of_decide_eq_true h).trans hhash)

/-- The user's tokens that are not revoked stay so, but for the one in the body. -/
theorem live_tokensLeft_iff {refreshToken : Option String} {t : RefreshToken}
    (unique : UniqueHashes db) (unrevoked : t.revokedAt = none)
    (owners : t ∈ db.refreshTokens → t.userId = userId) :
    t ∈ tokensLeft env db refreshToken userId now ↔ t ∈ db.refreshTokens ∧
      (refreshToken.filter (· ≠ "")).map env.sha256 ≠ some t.tokenHash := by
  have named : bodyRow env refreshToken db = some t ↔ t ∈ db.refreshTokens ∧
      (refreshToken.filter (· ≠ "")).map env.sha256 = some t.tokenHash :=
    bodyRow_eq_some_iff unique
  unfold tokensLeft
  cases hrow : bodyRow env refreshToken db with
  | none =>
      rw [hrow] at named
      grind
  | some record =>
      rw [hrow] at named
      have stored : record ∈ db.refreshTokens := ((bodyRow_eq_some_iff unique).mp hrow).1
      dsimp only
      split
      · refine Table.mem_update.trans ?_
        constructor
        · rintro ⟨r, hr, hrt⟩
          split at hrt
          · rw [← hrt] at unrevoked
            cases unrevoked
          · subst hrt
            refine ⟨hr, fun h => ?_⟩
            obtain rfl := Option.some.inj (named.mpr ⟨hr, h⟩)
            contradiction
        · rintro ⟨ht, other⟩
          refine ⟨t, ht, if_neg fun hid => other ?_⟩
          obtain rfl := Table.eq_of_key ht stored hid
          exact (named.mp rfl).2
      · rename_i foreign
        refine ⟨fun ht => ⟨ht, fun h => ?_⟩, fun h => h.1⟩
        obtain rfl := Option.some.inj (named.mpr ⟨ht, h⟩)
        exact foreign (owners ht)

variable {c : LogoutCall} {record : RefreshToken}

/-- All tokens of the session that can be exchanged are revoked by the logout. -/
def RevokesSession (env : Env) (db : Db) (c : LogoutCall) (f : Uuid) (now : Timestamp) : Prop :=
  c.allDevices = true ∨ ∀ t ∈ db.refreshTokens, t.familyId = f → Exchangeable env now t →
    (c.refreshToken.filter (· ≠ "")).map env.sha256 = some t.tokenHash

theorem LogsOut.stored (out : LogsOut env db c d record) : record ∈ db.refreshTokens := by
  obtain ⟨raw, -, hrec⟩ := out.presents
  exact List.mem_of_find?_eq_some hrec

theorem authStep_logout (one : c.allDevices = false) (out : LogsOut env db c d record) :
    authStep env db (c.event d) =
      { db with refreshTokens := tokensLeft env db c.refreshToken record.userId d.now } := by
  unfold authStep AuthEvent.serve LogoutCall.event
  simp only [AuthRequest.serve, Tx.atomically_map, one]
  exact logout_served c.refreshToken out.acts

theorem over_of_revokes (unique : UniqueHashes db) (owners : OneOwner db)
    (out : LogsOut env db c d record) (revokes : RevokesSession env db c record.familyId d.now) :
    Over env record.familyId d.now (authStep env db (c.event d)) := by
  have session : ∃ t ∈ db.refreshTokens, t.familyId = record.familyId := ⟨record, out.stored, rfl⟩
  have owns : Owns record.userId record.familyId db := ⟨record, out.stored, rfl, rfl⟩
  cases hall : c.allDevices with
  | true =>
      have answered := out.answered
      unfold authStep
      simp only [AuthEvent.serve, LogoutCall.event, AuthRequest.serve, Tx.atomically_map,
        toBool_map, hall] at answered ⊢
      obtain ⟨found, dead⟩ := logout_all_kills owners out.acts owns answered
      exact ⟨found, fun t ht hf good => dead t ht hf good.1⟩
  | false =>
      obtain ⟨ws, happly, -⟩ := authStep_effect env db (c.event d)
      refine ⟨family_persists happly session, fun t ht hf good => ?_⟩
      rw [authStep_logout hall out] at ht
      obtain ⟨old, other⟩ := (live_tokensLeft_iff unique good.1 fun stored =>
        owner_of_owns owners owns stored hf).mp ht
      exact other (revokes.resolve_left (by simp [hall]) t old hf good)

theorem exists_newId (db : Db) : ∃ id, ∀ t ∈ db.refreshTokens, t.id ≠ id := by
  obtain ⟨id, fresh⟩ := Infinite.exists_notMem_finset
    (db.refreshTokens.rows.map RefreshToken.id).toFinset
  exact ⟨id, fun t ht used => fresh (List.mem_toFinset.mpr (List.mem_map.mpr ⟨t, ht, used⟩))⟩

theorem revokes_of_refuses (unique : UniqueHashes db) (owners : OneOwner db)
    (unseen : ∃ raw, ∀ t ∈ db.refreshTokens, t.tokenHash ≠ env.sha256 raw)
    (out : LogsOut env db c d record)
    (refuses : RefusesFrom env record.familyId d.now (authStep env db (c.event d))) :
    RevokesSession env db c record.familyId d.now := by
  cases hall : c.allDevices with
  | true => exact Or.inl hall
  | false =>
      refine Or.inr fun t ht hf good => ?_
      by_contra other
      have owner : t.userId = record.userId :=
        owner_of_owns owners ⟨record, out.stored, rfl, rfl⟩ ht hf
      have unique' := uniqueHashes_step env (c.event d) unique
      rw [authStep_logout hall out] at refuses unique'
      have left : t ∈ tokensLeft env db c.refreshToken record.userId d.now :=
        (live_tokensLeft_iff unique good.1 fun _ => owner).mpr ⟨ht, other⟩
      obtain ⟨user, huser, active⟩ := active_of_actsFor out.acts
      obtain ⟨newRaw, newHash⟩ := unseen
      obtain ⟨newId, fresh⟩ := exists_newId db
      obtain ⟨unrevoked, valid, raw, nonempty, hhash⟩ := good
      obtain ⟨tokens, exchanged⟩ := refresh_exchanges
        (d := { d with id := newId, rawRefresh := newRaw }) unique' left unrevoked valid nonempty
        hhash (owner ▸ huser) active
        (fun s hs hs' => by
          obtain ⟨r, hr, hrid, -⟩ := kept_tokensLeft hs
          exact fresh r hr (hrid.trans hs'))
        (fun s hs hs' => by
          obtain ⟨r, hr, -, hrhash⟩ := kept_tokensLeft hs
          exact newHash r hr (hrhash.trans hs'))
      obtain ⟨e, refused⟩ := refuses { refreshToken := some raw }
        { d with id := newId, rawRefresh := newRaw } raw (by simp [RefreshRequest.raw, nonempty])
        (Int.le_refl _) ⟨t, left, hf, hhash.symm⟩
      rw [exchanged] at refused
      cases refused

/-- After a logout that is answered with success for the user of the presented token, no token
of its session is exchanged again exactly when the logout was for all devices or no token of
the session other than the one in the body was still good. -/
theorem logout_ends_session_iff (env : Env) (db : Db) (c : LogoutCall) (d : Draws)
    (record : RefreshToken) (unique : UniqueHashes db) (owners : OneOwner db)
    (unseen : ∃ raw, ∀ t ∈ db.refreshTokens, t.tokenHash ≠ env.sha256 raw)
    (out : LogsOut env db c d record) :
    SessionEnded env record.familyId d.now (authStep env db (c.event d)) ↔
      RevokesSession env db c record.familyId d.now := by
  constructor
  · intro ended
    exact revokes_of_refuses unique owners unseen out (ended [] trivial).head
  · intro revokes later arrives
    have start : UniqueHashes (authStep env db (c.event d)) ∧
        Over env record.familyId d.now (authStep env db (c.event d)) :=
      ⟨uniqueHashes_step env (c.event d) unique, over_of_revokes unique owners out revokes⟩
    refine (along_of_meets (P := fun db => UniqueHashes db ∧ Over env record.familyId d.now db)
      (fun db a h hc => ?_) start arrives).mono fun db h => refusesFrom_of_over h.1 h.2
    exact ⟨uniqueHashes_step env a h.1, over_step h.2 hc.1 hc.2⟩

/-- Alice's access token is the word alice. -/
def aliceEnv : Env :=
  { plainEnv with
    decodeAccessToken := fun token _ =>
      if token = "alice" then
        .ok { sub := 1, org := 1, role := .owner, scopes := [], iat := 0, exp := 900 }
      else .error (Exc.unauthenticated) }

def cookieLogout : LogoutCall :=
  { credentials := some { token := "alice" }, cookieToken := some "first" }

def bodyLogout : LogoutCall :=
  { credentials := some { token := "alice" }, refreshToken := some "first" }

/-- Alice logs out from the browser, which holds her token in the cookie; the token is still
exchanged. So is the current one when she logs out with the one it was rotated from. -/
theorem cookie_outlives_logout :
    (∃ record, LogsOut aliceEnv aliceSession cookieLogout (drawsAt 1 "unused") record ∧
      ¬ SessionEnded aliceEnv record.familyId (drawsAt 1 "unused").now
        (authStep aliceEnv aliceSession (cookieLogout.event (drawsAt 1 "unused")))) ∧
    ∃ record, LogsOut aliceEnv (authStep aliceEnv aliceSession (presentAt 1 "first" "second"))
        bodyLogout (drawsAt 2 "unused") record ∧
      ¬ SessionEnded aliceEnv record.familyId (drawsAt 2 "unused").now
        (authStep aliceEnv (authStep aliceEnv aliceSession (presentAt 1 "first" "second"))
          (bodyLogout.event (drawsAt 2 "unused"))) := by
  constructor
  · refine ⟨_, ⟨⟨"first", rfl, rfl⟩, ⟨_, rfl, rfl⟩, rfl⟩, fun ended => ?_⟩
    obtain ⟨e, he⟩ := (ended [] trivial).head
      { cookieToken := some "first", csrfCookie := some "c", csrfHeader := some "c" }
      (drawsAt 3 "third") "first" rfl (by decide) ⟨_, List.mem_singleton_self _, rfl, rfl⟩
    cases he
  · refine ⟨_, ⟨⟨"first", rfl, rfl⟩, ⟨_, rfl, rfl⟩, rfl⟩, fun ended => ?_⟩
    obtain ⟨e, he⟩ := (ended [] trivial).head
      { refreshToken := some "second" }
      (drawsAt 3 "third") "second" rfl (by decide)
      ⟨_, List.mem_cons_of_mem _ (List.mem_singleton_self _), rfl, rfl⟩
    cases he

theorem body_logout_ends_session :
    SessionEnded aliceEnv 200 (drawsAt 1 "unused").now
      (authStep aliceEnv aliceSession (bodyLogout.event (drawsAt 1 "unused"))) := by
  refine (logout_ends_session_iff aliceEnv aliceSession bodyLogout (drawsAt 1 "unused") _
    (List.nodup_singleton _) ?_ ⟨"unused", ?_⟩ ⟨⟨"first", rfl, rfl⟩, ⟨_, rfl, rfl⟩, rfl⟩).mpr ?_
  · intro t ht s hs _
    rw [List.mem_singleton.mp ht, List.mem_singleton.mp hs]
  · intro t ht
    rw [List.mem_singleton.mp ht]
    decide
  · refine Or.inr fun t ht _ _ => ?_
    rw [List.mem_singleton.mp ht]
    rfl

end Logouts

end DolphinVC
