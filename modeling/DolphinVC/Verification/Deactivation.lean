import DolphinVC.Routers.Orgs
import DolphinVC.Verification.Credentials
import DolphinVC.Verification.SessionFamilies

/-!
# Deactivated accounts

A deactivation revokes no token. What keeps the account out is that every path on which tokens
are issued looks at `is_active`, that every use of an access token looks at it again, and that
no authentication request sets it.
-/

namespace DolphinVC

open Relational Transaction Transition

variable {env : Env} {db db' : Db} {d : Draws} {userId : Uuid} {before : List RefreshToken}

section Store

/-- The account is there, switched off. -/
def Inactive (userId : Uuid) (db : Db) : Prop := ∃ u ∈ db.users, u.id = userId ∧ u.isActive = false

/-- The refresh tokens ever issued to the user. -/
def userTokens (userId : Uuid) (db : Db) : List RefreshToken :=
  (issuedTokens db).filter fun t => t.userId = userId

/-- The account is off and has been issued no refresh token beyond these. -/
def ShutOut (userId : Uuid) (before : List RefreshToken) (db : Db) : Prop :=
  Inactive userId db ∧ userTokens userId db = before

/-- The statement switches no account and issues the user no token. -/
def Write.Spares (userId : Uuid) (w : Write) : Prop :=
  w.keepsActive = true ∧ ∀ row ∈ w.issues, row.userId ≠ userId

theorem Write.OfAuth.keeps {w : Write} (h : w.OfAuth) : w.keepsActive = true :=
  (Bool.and_eq_true_iff.mp (Bool.and_eq_true_iff.mp h).1).2

theorem Inactive.apply {w : Write} (h : Inactive userId db) (hw : w.keepsActive = true)
    (happly : db.apply w = .ok db') : Inactive userId db' := by
  obtain ⟨u, hu, hid, hoff⟩ := h
  obtain ⟨row, rfl, hins⟩ | ⟨id, set, rfl, hupd⟩ | ⟨-, heq⟩ := users_apply happly
  · exact ⟨u, (Table.mem_insert? hins).mpr (Or.inl hu), hid, hoff⟩
  · have unset : set.isActive = none := Option.isNone_iff_eq_none.mp hw
    refine ⟨if u.id = id then u.patch set else u, ?_, ?_⟩
    · rw [hupd]
      exact Table.mem_update.mpr ⟨u, hu, rfl⟩
    · split
      · exact ⟨hid, by simp [User.patch, unset, hoff]⟩
      · exact ⟨hid, hoff⟩
  · exact ⟨u, heq ▸ hu, hid, hoff⟩

theorem ShutOut.apply {w : Write} (h : ShutOut userId before db) (hw : w.Spares userId)
    (happly : db.apply w = .ok db') : ShutOut userId before db' := by
  refine ⟨h.1.apply hw.1 happly, ?_⟩
  have none_issued : w.issues.filter (fun t => t.userId = userId) = [] :=
    List.filter_eq_nil_iff.mpr fun row hrow => by simpa using hw.2 row hrow
  rw [userTokens, issued_apply happly, List.filter_append, none_issued, List.append_nil]
  exact h.2

/-- An account that is on is not the one that is off. -/
theorem Inactive.ne {u : User} (h : Inactive userId db) (hu : u ∈ db.users)
    (active : u.isActive = true) : u.id ≠ userId := by
  intro hid
  obtain ⟨v, hv, hvid, hoff⟩ := h
  rw [Table.eq_of_key hu hv (hid.trans hvid.symm), hoff] at active
  cases active

/-- A committed account has an id of its own. -/
theorem Inactive.ne_of_inserted {ws : List Write} {row : User} (h : Inactive userId db)
    (hws : ∀ w ∈ ws, w.keepsActive = true) (hrow : .insertUser row ∈ ws)
    (happly : backend.applyAll db ws = .ok db') : row.id ≠ userId := by
  obtain ⟨pre, post, rfl⟩ := List.append_of_mem hrow
  obtain ⟨mid, hpre, hrest⟩ := Backend.applyAll_append_eq_ok.mp happly
  obtain ⟨next, hnext, -⟩ := Backend.applyAll_cons_eq_ok.mp hrest
  have there : Inactive userId mid :=
    Backend.applyAll_inv (P := Inactive userId) (fun _ _ _ hw h happly => h.apply hw happly)
      (fun w hw => hws w (List.mem_append_left _ hw)) h hpre
  obtain ⟨u, hu, hid, -⟩ := there
  obtain ⟨users, husers, -⟩ := map_eq_ok.mp hnext
  have fresh := Table.fresh_of_insert? (insertRow_eq_ok.mp husers).2 hu
  exact fun hsame => fresh (hid.trans hsame.symm)

end Store

section Requests

open Tx

/-- The answer holds no access token of the user. -/
def NotFor (userId : Uuid) (tokens : IssuedTokens) : Prop := tokens.accessToken.sub ≠ userId

/-- Whatever the request answers with is for someone else, and the account stays shut out. -/
def Withholds (userId : Uuid) (before : List RefreshToken) (r : Except Exc IssuedTokens) (db : Db) :
    Prop :=
  (∀ tokens, r = .ok tokens → NotFor userId tokens) ∧ ShutOut userId before db

theorem issueTokens_spares {user : User} {familyId parentId : Option Uuid} (h : user.id ≠ userId) :
    EmitsTo (Write.Spares userId) (NotFor userId) (issueTokens env user d familyId parentId) := by
  have issued : (Write.insertRefreshToken (newRefreshToken env user d familyId parentId)).Spares
      userId := by
    refine ⟨rfl, fun row hrow => ?_⟩
    rw [List.mem_singleton.mp hrow]
    exact h
  exact EmitsTo.bind (Emits.to (Emits.stage issued)) fun _ _ =>
    EmitsTo.bind (Emits.to Emits.flush) fun _ _ => EmitsTo.pure h

theorem wp_spares {p : DolphinVC.Tx IssuedTokens} {s : Session Write} (h : ShutOut userId before db)
    (hp : EmitsTo (Write.Spares userId) (NotFor userId) p)
    (hs : s.Holds fun ws => ∀ w ∈ ws, w.Spares userId) :
    WP backend (fun r db' _ => Withholds userId before r db') p db s :=
  (EmitsTo.wp (I := ShutOut userId before) hp (fun _ _ _ hw hdb happly => hdb.apply hw happly)
    hs h).mono fun _ _ _ h => ⟨h.1, h.2.1⟩

theorem holds_empty {Φ : Write → Prop} : ({} : Session Write).Holds fun ws => ∀ w ∈ ws, Φ w :=
  Or.inr fun _ hw => absurd hw List.not_mem_nil

theorem login_refuses (h : ShutOut userId before db) (email password : String) :
    Withholds userId before ((loginEndpoint env email password d).atomically backend db).1
      ((loginEndpoint env email password d).atomically backend db).2 := by
  refine (Tx.atomically_iff (P := Withholds userId before)).mpr
    (Tx.wp_query_first.mpr (wp_spares h ?_ holds_empty))
  refine EmitsTo.bind (P := fun a => NotFor userId a.2) ?_ fun a ha => ?rest
  case rest =>
    obtain ⟨user, tokens⟩ := a
    refine EmitsTo.bind (Emits.to (Emits.query _)) fun org? _ =>
      EmitsTo.bind (Emits.to Emits.commit) fun _ _ =>
        EmitsTo.bind (Emits.to (reads_refreshRow _).emits) fun _ _ => ?_
    cases org? with
    | none => exact EmitsTo.pure ha
    | some org =>
        exact EmitsTo.bind (Emits.to (reads_refreshRow _).emits) fun _ _ => EmitsTo.pure ha
  cases haccount : accountByEmail env email db with
  | none => exact EmitsTo.throw _
  | some user =>
      have stored : user ∈ db.users := List.mem_of_find?_eq_some haccount
      dsimp only
      split
      · exact EmitsTo.throw _
      · split
        · exact EmitsTo.bind (Emits.to (Emits.stage ⟨rfl, by simp [Write.issues]⟩)) fun _ _ =>
            EmitsTo.bind (Emits.to Emits.flush) fun _ _ => EmitsTo.throw _
        · split
          · exact EmitsTo.throw _
          · rename_i active
            have other : user.id ≠ userId := h.1.ne stored (by simpa using active)
            exact EmitsTo.bind (Emits.to (Emits.stage ⟨rfl, by simp [Write.issues]⟩)) fun _ _ =>
              EmitsTo.bind (issueTokens_spares other) fun _ htokens => EmitsTo.pure htokens

theorem refresh_refuses (h : ShutOut userId before db) (body : RefreshRequest) :
    Withholds userId before ((refreshEndpoint env body d).atomically backend db).1
      ((refreshEndpoint env body d).atomically backend db).2 := by
  refine (Tx.atomically_iff (P := Withholds userId before)).mpr ?_
  have refused (e : Exc) : Withholds userId before (.error e) db := ⟨fun _ h => (by cases h), h⟩
  unfold refreshEndpoint
  split
  · exact refused _
  split
  · exact refused _
  have rest (a : User × IssuedTokens) (ha : NotFor userId a.2) :
      EmitsTo (Write.Spares userId) (NotFor userId) (do
        Tx.commit
        return a.2 : DolphinVC.Tx IssuedTokens) :=
    EmitsTo.bind (Emits.to Emits.commit) fun _ _ => EmitsTo.pure ha
  have revoked {loaded : RefreshToken} {at' : Timestamp} {reason : String} :
      (Write.revokeRefreshToken loaded at' reason).Spares userId := ⟨rfl, by simp [Write.issues]⟩
  refine Tx.wp_query_first.mpr ?_
  rename_i raw _ _
  cases tokenByHash env raw db with
  | none => exact refused _
  | some record =>
      dsimp only
      unfold rotateRecord
      split
      · refine wp_spares h (EmitsTo.bind (P := fun _ => False) ?_ fun _ h => h.elim) holds_empty
        exact EmitsTo.bind (Emits.to (Emits.query _)) fun _ _ =>
          EmitsTo.bind (Emits.to (emits_execute ⟨rfl, by simp [Write.issues]⟩)) fun _ _ =>
            EmitsTo.bind (Emits.to (Emits.stage ⟨rfl, by simp [Write.issues]⟩)) fun _ _ =>
              EmitsTo.bind (Emits.to Emits.commit) fun _ _ => EmitsTo.throw _
      · split
        · refine wp_spares h (EmitsTo.bind (P := fun _ => False) ?_ fun _ h => h.elim) holds_empty
          exact EmitsTo.bind (Emits.to (Emits.stage revoked)) fun _ _ => EmitsTo.throw _
        · -- the owner is read while the revocation is pending
          refine Tx.wp_assoc.mpr (Tx.wp_bind.mpr (Tx.wp_stage.mpr (Tx.wp_assoc.mpr
            (Tx.wp_bind.mpr (Tx.wp_query_cases (fun view hview => ?_) fun e => refused e)))))
          obtain rfl : db = view := Except.ok.inj hview
          have pending : (({} : Session Write).stage
              (.revokeRefreshToken record d.now "rotated")).Holds fun ws =>
                ∀ w ∈ ws, w.Spares userId :=
            Or.inr fun w hw => List.mem_singleton.mp hw ▸ revoked
          refine wp_spares h (EmitsTo.bind (P := fun a => NotFor userId a.2) ?_ rest) pending
          cases howner : db.users.find? record.userId with
          | none => exact EmitsTo.throw _
          | some user =>
              dsimp only
              split
              · exact EmitsTo.throw _
              · rename_i active
                have other : user.id ≠ userId :=
                  h.1.ne (Table.mem_of_find? howner) (by simpa using active)
                exact EmitsTo.bind (issueTokens_spares other) fun _ htokens => EmitsTo.pure htokens

/-- An account is not inserted under an id in use. -/
theorem wp_insert_taken {α β : Type} {row : User} {s : Session Write}
    {k : Unit → DolphinVC.Tx β} {rest : β → DolphinVC.Tx α}
    {Q : Except Exc α → Db → Session Write → Prop} (h : Inactive userId db)
    (hs : s.Holds fun ws => ∀ w ∈ ws, w.Spares userId) (taken : row.id = userId)
    (herr : ∀ e s, Q (.error e) db s) :
    WP backend Q (Tx.stage (.insertUser row) >>= fun _ => (Tx.flush >>= k) >>= rest) db s := by
  refine Tx.wp_bind.mpr (Tx.wp_stage.mpr (Tx.wp_assoc.mpr (Tx.wp_bind.mpr ?_)))
  rw [Tx.wp_flush]
  unfold Session.flush
  cases hsend : Session.send backend db none (s.stage (.insertUser row)) with
  | error e => exact herr _ _
  | ok next =>
    obtain ⟨hf, -, happly⟩ := Session.send_eq_ok_iff.mp hsend
    have sparing : ∀ w ∈ s.pending, w.Spares userId := hs.resolve_left (by simpa using hf)
    have kept : ∀ w ∈ (s.stage (.insertUser row)).pending, w.keepsActive = true := by
      rw [Session.pending_stage]
      intro w hw
      obtain hw | hw := List.mem_append.mp hw
      · exact (sparing w hw).1
      · rw [List.mem_singleton.mp hw]
        rfl
    have inserted : .insertUser row ∈ (s.stage (.insertUser row)).pending := by
      rw [Session.pending_stage]
      exact List.mem_append_right _ List.mem_cons_self
    exact absurd taken (h.ne_of_inserted kept inserted happly)

theorem signupOrg_spares (body : SignupRequest) (email : String) :
    Emits (Write.Spares userId) (signupOrg env body email d) := by
  unfold signupOrg
  cases given body.inviteToken with
  | none =>
      exact Emits.bind (Emits.query _) fun _ =>
        Emits.bind (Emits.stage ⟨rfl, by simp [Write.issues]⟩) fun _ =>
          Emits.bind Emits.flush fun _ => Emits.pure _
  | some token =>
      refine Emits.bind (Emits.query _) fun invite? => ?_
      cases invite? with
      | none => exact Emits.throw _
      | some invite =>
          refine Emits.ite (fun _ => Emits.throw _) fun _ =>
            Emits.bind (Emits.query _) fun org? => ?_
          cases org? with
          | none => exact Emits.throw _
          | some org => exact Emits.pure _

theorem signup_refuses (h : ShutOut userId before db) (body : SignupRequest) :
    Withholds userId before ((signupEndpoint env body d).atomically backend db).1
      ((signupEndpoint env body d).atomically backend db).2 := by
  refine (Tx.atomically_iff (P := Withholds userId before)).mpr (Tx.wp_assoc.mpr ?_)
  have refused {db : Db} (h : ShutOut userId before db) (e : Exc) :
      Withholds userId before (.error e) db := ⟨fun _ h => (by cases h), h⟩
  refine Tx.Reads.wp_bind (reads_validatePassword _ _ _) (fun _ => refused h _) fun _ _ =>
    Tx.wp_query_first.mpr ?_
  split
  · exact refused h _
  refine Tx.wp_assoc.mpr (EmitsTo.wp_bind (I := ShutOut userId before)
    (Emits.to (signupOrg_spares body _)) (fun _ _ _ hw hdb happly => hdb.apply hw happly)
    holds_empty h (fun e _ _ h _ => refused h e) ?_)
  rintro ⟨orgId, role, invite⟩ db s - h hs
  by_cases taken : d.userId = userId
  · exact Tx.wp_assoc.mpr (wp_insert_taken h.1 hs taken fun e _ => refused h e)
  · refine wp_spares h (EmitsTo.bind (P := fun a => NotFor userId a.2) ?_ fun a ha => ?_) hs
    · refine EmitsTo.bind (Emits.to (Emits.stage ⟨rfl, by simp [Write.issues]⟩)) fun _ _ =>
        EmitsTo.bind (Emits.to Emits.flush) fun _ _ => EmitsTo.bind (Emits.to (Emits.stage ?_))
          fun _ _ => EmitsTo.bind (issueTokens_spares taken) fun _ htokens => EmitsTo.pure htokens
      cases invite with
      | none => exact ⟨rfl, by simp [Write.issues]⟩
      | some invite => exact ⟨rfl, by simp [Write.issues]⟩
    · exact EmitsTo.bind (Emits.to Emits.commit) fun _ _ =>
        EmitsTo.bind (Emits.to (reads_refreshRow _).emits) fun _ _ =>
          EmitsTo.bind (Emits.to (reads_refreshRow _).emits) fun _ _ => EmitsTo.pure ha

/-- A request that issues no token at all. -/
theorem shutOut_of_settled {α : Type} {p : DolphinVC.Tx α} (h : ShutOut userId before db)
    (writes : Emits Write.OfAuth p) (settled : Emits Write.Settled p) :
    ShutOut userId before (p.atomically backend db).2 := by
  refine ⟨?_, ?_⟩
  · exact Tx.Commits.atomically (I := Inactive userId) (Emits.commits writes Journal.all_empty)
      (fun _ _ _ hw hdb happly => hdb.apply hw.keeps happly) h.1
  · have same : issuedTokens (p.atomically backend db).2 = issuedTokens db :=
      Tx.Commits.atomically (I := fun db' => issuedTokens db' = issuedTokens db)
        (Emits.commits settled Journal.all_empty)
        (fun _ _ _ hw hdb happly => by rw [issued_apply happly, hw.1, List.append_nil, hdb]) rfl
    rw [userTokens, same]
    exact h.2

/-- No authentication request answers with tokens of the account, or lets it in again. -/
theorem shutOut_serve (h : ShutOut userId before db) (a : AuthEvent) :
    (∀ tokens, (AuthEvent.serve env db a).1 = .ok (some tokens) → NotFor userId tokens) ∧
      ShutOut userId before (authStep env db a) := by
  obtain ⟨r, d⟩ := a
  have answered {p : DolphinVC.Tx IssuedTokens}
      (hp : Withholds userId before (p.atomically backend db).1 (p.atomically backend db).2) :
      (∀ tokens, (p.atomically backend db).1.map some = .ok (some tokens) → NotFor userId tokens) ∧
        ShutOut userId before (p.atomically backend db).2 := by
    refine ⟨fun tokens htokens => ?_, hp.2⟩
    cases hr : (p.atomically backend db).1 with
    | error e =>
        rw [hr] at htokens
        cases htokens
    | ok tokens' =>
        rw [hr] at htokens
        cases htokens
        exact hp.1 tokens hr
  have silent {α : Type} {p : DolphinVC.Tx α} (writes : Emits Write.OfAccounts p)
      (settled : Emits Write.Settled p) :
      (∀ tokens, (p.atomically backend db).1.map (fun _ => (none : Option IssuedTokens)) =
        .ok (some tokens) → NotFor userId tokens) ∧
        ShutOut userId before (p.atomically backend db).2 := by
    refine ⟨fun tokens htokens => ?_,
      shutOut_of_settled h (writes.weaken fun _ hw => hw.ofAuth) settled⟩
    cases hr : (p.atomically backend db).1 with
    | error e =>
        rw [hr] at htokens
        cases htokens
    | ok a =>
        rw [hr] at htokens
        cases htokens
  unfold authStep AuthEvent.serve
  cases r <;> simp only [AuthRequest.serve, Tx.atomically_map]
  case signup body => exact answered (signup_refuses h body)
  case login email password => exact answered (login_refuses h email password)
  case refresh body => exact answered (refresh_refuses h body)
  case logout => exact silent logout_writes (logout_settled _ _ _)
  case updateMe => exact silent updateMe_writes (updateMe_settled _ _)
  case verifyEmail => exact silent verifyEmail_writes (verifyEmail_settled _)
  case forgotPassword => exact silent forgotPassword_writes (forgotPassword_settled _)
  case resetPassword => exact silent resetPassword_writes (resetPassword_settled _ _)
  case deleteSession => exact silent deleteSession_writes (deleteSession_settled _ _)

end Requests

section Deactivation

/-- No credentials make a principal of the user, and those that are read as an access token of
the user are refused. -/
def KeptOut (env : Env) (userId : Uuid) (db : Db) : Prop :=
  (∀ credentials now, ¬ ActsFor env db credentials now userId) ∧
    ∀ claims, claims.sub = userId → ∃ e, ((userPrincipal claims).atomically backend db).1 = .error e

theorem userPrincipal_refused (h : Inactive userId db) {claims : AccessToken}
    (names : claims.sub = userId) :
    ∃ e, ((userPrincipal claims).atomically backend db).1 = .error e := by
  cases hanswer : ((userPrincipal claims).atomically backend db).1 with
  | error e => exact ⟨e, rfl⟩
  | ok principal =>
      obtain ⟨user, hfind, active, -⟩ := userPrincipal_eq_ok.mp hanswer
      have hrow := List.find?_some hfind
      simp only [decide_eq_true_eq] at hrow
      exact absurd (hrow.1.trans names) (h.ne (List.mem_of_find?_eq_some hfind) active)

theorem keptOut_of_inactive (h : Inactive userId db) : KeptOut env userId db := by
  refine ⟨fun credentials now acts => ?_, fun claims names => userPrincipal_refused h names⟩
  obtain ⟨principal, hanswer, huser⟩ := acts
  cases credentials with
  | none => cases hanswer
  | some c =>
      cases stems_of_answer hanswer with
      | service => cases huser
      | apiKey => cases huser
      | user notService notKey decoded stored hid active =>
          exact h.ne stored active (Option.some.inj huser)

theorem patch_off (u : User) :
    u.patch { isActive := changed u.isActive false } = { u with isActive := false } := by
  cases hactive : u.isActive with
  | true => simp [User.patch, changed]
  | false => simp [User.patch, changed, hactive]

/-- The accounts after a member is deactivated. -/
def Db.without (db : Db) (user : User) : Db :=
  { db with
    users := db.users.update user.id (User.patch { isActive := changed user.isActive false }) }

theorem mem_without {user u : User} (huser : user ∈ db.users) :
    u ∈ (db.without user).users ↔
      ∃ r ∈ db.users, (if r.id = user.id then { r with isActive := false } else r) = u := by
  have hmem : u ∈ db.users.update user.id (User.patch { isActive := changed user.isActive false }) ↔
      ∃ r ∈ db.users, (if r.id = user.id then
        User.patch { isActive := changed user.isActive false } r else r) = u := Table.mem_update
  refine hmem.trans ?_
  refine exists_congr fun r => and_congr_right fun hr => ?_
  by_cases hid : r.id = user.id
  · rw [if_pos hid, if_pos hid, Table.eq_of_key hr huser hid, patch_off]
  · rw [if_neg hid, if_neg hid]

/-- What a deactivation that is let through does. -/
theorem deactivate_served {credentials : Option Credentials} {now : Timestamp}
    {principal : Principal}
    (admitted : ((require .orgAdmin env credentials now).atomically backend db).1 = .ok principal) :
    (deactivateUserEndpoint env credentials userId now).atomically backend db =
      if some userId = principal.userId then
        (.error (Exc.unprocessable "Owners cannot deactivate themselves."), db)
      else match member? principal.orgId userId db with
        | none => (.error (Exc.notFound "User"), db)
        | some user => (.ok (), db.without user) := by
  unfold deactivateUserEndpoint
  rw [Tx.Reads.atomically_bind (reads_require _ _ _ _) admitted]
  split
  · rfl
  · rw [Tx.atomically_query_bind]
    cases member? principal.orgId userId db with
    | none => rfl
    | some user => rfl

theorem deactivate_refused {credentials : Option Credentials} {now : Timestamp} {e : Exc}
    (refused : ((require .orgAdmin env credentials now).atomically backend db).1 = .error e) :
    (deactivateUserEndpoint env credentials userId now).atomically backend db = (.error e, db) :=
  Tx.Reads.atomically_bind_error (reads_require _ _ _ _) refused

/-- A deactivation that is answered with success has cleared the flag. -/
theorem inactive_of_deactivated {credentials : Option Credentials} {now : Timestamp}
    (hok : ((deactivateUserEndpoint env credentials userId now).atomically backend db).1 = .ok ()) :
    Inactive userId
      ((deactivateUserEndpoint env credentials userId now).atomically backend db).2 := by
  cases hrequire : ((require .orgAdmin env credentials now).atomically backend db).1 with
  | error e =>
      rw [deactivate_refused hrequire] at hok
      cases hok
  | ok principal =>
      rw [deactivate_served hrequire] at hok ⊢
      split at hok
      · cases hok
      · rename_i other
        rw [if_neg other]
        cases hmember : member? principal.orgId userId db with
        | none =>
            rw [hmember] at hok
            cases hok
        | some user =>
            have stored : user ∈ db.users := List.mem_of_find?_eq_some hmember
            have hrow := List.find?_some hmember
            simp only [decide_eq_true_eq] at hrow
            exact ⟨_, (mem_without stored).mpr ⟨user, stored, if_pos rfl⟩, hrow.1, rfl⟩

/-- After a user is deactivated, no run of authentication requests answers with an access token
of the user or issues the user a refresh token, and no credentials authenticate the user. -/
theorem deactivation_is_final (env : Env) (db : Db) (credentials : Option Credentials)
    (now : Timestamp) (userId : Uuid) (later : List AuthEvent)
    (deactivated :
      ((deactivateUserEndpoint env credentials userId now).atomically backend db).1 = .ok ()) :
    Along (authStep env)
        (fun db' => KeptOut env userId db' ∧ userTokens userId db' = userTokens userId
          ((deactivateUserEndpoint env credentials userId now).atomically backend db).2)
        ((deactivateUserEndpoint env credentials userId now).atomically backend db).2 later ∧
      Meets (authStep env)
        (fun db' a => ∀ tokens, (AuthEvent.serve env db' a).1 = .ok (some tokens) →
          tokens.accessToken.sub ≠ userId)
        ((deactivateUserEndpoint env credentials userId now).atomically backend db).2 later := by
  have off := inactive_of_deactivated deactivated
  generalize ((deactivateUserEndpoint env credentials userId now).atomically backend db).2 = start
    at off ⊢
  have run : Along (authStep env) (ShutOut userId (userTokens userId start)) start later :=
    along_of_step (fun _ a h => (shutOut_serve h a).2) ⟨off, rfl⟩
  refine ⟨run.mono fun db' h => ⟨keptOut_of_inactive h.1, h.2⟩, ?_⟩
  exact meets_of_along run fun db' a h => (shutOut_serve h a).1

end Deactivation

section Cove

def coveEnv : Env :=
  { plainEnv with
    decodeAccessToken := fun token _ =>
      if token = "ruth" then
        .ok { sub := 91, org := 90, role := .owner, scopes := [], iat := 0, exp := 1 }
      else .error (Exc.unauthenticated) }

/-- Ruth owns the fund. Mia works there and has a session. -/
def coveDb : Db where
  orgs := ⟨[{ id := 90, name := "Cove Fund", slug := "cove-fund" }], by decide⟩
  users := ⟨[
    { id := 91, orgId := 90, email := "ruth@cove.fund", passwordHash := none, fullName := "Ruth"
      role := .owner },
    { id := 92, orgId := 90, email := "mia@cove.fund", passwordHash := some "open sesame, cove"
      fullName := "Mia" }], by decide⟩
  refreshTokens := ⟨[
    { id := 93, userId := 92, tokenHash := "mia's", familyId := 94
      expiresAt := Timestamp.days 14 }], by decide⟩

/-- Ruth deactivates Mia, who presents her refresh token and then logs in. -/
theorem mia_stays_out :
    Along (authStep coveEnv)
        (fun db => KeptOut coveEnv 92 db ∧ userTokens 92 db = userTokens 92
          ((deactivateUserEndpoint coveEnv (some { token := "ruth" }) 92 0).atomically backend
            coveDb).2)
        ((deactivateUserEndpoint coveEnv (some { token := "ruth" }) 92 0).atomically
          backend coveDb).2
        [presentAt 1 "mia's" "another",
          (.login "mia@cove.fund" "open sesame, cove", drawsAt 2 "a third")] ∧
      Meets (authStep coveEnv)
        (fun db a => ∀ tokens, (AuthEvent.serve coveEnv db a).1 = .ok (some tokens) →
          tokens.accessToken.sub ≠ 92)
        ((deactivateUserEndpoint coveEnv (some { token := "ruth" }) 92 0).atomically
          backend coveDb).2
        [presentAt 1 "mia's" "another",
          (.login "mia@cove.fund" "open sesame, cove", drawsAt 2 "a third")] :=
  deactivation_is_final coveEnv coveDb _ 0 92 _ rfl

end Cove

end DolphinVC
