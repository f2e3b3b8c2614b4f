import DolphinVC.Routers.Auth
import DolphinVC.Verification.IssuedTokens

/-!
# What the authentication endpoints write to `refresh_tokens`

A write set that an endpoint commits either issues no token and rotates none, or
opens a session by issuing the first token of the family drawn for the request, or
rotates: it revokes the row the request loaded for the presented token and issues
its child. The statements hold whatever the request reads, so they serve both
requests that run alone and requests that interleave.
-/

namespace DolphinVC

open Transaction

/-- The row whose revocation makes room for its child. -/
def Write.rotates : Write → Option RefreshToken
  | .revokeRefreshToken loaded _ reason => if reason = "rotated" then some loaded else none
  | _ => none

/-- The write neither issues nor rotates a token. -/
def Write.Settled (w : Write) : Prop := w.issues = [] ∧ w.rotates = none

def Opens (familyId : Uuid) (ws : List Write) : Prop :=
  (∃ row, ws.flatMap Write.issues = [row] ∧ row.familyId = familyId) ∧
    ws.filterMap Write.rotates = []

/-- The loaded row, live as loaded, makes room for a child of its family. -/
def RotatesRow (loaded : RefreshToken) (ws : List Write) : Prop :=
  ∃ at' child, ws = [.revokeRefreshToken loaded at' "rotated", .insertRefreshToken child] ∧
    loaded.revokedAt = none ∧ child.familyId = loaded.familyId ∧
    child.userId = loaded.userId ∧ child.revokedAt = none

def Rotates (env : Env) (raw : String) (ws : List Write) : Prop :=
  ∃ loaded, loaded.tokenHash = env.sha256 raw ∧ RotatesRow loaded ws

theorem issues_of_settled {ws : List Write} (h : ∀ w ∈ ws, w.Settled) :
    ws.flatMap Write.issues = [] :=
  List.flatMap_eq_nil_iff.mpr fun w hw => (h w hw).1

theorem rotates_of_settled {ws : List Write} (h : ∀ w ∈ ws, w.Settled) :
    ws.filterMap Write.rotates = [] :=
  List.filterMap_eq_nil_iff.mpr fun w hw => (h w hw).2

variable {env : Env} {d : Draws}

section Settled

theorem revokeUserTokens_settled (userId : Uuid) (reason : String) :
    Tx.Emits Write.Settled (revokeUserTokens userId reason d) :=
  Tx.Emits.bind (Tx.Emits.query _) fun _ => emits_execute ⟨rfl, rfl⟩

theorem consumeEmailToken_settled (raw purpose : String) :
    Tx.Emits Write.Settled (consumeEmailToken env raw purpose d) := by
  refine Tx.Emits.bind (Tx.Emits.query _) fun record? => ?_
  cases record? with
  | none => exact Tx.Emits.throw _
  | some record =>
      refine Tx.Emits.ite (fun _ => Tx.Emits.throw _) fun _ =>
        Tx.Emits.bind (Tx.Emits.query _) fun user? => ?_
      cases user? with
      | none => exact Tx.Emits.throw _
      | some user =>
          exact Tx.Emits.bind (Tx.Emits.stage ⟨rfl, rfl⟩) fun _ => Tx.Emits.pure _

theorem logout_settled (credentials : Option Credentials) (refreshToken : Option String)
    (allDevices : Bool) :
    Tx.Emits Write.Settled (logoutEndpoint env credentials refreshToken allDevices d) := by
  refine Tx.Emits.bind (reads_getCurrentPrincipal _ _ _).emits fun principal =>
    Tx.Emits.bind (reads_requireUser principal).emits fun userId =>
      Tx.Emits.bind ?_ fun _ => Tx.Emits.commit
  refine Tx.Emits.ite (fun _ => revokeUserTokens_settled _ _) fun _ => ?_
  cases refreshToken.filter (· ≠ "") with
  | none => exact Tx.Emits.pure _
  | some raw =>
      refine Tx.Emits.bind (Tx.Emits.query _) fun record? => ?_
      cases record? with
      | none => exact Tx.Emits.pure _
      | some record =>
          exact Tx.Emits.ite (fun _ => Tx.Emits.stage ⟨rfl, by simp [Write.rotates]⟩) fun _ =>
            Tx.Emits.pure _

theorem updateMe_settled (credentials : Option Credentials) (body : MeUpdateRequest) :
    Tx.Emits Write.Settled (updateMeEndpoint env credentials body d) := by
  refine Tx.Emits.bind (reads_getCurrentPrincipal _ _ _).emits fun principal =>
    Tx.Emits.bind (reads_requireUser principal).emits fun userId =>
      Tx.Emits.bind (Tx.Emits.query _) fun user? => ?_
  cases user? with
  | none => exact Tx.Emits.throw _
  | some user =>
      have tail : Tx.Emits Write.Settled (do
          Tx.commit
          refreshRow fun db => db.users.find? user.id) :=
        Tx.Emits.bind Tx.Emits.commit fun _ => (reads_refreshRow _).emits
      cases body.password with
      | none => exact Tx.Emits.bind (Tx.Emits.stage ⟨rfl, rfl⟩) fun _ => tail
      | some password =>
          refine Tx.Emits.ite (fun _ => Tx.Emits.bind (Tx.Emits.throw _) fun _ => tail) fun _ => ?_
          refine Tx.Emits.bind (reads_validatePassword _ _ _).emits fun _ =>
            Tx.Emits.bind (revokeUserTokens_settled _ _) fun _ =>
              Tx.Emits.bind (Tx.Emits.stage ⟨rfl, rfl⟩) fun _ => tail

theorem verifyEmail_settled (token : String) :
    Tx.Emits Write.Settled (verifyEmailEndpoint env token d) :=
  Tx.Emits.bind (consumeEmailToken_settled _ _) fun _ =>
    Tx.Emits.bind (Tx.Emits.stage ⟨rfl, rfl⟩) fun _ => Tx.Emits.commit

theorem forgotPassword_settled (email : String) :
    Tx.Emits Write.Settled (forgotPasswordEndpoint env email d) := by
  refine Tx.Emits.bind (Tx.Emits.query _) fun user? => ?_
  cases user? with
  | none => exact Tx.Emits.pure _
  | some user =>
      refine Tx.Emits.bind ?_ fun _ => Tx.Emits.commit
      exact Tx.Emits.bind (Tx.Emits.stage ⟨rfl, rfl⟩) fun _ =>
        Tx.Emits.bind Tx.Emits.flush fun _ => Tx.Emits.pure _

theorem resetPassword_settled (token password : String) :
    Tx.Emits Write.Settled (resetPasswordEndpoint env token password d) :=
  Tx.Emits.bind (consumeEmailToken_settled _ _) fun _ =>
    Tx.Emits.bind (reads_validatePassword _ _ _).emits fun _ =>
      Tx.Emits.bind (revokeUserTokens_settled _ _) fun _ =>
        Tx.Emits.bind (Tx.Emits.stage ⟨rfl, rfl⟩) fun _ => Tx.Emits.commit

theorem deleteSession_settled (credentials : Option Credentials) (familyId : Uuid) :
    Tx.Emits Write.Settled (deleteSessionEndpoint env credentials familyId d) :=
  Tx.Emits.bind (reads_getCurrentPrincipal _ _ _).emits fun principal =>
    Tx.Emits.bind (reads_requireUser principal).emits fun _ =>
      Tx.Emits.bind (Tx.Emits.query _) fun _ =>
        Tx.Emits.bind (emits_execute ⟨rfl, rfl⟩) fun _ => Tx.Emits.commit

end Settled

section Opens

theorem opens_append {ws : List Write} {user : User} (h : ∀ w ∈ ws, w.Settled) :
    Opens d.familyId (ws ++ [.insertRefreshToken (newRefreshToken env user d none none)]) := by
  refine ⟨⟨(newRefreshToken env user d none none).asIssued, ?_, rfl⟩, ?_⟩
  · rw [List.flatMap_append, issues_of_settled h, List.nil_append, List.flatMap_singleton,
      Write.issues]
  · rw [List.filterMap_append, rotates_of_settled h]
    rfl

/-- A session-opening service commits nothing itself and hands its caller the writes
that open the session. -/
def HandsOver (d : Draws) (p : Tx (User × IssuedTokens)) : Prop :=
  p.Commits (fun _ => False) (fun r j => j.committed = [] ∧
    ∀ a, r = .ok a → Opens d.familyId j.pending) {}

theorem login_handsOver (email password : String) : HandsOver d (login env email password d) := by
  refine Tx.commits_bind.mpr (Tx.commits_query.mpr ⟨fun db => ?_, fun e => ⟨rfl, by simp⟩⟩)
  dsimp only
  cases accountByEmail env email db with
  | none => exact ⟨rfl, by simp⟩
  | some user =>
      dsimp only
      split
      · exact ⟨rfl, by simp⟩
      · split
        · simp [Tx.commits_bind]
        · split
          · exact ⟨rfl, by simp⟩
          · refine Tx.commits_bind.mpr (Tx.commits_stage.mpr ?_)
            refine Tx.commits_bind.mpr (commits_issueTokens fun r => ?_)
            have settled : ∀ w ∈ [Write.updateUser user.id
                { failedLogins := changed user.failedLogins 0
                  lockedUntil := changed user.lockedUntil none
                  lastLoginAt := some d.now }], w.Settled := by
              simp [Write.Settled, Write.issues, Write.rotates]
            cases r with
            | error e => exact ⟨rfl, by simp⟩
            | ok tokens => exact ⟨rfl, fun _ _ => opens_append settled⟩

/-- The journal holds staged writes only, none of which touches a token. -/
def Preparing (j : Journal Write) : Prop := j.committed = [] ∧ ∀ w ∈ j.pending, w.Settled

theorem preparing_stage {j : Journal Write} {w : Write} (h : Preparing j) (hw : w.Settled) :
    Preparing (j.stage w) := by
  refine ⟨h.1, ?_⟩
  rw [Journal.pending_stage, List.forall_mem_append, List.forall_mem_singleton]
  exact ⟨h.2, hw⟩

theorem signupOrg_prepares (body : SignupRequest) (email : String) :
    Tx.Commits (fun _ => False) (fun _ j => Preparing j) (signupOrg env body email d) {} := by
  have start : Preparing {} := ⟨rfl, by simp⟩
  unfold signupOrg
  cases given body.inviteToken with
  | some token =>
      refine Tx.Reads.commits (Tx.Reads.bind (Tx.Reads.query _) fun invite? => ?_) fun _ => start
      cases invite? with
      | none => exact Tx.Reads.throw _
      | some invite =>
          refine Tx.Reads.ite (fun _ => Tx.Reads.throw _) fun _ =>
            Tx.Reads.bind (Tx.Reads.query _) fun org? => ?_
          cases org? with
          | none => exact Tx.Reads.throw _
          | some org => exact Tx.Reads.pure _
  | none =>
      refine Tx.commits_bind.mpr (Tx.commits_query.mpr ⟨fun db => ?_, fun _ => start⟩)
      have staged := preparing_stage (w := .insertOrg
        { id := d.orgId, name := body.orgName.getD (body.fullName ++ "'s fund")
          slug := freeSlug (fun s => db.orgs.rows.any fun o => o.slug = s)
            (slugify env (body.orgName.getD (body.fullName ++ "'s fund")))
            (db.orgs.rows.length + 1) 1
            (slugify env (body.orgName.getD (body.fullName ++ "'s fund"))) }) start ⟨rfl, rfl⟩
      refine Tx.commits_bind.mpr (Tx.commits_stage.mpr (Tx.commits_bind.mpr
        (Tx.commits_flush.mpr ⟨?_, fun _ => staged⟩)))
      exact staged

theorem signup_handsOver (body : SignupRequest) : HandsOver d (signup env body d) := by
  have failed (e : Exc) {j : Journal Write} (hj : j.committed = []) :
      j.committed = [] ∧ ∀ a : User × IssuedTokens, Except.error e = .ok a →
        Opens d.familyId j.pending := ⟨hj, by simp⟩
  refine Tx.commits_bind.mpr ((reads_validatePassword _ _ _).commits ?_)
  rintro (e | ⟨⟩)
  · exact failed e rfl
  refine Tx.commits_bind.mpr (Tx.commits_query.mpr ⟨fun db => ?_, fun e => failed e rfl⟩)
  dsimp only
  split
  · exact failed _ rfl
  refine Tx.commits_bind.mpr (Program.Commits.mono (signupOrg_prepares body _) ?_)
  rintro (e | ⟨orgId, role, invite⟩) j hj
  · exact failed e hj.1
  dsimp only
  refine Tx.commits_bind.mpr (Tx.commits_stage.mpr (Tx.commits_bind.mpr
    (Tx.commits_flush.mpr ⟨?_, fun e => failed e hj.1⟩)))
  refine Tx.commits_bind.mpr (Tx.commits_stage.mpr (Tx.commits_bind.mpr
    (commits_issueTokens fun r => ?_)))
  cases r with
  | error e => exact failed e hj.1
  | ok tokens =>
      refine ⟨hj.1, fun _ _ => opens_append ?_⟩
      refine (preparing_stage (preparing_stage hj ⟨rfl, rfl⟩) ?_).2
      cases invite with
      | none => exact ⟨rfl, rfl⟩
      | some invite => exact ⟨rfl, rfl⟩

/-- The write sets of the authentication endpoints. -/
def TokenWrites (env : Env) (ws : List Write) : Prop :=
  (∀ w ∈ ws, w.Settled) ∨ (∃ familyId, Opens familyId ws) ∨ ∃ raw, Rotates env raw ws

/-- What the journal looks like when an endpoint that opens a session is done. -/
def Opened (d : Draws) (j : Journal Write) : Prop :=
  j.committed = [] ∨ ∃ ws, j.committed = [ws] ∧ Opens d.familyId ws

theorem commit_opened {α : Type} {f : Unit → Tx α} {j : Journal Write} (hc : j.committed = [])
    (ho : Opens d.familyId j.pending) (hf : ∀ u, Tx.Reads (f u)) :
    Tx.Commits (fun j => TokenWrites env j.pending) (fun _ => Opened d) (Tx.commit >>= f) j := by
  refine Tx.commits_bind.mpr (Tx.commits_commit.mpr ⟨Or.inr (Or.inl ⟨_, ho⟩), ?_, fun _ => ?_⟩)
  · refine (hf ()).commits fun _ => Or.inr ⟨j.pending, ?_, ho⟩
    rw [Journal.committed_commit, hc, List.nil_append]
  · exact Or.inl hc

theorem signupEndpoint_opens (body : SignupRequest) :
    Tx.Commits (fun j => TokenWrites env j.pending) (fun _ => Opened d)
      (signupEndpoint env body d) {} := by
  refine Tx.commits_bind.mpr (Program.Commits.weaken (signup_handsOver body) (fun _ h => h.elim) ?_)
  rintro (e | ⟨user, tokens⟩) j ⟨hc, ho⟩
  · exact Or.inl hc
  · exact commit_opened hc (ho _ rfl) fun _ => Tx.Reads.bind (reads_refreshRow _) fun _ =>
      Tx.Reads.bind (reads_refreshRow _) fun _ => Tx.Reads.pure _

theorem loginEndpoint_opens (email password : String) :
    Tx.Commits (fun j => TokenWrites env j.pending) (fun _ => Opened d)
      (loginEndpoint env email password d) {} := by
  refine Tx.commits_bind.mpr (Program.Commits.weaken (login_handsOver email password)
    (fun _ h => h.elim) ?_)
  rintro (e | ⟨user, tokens⟩) j ⟨hc, ho⟩
  · exact Or.inl hc
  refine Tx.commits_bind.mpr (Tx.commits_query.mpr ⟨fun db => ?_, fun _ => Or.inl hc⟩)
  refine commit_opened hc (ho _ rfl) fun _ => Tx.Reads.bind (reads_refreshRow _) fun _ => ?_
  cases db.orgs.find? user.orgId with
  | none => exact Tx.Reads.pure _
  | some org => exact Tx.Reads.bind (reads_refreshRow _) fun _ => Tx.Reads.pure _

end Opens

section Rotates

/-- A refresh that answers with tokens has committed one rotation of what it presents. -/
def Rotated (env : Env) (raw : String) {α : Type} (r : Except Exc α) (j : Journal Write) : Prop :=
  ∀ a, r = .ok a → ∃ ws, j.committed = [ws] ∧ Rotates env raw ws

theorem detectReuse_commits (record : RefreshToken)
    {Q : Except Exc (User × IssuedTokens) → Journal Write → Prop}
    (hQ : ∀ e j, (∀ w ∈ j.committed.flatten, w.Settled) → Q (.error e) j) :
    Tx.Commits (fun j => TokenWrites env j.pending) Q (detectReuse record d) {} := by
  have none_yet {j : Journal Write} (h : j.committed = []) :
      ∀ w ∈ j.committed.flatten, w.Settled := by simp [h]
  refine Tx.commits_bind.mpr (Tx.commits_query.mpr
    ⟨fun db => ?_, fun e => hQ e _ (none_yet rfl)⟩)
  refine Tx.commits_bind.mpr (Tx.commits_bind.mpr (Tx.commits_stage.mpr
    (Tx.commits_flush.mpr ⟨?_, fun e => hQ e _ (none_yet rfl)⟩)))
  refine Tx.commits_bind.mpr (Tx.commits_stage.mpr (Tx.commits_bind.mpr
    (Tx.commits_commit.mpr ⟨Or.inl ?_, hQ _ _ ?_, fun e => hQ e _ (none_yet rfl)⟩)))
  · simp [Write.Settled, Write.issues, Write.rotates]
  · simp [Write.Settled, Write.issues, Write.rotates]

/-- A record is rotated by staged writes only; the commit that reuse detection makes is
followed by an exception. -/
theorem rotateRecord_commits (record : RefreshToken) :
    Tx.Commits (fun j => TokenWrites env j.pending)
      (fun r j => (∀ w ∈ j.committed.flatten, w.Settled) ∧
        ∀ a, r = .ok a → j.committed = [] ∧ RotatesRow record j.pending)
      (rotateRecord env record d) {} := by
  unfold rotateRecord
  split
  · exact detectReuse_commits record fun e j hj => ⟨hj, by simp⟩
  · rename_i hlive
    split
    · exact Tx.commits_bind.mpr (Tx.commits_stage.mpr (by simp))
    · refine Tx.commits_bind.mpr (Tx.commits_stage.mpr (Tx.commits_bind.mpr
        (Tx.commits_query.mpr ⟨fun db => ?_, fun e => by simp⟩)))
      dsimp only
      cases huser : db.users.find? record.userId with
      | none => simp
      | some user =>
          dsimp only
          split
          · simp
          · refine Tx.commits_bind.mpr (commits_issueTokens fun r => ?_)
            cases r with
            | error e => simp
            | ok tokens =>
                refine ⟨by simp, ?_⟩
                rintro _ -
                have huid : user.id = record.userId := Relational.Table.key_of_find? huser
                exact ⟨rfl, d.now, _, rfl, by simpa using hlive, rfl, huid, rfl⟩

theorem hash_of_tokenByHash {raw : String} {db : Db} {record : RefreshToken}
    (h : tokenByHash env raw db = some record) : record.tokenHash = env.sha256 raw := by
  simpa using List.find?_some h

theorem rotateRefreshToken_commits (raw : String) :
    Tx.Commits (fun j => TokenWrites env j.pending)
      (fun r j => ∀ a, r = .ok a → j.committed = [] ∧ Rotates env raw j.pending)
      (rotateRefreshToken env raw d) {} := by
  refine Tx.commits_bind.mpr (Tx.commits_query.mpr ⟨fun db => ?_, fun e => by simp⟩)
  dsimp only
  cases hrec : tokenByHash env raw db with
  | none => simp
  | some record =>
      refine Program.Commits.mono (rotateRecord_commits record) fun r j hj a ha => ?_
      exact ⟨(hj.2 a ha).1, record, hash_of_tokenByHash hrec, (hj.2 a ha).2⟩

theorem refreshEndpoint_commits (body : RefreshRequest) :
    Tx.Commits (fun j => TokenWrites env j.pending)
      (fun r j => ∀ raw, body.raw = some raw → Rotated env raw r j)
      (refreshEndpoint env body d) {} := by
  unfold refreshEndpoint
  cases hraw : body.raw with
  | none => simp
  | some raw =>
      dsimp only
      split
      · simp [Rotated]
      · refine Tx.commits_bind.mpr (Program.Commits.mono (rotateRefreshToken_commits raw) ?_)
        rintro (e | ⟨user, tokens⟩) j hj
        · simp [Rotated]
        · obtain ⟨hc, hrot⟩ := hj _ rfl
          refine Tx.commits_bind.mpr (Tx.commits_commit.mpr
            ⟨Or.inr (Or.inr ⟨raw, hrot⟩), ?_, fun e => by simp [Rotated]⟩)
          rintro _ h _ -
          obtain rfl := Option.some.inj h
          exact ⟨j.pending, by rw [Journal.committed_commit, hc, List.nil_append], hrot⟩

end Rotates

section Serve

/-- The refresh token a request presents. -/
def AuthRequest.presents : AuthRequest → Option String
  | .refresh body => body.raw
  | _ => none

theorem settled_tokenWrites {α : Type} {p : Tx α} (h : Tx.Emits Write.Settled p) :
    Tx.Commits (fun j => TokenWrites env j.pending) (fun _ _ => True) p {} :=
  Program.Commits.weaken (h.commits Journal.all_empty) (fun _ hj => Or.inl hj.2)
    fun _ _ _ => trivial

/-- Whatever an authentication request reads, it commits only token writes, and it
answers a presented token with new ones only after rotating it. -/
theorem serve_commits (r : AuthRequest) :
    Tx.Commits (fun j => TokenWrites env j.pending)
      (fun res j => ∀ raw, r.presents = some raw → Rotated env raw res j) (r.serve env d) {} := by
  have silent {α : Type} {p : Tx α} {f : α → Tx (Option IssuedTokens)} {r : AuthRequest}
      (hr : r.presents = none)
      (hp : Tx.Commits (fun j => TokenWrites env j.pending) (fun _ _ => True) p {})
      (hf : ∀ a, Tx.Reads (f a)) :
      Tx.Commits (fun j => TokenWrites env j.pending)
        (fun res j => ∀ raw, r.presents = some raw → Rotated env raw res j) (p >>= f) {} := by
    refine Tx.commits_bind.mpr (Program.Commits.mono hp ?_)
    rintro (e | a) j -
    · simp [hr]
    · exact (hf a).commits fun _ => by simp [hr]
  have pure_reads {α : Type} {x : α → Option IssuedTokens} (a : α) :
      Tx.Reads (pure (x a) : Tx (Option IssuedTokens)) := Tx.Reads.pure _
  cases r with
  | signup body =>
      exact silent rfl (Program.Commits.mono (signupEndpoint_opens body) fun _ _ _ => trivial)
        pure_reads
  | login email password =>
      exact silent rfl (Program.Commits.mono (loginEndpoint_opens email password)
        fun _ _ _ => trivial) pure_reads
  | refresh body =>
      refine Tx.commits_bind.mpr (Program.Commits.mono (refreshEndpoint_commits body) ?_)
      rintro (e | tokens) j hj raw hraw
      · simp [Rotated]
      · rintro _ -
        exact hj raw hraw _ rfl
  | logout credentials refreshToken allDevices =>
      exact silent rfl (settled_tokenWrites (logout_settled _ _ _)) pure_reads
  | updateMe credentials body =>
      exact silent rfl (settled_tokenWrites (updateMe_settled _ _)) pure_reads
  | verifyEmail token => exact silent rfl (settled_tokenWrites (verifyEmail_settled _)) pure_reads
  | forgotPassword email =>
      exact silent rfl (settled_tokenWrites (forgotPassword_settled _)) pure_reads
  | resetPassword token password =>
      exact silent rfl (settled_tokenWrites (resetPassword_settled _ _)) pure_reads
  | deleteSession credentials familyId =>
      exact silent rfl (settled_tokenWrites (deleteSession_settled _ _)) pure_reads

end Serve

section Writes

open Tx

/-- The write switches no account on or off. -/
def Write.keepsActive : Write → Bool
  | .updateUser _ set => set.isActive.isNone
  | _ => true

/-- The write records that somebody decided about an opportunity. -/
def Write.recordsDecision : Write → Bool
  | .insertAuditLog row => row.action = "opportunity.decide"
  | _ => false

/-- The tables of the accounts, and none that a deal is made of; who is active stays so. -/
def Write.OfAuth (w : Write) : Prop :=
  ((w.target matches .users | .refreshTokens | .audit | .other) && w.keepsActive &&
    !w.recordsDecision) = true

theorem Write.OfAuth.target_ne {w : Write} (h : w.OfAuth) :
    w.target ≠ .opportunities ∧ w.target ≠ .applications ∧ w.target ≠ .jobs ∧
      w.target ≠ .signals := by
  unfold Write.OfAuth at h
  rw [Bool.and_eq_true, Bool.and_eq_true] at h
  replace h := h.1.1
  cases ht : w.target with
  | users | refreshTokens | audit | other => decide
  | opportunities | applications | jobs | signals | claims | memos | scores => simp [ht] at h

/-- The writes of the accounts, one by one; only a fund that is founded gets a thesis with them. -/
def Write.ofAccounts : Write → Bool
  | .insertOrg _ | .insertUser _ | .insertRefreshToken _ | .revokeRefreshToken _ _ _
  | .revokeRefreshTokens _ _ _ _ | .insertEmailToken _ | .useEmailToken _ _
  | .acceptOrgInvite _ _ => true
  | .updateUser _ set => set.isActive.isNone
  | .insertAuditLog row => !decide (row.action = "opportunity.decide")
  | _ => false

def Write.OfAccounts (w : Write) : Prop := w.ofAccounts = true

theorem Write.OfAccounts.ofAuth {w : Write} (h : w.OfAccounts) : w.OfAuth := by
  cases w with
  | updateUser id set =>
      have hset : set.isActive.isNone = true := h
      simp [Write.OfAuth, Write.target, Write.recordsDecision, Write.keepsActive, hset]
  | insertAuditLog row =>
      have hrow : (!decide (row.action = "opportunity.decide")) = true := h
      simp [Write.OfAuth, Write.target, Write.keepsActive, Write.recordsDecision, hrow]
  | _ => first | rfl | cases h

theorem issueTokens_writes {user : User} {familyId parentId : Option Uuid} :
    Emits Write.OfAccounts (issueTokens env user d familyId parentId) :=
  Emits.bind (Emits.stage (by rfl)) fun _ => Emits.bind Emits.flush fun _ => Emits.pure _

theorem signup_writes {body : SignupRequest} : Emits Write.OfAuth (signupEndpoint env body d) := by
  have org {email : String} : Emits Write.OfAuth (signupOrg env body email d) := by
    unfold signupOrg
    cases given body.inviteToken with
    | none =>
        exact Emits.bind (Emits.query _) fun _ => Emits.bind (Emits.stage (by rfl)) fun _ =>
          Emits.bind Emits.flush fun _ => Emits.pure _
    | some token =>
        refine Emits.bind (Emits.query _) fun invite? => ?_
        cases invite? with
        | none => exact Emits.throw _
        | some invite =>
            refine Emits.ite (fun _ => Emits.throw _) fun _ =>
              Emits.bind (Emits.query _) fun org? => ?_
            cases org? with
            | none => exact Emits.throw _
            | some org => exact Emits.pure _
  have opens : Emits Write.OfAuth (signup env body d) := by
    refine Emits.bind (reads_validatePassword _ _ _).emits fun _ =>
      Emits.bind (Emits.query _) fun _ => Emits.ite (fun _ => Emits.throw _) fun _ =>
        Emits.bind org ?_
    rintro ⟨orgId, role, invite⟩
    refine Emits.bind (Emits.stage (by rfl)) fun _ => Emits.bind Emits.flush fun _ =>
      Emits.bind (Emits.stage ?_) fun _ => Emits.bind
        (issueTokens_writes.weaken fun _ hw => hw.ofAuth) fun _ => Emits.pure _
    cases invite with
    | none => rfl
    | some invite => rfl
  refine Emits.bind opens fun _ => Emits.bind Emits.commit fun _ => ?_
  exact Emits.bind (reads_refreshRow _).emits fun _ =>
    Emits.bind (reads_refreshRow _).emits fun _ => Emits.pure _

theorem login_writes {email password : String} :
    Emits Write.OfAccounts (loginEndpoint env email password d) := by
  have opens : Emits Write.OfAccounts (login env email password d) := by
    refine Emits.bind (Emits.query _) fun user? => ?_
    cases user? with
    | none => exact Emits.throw _
    | some user =>
        refine Emits.ite (fun _ => Emits.throw _) fun _ => Emits.ite (fun _ => ?_) fun _ =>
          Emits.ite (fun _ => Emits.throw _) fun _ => ?_
        · exact Emits.bind (Emits.stage (by rfl)) fun _ => Emits.bind Emits.flush fun _ =>
            Emits.throw _
        · exact Emits.bind (Emits.stage (by rfl)) fun _ => Emits.bind issueTokens_writes fun _ =>
            Emits.pure _
  refine Emits.bind opens fun _ => Emits.bind (Emits.query _) fun org? =>
    Emits.bind Emits.commit fun _ => Emits.bind (reads_refreshRow _).emits fun _ => ?_
  cases org? with
  | none => exact Emits.pure _
  | some org => exact Emits.bind (reads_refreshRow _).emits fun _ => Emits.pure _

theorem execute_writes {ids : List Uuid} {live : Bool} {at' : Timestamp} {reason : String} :
    Emits Write.OfAccounts (execute (.revokeRefreshTokens ids live at' reason)) :=
  emits_execute (by rfl)

theorem refresh_writes {body : RefreshRequest} :
    Emits Write.OfAccounts (refreshEndpoint env body d) := by
  unfold refreshEndpoint
  cases body.raw with
  | none => exact Emits.throw _
  | some raw =>
      refine Emits.ite (fun _ => Emits.throw _) fun _ => Emits.bind ?_ fun _ =>
        Emits.bind Emits.commit fun _ => Emits.pure _
      refine Emits.bind (Emits.query _) fun record? => ?_
      cases record? with
      | none => exact Emits.throw _
      | some record =>
          refine Emits.ite (fun _ => ?reuse) fun _ => Emits.ite (fun _ => ?expired) fun _ => ?rotate
          case reuse =>
            exact Emits.bind (Emits.query _) fun _ => Emits.bind execute_writes fun _ =>
              Emits.bind (Emits.stage (by rfl)) fun _ => Emits.bind Emits.commit fun _ =>
                Emits.throw _
          case expired => exact Emits.bind (Emits.stage (by rfl)) fun _ => Emits.throw _
          case rotate =>
            refine Emits.bind (Emits.stage (by rfl)) fun _ =>
              Emits.bind (Emits.query _) fun user? => ?_
            cases user? with
            | none => exact Emits.throw _
            | some user =>
                exact Emits.ite (fun _ => Emits.throw _) fun _ =>
                  Emits.bind issueTokens_writes fun _ => Emits.pure _

theorem revokeUserTokens_writes {userId : Uuid} {reason : String} :
    Emits Write.OfAccounts (revokeUserTokens userId reason d) :=
  Emits.bind (Emits.query _) fun _ => execute_writes

theorem consumeEmailToken_writes {raw purpose : String} :
    Emits Write.OfAccounts (consumeEmailToken env raw purpose d) := by
  refine Emits.bind (Emits.query _) fun record? => ?_
  cases record? with
  | none => exact Emits.throw _
  | some record =>
      refine Emits.ite (fun _ => Emits.throw _) fun _ => Emits.bind (Emits.query _) fun user? => ?_
      cases user? with
      | none => exact Emits.throw _
      | some user => exact Emits.bind (Emits.stage (by rfl)) fun _ => Emits.pure _

theorem logout_writes {credentials : Option Credentials} {refreshToken : Option String}
    {allDevices : Bool} :
    Emits Write.OfAccounts (logoutEndpoint env credentials refreshToken allDevices d) := by
  refine Emits.bind (reads_getCurrentPrincipal _ _ _).emits fun principal =>
    Emits.bind (reads_requireUser principal).emits fun userId => Emits.bind ?_ fun _ => Emits.commit
  refine Emits.ite (fun _ => revokeUserTokens_writes) fun _ => ?_
  cases refreshToken.filter (· ≠ "") with
  | none => exact Emits.pure _
  | some raw =>
      refine Emits.bind (Emits.query _) fun record? => ?_
      cases record? with
      | none => exact Emits.pure _
      | some record => exact Emits.ite (fun _ => Emits.stage (by rfl)) fun _ => Emits.pure _

theorem updateMe_writes {credentials : Option Credentials} {body : MeUpdateRequest} :
    Emits Write.OfAccounts (updateMeEndpoint env credentials body d) := by
  refine Emits.bind (reads_getCurrentPrincipal _ _ _).emits fun principal =>
    Emits.bind (reads_requireUser principal).emits fun userId =>
      Emits.bind (Emits.query _) fun user? => ?_
  cases user? with
  | none => exact Emits.throw _
  | some user =>
      have tail : Emits Write.OfAccounts (do
          Tx.commit
          refreshRow fun db => db.users.find? user.id : DolphinVC.Tx User) :=
        Emits.bind Emits.commit fun _ => (reads_refreshRow _).emits
      cases body.password with
      | none => exact Emits.bind (Emits.stage (by rfl)) fun _ => tail
      | some password =>
          exact Emits.ite (fun _ => Emits.bind (Emits.throw _) fun _ => tail) fun _ =>
            Emits.bind (reads_validatePassword _ _ _).emits fun _ =>
              Emits.bind revokeUserTokens_writes fun _ =>
                Emits.bind (Emits.stage (by rfl)) fun _ => tail

theorem verifyEmail_writes {token : String} :
    Emits Write.OfAccounts (verifyEmailEndpoint env token d) :=
  Emits.bind consumeEmailToken_writes fun _ => Emits.bind (Emits.stage (by rfl)) fun _ =>
    Emits.commit

theorem forgotPassword_writes {email : String} :
    Emits Write.OfAccounts (forgotPasswordEndpoint env email d) := by
  refine Emits.bind (Emits.query _) fun user? => ?_
  cases user? with
  | none => exact Emits.pure _
  | some user =>
      refine Emits.bind (Emits.bind (Emits.stage (by rfl)) fun _ => ?_) fun _ => Emits.commit
      exact Emits.bind Emits.flush fun _ => Emits.pure _

theorem resetPassword_writes {token password : String} :
    Emits Write.OfAccounts (resetPasswordEndpoint env token password d) :=
  Emits.bind consumeEmailToken_writes fun _ => Emits.bind (reads_validatePassword _ _ _).emits
    fun _ => Emits.bind revokeUserTokens_writes fun _ =>
      Emits.bind (Emits.stage (by rfl)) fun _ => Emits.commit

theorem deleteSession_writes {credentials : Option Credentials} {familyId : Uuid} :
    Emits Write.OfAccounts (deleteSessionEndpoint env credentials familyId d) :=
  Emits.bind (reads_getCurrentPrincipal _ _ _).emits fun principal =>
    Emits.bind (reads_requireUser principal).emits fun _ => Emits.bind (Emits.query _) fun _ =>
      Emits.bind execute_writes fun _ => Emits.commit

theorem auth_accounts (r : AuthRequest) (known : ∀ body, r ≠ .signup body) :
    Emits Write.OfAccounts (r.serve env d) := by
  cases r with
  | signup body => exact absurd rfl (known body)
  | login email password => exact Emits.bind login_writes fun _ => Emits.pure _
  | refresh body => exact Emits.bind refresh_writes fun _ => Emits.pure _
  | logout credentials refreshToken allDevices =>
      exact Emits.bind logout_writes fun _ => Emits.pure _
  | updateMe credentials body => exact Emits.bind updateMe_writes fun _ => Emits.pure _
  | verifyEmail token => exact Emits.bind verifyEmail_writes fun _ => Emits.pure _
  | forgotPassword email => exact Emits.bind forgotPassword_writes fun _ => Emits.pure _
  | resetPassword token password => exact Emits.bind resetPassword_writes fun _ => Emits.pure _
  | deleteSession credentials familyId =>
      exact Emits.bind deleteSession_writes fun _ => Emits.pure _

theorem auth_writes (r : AuthRequest) : Emits Write.OfAuth (r.serve env d) := by
  by_cases founds : ∃ body, r = .signup body
  · obtain ⟨body, rfl⟩ := founds
    exact Emits.bind signup_writes fun _ => Emits.pure _
  · exact (auth_accounts r fun body heq => founds ⟨body, heq⟩).weaken fun _ hw => hw.ofAuth

end Writes

end DolphinVC
