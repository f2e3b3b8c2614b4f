import DolphinVC.Config
import Mathlib.Data.List.Infix

/-!
# Accounts and sessions

Principals, password rules, login, refresh-token rotation and the single-use email
tokens. Each function is the program its source function runs on the caller's
session; committing is left to the endpoints, except that reuse detection commits
before it raises.

`Draws` collects what a request takes from the clock, from `uuid4` and from
`secrets`.
-/

namespace DolphinVC

open Transaction

structure Principal where
  orgId : Uuid
  userId : Option Uuid
  role : UserRole
  scopes : List String
  kind : String := "user"

def Principal.has (p : Principal) (permission : Permission) : Bool :=
  permission ∈ rolePermissions p.role ∨ permission.value ∈ p.scopes

structure IssuedTokens where
  accessToken : AccessToken
  refreshToken : String
  expiresIn : Nat

structure Draws where
  now : Timestamp
  id : Uuid
  familyId : Uuid
  rawRefresh : String
  orgId : Uuid := 0
  userId : Uuid := 0
  thesisId : Uuid := 0
  userAgent : Option String := none
  ip : Option String := none

def commonPasswords : List String :=
  ["password1234", "123456789012", "qwertyuiop12", "letmeinplease"]

def validatePassword (env : Env) (password email : String) : Tx Unit :=
  let localPart := (env.casefold (String.ofList (email.toList.takeWhile (· ≠ '@')))).toList
  if password.length < 12 then
    throw (Exc.validation "Password must contain at least 12 characters.")
  else if 4 ≤ localPart.length ∧ localPart <:+: (env.casefold password).toList then
    throw (Exc.validation "Password must not contain the email local-part.")
  else if env.casefold password ∈ commonPasswords then
    throw (Exc.validation "Choose a less common password.")
  else pure ()

theorem reads_validatePassword (env : Env) (password email : String) :
    Tx.Reads (validatePassword env password email) := by
  unfold validatePassword
  exact Tx.Reads.ite (fun _ => Tx.Reads.throw _) fun _ =>
    Tx.Reads.ite (fun _ => Tx.Reads.throw _) fun _ =>
      Tx.Reads.ite (fun _ => Tx.Reads.throw _) fun _ => Tx.Reads.pure _

def buildAccessToken (env : Env) (user : User) (now : Timestamp) : AccessToken where
  sub := user.id
  org := user.orgId
  role := user.role
  scopes := (rolePermissions user.role).map Permission.value
  iat := now
  exp := now + Timestamp.minutes env.settings.jwtAccessTtlMin

/-- The row that `issue_tokens` adds. -/
def newRefreshToken (env : Env) (user : User) (d : Draws) (familyId parentId : Option Uuid) :
    RefreshToken where
  id := d.id
  userId := user.id
  tokenHash := env.sha256 d.rawRefresh
  familyId := familyId.getD d.familyId
  parentId
  userAgent := d.userAgent
  ip := d.ip
  expiresAt := d.now + Timestamp.days env.settings.jwtRefreshTtlDays

def issueTokens (env : Env) (user : User) (d : Draws) (familyId parentId : Option Uuid) :
    Tx IssuedTokens := do
  Tx.stage (.insertRefreshToken (newRefreshToken env user d familyId parentId))
  Tx.flush
  return {
    accessToken := buildAccessToken env user d.now
    refreshToken := d.rawRefresh
    expiresIn := env.settings.jwtAccessTtlMin * 60 }

theorem commits_issueTokens {env : Env} {user : User} {d : Draws} {familyId parentId : Option Uuid}
    {R : Journal Write → Prop} {Q : Except Exc IssuedTokens → Journal Write → Prop}
    {j : Journal Write}
    (h : ∀ r, Q r (j.stage (.insertRefreshToken (newRefreshToken env user d familyId parentId)))) :
    Tx.Commits R Q (issueTokens env user d familyId parentId) j := by
  refine Tx.commits_bind.mpr (Tx.commits_stage.mpr (Tx.commits_bind.mpr (Tx.commits_flush.mpr ?_)))
  exact ⟨h _, fun _ => h _⟩

/-- The slug loop of `signup`: append a growing suffix while the slug is taken. -/
def freeSlug (taken : String → Bool) (base : String) : Nat → Nat → String → String
  | 0, _, slug => slug
  | fuel + 1, suffix, slug =>
      if taken slug then
        freeSlug taken base fuel (suffix + 1)
          (String.ofList (base.toList.take 70) ++ "-" ++ toString (suffix + 1))
      else slug

structure SignupRequest where
  email : String
  password : String
  fullName : String
  orgName : Option String
  inviteToken : Option String

/-- The organization and role an account is created with. An empty token is no invitation. -/
def signupOrg (env : Env) (body : SignupRequest) (email : String) (d : Draws) :
    Tx (Uuid × UserRole × Option OrgInvite) :=
  match given body.inviteToken with
  | some token => do
      let invite? ← Tx.query fun db => db.orgInvites.rows.find? fun i =>
        i.tokenHash = env.sha256 token ∧ i.acceptedAt = none
      match invite? with
      | none => throw (Exc.app { code := "TOKEN_EXPIRED", statusCode := 401
                                 message := "Invitation is invalid or expired." })
      | some invite =>
          if invite.expiresAt ≤ d.now ∨ env.casefold invite.email ≠ email then
            throw (Exc.app { code := "TOKEN_EXPIRED", statusCode := 401
                             message := "Invitation is invalid or expired." })
          else do
            let org? ← Tx.query fun db => db.orgs.find? invite.orgId
            match org? with
            | none => throw (Exc.app { code := "TOKEN_REVOKED", statusCode := 401
                                       message := "Invitation organization is unavailable." })
            | some org => return (org.id, invite.role, some invite)
  | none => do
      let name := body.orgName.getD (body.fullName ++ "'s fund")
      let slug ← Tx.query fun db =>
        freeSlug (fun s => db.orgs.rows.any fun o => o.slug = s) (slugify env name)
          (db.orgs.rows.length + 1) 1 (slugify env name)
      Tx.stage (.insertOrg { id := d.orgId, name, slug })
      Tx.flush
      return (d.orgId, .owner, none)

def signup (env : Env) (body : SignupRequest) (d : Draws) : Tx (User × IssuedTokens) := do
  let email := env.casefold body.email
  validatePassword env body.password email
  let taken ← Tx.query fun db => db.users.rows.any fun u => u.email = email
  if taken then
    throw (Exc.conflict "An account with this email already exists.")
  else
    let (orgId, role, invite) ← signupOrg env body email d
    let user : User :=
      { id := d.userId, orgId, email, role
        passwordHash := some (env.hashPassword body.password)
        fullName := body.fullName }
    Tx.stage (.insertUser user)
    Tx.flush
    Tx.stage (match invite with
      | none => .insertThesis
          { id := d.thesisId, orgId, name := "Default early-stage thesis", isDefault := true
            stages := some ["pre_seed", "seed"], geos := some ["remote"] }
      | some invite => .acceptOrgInvite invite.id d.now)
    let tokens ← issueTokens env user d none none
    return (user, tokens)

def accountByEmail (env : Env) (email : String) (db : Db) : Option User :=
  db.users.rows.find? fun u => u.email = env.casefold email

def rateLimited : Exc :=
  .app
    { code := "RATE_LIMITED"
      message := "Account is temporarily locked."
      statusCode := 429
      retryAfterS := some 300 }

def login (env : Env) (email password : String) (d : Draws) : Tx (User × IssuedTokens) := do
  let user? ← Tx.query (accountByEmail env email)
  match user? with
  | none => throw (Exc.unauthenticated "UNAUTHENTICATED" "Invalid email or password.")
  | some user =>
      if user.lockedUntil.any fun t => d.now < t then
        throw rateLimited
      else if ¬ user.passwordHash.any fun h => env.verifyPassword h password then do
        Tx.stage (.updateUser user.id
          { failedLogins := some (user.failedLogins + 1)
            lockedUntil :=
              if 5 ≤ user.failedLogins + 1 then some (some (d.now + Timestamp.minutes 15))
              else none })
        Tx.flush
        throw (Exc.unauthenticated "UNAUTHENTICATED" "Invalid email or password.")
      else if ¬ user.isActive then
        throw (Exc.unauthenticated "TOKEN_REVOKED" "This account is disabled.")
      else do
        Tx.stage (.updateUser user.id
          { failedLogins := changed user.failedLogins 0
            lockedUntil := changed user.lockedUntil none
            lastLoginAt := some d.now })
        let tokens ← issueTokens env user d none none
        return (user, tokens)

def tokenByHash (env : Env) (raw : String) (db : Db) : Option RefreshToken :=
  db.refreshTokens.rows.find? fun r => r.tokenHash = env.sha256 raw

/-- The branch taken for a token that was already revoked: revoke what is live in
its family, record the reuse, commit, and raise. -/
def detectReuse (record : RefreshToken) (d : Draws) : Tx (User × IssuedTokens) := do
  let live ← Tx.query fun db =>
    (db.refreshTokens.rows.filter fun r => r.familyId = record.familyId ∧ r.revokedAt = none).map
      RefreshToken.id
  execute (.revokeRefreshTokens live true d.now "reuse_detected")
  Tx.stage (.insertAuditLog
    { orgId := none
      actorUserId := some record.userId
      actorKind := "token"
      action := "auth.refresh_reuse"
      targetType := some "refresh_family"
      targetId := some record.familyId })
  Tx.commit
  throw (Exc.unauthenticated "TOKEN_REVOKED" "Refresh token reuse was detected.")

/-- What `rotate_refresh_token` does with the record it found. -/
def rotateRecord (env : Env) (record : RefreshToken) (d : Draws) : Tx (User × IssuedTokens) :=
  if record.revokedAt.isSome then
    detectReuse record d
  else if record.expiresAt ≤ d.now then do
    Tx.stage (.revokeRefreshToken record d.now "expired")
    throw (Exc.unauthenticated "TOKEN_EXPIRED" "Refresh token has expired.")
  else do
    Tx.stage (.revokeRefreshToken record d.now "rotated")
    let user? ← Tx.query fun db => db.users.find? record.userId
    match user? with
    | none => throw (Exc.unauthenticated "TOKEN_REVOKED" "Account is unavailable.")
    | some user =>
        if ¬ user.isActive then
          throw (Exc.unauthenticated "TOKEN_REVOKED" "Account is unavailable.")
        else do
          let tokens ← issueTokens env user d (some record.familyId) (some record.id)
          return (user, tokens)

def rotateRefreshToken (env : Env) (raw : String) (d : Draws) : Tx (User × IssuedTokens) := do
  let record? ← Tx.query (tokenByHash env raw)
  match record? with
  | none => throw (Exc.unauthenticated "TOKEN_REVOKED" "Refresh token is invalid.")
  | some record => rotateRecord env record d

/-- Revoke every live token of a user with one UPDATE. -/
def revokeUserTokens (userId : Uuid) (reason : String) (d : Draws) : Tx Unit := do
  let live ← Tx.query fun db =>
    (db.refreshTokens.rows.filter fun r => r.userId = userId ∧ r.revokedAt = none).map
      RefreshToken.id
  execute (.revokeRefreshTokens live true d.now reason)

def revokeRefresh (env : Env) (raw : Option String) (userId : Uuid) (allDevices : Bool)
    (d : Draws) : Tx Unit :=
  if allDevices then
    revokeUserTokens userId "logout_all" d
  else match raw.filter (· ≠ "") with
    | none => pure ()
    | some raw => do
        let record? ← Tx.query (tokenByHash env raw)
        match record? with
        | none => pure ()
        | some record =>
            if record.userId = userId then
              Tx.stage (.revokeRefreshToken record d.now "logout")
            else pure ()

def createEmailToken (env : Env) (user : User) (purpose : String) (d : Draws) : Tx String := do
  Tx.stage (.insertEmailToken
    { id := d.id
      userId := user.id
      purpose
      tokenHash := env.sha256 d.rawRefresh
      expiresAt := d.now + Timestamp.hours (if purpose = "reset" then 1 else 24) })
  Tx.flush
  return d.rawRefresh

def consumeEmailToken (env : Env) (raw purpose : String) (d : Draws) : Tx User := do
  let record? ← Tx.query fun db => db.emailTokens.rows.find? fun t =>
    t.tokenHash = env.sha256 raw ∧ t.purpose = purpose ∧ t.usedAt = none
  match record? with
  | none => throw (Exc.app { code := "TOKEN_EXPIRED", statusCode := 401
                             message := "The token is invalid or expired." })
  | some record =>
      if record.expiresAt ≤ d.now then
        throw (Exc.app { code := "TOKEN_EXPIRED", statusCode := 401
                         message := "The token is invalid or expired." })
      else do
        let user? ← Tx.query fun db => db.users.find? record.userId
        match user? with
        | none => throw (Exc.unauthenticated)
        | some user =>
            Tx.stage (.useEmailToken record.id d.now)
            return user

end DolphinVC
