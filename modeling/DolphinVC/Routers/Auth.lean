import DolphinVC.Deps

/-!
# The authentication endpoints

Each endpoint runs its service on the request's session and commits. The session is
closed by `get_db` when the endpoint returns or raises, so what an endpoint did not
commit is gone. `AuthRequest.serve` puts them behind one entry point; its result
holds the token pair when the request issued one.
-/

namespace DolphinVC

open Transaction

def signupEndpoint (env : Env) (body : SignupRequest) (d : Draws) : Tx IssuedTokens := do
  let (user, tokens) ← signup env body d
  Tx.commit
  let user ← refreshRow fun db => db.users.find? user.id
  let _ ← refreshRow fun db => db.orgs.find? user.orgId
  return tokens

def loginEndpoint (env : Env) (email password : String) (d : Draws) : Tx IssuedTokens := do
  let (user, tokens) ← login env email password d
  let org? ← Tx.query fun db => db.orgs.find? user.orgId
  Tx.commit
  let _ ← refreshRow fun db => db.users.find? user.id
  match org? with
  | none => return tokens
  | some org => do
      let _ ← refreshRow fun db => db.orgs.find? org.id
      return tokens

structure RefreshRequest where
  refreshToken : Option String := none
  cookieToken : Option String := none
  csrfCookie : Option String := none
  csrfHeader : Option String := none

/-- `body.refresh_token or cookie_token`, an empty string counting as absent. -/
def RefreshRequest.raw (body : RefreshRequest) : Option String :=
  ((body.refreshToken.filter (· ≠ "")).or body.cookieToken).filter (· ≠ "")

def RefreshRequest.csrfOk (body : RefreshRequest) : Bool :=
  (body.csrfCookie.filter (· ≠ "")).isSome ∧ body.csrfCookie = body.csrfHeader

def refreshEndpoint (env : Env) (body : RefreshRequest) (d : Draws) : Tx IssuedTokens :=
  match body.raw with
  | none => throw (Exc.unauthenticated "TOKEN_REVOKED" "Refresh token is required.")
  | some raw =>
      if body.refreshToken.isNone ∧ ¬ body.csrfOk then
        throw (Exc.app { code := "FORBIDDEN", message := "CSRF token is missing or invalid."
                         statusCode := 403 })
      else do
        let (_, tokens) ← rotateRefreshToken env raw d
        Tx.commit
        return tokens

/-- The account behind a principal; service tokens and API keys have none. -/
def requireUser (principal : Principal) : Tx Uuid :=
  match principal.userId with
  | none => throw (Exc.unauthenticated)
  | some userId => return userId

theorem reads_requireUser (principal : Principal) : Tx.Reads (requireUser principal) := by
  unfold requireUser
  cases principal.userId with
  | none => exact Tx.Reads.throw _
  | some userId => exact Tx.Reads.pure _

def logoutEndpoint (env : Env) (credentials : Option Credentials) (refreshToken : Option String)
    (allDevices : Bool) (d : Draws) : Tx Unit := do
  let principal ← getCurrentPrincipal env credentials d.now
  let userId ← requireUser principal
  revokeRefresh env refreshToken userId allDevices d
  Tx.commit

structure MeUpdateRequest where
  fullName : Option String := none
  password : Option String := none
  currentPassword : Option String := none

/-- The bulk UPDATE is sent at once, the changes to the user row with the commit. -/
def updateMeEndpoint (env : Env) (credentials : Option Credentials) (body : MeUpdateRequest)
    (d : Draws) : Tx User := do
  let principal ← getCurrentPrincipal env credentials d.now
  let userId ← requireUser principal
  let user? ← Tx.query fun db => db.users.find? userId
  match user? with
  | none => throw (Exc.unauthenticated)
  | some user => do
      match body.password with
      | none => Tx.stage (.updateUser user.id { fullName := body.fullName })
      | some password =>
          if ¬ user.passwordHash.any
              fun h => env.verifyPassword h (body.currentPassword.getD "") then
            throw (Exc.unauthenticated "UNAUTHENTICATED" "Current password is incorrect.")
          else do
            validatePassword env password user.email
            revokeUserTokens user.id "password_changed" d
            Tx.stage (.updateUser user.id
              { fullName := body.fullName, passwordHash := some (env.hashPassword password) })
      Tx.commit
      refreshRow fun db => db.users.find? user.id

def verifyEmailEndpoint (env : Env) (token : String) (d : Draws) : Tx Unit := do
  let user ← consumeEmailToken env token "verify" d
  Tx.stage (.updateUser user.id { emailVerifiedAt := some d.now })
  Tx.commit

def forgotPasswordEndpoint (env : Env) (email : String) (d : Draws) : Tx Unit := do
  let user? ← Tx.query (accountByEmail env email)
  match user? with
  | none => return ()
  | some user => do
      let _ ← createEmailToken env user "reset" d
      Tx.commit

def resetPasswordEndpoint (env : Env) (token password : String) (d : Draws) : Tx Unit := do
  let user ← consumeEmailToken env token "reset" d
  validatePassword env password user.email
  revokeUserTokens user.id "password_reset" d
  Tx.stage (.updateUser user.id { passwordHash := some (env.hashPassword password) })
  Tx.commit

/-- The UPDATE selects the family's tokens of this user, revoked ones included. -/
def deleteSessionEndpoint (env : Env) (credentials : Option Credentials) (familyId : Uuid)
    (d : Draws) : Tx Unit := do
  let principal ← getCurrentPrincipal env credentials d.now
  let userId ← requireUser principal
  let ids ← Tx.query fun db =>
    (db.refreshTokens.rows.filter fun r => r.userId = userId ∧ r.familyId = familyId).map
      RefreshToken.id
  execute (.revokeRefreshTokens ids false d.now "session_revoked")
  Tx.commit

inductive AuthRequest where
  | signup (body : SignupRequest)
  | login (email password : String)
  | refresh (body : RefreshRequest)
  | logout (credentials : Option Credentials) (refreshToken : Option String) (allDevices : Bool)
  | updateMe (credentials : Option Credentials) (body : MeUpdateRequest)
  | verifyEmail (token : String)
  | forgotPassword (email : String)
  | resetPassword (token password : String)
  | deleteSession (credentials : Option Credentials) (familyId : Uuid)

def AuthRequest.serve (env : Env) (d : Draws) : AuthRequest → Tx (Option IssuedTokens)
  | .signup body => return some (← signupEndpoint env body d)
  | .login email password => return some (← loginEndpoint env email password d)
  | .refresh body => return some (← refreshEndpoint env body d)
  | .logout credentials refreshToken allDevices => do
      logoutEndpoint env credentials refreshToken allDevices d
      return none
  | .updateMe credentials body => do
      let _ ← updateMeEndpoint env credentials body d
      return none
  | .verifyEmail token => do
      verifyEmailEndpoint env token d
      return none
  | .forgotPassword email => do
      forgotPasswordEndpoint env email d
      return none
  | .resetPassword token password => do
      resetPasswordEndpoint env token password d
      return none
  | .deleteSession credentials familyId => do
      deleteSessionEndpoint env credentials familyId d
      return none

end DolphinVC
