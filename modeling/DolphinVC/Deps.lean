import DolphinVC.Services.Auth

/-!
# Request dependencies

The principal behind a request comes from one of three kinds of credentials: the
service token with an organization header, an API key, or an access token. `require`
lets it through when its role or its scopes grant the permission.
-/

namespace DolphinVC

open Transaction

/-- A bearer token and the `X-Org-Id` header, when that is a UUID. -/
structure Credentials where
  token : String
  orgHeader : Option Uuid := none

def servicePrincipal (orgHeader : Option Uuid) : Tx Principal :=
  match orgHeader with
  | none => throw (Exc.unauthenticated "UNAUTHENTICATED"
      "Service token requests require a valid X-Org-Id header.")
  | some orgId => do
      let org? ← Tx.query fun db => db.orgs.find? orgId
      if org?.isNone then throw (Exc.unauthenticated)
      else return {
        orgId, userId := none, role := .service, kind := "service"
        scopes := [Permission.value .read, Permission.value .screen, Permission.value .admin] }

/-- The lookup tests `revoked_at` but not `expires_at`. -/
def apiKeyPrincipal (env : Env) (token : String) : Tx Principal := do
  let key? ← Tx.query fun db => db.apiKeys.rows.find? fun k =>
    k.keyHash = env.sha256 token ∧ k.revokedAt = none
  match key? with
  | none => throw (Exc.unauthenticated)
  | some key => return {
      orgId := key.orgId, userId := none, role := .service, scopes := key.scopes
      kind := "api_key" }

def userPrincipal (claims : AccessToken) : Tx Principal := do
  let user? ← Tx.query fun db => db.users.rows.find? fun u =>
    u.id = claims.sub ∧ u.orgId = claims.org
  match user? with
  | none => throw (Exc.unauthenticated "TOKEN_REVOKED" "Account is unavailable.")
  | some user =>
      if ¬ user.isActive then
        throw (Exc.unauthenticated "TOKEN_REVOKED" "Account is unavailable.")
      else return {
        orgId := user.orgId, userId := some user.id, role := user.role
        scopes := claims.scopes }

def getCurrentPrincipal (env : Env) (credentials : Option Credentials) (now : Timestamp) :
    Tx Principal :=
  match credentials with
  | none => throw (Exc.unauthenticated)
  | some c =>
      if env.settings.serviceToken ≠ "" ∧ c.token = env.settings.serviceToken then
        servicePrincipal c.orgHeader
      else if "vcb_live_".toList <+: c.token.toList then apiKeyPrincipal env c.token
      else match env.decodeAccessToken c.token now with
        | .error e => throw e
        | .ok claims => userPrincipal claims

theorem reads_getCurrentPrincipal (env : Env) (credentials : Option Credentials)
    (now : Timestamp) : Tx.Reads (getCurrentPrincipal env credentials now) := by
  cases credentials with
  | none => exact Tx.Reads.throw _
  | some c =>
      refine Tx.Reads.ite (fun _ => ?service) fun _ => Tx.Reads.ite (fun _ => ?key) fun _ => ?token
      case service =>
        unfold servicePrincipal
        cases c.orgHeader with
        | none => exact Tx.Reads.throw _
        | some orgId =>
            exact Tx.Reads.bind (Tx.Reads.query _) fun _ =>
              Tx.Reads.ite (fun _ => Tx.Reads.throw _) fun _ => Tx.Reads.pure _
      case key =>
        refine Tx.Reads.bind (Tx.Reads.query _) fun key? => ?_
        cases key? with
        | none => exact Tx.Reads.throw _
        | some key => exact Tx.Reads.pure _
      case token =>
        cases env.decodeAccessToken c.token now with
        | error e => exact Tx.Reads.throw _
        | ok claims =>
            refine Tx.Reads.bind (Tx.Reads.query _) fun user? => ?_
            cases user? with
            | none => exact Tx.Reads.throw _
            | some user =>
                exact Tx.Reads.ite (fun _ => Tx.Reads.throw _) fun _ => Tx.Reads.pure _

def require (permission : Permission) (env : Env) (credentials : Option Credentials)
    (now : Timestamp) : Tx Principal := do
  let principal ← getCurrentPrincipal env credentials now
  if principal.has permission then return principal
  else throw Exc.forbidden

theorem reads_require (permission : Permission) (env : Env) (credentials : Option Credentials)
    (now : Timestamp) : Tx.Reads (require permission env credentials now) :=
  Tx.Reads.bind (reads_getCurrentPrincipal env credentials now) fun _ =>
    Tx.Reads.ite (fun _ => Tx.Reads.pure _) fun _ => Tx.Reads.throw _

end DolphinVC
