import DolphinVC.Deps

/-!
# The members of an organization

Whoever holds `org:admin` invites members and deactivates them. An invitation is good for seven
days and grants neither the owner's nor the service role; a deactivation clears one flag.
-/

namespace DolphinVC

open Transaction

/-- What `create_invite` takes from the clock, from `uuid4` and from `secrets`. -/
structure InviteDraws where
  now : Timestamp
  id : Uuid
  rawToken : String

structure InviteCreate where
  email : String
  role : UserRole := .analyst

section Endpoints

variable (env : Env) (credentials : Option Credentials)

def newInvite (principal : Principal) (body : InviteCreate) (d : InviteDraws) : OrgInvite where
  id := d.id
  orgId := principal.orgId
  email := env.casefold body.email
  role := body.role
  tokenHash := env.sha256 d.rawToken
  createdBy := principal.userId
  expiresAt := d.now + Timestamp.days 7

/-- The token is returned this once. -/
def createInviteEndpoint (body : InviteCreate) (d : InviteDraws) : Tx (OrgInvite × String) := do
  let principal ← require .orgAdmin env credentials d.now
  if body.role = .owner ∨ body.role = .service then
    throw (Exc.validation "Invitations cannot grant owner or service roles.")
  else do
    let taken ← Tx.query fun db => db.users.rows.any fun u => u.email = env.casefold body.email
    if taken then throw (Exc.conflict "A user with this email already exists.")
    else do
      Tx.stage (.insertOrgInvite (newInvite env principal body d))
      Tx.commit
      let invite ← refreshRow fun db => db.orgInvites.find? d.id
      return (invite, d.rawToken)

/-- The member of the organization that the path names. -/
def member? (orgId userId : Uuid) (db : Db) : Option User :=
  db.users.rows.find? fun u => u.id = userId ∧ u.orgId = orgId

def deactivateUserEndpoint (userId : Uuid) (now : Timestamp) : Tx Unit := do
  let principal ← require .orgAdmin env credentials now
  if some userId = principal.userId then
    throw (Exc.unprocessable "Owners cannot deactivate themselves.")
  else do
    let user? ← Tx.query (member? principal.orgId userId)
    match user? with
    | none => throw (Exc.notFound "User")
    | some user => do
        Tx.stage (.updateUser user.id { isActive := changed user.isActive false })
        Tx.commit

end Endpoints
end DolphinVC
