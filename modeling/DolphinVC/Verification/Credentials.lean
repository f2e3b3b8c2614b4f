import DolphinVC.Deps
import DolphinVC.Transaction.Atomic

/-!
# What a credential grants

`Credential` is what a bearer token stands for: the service token for an organization,
an API key, or an access token of a user. `Valid` and `carries` say when it counts and
which permissions were issued with it. `credentials_grant_no_more_iff` compares that with
the principal of `getCurrentPrincipal`.

The comparison fails in two places. The look-up of an API key never reads `expires_at`,
and the principal it builds has the role SERVICE, whose permissions `Principal.has` adds
to the scopes of the key. The scopes of an access token are added in the same way to the
role that the user has by now.
-/

namespace DolphinVC

open Transaction Relational

inductive Credential where
  | service (org : Org)
  | apiKey (key : ApiKey)
  | accessToken (claims : AccessToken) (user : User)

section Spec

variable (env : Env) (db : Db) (c : Credentials) (now : Timestamp)

/-- The token is the service token. -/
def Credentials.IsService : Prop :=
  env.settings.serviceToken ≠ "" ∧ c.token = env.settings.serviceToken

/-- The token has the form of an API key. -/
def Credentials.IsApiKey : Prop := "vcb_live_".toList <+: c.token.toList

instance : Decidable c.IsApiKey := inferInstanceAs (Decidable (_ <+: _))

/-- The credential that a bearer token presents. -/
def Credential.Presented : Credential → Prop
  | .service org => c.IsService env ∧ org ∈ db.orgs ∧ c.orgHeader = some org.id
  | .apiKey key =>
      ¬ c.IsService env ∧ c.IsApiKey ∧ key ∈ db.apiKeys ∧ key.keyHash = env.sha256 c.token
  | .accessToken claims user =>
      ¬ c.IsService env ∧ ¬ c.IsApiKey ∧ env.decodeAccessToken c.token now = .ok claims ∧
        user ∈ db.users ∧ user.id = claims.sub ∧ user.orgId = claims.org

/-- Neither revoked nor expired, and of an existing organization or an active user. -/
def Credential.Valid : Credential → Prop
  | .service _ => True
  | .apiKey key =>
      key.revokedAt = none ∧ (∀ t, key.expiresAt = some t → now < t) ∧
        ∃ org ∈ db.orgs, org.id = key.orgId
  | .accessToken claims user => now < claims.exp + Timestamp.seconds 30 ∧ user.isActive = true

def Credential.orgId : Credential → Uuid
  | .service org => org.id
  | .apiKey key => key.orgId
  | .accessToken _ user => user.orgId

/-- The permissions issued with the credential. -/
def Credential.carries : Credential → Permission → Prop
  | .service _, p => p ∈ [Permission.read, .screen, .admin]
  | .apiKey key, p => p.value ∈ key.scopes
  | .accessToken _ user, p => p ∈ rolePermissions user.role

/-- A principal is returned for a valid credential only, with no more than it carries. -/
def GrantsNoMore : Prop :=
  ∀ principal, ((getCurrentPrincipal env (some c) now).atomically backend db).1 = .ok principal →
    ∃ credential : Credential, credential.Presented env db c now ∧ credential.Valid db now ∧
      principal.orgId = credential.orgId ∧
      ∀ p, principal.has p = true → credential.carries p

/-- The constraints on the table of keys: the hash is unique and the organization exists. -/
structure KeysWellFormed (db : Db) : Prop where
  unique : ∀ k ∈ db.apiKeys, ∀ k' ∈ db.apiKeys, k.keyHash = k'.keyHash → k = k'
  org : ∀ k ∈ db.apiKeys, ∃ org ∈ db.orgs, org.id = k.orgId

/-- An unrevoked API key is unexpired and scoped to all that the role SERVICE may do; an
access token of an active user names no permission beyond the user's role. -/
def IssuedInFull : Prop :=
  (∀ key, Credential.Presented env db c now (.apiKey key) → key.revokedAt = none →
    (∀ t, key.expiresAt = some t → now < t) ∧
      ∀ p ∈ rolePermissions .service, p.value ∈ key.scopes) ∧
  ∀ claims user, Credential.Presented env db c now (.accessToken claims user) →
    user.isActive = true → ∀ p : Permission, p.value ∈ claims.scopes → p ∈ rolePermissions user.role

end Spec

section Branches

variable {env : Env} {db : Db} {c : Credentials} {now : Timestamp} {principal : Principal}

theorem service_answer (h : c.IsService env) :
    ((getCurrentPrincipal env (some c) now).atomically backend db).1 =
      ((servicePrincipal c.orgHeader).atomically backend db).1 := by
  unfold Credentials.IsService at h
  simp only [getCurrentPrincipal]
  rw [if_pos h]

theorem apiKey_answer (hs : ¬ c.IsService env) (hk : c.IsApiKey) :
    ((getCurrentPrincipal env (some c) now).atomically backend db).1 =
      ((apiKeyPrincipal env c.token).atomically backend db).1 := by
  unfold Credentials.IsService at hs
  unfold Credentials.IsApiKey at hk
  simp only [getCurrentPrincipal]
  rw [if_neg hs, if_pos hk]

theorem accessToken_answer (hs : ¬ c.IsService env) (hk : ¬ c.IsApiKey) :
    ((getCurrentPrincipal env (some c) now).atomically backend db).1 =
      match env.decodeAccessToken c.token now with
      | .error e => .error e
      | .ok claims => ((userPrincipal claims).atomically backend db).1 := by
  unfold Credentials.IsService at hs
  unfold Credentials.IsApiKey at hk
  simp only [getCurrentPrincipal]
  rw [if_neg hs, if_neg hk]
  cases env.decodeAccessToken c.token now with
  | error e => rfl
  | ok claims => rfl

/-- The service token acts for the organization in the header. -/
theorem servicePrincipal_ok {orgHeader : Option Uuid}
    (h : ((servicePrincipal orgHeader).atomically backend db).1 = .ok principal) :
    ∃ org ∈ db.orgs, orgHeader = some org.id ∧ principal.orgId = org.id ∧
      ∀ p, principal.has p = true → p ∈ [Permission.read, .screen, .admin] := by
  cases orgHeader with
  | none => cases h
  | some orgId =>
      simp only [servicePrincipal, Tx.atomically_query_bind, Tx.atomically_ite] at h
      cases horg : db.orgs.find? orgId with
      | none =>
          rw [horg] at h
          cases h
      | some org =>
          rw [horg] at h
          cases h
          obtain ⟨hmem, rfl⟩ := Table.find?_eq_some_iff.mp horg
          refine ⟨org, hmem, rfl, rfl, fun p hp => ?_⟩
          cases p with
          | read | screen | admin => simp
          | decide | thesisWrite | orgAdmin =>
              simp [Principal.has, rolePermissions, Permission.value] at hp

/-- An API key acts for its organization, as SERVICE and with its scopes. -/
theorem apiKeyPrincipal_eq_ok {token : String} :
    ((apiKeyPrincipal env token).atomically backend db).1 = .ok principal ↔
      ∃ key, (db.apiKeys.rows.find? fun k => k.keyHash = env.sha256 token ∧ k.revokedAt = none) =
          some key ∧
        principal = { orgId := key.orgId, userId := none, role := .service, scopes := key.scopes
                      kind := "api_key" } := by
  simp only [apiKeyPrincipal, Tx.atomically_query_bind]
  cases db.apiKeys.rows.find? fun k => k.keyHash = env.sha256 token ∧ k.revokedAt = none with
  | none => simp
  | some key =>
      simp only [Tx.atomically_pure, Except.ok.injEq, Option.some.injEq, exists_eq_left']
      exact eq_comm

/-- An access token acts for its active user, with the role of by now. -/
theorem userPrincipal_eq_ok {claims : AccessToken} :
    ((userPrincipal claims).atomically backend db).1 = .ok principal ↔
      ∃ user, (db.users.rows.find? fun u => u.id = claims.sub ∧ u.orgId = claims.org) = some user ∧
        user.isActive = true ∧
        principal = { orgId := user.orgId, userId := some user.id, role := user.role
                      scopes := claims.scopes } := by
  simp only [userPrincipal, Tx.atomically_query_bind]
  cases db.users.rows.find? fun u => u.id = claims.sub ∧ u.orgId = claims.org with
  | none => simp
  | some user =>
      cases hactive : user.isActive with
      | false => simp [hactive]
      | true =>
          simp only [hactive, not_true_eq_false, if_false, Tx.atomically_pure, Except.ok.injEq,
            Option.some.injEq, exists_eq_left', true_and]
          exact eq_comm

/-- What a principal is made from: the organization in the header of a service request, an
unrevoked API key, or the active user whom an access token names. -/
inductive Stems (env : Env) (db : Db) (c : Credentials) (now : Timestamp) : Principal → Prop where
  | service {org : Org} (isService : c.IsService env) (horg : org ∈ db.orgs) :
      Stems env db c now
        { orgId := org.id, userId := none, role := .service, kind := "service"
          scopes := [Permission.value .read, Permission.value .screen, Permission.value .admin] }
  | apiKey {key : ApiKey} (hkey : key ∈ db.apiKeys) (hash : key.keyHash = env.sha256 c.token)
      (unrevoked : key.revokedAt = none) :
      Stems env db c now
        { orgId := key.orgId, userId := none, role := .service, scopes := key.scopes
          kind := "api_key" }
  | user {claims : AccessToken} {user : User} (notService : ¬ c.IsService env)
      (notKey : ¬ c.IsApiKey) (decoded : env.decodeAccessToken c.token now = .ok claims)
      (huser : user ∈ db.users) (hid : user.id = claims.sub) (active : user.isActive = true) :
      Stems env db c now
        { orgId := user.orgId, userId := some user.id, role := user.role, scopes := claims.scopes }

theorem stems_of_answer
    (h : ((getCurrentPrincipal env (some c) now).atomically backend db).1 = .ok principal) :
    Stems env db c now principal := by
  by_cases hs : c.IsService env
  · rw [service_answer hs] at h
    unfold servicePrincipal at h
    cases hheader : c.orgHeader with
    | none =>
        rw [hheader] at h
        cases h
    | some orgId =>
        rw [hheader] at h
        simp only [Tx.atomically_query_bind, Tx.atomically_ite] at h
        cases horg : db.orgs.find? orgId with
        | none =>
            rw [horg] at h
            cases h
        | some org =>
            rw [horg] at h
            cases h
            obtain ⟨hmem, rfl⟩ := Table.find?_eq_some_iff.mp horg
            exact Stems.service hs hmem
  · by_cases hk : c.IsApiKey
    · rw [apiKey_answer hs hk] at h
      obtain ⟨key, hfind, rfl⟩ := apiKeyPrincipal_eq_ok.mp h
      have hrow := List.find?_some hfind
      simp only [decide_eq_true_eq] at hrow
      exact Stems.apiKey (List.mem_of_find?_eq_some hfind) hrow.1 hrow.2
    · rw [accessToken_answer hs hk] at h
      cases hdecode : env.decodeAccessToken c.token now with
      | error e =>
          rw [hdecode] at h
          cases h
      | ok claims =>
          rw [hdecode] at h
          obtain ⟨user, hfind, hactive, rfl⟩ := userPrincipal_eq_ok.mp h
          have hrow := List.find?_some hfind
          simp only [decide_eq_true_eq] at hrow
          exact Stems.user hs hk hdecode (List.mem_of_find?_eq_some hfind) hrow.1 hactive

/-- What `require` lets through comes from some credentials and has the permission. -/
theorem stems_of_require {permission : Permission} {credentials : Option Credentials}
    (h : ((require permission env credentials now).atomically backend db).1 = .ok principal) :
    principal.has permission = true ∧ ∃ c, credentials = some c ∧ Stems env db c now principal := by
  obtain ⟨found, hfound, hperm⟩ :=
    (reads_getCurrentPrincipal env credentials now).atomically_bind_eq_ok.mp h
  rw [Tx.atomically_ite] at hperm
  split at hperm
  · obtain rfl : found = principal := Except.ok.inj hperm
    cases credentials with
    | none => cases hfound
    | some c => exact ⟨‹_›, c, rfl, stems_of_answer hfound⟩
  · cases hperm

end Branches

section Exact

variable {env : Env} {db : Db} {c : Credentials} {now : Timestamp}

theorem grantsNoMore_service (h : c.IsService env) : GrantsNoMore env db c now := by
  intro principal hok
  rw [service_answer h] at hok
  obtain ⟨org, hmem, hheader, horg, hhas⟩ := servicePrincipal_ok hok
  exact ⟨.service org, ⟨h, hmem, hheader⟩, trivial, horg, hhas⟩

/-- For an API key the comparison is about its row alone. -/
theorem grantsNoMore_apiKey_iff (wf : KeysWellFormed db) (hs : ¬ c.IsService env)
    (hk : c.IsApiKey) :
    GrantsNoMore env db c now ↔
      ∀ key, Credential.Presented env db c now (.apiKey key) → key.revokedAt = none →
        (∀ t, key.expiresAt = some t → now < t) ∧
          ∀ p ∈ rolePermissions .service, p.value ∈ key.scopes := by
  constructor
  · intro h key hpresented hlive
    obtain ⟨-, -, hmem, hhash⟩ := hpresented
    have hfind : (db.apiKeys.rows.find? fun k =>
        k.keyHash = env.sha256 c.token ∧ k.revokedAt = none) = some key := by
      refine Table.find?_eq_some_of_unique hmem (by simp [hhash, hlive]) fun k hk' hrow => ?_
      simp only [decide_eq_true_eq] at hrow
      exact wf.unique k hk' key hmem (hrow.1.trans hhash.symm)
    obtain ⟨credential, hcred, hvalid, -, hcarries⟩ :=
      h _ ((apiKey_answer hs hk).trans (apiKeyPrincipal_eq_ok.mpr ⟨key, hfind, rfl⟩))
    cases credential with
    | service org => exact absurd hcred.1 hs
    | accessToken claims user => exact absurd hk hcred.2.1
    | apiKey other =>
        obtain ⟨-, -, hother, hotherHash⟩ := hcred
        obtain rfl := wf.unique other hother key hmem (hotherHash.trans hhash.symm)
        refine ⟨hvalid.2.1, fun p hp => hcarries p ?_⟩
        simp [Principal.has, hp]
  · intro h principal hok
    rw [apiKey_answer hs hk] at hok
    obtain ⟨key, hfind, rfl⟩ := apiKeyPrincipal_eq_ok.mp hok
    have hmem : key ∈ db.apiKeys := List.mem_of_find?_eq_some hfind
    have hrow : key.keyHash = env.sha256 c.token ∧ key.revokedAt = none := by
      simpa using List.find?_some hfind
    have hpresented : Credential.Presented env db c now (.apiKey key) := ⟨hs, hk, hmem, hrow.1⟩
    obtain ⟨hunexpired, hscopes⟩ := h key hpresented hrow.2
    refine ⟨.apiKey key, hpresented, ⟨hrow.2, hunexpired, wf.org key hmem⟩, rfl, fun p hp => ?_⟩
    have hcases : p ∈ rolePermissions .service ∨ p.value ∈ key.scopes := by
      simpa [Principal.has] using hp
    exact hcases.elim (hscopes p) id

/-- For an access token the comparison is about the scopes it names. -/
theorem grantsNoMore_accessToken_iff
    (leeway : ∀ token now claims, env.decodeAccessToken token now = .ok claims →
      now < claims.exp + Timestamp.seconds 30)
    (hs : ¬ c.IsService env) (hk : ¬ c.IsApiKey) :
    GrantsNoMore env db c now ↔
      ∀ claims user, Credential.Presented env db c now (.accessToken claims user) →
        user.isActive = true →
        ∀ p : Permission, p.value ∈ claims.scopes → p ∈ rolePermissions user.role := by
  constructor
  · rintro h claims user ⟨-, -, hdecode, hmem, hid, horg⟩ hactive p hp
    have hfind : (db.users.rows.find? fun u => u.id = claims.sub ∧ u.orgId = claims.org) =
        some user := by
      refine Table.find?_eq_some_of_unique hmem (by simp [hid, horg]) fun u hu hrow => ?_
      simp only [decide_eq_true_eq] at hrow
      exact Table.eq_of_key hu hmem (hrow.1.trans hid.symm)
    have hok : ((getCurrentPrincipal env (some c) now).atomically backend db).1 =
        ((userPrincipal claims).atomically backend db).1 :=
      (accessToken_answer hs hk).trans (by rw [hdecode])
    obtain ⟨credential, hcred, -, -, hcarries⟩ :=
      h _ (hok.trans (userPrincipal_eq_ok.mpr ⟨user, hfind, hactive, rfl⟩))
    cases credential with
    | service org => exact absurd hcred.1 hs
    | apiKey key => exact absurd hcred.2.1 hk
    | accessToken claims' user' =>
        obtain ⟨-, -, hdecode', hmem', hid', -⟩ := hcred
        obtain rfl := Except.ok.inj (hdecode.symm.trans hdecode')
        obtain rfl := Table.eq_of_key hmem' hmem (hid'.trans hid.symm)
        exact hcarries p (by simp [Principal.has, hp])
  · intro h principal hok
    rw [accessToken_answer hs hk] at hok
    cases hdecode : env.decodeAccessToken c.token now with
    | error e =>
        rw [hdecode] at hok
        cases hok
    | ok claims =>
        rw [hdecode] at hok
        obtain ⟨user, hfind, hactive, rfl⟩ := userPrincipal_eq_ok.mp hok
        have hmem : user ∈ db.users := List.mem_of_find?_eq_some hfind
        have hrow : user.id = claims.sub ∧ user.orgId = claims.org := by
          simpa using List.find?_some hfind
        have hpresented : Credential.Presented env db c now (.accessToken claims user) :=
          ⟨hs, hk, hdecode, hmem, hrow⟩
        refine ⟨.accessToken claims user, hpresented, ⟨leeway _ _ _ hdecode, hactive⟩, rfl,
          fun p hp => ?_⟩
        have hcases : p ∈ rolePermissions user.role ∨ p.value ∈ claims.scopes := by
          simpa [Principal.has] using hp
        exact hcases.elim id (h claims user hpresented hactive p)

/-- A principal has no more than its credential carries exactly when the key or token that is
presented was issued in full. -/
theorem credentials_grant_no_more_iff (env : Env) (db : Db) (c : Credentials) (now : Timestamp)
    (wf : KeysWellFormed db)
    (leeway : ∀ token now claims, env.decodeAccessToken token now = .ok claims →
      now < claims.exp + Timestamp.seconds 30) :
    GrantsNoMore env db c now ↔ IssuedInFull env db c now := by
  by_cases hs : c.IsService env
  · refine iff_of_true (grantsNoMore_service hs) ⟨fun key h => absurd hs h.1, ?_⟩
    exact fun claims user h => absurd hs h.1
  · by_cases hk : c.IsApiKey
    · rw [grantsNoMore_apiKey_iff wf hs hk, IssuedInFull, and_iff_left]
      exact fun claims user h => absurd hk h.2.1
    · rw [grantsNoMore_accessToken_iff leeway hs hk, IssuedInFull, and_iff_right]
      exact fun key h => absurd h.2.1 hk

end Exact

section NorthFund

/-- A fund with an analyst and an API key that was issued for reading and expired after a day. -/
def northDb : Db where
  orgs := ⟨[{ id := 1, name := "North Fund", slug := "north-fund" }], by decide⟩
  users := ⟨[
    { id := 4, orgId := 1, email := "dan@north.fund", passwordHash := none, fullName := "Dan" }],
    by decide⟩
  apiKeys := ⟨[
    { id := 5, orgId := 1, keyHash := "vcb_live_old", scopes := ["read"]
      expiresAt := some (Timestamp.days 1) }], by decide⟩

/-- The analyst's access token, good for a quarter of an hour. -/
def danToken : AccessToken where
  sub := 4
  org := 1
  role := .analyst
  scopes := ["opportunities:screen", "read"]
  iat := 0
  exp := Timestamp.minutes 15

def northEnv : Env :=
  { plainEnv with
    decodeAccessToken := fun token now =>
      if token = "dan" ∧ now < danToken.exp + Timestamp.seconds 30 then .ok danToken
      else .error (Exc.unauthenticated) }

theorem keysWellFormed_northDb : KeysWellFormed northDb where
  unique := by
    intro k hk k' hk' _
    rw [List.mem_singleton.mp hk, List.mem_singleton.mp hk']
  org := by
    intro k hk
    rw [List.mem_singleton.mp hk]
    exact ⟨_, List.mem_singleton_self _, rfl⟩

theorem northEnv_leeway (token : String) (now : Timestamp) (claims : AccessToken)
    (h : northEnv.decodeAccessToken token now = .ok claims) :
    now < claims.exp + Timestamp.seconds 30 := by
  simp only [northEnv] at h
  split at h
  · rename_i hvalid
    cases h
    exact hvalid.2
  · cases h

/-- The expired key is let in, and as an administrator. -/
theorem expired_key_administers :
    KeysWellFormed northDb ∧
      ¬ GrantsNoMore northEnv northDb { token := "vcb_live_old" } (Timestamp.days 2) := by
  refine ⟨keysWellFormed_northDb, fun h => ?_⟩
  obtain ⟨credential, hcred, hvalid, -, -⟩ := h _ rfl
  cases credential with
  | service org => exact absurd rfl hcred.1.1
  | accessToken claims user => exact absurd (by decide) hcred.2.1
  | apiKey key =>
      obtain rfl := List.mem_singleton.mp hcred.2.2.1
      exact absurd (hvalid.2.1 _ rfl) (by decide)

/-- The analyst's token names what an analyst may do. -/
theorem analyst_token_grants_no_more :
    GrantsNoMore northEnv northDb { token := "dan" } (Timestamp.minutes 1) := by
  refine (credentials_grant_no_more_iff northEnv northDb { token := "dan" } (Timestamp.minutes 1)
    keysWellFormed_northDb northEnv_leeway).mpr ⟨fun key h => absurd h.2.1 (by decide), ?_⟩
  rintro claims user ⟨-, -, hdecode, hmem, -, -⟩ - p hp
  obtain rfl := List.mem_singleton.mp hmem
  cases hdecode
  cases p with
  | read | screen => decide
  | decide | thesisWrite | orgAdmin | admin => exact absurd hp (by decide)

end NorthFund

end DolphinVC
