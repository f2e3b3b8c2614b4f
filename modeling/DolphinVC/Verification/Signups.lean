import DolphinVC.Transaction.OneCommit
import DolphinVC.Verification.AuthWrites

/-!
# What a signup writes

Without an invitation a signup founds an organization: the caller becomes its owner and a
default thesis is stored. With one the caller joins the organization of the invitation, in
the role it names. Either way everything is committed at once.
-/

namespace DolphinVC

open Relational Transaction

variable {env : Env} {db : Db} {d : Draws}

/-- The account that a signup opens. -/
def SignupRequest.user (env : Env) (body : SignupRequest) (d : Draws) (orgId : Uuid)
    (role : UserRole) : User where
  id := d.userId
  orgId
  email := env.casefold body.email
  role
  passwordHash := some (env.hashPassword body.password)
  fullName := body.fullName

/-- The thesis that a new organization starts with. -/
def firstThesis (d : Draws) : Thesis where
  id := d.thesisId
  orgId := d.orgId
  name := "Default early-stage thesis"
  isDefault := true
  stages := some ["pre_seed", "seed"]
  geos := some ["remote"]

def SignupRequest.session (env : Env) (body : SignupRequest) (d : Draws) (orgId : Uuid)
    (role : UserRole) : Write :=
  .insertRefreshToken (newRefreshToken env (body.user env d orgId role) d none none)

/-- The writes of a signup that founds an organization. -/
def SignupRequest.founds (env : Env) (body : SignupRequest) (d : Draws) (name slug : String) :
    List Write :=
  [.insertOrg { id := d.orgId, name, slug }, .insertUser (body.user env d d.orgId .owner),
    .insertThesis (firstThesis d), body.session env d d.orgId .owner]

/-- The writes of a signup with an invitation. -/
def SignupRequest.joins (env : Env) (body : SignupRequest) (d : Draws) (orgId : Uuid)
    (invite : OrgInvite) : List Write :=
  [.insertUser (body.user env d orgId invite.role), .acceptOrgInvite invite.id d.now,
    body.session env d orgId invite.role]

/-- The invitation that the token of the request is for. -/
structure SignupRequest.Invited (env : Env) (db : Db) (body : SignupRequest) (d : Draws)
    (invite : OrgInvite) (org : Org) : Prop where
  stored : invite ∈ db.orgInvites
  token : (given body.inviteToken).map env.sha256 = some invite.tokenHash
  unaccepted : invite.acceptedAt = none
  unexpired : d.now < invite.expiresAt
  addressed : env.casefold invite.email = env.casefold body.email
  founded : org ∈ db.orgs
  ofInvite : org.id = invite.orgId

/-- What a signup does: nothing, or one of the two lists of writes. -/
def SignupEffect (env : Env) (db : Db) (body : SignupRequest) (d : Draws) (db' : Db) : Prop :=
  db' = db ∨ (∃ name slug, db' = backend.outcome db (body.founds env d name slug)) ∨
    ∃ invite org, body.Invited env db d invite org ∧
      db' = backend.outcome db (body.joins env d org.id invite)

theorem leaves_openAccount {user : User} {w : Write} {k : User × IssuedTokens → Tx IssuedTokens}
    (hk : ∀ a, Tx.Leaves backend [] (k a)) :
    Tx.Leaves backend
      [.insertUser user, w, .insertRefreshToken (newRefreshToken env user d none none)]
      ((do
        Tx.stage (.insertUser user)
        Tx.flush
        Tx.stage w
        let tokens ← issueTokens env user d none none
        return (user, tokens)) >>= k) := by
  refine Tx.leaves_assoc (Tx.leaves_stage (Tx.leaves_assoc (Tx.leaves_flush
    (Tx.leaves_assoc (Tx.leaves_stage (Tx.leaves_assoc ?_))))))
  exact Tx.leaves_assoc (Tx.leaves_stage (Tx.leaves_assoc (Tx.leaves_flush (hk _))))

theorem signup_effect (env : Env) (db : Db) (body : SignupRequest) (d : Draws) :
    SignupEffect env db body d ((signupEndpoint env body d).atomically backend db).2 := by
  refine (Tx.atomically_iff (P := fun _ db' => SignupEffect env db body d db')).mpr ?_
  have unchanged : SignupEffect env db body d db := Or.inl rfl
  have done (a : User × IssuedTokens) : Tx.Leaves backend [] (do
      Tx.commit
      let user ← refreshRow fun db => db.users.find? a.1.id
      let _ ← refreshRow fun db => db.orgs.find? user.orgId
      return a.2) :=
    Tx.leaves_commit (Tx.Reads.bind (reads_refreshRow _) fun _ =>
      Tx.Reads.bind (reads_refreshRow _) fun _ => Tx.Reads.pure _)
  unfold signupEndpoint signup
  refine Tx.wp_bind.mpr (Tx.Reads.wp_bind (reads_validatePassword _ _ _) (fun _ => unchanged)
    fun _ _ => Tx.wp_bind.mpr (Tx.wp_query.mpr ?_))
  rw [Session.query_unflushed]
  dsimp only [Except.map]
  split
  · exact unchanged
  refine Tx.wp_bind.mpr ?_
  unfold signupOrg
  cases htoken : given body.inviteToken with
  | none =>
      refine Tx.wp_bind.mpr (Tx.wp_query.mpr ?_)
      rw [Session.query_unflushed]
      dsimp only [Except.map]
      refine Tx.wp_bind.mp (Tx.wp_bind.mp (Tx.WP.mono (Tx.leaves_assoc (Tx.leaves_assoc
        (Tx.leaves_stage (Tx.leaves_assoc (Tx.leaves_flush (leaves_openAccount done))))) db {} rfl)
          fun _ _ _ h => ?_))
      exact Or.inr (Or.inl ⟨_, _, h⟩)
  | some token =>
      refine Tx.wp_bind.mpr (Tx.wp_query.mpr ?_)
      rw [Session.query_unflushed]
      dsimp only [Except.map]
      cases hinvite : db.orgInvites.rows.find? fun i =>
          i.tokenHash = env.sha256 token ∧ i.acceptedAt = none with
      | none => exact unchanged
      | some invite =>
          dsimp only
          split
          · exact unchanged
          · rename_i hvalid
            refine Tx.wp_bind.mpr (Tx.wp_query.mpr ?_)
            rw [Session.query_unflushed]
            dsimp only [Except.map]
            cases horg : db.orgs.find? invite.orgId with
            | none => exact unchanged
            | some org =>
                dsimp only
                rw [Tx.wp_pure]
                dsimp only
                have hrow := List.find?_some hinvite
                simp only [decide_eq_true_eq] at hrow
                obtain ⟨hlive, hmail⟩ := not_or.mp hvalid
                have invited : body.Invited env db d invite org :=
                  ⟨List.mem_of_find?_eq_some hinvite, by rw [htoken, hrow.1]; rfl, hrow.2,
                    Int.not_le.mp hlive, Decidable.not_not.mp hmail,
                    Table.mem_of_find? horg, Table.key_of_find? horg⟩
                refine Tx.wp_bind.mp ((leaves_openAccount done db {} rfl).mono fun _ _ _ h => ?_)
                exact Or.inr (Or.inr ⟨invite, org, invited, h⟩)

variable {db' : Db}

/-- A founding signup writes an organization, its owner, its thesis and a session. -/
theorem founds_applied {body : SignupRequest} {d : Draws} {name slug : String}
    (happly : backend.applyAll db (body.founds env d name slug) = .ok db') :
    (∀ o, o ∈ db'.orgs ↔ o ∈ db.orgs ∨ o = { id := d.orgId, name, slug }) ∧
      (∀ o ∈ db.orgs, o.id ≠ d.orgId) ∧
      (∀ u, u ∈ db'.users ↔ u ∈ db.users ∨ u = body.user env d d.orgId .owner) ∧
      (∀ t, t ∈ db'.theses ↔ t ∈ db.theses ∨ t = firstThesis d) ∧ db'.apiKeys = db.apiKeys := by
  obtain ⟨db₁, h₁, happly⟩ := Backend.applyAll_cons_eq_ok.mp happly
  obtain ⟨db₂, h₂, happly⟩ := Backend.applyAll_cons_eq_ok.mp happly
  obtain ⟨db₃, h₃, happly⟩ := Backend.applyAll_cons_eq_ok.mp happly
  obtain ⟨orgs, horgs, rfl⟩ := map_eq_ok.mp h₁
  obtain ⟨users, husers, rfl⟩ := map_eq_ok.mp h₂
  obtain ⟨theses, htheses, rfl⟩ := map_eq_ok.mp h₃
  obtain ⟨tokens, -, rfl⟩ := map_eq_ok.mp (Backend.applyAll_singleton.symm.trans happly)
  have hins := (insertRow_eq_ok.mp horgs).2
  exact ⟨fun o => Table.mem_insert? hins, fun o ho => Table.fresh_of_insert? hins ho,
    fun u => Table.mem_insert? (insertRow_eq_ok.mp husers).2,
    fun t => Table.mem_insert? (insertRow_eq_ok.mp htheses).2, rfl⟩

theorem joins_applied {body : SignupRequest} {d : Draws} {orgId : Uuid} {invite : OrgInvite}
    (happly : backend.applyAll db (body.joins env d orgId invite) = .ok db') :
    db'.orgs = db.orgs ∧
      (∀ u, u ∈ db'.users ↔ u ∈ db.users ∨ u = body.user env d orgId invite.role) ∧
      db'.theses = db.theses ∧ db'.apiKeys = db.apiKeys := by
  obtain ⟨db₁, h₁, happly⟩ := Backend.applyAll_cons_eq_ok.mp happly
  obtain ⟨db₂, h₂, happly⟩ := Backend.applyAll_cons_eq_ok.mp happly
  obtain ⟨users, husers, rfl⟩ := map_eq_ok.mp h₁
  cases h₂
  obtain ⟨tokens, -, rfl⟩ := map_eq_ok.mp (Backend.applyAll_singleton.symm.trans happly)
  exact ⟨rfl, fun u => Table.mem_insert? (insertRow_eq_ok.mp husers).2, rfl, rfl⟩

end DolphinVC
