import DolphinVC.Verification.Deactivation
import DolphinVC.Verification.Signups

/-!
# Owners

A fund gets its owner from the signup that founds it, and no invitation grants the role. What
keeps the owner is that a caller cannot deactivate the account it acts for: an owner who
deactivates someone else is still there. A caller that acts for no owner, such as an API key
with the scope `org:admin`, passes that test whoever it names.
-/

namespace DolphinVC

open Relational Transaction Transition

inductive MemberRequest where
  | signup (body : SignupRequest)
  | invite (credentials : Option Credentials) (body : InviteCreate)
  | deactivate (credentials : Option Credentials) (userId : Uuid)

/-- A request about the members of a fund with what it draws. -/
abbrev MemberEvent := MemberRequest × Draws

def memberStep (env : Env) (db : Db) : MemberEvent → Db
  | (.signup body, d) => ((signupEndpoint env body d).atomically backend db).2
  | (.invite credentials body, d) =>
      ((createInviteEndpoint env credentials body
        { now := d.now, id := d.id, rawToken := d.rawRefresh }).atomically backend db).2
  | (.deactivate credentials userId, d) =>
      ((deactivateUserEndpoint env credentials userId d.now).atomically backend db).2

section Owned

variable {env : Env} {db db' : Db} {d : Draws} {user : User}

/-- An active owner of the organization. -/
structure User.OwnerOf (u : User) (orgId : Uuid) : Prop where
  member : u.orgId = orgId
  role : u.role = .owner
  active : u.isActive = true

/-- Every organization has an active owner. -/
def Owned (db : Db) : Prop := ∀ org ∈ db.orgs, ∃ u ∈ db.users, u.OwnerOf org.id

/-- Accounts are of stored organizations. -/
def MembersStored (db : Db) : Prop := ∀ u ∈ db.users, ∃ org ∈ db.orgs, org.id = u.orgId

def OnlyOwner (db : Db) (u : User) : Prop :=
  u.OwnerOf u.orgId ∧ ∀ v ∈ db.users, v.OwnerOf u.orgId → v = u

/-- A deactivation that is let through without being an owner's own does not name the only
owner of a fund. -/
def Spared (env : Env) (db : Db) : MemberEvent → Prop
  | (.deactivate credentials userId, d) => ∀ principal user,
      ((require .orgAdmin env credentials d.now).atomically backend db).1 = .ok principal →
      member? principal.orgId userId db = some user → OnlyOwner db user →
      ∃ caller ∈ db.users, principal.userId = some caller.id ∧ caller.role = .owner
  | _ => True

theorem owned_of_grown (h : Owned db) (orgs : db'.orgs = db.orgs)
    (users : ∀ u ∈ db.users, u ∈ db'.users) : Owned db' := by
  intro org horg
  obtain ⟨u, hu, howner⟩ := h org (orgs ▸ horg)
  exact ⟨u, users u hu, howner⟩

theorem member_facts {orgId userId : Uuid} (h : member? orgId userId db = some user) :
    user ∈ db.users ∧ user.id = userId ∧ user.orgId = orgId :=
  ⟨List.mem_of_find?_eq_some h, by simpa using List.find?_some h⟩

theorem createInvite_served {credentials : Option Credentials} {body : InviteCreate}
    {i : InviteDraws} :
    ((createInviteEndpoint env credentials body i).atomically backend db).2.users = db.users ∧
      ((createInviteEndpoint env credentials body i).atomically backend db).2.orgs = db.orgs := by
  have invites : Tx.Emits (fun w => ∃ row, w = Write.insertOrgInvite row)
      (createInviteEndpoint env credentials body i) :=
    Tx.Emits.bind (reads_require _ _ _ _).emits fun _ => Tx.Emits.ite (fun _ => Tx.Emits.throw _)
      fun _ => Tx.Emits.bind (Tx.Emits.query _) fun _ => Tx.Emits.ite (fun _ => Tx.Emits.throw _)
        fun _ => Tx.Emits.bind (Tx.Emits.stage ⟨_, rfl⟩) fun _ => Tx.Emits.bind Tx.Emits.commit
          fun _ => Tx.Emits.bind (reads_refreshRow _).emits fun _ => Tx.Emits.pure _
  refine Tx.Commits.atomically (I := fun db' => db'.users = db.users ∧ db'.orgs = db.orgs)
    (Tx.Emits.commits invites Journal.all_empty) ?_ ⟨rfl, rfl⟩
  rintro mid w after ⟨row, rfl⟩ hmid happly
  obtain ⟨t, -, rfl⟩ := map_eq_ok.mp happly
  exact hmid

theorem owned_signup (h : Owned db) (body : SignupRequest) :
    Owned ((signupEndpoint env body d).atomically backend db).2 := by
  obtain hsame | ⟨name, slug, hout⟩ | ⟨invite, org, -, hout⟩ := signup_effect env db body d
  · rw [hsame]
    exact h
  · rw [hout]
    obtain happly | hsame := outcome_cases backend db (body.founds env d name slug)
    · obtain ⟨horgs, -, husers, -, -⟩ := founds_applied happly
      intro org horg
      obtain old | rfl := (horgs org).mp horg
      · obtain ⟨u, hu, howner⟩ := h org old
        exact ⟨u, (husers u).mpr (Or.inl hu), howner⟩
      · exact ⟨_, (husers _).mpr (Or.inr rfl), ⟨rfl, rfl, rfl⟩⟩
    · rw [hsame]
      exact h
  · rw [hout]
    obtain happly | hsame := outcome_cases backend db (body.joins env d org.id invite)
    · obtain ⟨horgs, husers, -⟩ := joins_applied happly
      exact owned_of_grown h horgs fun u hu => (husers u).mpr (Or.inl hu)
    · rw [hsame]
      exact h

theorem membersStored_signup (h : MembersStored db) (body : SignupRequest) :
    MembersStored ((signupEndpoint env body d).atomically backend db).2 := by
  obtain hsame | ⟨name, slug, hout⟩ | ⟨invite, org, hinvited, hout⟩ := signup_effect env db body d
  · rw [hsame]
    exact h
  · rw [hout]
    obtain happly | hsame := outcome_cases backend db (body.founds env d name slug)
    · obtain ⟨horgs, -, husers, -, -⟩ := founds_applied happly
      intro u hu
      obtain old | rfl := (husers u).mp hu
      · obtain ⟨org, horg, hid⟩ := h u old
        exact ⟨org, (horgs org).mpr (Or.inl horg), hid⟩
      · exact ⟨_, (horgs _).mpr (Or.inr rfl), rfl⟩
    · rw [hsame]
      exact h
  · rw [hout]
    obtain happly | hsame := outcome_cases backend db (body.joins env d org.id invite)
    · obtain ⟨horgs, husers, -⟩ := joins_applied happly
      intro u hu
      rw [horgs]
      obtain old | rfl := (husers u).mp hu
      · exact h u old
      · exact ⟨org, hinvited.founded, rfl⟩
    · rw [hsame]
      exact h

theorem membersStored_without (h : MembersStored db) (stored : user ∈ db.users) :
    MembersStored (db.without user) := by
  intro u hu
  obtain ⟨r, hr, rfl⟩ := (mem_without stored).mp hu
  obtain ⟨org, horg, hid⟩ := h r hr
  refine ⟨org, horg, hid.trans ?_⟩
  split
  · rfl
  · rfl

/-- Only the deactivation of the only owner leaves a fund without one. -/
theorem owned_without_iff (h : Owned db) (members : MembersStored db) (stored : user ∈ db.users) :
    Owned (db.without user) ↔ ¬ OnlyOwner db user := by
  constructor
  · rintro owned ⟨-, alone⟩
    obtain ⟨org, horg, hid⟩ := members user stored
    obtain ⟨u, hu, howner⟩ := owned org horg
    obtain ⟨r, hr, hrow⟩ := (mem_without stored).mp hu
    split at hrow
    · have off : u.isActive = false := by rw [← hrow]
      rw [howner.active] at off
      cases off
    · rename_i other
      subst hrow
      exact other (congrArg User.id (alone r hr (hid ▸ howner)))
  · intro shared org horg
    obtain ⟨u, hu, howner⟩ := h org horg
    have stays {v : User} (hv : v ∈ db.users) (hother : v.id ≠ user.id) :
        v ∈ (db.without user).users :=
      (mem_without stored).mpr ⟨v, hv, if_neg hother⟩
    by_cases hsame : u.id = user.id
    · -- the fund's owner is the one who goes, so there is a second one
      obtain rfl := Table.eq_of_key hu stored hsame
      have second : ∃ v ∈ db.users, v.OwnerOf u.orgId ∧ v ≠ u := by
        by_contra hnone
        refine shared ⟨⟨rfl, howner.role, howner.active⟩, fun v hv hvowner => ?_⟩
        by_contra hne
        exact hnone ⟨v, hv, hvowner, hne⟩
      obtain ⟨v, hv, hvowner, hne⟩ := second
      refine ⟨v, stays hv fun hid => hne (Table.eq_of_key hv hu hid), ?_⟩
      rw [← howner.member]
      exact hvowner
    · exact ⟨u, stays hu hsame, howner⟩

theorem membersStored_step (h : MembersStored db) (a : MemberEvent) :
    MembersStored (memberStep env db a) := by
  obtain ⟨r, d⟩ := a
  cases r with
  | signup body => exact membersStored_signup h body
  | invite credentials body =>
      dsimp only [memberStep]
      intro u hu
      rw [createInvite_served.1] at hu
      rw [createInvite_served.2]
      exact h u hu
  | deactivate credentials userId =>
      dsimp only [memberStep]
      cases hrequire : ((require .orgAdmin env credentials d.now).atomically backend db).1 with
      | error e =>
          rw [deactivate_refused hrequire]
          exact h
      | ok principal =>
          rw [deactivate_served hrequire]
          split
          · exact h
          · cases hmember : member? principal.orgId userId db with
            | none => exact h
            | some user => exact membersStored_without h (member_facts hmember).1

/-- A principal that acts for an owner is another active owner than the account it names. -/
theorem caller_of_owner {credentials : Option Credentials} {now : Timestamp} {principal : Principal}
    {caller : User}
    (admitted : ((require .orgAdmin env credentials now).atomically backend db).1 = .ok principal)
    (stored : caller ∈ db.users) (acts : principal.userId = some caller.id)
    (owner : caller.role = .owner) : caller.OwnerOf principal.orgId := by
  obtain ⟨-, c, -, stems⟩ := stems_of_require admitted
  cases stems with
  | service => cases acts
  | apiKey => cases acts
  | user notService notKey decoded huser hid active =>
      have hsame := Table.eq_of_key huser stored (Option.some.inj acts)
      exact ⟨by rw [hsame], owner, hsame ▸ active⟩

theorem owned_deactivate_iff (h : Owned db) (members : MembersStored db)
    {credentials : Option Credentials} {userId : Uuid} :
    Owned ((deactivateUserEndpoint env credentials userId d.now).atomically backend db).2 ↔
      Spared env db (.deactivate credentials userId, d) := by
  cases hrequire : ((require .orgAdmin env credentials d.now).atomically backend db).1 with
  | error e =>
      rw [deactivate_refused hrequire]
      refine iff_of_true h fun principal user admitted => ?_
      rw [hrequire] at admitted
      cases admitted
  | ok principal =>
      have spared_iff : Spared env db (.deactivate credentials userId, d) ↔
          ∀ user, member? principal.orgId userId db = some user → OnlyOwner db user →
            ∃ caller ∈ db.users, principal.userId = some caller.id ∧ caller.role = .owner := by
        refine ⟨fun spared user => spared principal user hrequire,
          fun spared other user admitted => ?_⟩
        rw [hrequire] at admitted
        cases admitted
        exact spared user
      rw [deactivate_served hrequire, spared_iff]
      by_cases self : some userId = principal.userId
      · rw [if_pos self]
        refine iff_of_true h fun user hmember only => ?_
        obtain ⟨hstored, hid, -⟩ := member_facts hmember
        exact ⟨user, hstored, by rw [hid, self], only.1.role⟩
      · rw [if_neg self]
        cases hmember : member? principal.orgId userId db with
        | none => exact iff_of_true h (by simp)
        | some user =>
            obtain ⟨hstored, hid, horg⟩ := member_facts hmember
            refine (owned_without_iff h members hstored).trans ⟨?_, ?_⟩
            · rintro shared other hother only
              cases hother
              exact absurd only shared
            · intro spared only
              obtain ⟨caller, hcaller, acts, role⟩ := spared user rfl only
              have owner : caller.OwnerOf user.orgId :=
                horg ▸ caller_of_owner hrequire hcaller acts role
              have same : caller = user := only.2 caller hcaller owner
              exact self (by rw [acts, same, hid])

/-- Whether every fund keeps an owner is decided by who sends the deactivations. -/
theorem owned_step_iff (h : Owned db) (members : MembersStored db) (a : MemberEvent) :
    Owned (memberStep env db a) ↔ Spared env db a := by
  obtain ⟨r, d⟩ := a
  cases r with
  | signup body => exact iff_of_true (owned_signup h body) trivial
  | invite credentials body =>
      refine iff_of_true (owned_of_grown h createInvite_served.2 fun u hu => ?_) trivial
      show u ∈ ((createInviteEndpoint env credentials body _).atomically backend db).2.users
      rw [createInvite_served.1]
      exact hu
  | deactivate credentials userId => exact owned_deactivate_iff h members

/-- From a store in which every organization has an active owner, every organization has one in
every state of a run of signups, invitations and deactivations if and only if no deactivation
sent by anyone but an owner names the only owner of a fund. -/
theorem owners_kept_iff (env : Env) (db : Db) (events : List MemberEvent)
    (members : MembersStored db) (owned : Owned db) :
    Along (memberStep env) Owned db events ↔ Meets (memberStep env) (Spared env) db events :=
  along_iff_meets (A := fun _ => True) (fun _ a _ h => membersStored_step h a)
    (fun _ a _ hI h => owned_step_iff h hI a) (fun _ _ => trivial) members owned

end Owned

section Cove

/-- The fund has issued an API key that may administer it. -/
def coveKeyDb : Db :=
  { coveDb with
    apiKeys := ⟨[{ id := 95, orgId := 90, keyHash := "vcb_live_cove", scopes := ["org:admin"] }],
      by decide⟩ }

def coveDeactivation (token : String) (userId : Uuid) : MemberEvent :=
  (.deactivate (some { token }) userId, drawsAt 1 "unused")

theorem cove_members : MembersStored coveKeyDb := by
  intro u hu
  refine ⟨{ id := 90, name := "Cove Fund", slug := "cove-fund" }, List.mem_singleton_self _, ?_⟩
  revert u
  decide

theorem cove_owned : Owned coveKeyDb := by
  intro org horg
  obtain rfl := List.mem_singleton.mp horg
  exact ⟨_, List.mem_cons_self, ⟨rfl, rfl, rfl⟩⟩

/-- The API key deactivates Ruth. -/
theorem key_deactivates_owner :
    Owned coveKeyDb ∧
      ¬ Along (memberStep coveEnv) Owned coveKeyDb [coveDeactivation "vcb_live_cove" 91] := by
  refine ⟨cove_owned, fun run => ?_⟩
  obtain ⟨u, hu, howner⟩ := run.last _ (List.mem_singleton_self _)
  have left : ((memberStep coveEnv coveKeyDb (coveDeactivation "vcb_live_cove" 91)).users.rows.all
      fun u => u.role = .owner → u.isActive = false) = true := by decide +kernel
  have off := List.all_eq_true.mp left u hu
  simp [howner.role, howner.active] at off

/-- Ruth deactivates Mia. -/
theorem owner_deactivates_member :
    Along (memberStep coveEnv) Owned coveKeyDb [coveDeactivation "ruth" 92] := by
  refine (owners_kept_iff coveEnv coveKeyDb _ cove_members cove_owned).mpr ⟨?_, trivial⟩
  rintro principal user - hmember only
  obtain ⟨hstored, hid, -⟩ := member_facts hmember
  have analyst : ∀ u ∈ coveKeyDb.users.rows, u.id = 92 → u.role ≠ .owner := by decide
  exact absurd only.1.role (analyst user hstored hid)

end Cove

end DolphinVC
