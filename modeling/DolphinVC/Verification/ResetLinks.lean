import DolphinVC.Verification.SessionFamilies

/-!
# Reset links

A password reset marks the token it was given as used and revokes the refresh tokens of the
account; a password change revokes the refresh tokens. Neither looks at the other reset tokens
of the account. So after either of them an earlier token can still set the password exactly
when it is one that nobody has used and that has not run out.
-/

namespace DolphinVC

open Relational Transaction Transition

variable {env : Env} {db db' : Db} {d : Draws} {userId : Uuid} {raw : String} {now : Timestamp}

section Spent

/-- The database rejects a second token with the same hash. -/
def UniqueLinks (db : Db) : Prop :=
  ∀ t ∈ db.emailTokens, ∀ s ∈ db.emailTokens, t.tokenHash = s.tokenHash → t = s

/-- The token with this hash has been used, or it has run out. -/
def LinkSpent (hash : String) (now : Timestamp) (db : Db) : Prop :=
  ∃ t ∈ db.emailTokens, t.tokenHash = hash ∧ (t.usedAt ≠ none ∨ t.expiresAt ≤ now)

theorem uniqueLinks_apply {w : Write} (h : UniqueLinks db) (happly : db.apply w = .ok db') :
    UniqueLinks db' := by
  obtain ⟨row, -, fresh, hins⟩ | ⟨id, at', -, hupd⟩ | hsame := emailTokens_apply happly
  · intro t ht s hs hhash
    obtain hto | rfl := (Table.mem_insert? hins).mp ht
    · obtain hso | rfl := (Table.mem_insert? hins).mp hs
      · exact h t hto s hso hhash
      · exact absurd hhash (fresh t hto)
    · obtain hso | rfl := (Table.mem_insert? hins).mp hs
      · exact absurd hhash.symm (fresh s hso)
      · rfl
  · intro t ht s hs hhash
    rw [hupd] at ht hs
    obtain ⟨t', ht', rfl⟩ := Table.mem_update.mp ht
    obtain ⟨s', hs', rfl⟩ := Table.mem_update.mp hs
    have same : t'.tokenHash = s'.tokenHash := by
      split at hhash <;> split at hhash <;> exact hhash
    rw [h t' ht' s' hs' same]
  · unfold UniqueLinks
    rw [hsame]
    exact h

theorem linkSpent_apply {w : Write} {hash : String} (h : LinkSpent hash now db)
    (happly : db.apply w = .ok db') : LinkSpent hash now db' := by
  obtain ⟨t, ht, hhash, hspent⟩ := h
  obtain ⟨row, -, -, hins⟩ | ⟨id, at', -, hupd⟩ | hsame := emailTokens_apply happly
  · exact ⟨t, (Table.mem_insert? hins).mpr (Or.inl ht), hhash, hspent⟩
  · unfold LinkSpent
    rw [hupd]
    refine ⟨_, Table.mem_update.mpr ⟨t, ht, rfl⟩, ?_⟩
    split
    · exact ⟨hhash, Or.inl (by simp)⟩
    · exact ⟨hhash, hspent⟩
  · exact ⟨t, hsame ▸ ht, hhash, hspent⟩

/-- No authentication request makes a spent token usable. -/
theorem linkSpent_step {hash : String} (a : AuthEvent) (h : LinkSpent hash now db) :
    LinkSpent hash now (authStep env db a) :=
  authStep_keeps (fun _ _ _ h happly => linkSpent_apply h happly) a h

theorem uniqueLinks_step (a : AuthEvent) (h : UniqueLinks db) : UniqueLinks (authStep env db a) :=
  authStep_keeps (fun _ _ _ h happly => uniqueLinks_apply h happly) a h

end Spent

section Reset

/-- The unused token for this purpose that is presented. -/
def link? (env : Env) (raw purpose : String) (db : Db) : Option EmailToken :=
  db.emailTokens.rows.find? fun t =>
    t.tokenHash = env.sha256 raw ∧ t.purpose = purpose ∧ t.usedAt = none

theorem link_facts {purpose : String} {t : EmailToken} (h : link? env raw purpose db = some t) :
    t ∈ db.emailTokens ∧ t.tokenHash = env.sha256 raw ∧ t.purpose = purpose ∧ t.usedAt = none :=
  ⟨List.mem_of_find?_eq_some h, by simpa using List.find?_some h⟩

theorem validatePassword_cases (env : Env) (password email : String) :
    validatePassword env password email = pure () ∨
      ∃ e, validatePassword env password email = throw e := by
  unfold validatePassword
  dsimp only
  split
  · exact Or.inr ⟨_, rfl⟩
  · split
    · exact Or.inr ⟨_, rfl⟩
    · split
      · exact Or.inr ⟨_, rfl⟩
      · exact Or.inl rfl

/-- A reset that passes every check, with the token and the account it found. -/
structure Resets (env : Env) (db : Db) (d : Draws) (raw password : String) (t : EmailToken)
    (user : User) : Prop where
  found : link? env raw "reset" db = some t
  unexpired : d.now < t.expiresAt
  owner : db.users.find? t.userId = some user
  accepted : validatePassword env password user.email = pure ()

theorem reset_refused {password : String}
    (h : ∀ t user, ¬ Resets env db d raw password t user) :
    ∃ e, ((resetPasswordEndpoint env raw password d).atomically backend db).1 = .error e := by
  refine (Tx.atomically_iff (P := fun r _ => ∃ e, r = .error e)).mpr ?_
  refine Tx.wp_query_first.mpr ?_
  cases hlink : link? env raw "reset" db with
  | none =>
      unfold link? at hlink
      rw [hlink]
      exact ⟨_, rfl⟩
  | some t =>
      have hfind := hlink
      unfold link? at hfind
      rw [hfind]
      dsimp only
      split
      · exact ⟨_, rfl⟩
      · rename_i unexpired
        refine Tx.wp_query_first.mpr ?_
        cases howner : db.users.find? t.userId with
        | none => exact ⟨_, rfl⟩
        | some user =>
            have refused : ∃ e, validatePassword env password user.email = throw e := by
              cases validatePassword_cases env password user.email with
              | inl accepted =>
                  exact absurd ⟨hlink, Int.not_le.mp unexpired, howner, accepted⟩ (h t user)
              | inr refused => exact refused
            obtain ⟨e, he⟩ := refused
            refine Tx.wp_assoc.mpr (Tx.wp_bind.mpr (Tx.wp_stage.mpr ?_))
            show Tx.WP backend _ (validatePassword env password user.email >>= _) db _
            rw [he]
            exact ⟨_, rfl⟩

theorem reset_served {password : String} {t : EmailToken} {user : User}
    (h : Resets env db d raw password t user) :
    ∃ users tokens, (resetPasswordEndpoint env raw password d).atomically backend db =
      (.ok (), { db with
        emailTokens := db.emailTokens.update t.id fun r => { r with usedAt := some d.now }
        refreshTokens := tokens
        users := users }) ∧
      users = db.users.update user.id
        (User.patch { passwordHash := some (env.hashPassword password) }) := by
  refine ⟨_, (db.refreshTokens.updateWhere (fun r => r.id ∈ ((db.refreshTokens.rows.filter fun r =>
    r.userId = user.id ∧ r.revokedAt = none).map RefreshToken.id) ∧
      (true = true → r.revokedAt = none))
      (RefreshToken.revoke d.now "password_reset")), ?_, rfl⟩
  have hfind := h.found
  unfold link? at hfind
  have hnot : ¬ t.expiresAt ≤ d.now := Int.not_le.mpr h.unexpired
  refine (Tx.atomically_iff (P := fun r db' => (r, db') = _)).mpr ?_
  refine Tx.wp_query_first.mpr ?_
  rw [hfind]
  dsimp only
  rw [if_neg hnot]
  refine Tx.wp_query_first.mpr ?_
  rw [h.owner]
  refine Tx.wp_assoc.mpr (Tx.wp_bind.mpr (Tx.wp_stage.mpr ?_))
  show Tx.WP backend _ (validatePassword env password user.email >>= _) db _
  rw [h.accepted]
  rfl

end Reset

section Changes

/-- Presenting the token with any password, now or later, is answered with an error. -/
def LinkRefused (env : Env) (raw : String) (now : Timestamp) (db : Db) : Prop :=
  ∀ password d, now ≤ d.now →
    ∃ e, (AuthEvent.serve env db (.resetPassword raw password, d)).1 = .error e

/-- The token is a reset token of the user that is stored here. -/
def LinkOf (env : Env) (raw : String) (userId : Uuid) (db : Db) : Prop :=
  ∃ t ∈ db.emailTokens, t.tokenHash = env.sha256 raw ∧ t.userId = userId ∧ t.purpose = "reset"

/-- A request that resets or changes the password of the user and is answered with success. -/
def ChangesPassword (env : Env) (db : Db) (a : AuthEvent) (userId : Uuid) : Prop :=
  match a.1 with
  | .resetPassword raw password =>
      ∃ t user, Resets env db a.2 raw password t user ∧ user.id = userId
  | .updateMe credentials body => body.password.isSome ∧
      (AuthEvent.serve env db a).1.toBool = true ∧ ActsFor env db credentials a.2.now userId
  | _ => False

/-- From here on no reset token that the user has been sent so far sets the password. -/
def LinksDead (env : Env) (userId : Uuid) (now : Timestamp) (db : Db) : Prop :=
  ∀ later : List AuthEvent,
    Along (authStep env) (fun db' => ∀ raw, LinkOf env raw userId db → LinkRefused env raw now db')
      db later

/-- The request presents this token. -/
def AuthRequest.resets : AuthRequest → Option String
  | .resetPassword raw _ => some raw
  | _ => none

/-- The request is given every reset token of the user that is unused and has not run out. -/
def GivenEveryLink (env : Env) (userId : Uuid) (db : Db) (a : AuthEvent) : Prop :=
  ∀ raw, ∀ t ∈ db.emailTokens, t.tokenHash = env.sha256 raw → t.userId = userId →
    t.purpose = "reset" → t.usedAt = none → a.2.now < t.expiresAt →
    a.1.resets.map env.sha256 = some (env.sha256 raw)

theorem refused_of_spent (h : UniqueLinks db ∧ LinkSpent (env.sha256 raw) now db) :
    LinkRefused env raw now db := by
  intro password d later
  obtain ⟨unique, t, ht, hhash, hspent⟩ := h
  have none_resets (s : EmailToken) (user : User) : ¬ Resets env db d raw password s user := by
    intro resets
    obtain ⟨hs, hshash, -, unused⟩ := link_facts resets.found
    obtain rfl := unique s hs t ht (hshash.trans hhash.symm)
    cases hspent with
    | inl used => exact used unused
    | inr expired => exact Int.not_le.mpr resets.unexpired (Int.le_trans expired later)
  obtain ⟨e, he⟩ := reset_refused none_resets
  simp only [AuthEvent.serve, AuthRequest.serve, Tx.atomically_map, he]
  exact ⟨e, rfl⟩

/-- What a change of the password leaves of the links and the account. -/
structure Changed (env : Env) (db : Db) (a : AuthEvent) (userId : Uuid) (db' : Db) : Prop where
  links : ∀ t ∈ db'.emailTokens, ∃ s ∈ db.emailTokens, t.tokenHash = s.tokenHash ∧
    t.userId = s.userId ∧ t.purpose = s.purpose ∧ t.expiresAt = s.expiresAt ∧
    (t.usedAt = none → s.usedAt = none)
  kept : ∀ s ∈ db.emailTokens, a.1.resets.map env.sha256 ≠ some s.tokenHash → s ∈ db'.emailTokens
  spent : ∀ t ∈ db'.emailTokens, a.1.resets.map env.sha256 = some t.tokenHash → t.usedAt ≠ none
  again : ∃ user password, db'.users.find? userId = some user ∧
    validatePassword env password user.email = pure ()

theorem changed_of_reset {password : String} {t : EmailToken} {user : User}
    (unique : UniqueLinks db) (h : Resets env db d raw password t user) :
    Changed env db (.resetPassword raw password, d) user.id
      ((resetPasswordEndpoint env raw password d).atomically backend db).2 := by
  obtain ⟨users, tokens, hserved, husers⟩ := reset_served h
  obtain ⟨ht, hhash, -, -⟩ := link_facts h.found
  have hlinks : ((resetPasswordEndpoint env raw password d).atomically backend db).2.emailTokens =
      db.emailTokens.update t.id fun r => { r with usedAt := some d.now } := by rw [hserved]
  have accounts : ((resetPasswordEndpoint env raw password d).atomically backend db).2.users =
      users := by rw [hserved]
  refine ⟨fun s hs => ?_, fun s hs other => ?_, fun s hs given => ?_, ?_⟩
  · rw [hlinks] at hs
    obtain ⟨r, hr, rfl⟩ := Table.mem_update.mp hs
    refine ⟨r, hr, ?_⟩
    split
    · exact ⟨rfl, rfl, rfl, rfl, fun h => by cases h⟩
    · exact ⟨rfl, rfl, rfl, rfl, id⟩
  · rw [hlinks]
    refine Table.mem_update.mpr ⟨s, hs, if_neg fun hid => other ?_⟩
    rw [Table.eq_of_key hs ht hid, hhash]
    rfl
  · rw [hlinks] at hs
    obtain ⟨r, hr, rfl⟩ := Table.mem_update.mp hs
    split at given
    · rename_i hid
      rw [if_pos hid]
      simp
    · rename_i hid
      have same : r.tokenHash = t.tokenHash := (Option.some.inj given).symm.trans hhash.symm
      exact absurd (congrArg EmailToken.id (unique r hr t ht same)) hid
  · have huser : db.users.find? user.id = some user :=
      (Table.key_of_find? h.owner).symm ▸ h.owner
    have patched : (db.users.update user.id
        (User.patch { passwordHash := some (env.hashPassword password) })).find? user.id =
        (db.users.find? user.id).map
          (User.patch { passwordHash := some (env.hashPassword password) }) :=
      Table.find?_update_self _
    refine ⟨user.patch { passwordHash := some (env.hashPassword password) }, password, ?_,
      h.accepted⟩
    rw [accounts, husers, patched, huser]
    rfl

theorem changed_of_update {credentials : Option Credentials} {body : MeUpdateRequest}
    (hpassword : body.password.isSome) (hacts : ActsFor env db credentials d.now userId)
    (hok : ((updateMeEndpoint env credentials body d).atomically backend db).1.toBool = true) :
    Changed env db (.updateMe credentials body, d) userId
      ((updateMeEndpoint env credentials body d).atomically backend db).2 := by
  obtain ⟨password, hpassword⟩ := Option.isSome_iff_exists.mp hpassword
  refine (Tx.atomically_iff (P := fun r db' => r.toBool = true →
    Changed env db (.updateMe credentials body, d) userId db')).mpr ?_ hok
  refine (wp_actsFor hacts).mpr (Tx.wp_bind.mpr ?_)
  rw [Tx.wp_query, Session.query_unflushed]
  simp only [Except.map, hpassword]
  cases huser : db.users.find? userId with
  | none => exact fun h => by cases h
  | some user =>
      dsimp only
      split
      · exact fun h => by cases h
      · refine Tx.Reads.wp_bind (reads_validatePassword _ _ _) (fun _ h => by cases h)
          fun _ hvalid => ?_
        have accepted : validatePassword env password user.email = pure () := by
          cases validatePassword_cases env password user.email with
          | inl accepted => exact accepted
          | inr refused =>
              obtain ⟨e, he⟩ := refused
              rw [he] at hvalid
              cases hvalid
        refine Tx.wp_bind.mpr (wp_revokeUserTokens (fun ids _ => ?_) fun _ _ h => by cases h)
        refine Tx.wp_bind.mpr (Tx.wp_stage.mpr (Tx.wp_bind.mpr
          (Tx.wp_commit_cases (fun db' happly => ?_) fun _ h => by cases h)))
        refine (reads_refreshRow _).wp.mpr fun _ => ?_
        cases happly
        obtain rfl : user.id = userId := Table.key_of_find? huser
        have patched : (db.users.update user.id (User.patch
            { fullName := body.fullName, passwordHash := some (env.hashPassword password) })).find?
            user.id = (db.users.find? user.id).map (User.patch
              { fullName := body.fullName, passwordHash := some (env.hashPassword password) }) :=
          Table.find?_update_self _
        refine ⟨fun t ht => ⟨t, ht, rfl, rfl, rfl, rfl, id⟩, fun s hs _ => hs,
          fun t ht given => (by cases given), ⟨user.patch
            { fullName := body.fullName, passwordHash := some (env.hashPassword password) },
            password, ?_, accepted⟩⟩
        rw [huser] at patched
        exact patched

theorem changed_of_changes {a : AuthEvent} (unique : UniqueLinks db)
    (h : ChangesPassword env db a userId) : Changed env db a userId (authStep env db a) := by
  obtain ⟨r, d⟩ := a
  cases r with
  | resetPassword raw password =>
      obtain ⟨t, user, resets, rfl⟩ := h
      simp only [authStep, AuthEvent.serve, AuthRequest.serve, Tx.atomically_map]
      exact changed_of_reset unique resets
  | updateMe credentials body =>
      simp only [ChangesPassword, AuthEvent.serve, AuthRequest.serve, Tx.atomically_map,
        toBool_map] at h
      simp only [authStep, AuthEvent.serve, AuthRequest.serve, Tx.atomically_map]
      exact changed_of_update h.1 h.2.2 h.2.1
  | _ => exact h.elim

/-- After a change of the password the user's earlier reset tokens set no password in any later
run if and only if the change was given every one of them that was unused and had not run out. -/
theorem earlier_links_die_iff (env : Env) (db : Db) (a : AuthEvent) (userId : Uuid)
    (unique : UniqueLinks db) (changes : ChangesPassword env db a userId) :
    LinksDead env userId a.2.now (authStep env db a) ↔ GivenEveryLink env userId db a := by
  have unique' : UniqueLinks (authStep env db a) := uniqueLinks_step a unique
  have changed := changed_of_changes unique changes
  generalize authStep env db a = db' at unique' changed ⊢
  constructor
  · intro dead raw t ht hhash huser hpurpose hunused unexpired
    by_contra other
    -- the token survives the change and sets the password once more
    have kept : t ∈ db'.emailTokens := changed.kept t ht (hhash ▸ other)
    have refused := (dead []).head raw ⟨t, kept, hhash, huser, hpurpose⟩
    obtain ⟨user, password, howner, accepted⟩ := changed.again
    have found : link? env raw "reset" db' = some t := by
      refine Table.find?_eq_some_of_unique kept (by simp [hhash, hpurpose, hunused])
        fun s hs hrow => ?_
      simp only [decide_eq_true_eq] at hrow
      exact unique' s hs t kept (hrow.1.trans hhash.symm)
    have resets : Resets env db' a.2 raw password t user :=
      ⟨found, unexpired, by rw [huser, howner], accepted⟩
    obtain ⟨users, tokens, hserved, -⟩ := reset_served resets
    obtain ⟨e, he⟩ := refused password a.2 (Int.le_refl _)
    simp only [AuthEvent.serve, AuthRequest.serve, Tx.atomically_map, hserved] at he
    cases he
  · intro given later
    have spent (raw : String) (hlink : LinkOf env raw userId db') :
        LinkSpent (env.sha256 raw) a.2.now db' := by
      obtain ⟨t, ht, hhash, huser, hpurpose⟩ := hlink
      refine ⟨t, ht, hhash, ?_⟩
      by_contra open'
      obtain ⟨hunused, unexpired⟩ := not_or.mp open'
      obtain ⟨s, hs, hsame, hsuser, hspurpose, hsexpires, hsused⟩ := changed.links t ht
      have unused : t.usedAt = none := Decidable.not_not.mp hunused
      have presented := given raw s hs (hsame.symm.trans hhash) (hsuser.symm.trans huser)
        (hspurpose.symm.trans hpurpose) (hsused unused) (hsexpires ▸ Int.not_le.mp unexpired)
      exact changed.spent t ht (hhash ▸ presented) unused
    have run : Along (authStep env) (fun mid => UniqueLinks mid ∧ ∀ raw, LinkOf env raw userId db' →
        LinkSpent (env.sha256 raw) a.2.now mid) db' later := by
      refine along_of_step (fun mid b h => ?_) ⟨unique', spent⟩
      exact ⟨uniqueLinks_step b h.1, fun raw hlink => linkSpent_step b (h.2 raw hlink)⟩
    exact run.mono fun mid h raw hlink => refused_of_spent ⟨h.1, h.2 raw hlink⟩

end Changes

section Alice

/-- A reset token of Alice's that is good for an hour. -/
def aliceLink (id : Uuid) (raw : String) : EmailToken where
  id
  userId := 1
  purpose := "reset"
  tokenHash := raw
  expiresAt := Timestamp.hours 1

/-- Alice has asked for a link once. -/
def oneLinkDb : Db := { aliceDb with emailTokens := ⟨[aliceLink 60 "first link"], by decide⟩ }

/-- Alice has asked for a link twice. -/
def twoLinksDb : Db :=
  { aliceDb with
    emailTokens := ⟨[aliceLink 60 "first link", aliceLink 61 "second link"], by decide⟩ }

def aliceReset (second : Nat) (raw : String) : AuthEvent :=
  (.resetPassword raw "a new passphrase", drawsAt second "unused")

theorem uniqueLinks_twoLinksDb : UniqueLinks twoLinksDb := by
  intro t ht s hs hhash
  have apart : ∀ t ∈ twoLinksDb.emailTokens.rows, ∀ s ∈ twoLinksDb.emailTokens.rows,
      t.tokenHash = s.tokenHash → t.id = s.id := by decide
  exact Table.eq_of_key ht hs (apart t ht s hs hhash)

/-- The second link sets the password after the first one has. -/
theorem second_link_still_works :
    UniqueLinks twoLinksDb ∧ ChangesPassword plainEnv twoLinksDb (aliceReset 1 "first link") 1 ∧
      ¬ LinksDead plainEnv 1 (Timestamp.seconds 1)
        (authStep plainEnv twoLinksDb (aliceReset 1 "first link")) := by
  refine ⟨uniqueLinks_twoLinksDb, ⟨_, alice, ⟨rfl, by decide, rfl, rfl⟩, rfl⟩, fun dead => ?_⟩
  have stored : LinkOf plainEnv "second link" 1
      (authStep plainEnv twoLinksDb (aliceReset 1 "first link")) :=
    ⟨aliceLink 61 "second link", List.mem_cons_of_mem _ List.mem_cons_self, rfl, rfl, rfl⟩
  obtain ⟨e, he⟩ := (dead []).head "second link" stored "a new passphrase" (drawsAt 2 "unused")
    (by decide)
  have works : (AuthEvent.serve plainEnv (authStep plainEnv twoLinksDb (aliceReset 1 "first link"))
      (aliceReset 2 "second link")).1.toBool = true := by decide +kernel
  rw [show (AuthEvent.serve plainEnv (authStep plainEnv twoLinksDb (aliceReset 1 "first link"))
    (aliceReset 2 "second link")).1 = .error e from he] at works
  cases works

/-- The one link that Alice has asked for is the one she uses. -/
theorem only_link_dies :
    LinksDead plainEnv 1 (Timestamp.seconds 1)
      (authStep plainEnv oneLinkDb (aliceReset 1 "first link")) := by
  have unique : UniqueLinks oneLinkDb := by
    intro t ht s hs _
    rw [List.mem_singleton.mp ht, List.mem_singleton.mp hs]
  refine (earlier_links_die_iff plainEnv oneLinkDb (aliceReset 1 "first link") 1 unique
    ⟨_, alice, ⟨rfl, by decide, rfl, rfl⟩, rfl⟩).mpr ?_
  rintro raw t ht hhash - - - -
  rw [List.mem_singleton.mp ht] at hhash
  exact congrArg some hhash

end Alice
end DolphinVC
