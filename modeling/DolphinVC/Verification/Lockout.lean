import DolphinVC.Routers.Auth
import DolphinVC.Db.Frame

/-!
# The login lockout

`login` counts wrong passwords on the account row and, at the fifth, sets
`locked_until`. It then raises, the endpoint never reaches its commit, and the
counter is lost with the session. A login request therefore changes the database
only when it succeeds.
-/

namespace DolphinVC

open Transaction

structure LoginAttempt where
  email : String
  password : String
  draws : Draws

namespace LoginAttempt

/-- The stored hash does not verify the password, or there is none. -/
def Wrong (env : Env) (user : User) (a : LoginAttempt) : Prop :=
  user.passwordHash.any (fun h => env.verifyPassword h a.password) = false

/-- One `POST /auth/login`, served alone on the committed database. -/
def serve (env : Env) (db : Db) (a : LoginAttempt) : Except Exc IssuedTokens × Db :=
  (loginEndpoint env a.email a.password a.draws).atomically backend db

def step (env : Env) (db : Db) (a : LoginAttempt) : Db := (a.serve env db).2

end LoginAttempt

section Request

variable {env : Env} {db : Db} {user : User} {a : LoginAttempt}

theorem serve_locked (account : accountByEmail env a.email db = some user)
    (locked : user.lockedUntil.any (fun t => a.draws.now < t) = true) :
    a.serve env db = (.error rateLimited, db) := by
  have h : Tx.WP backend (fun r db' _ => r = .error rateLimited ∧ db' = db)
      (loginEndpoint env a.email a.password a.draws) db {} := by
    simp [loginEndpoint, login, Tx.wp_bind, account, locked, Except.map]
  exact Prod.ext h.1 h.2

/-- The failure branch flushes the counter and then drops it by raising. -/
theorem serve_wrong (account : accountByEmail env a.email db = some user)
    (wrong : a.Wrong env user)
    (unlocked : user.lockedUntil.any (fun t => a.draws.now < t) = false) :
    a.serve env db =
      (.error (Exc.unauthenticated "UNAUTHENTICATED" "Invalid email or password."), db) := by
  have flushed (set : UserPatch) :
      (Session.flush backend db none (Session.stage {} (.updateUser user.id set))).1 = .ok () := rfl
  have h : Tx.WP backend
      (fun r db' _ => r = .error (Exc.unauthenticated "UNAUTHENTICATED"
        "Invalid email or password.") ∧ db' = db)
      (loginEndpoint env a.email a.password a.draws) db {} := by
    unfold LoginAttempt.Wrong at wrong
    simp [loginEndpoint, login, Tx.wp_bind, account, unlocked, wrong, Except.map, flushed]
  exact Prod.ext h.1 h.2

/-- A request with a wrong password leaves the database as it was. -/
theorem step_wrong (account : accountByEmail env a.email db = some user)
    (wrong : a.Wrong env user) : a.step env db = db := by
  cases hl : user.lockedUntil.any (fun t => a.draws.now < t) with
  | true => rw [LoginAttempt.step, serve_locked account hl]
  | false => rw [LoginAttempt.step, serve_wrong account wrong hl]

theorem foldl_step_idle {attempts : List LoginAttempt}
    (idle : ∀ a ∈ attempts, a.step env db = db) :
    attempts.foldl (LoginAttempt.step env) db = db := by
  induction attempts with
  | nil => rfl
  | cons a as ih =>
      rw [List.foldl_cons, idle a List.mem_cons_self]
      exact ih fun b hb => idle b (List.mem_cons_of_mem a hb)

/-- The write leaves no account locked. -/
def Write.LockFree : Write → Prop
  | .insertUser row => row.lockedUntil = none
  | .updateUser _ set => set.lockedUntil = none ∨ set.lockedUntil = some none
  | _ => True

def Unlocked (db : Db) : Prop := ∀ u ∈ db.users, u.lockedUntil = none

theorem unlocked_apply {db' : Db} {w : Write} (hw : w.LockFree) (hu : Unlocked db)
    (h : db.apply w = .ok db') : Unlocked db' := by
  obtain ⟨row, rfl, hins⟩ | ⟨id, set, rfl, hupd⟩ | ⟨-, hsame⟩ := users_apply h
  · intro u hmem
    obtain hmem | rfl := (Relational.Table.mem_insert? hins).mp hmem
    · exact hu u hmem
    · exact hw
  · intro u hmem
    rw [hupd] at hmem
    obtain ⟨v, hv, rfl⟩ := Relational.Table.mem_update.mp hmem
    split
    · simp only [User.patch]
      obtain hw | hw := hw
      · rw [hw]
        exact hu v hv
      · rw [hw]
        rfl
    · exact hu v hv
  · intro u hmem
    exact hu u (hsame ▸ hmem)

theorem login_commits_lockFree {email password : String} {d : Draws} :
    Tx.Commits (Journal.All Write.LockFree)
      (fun r j => ∀ a, r = .ok a → j.All Write.LockFree) (login env email password d) {} := by
  simp only [login, Tx.commits_bind, Tx.commits_query]
  refine ⟨fun s => ?_, by simp⟩
  cases accountByEmail env email s with
  | none => simp
  | some user =>
      dsimp only
      split
      · simp
      · split
        · simp [Tx.commits_bind]
        · split
          · simp
          · simp [issueTokens, Tx.commits_bind, Write.LockFree, changed]
            exact Decidable.em _

/-- Everything a login request commits leaves the accounts unlocked. -/
theorem loginEndpoint_commits_lockFree :
    Tx.Commits (Journal.All Write.LockFree) (fun _ _ => True)
      (loginEndpoint env a.email a.password a.draws) {} := by
  rw [loginEndpoint, Tx.commits_bind]
  refine Program.Commits.mono login_commits_lockFree ?_
  rintro (e | ⟨user, tokens⟩) j hj
  · trivial
  · refine Program.Commits.mono (Tx.Emits.commits (Tx.Emits.bind (Tx.Emits.query _)
      fun org? => ?_) (hj _ rfl)) fun _ _ _ => trivial
    refine Tx.Emits.bind Tx.Emits.commit fun _ =>
      Tx.Emits.bind (reads_refreshRow _).emits fun _ => ?_
    cases org? with
    | none => exact Tx.Emits.pure _
    | some org => exact Tx.Emits.bind (reads_refreshRow _).emits fun _ => Tx.Emits.pure _

/-- A login request locks no account. -/
theorem unlocked_step (hu : Unlocked db) : Unlocked (a.step env db) :=
  Tx.Commits.atomically loginEndpoint_commits_lockFree
    (fun _ _ _ hw hdb happly => unlocked_apply hw hdb happly) hu

end Request

section Law

/-- After the attempts, every request on the account in the 15 minutes after the last
of them is answered `RATE_LIMITED`, whatever its password and whatever requests of
that window came before it. -/
def LockoutTakesEffect (env : Env) (db : Db) (user : User) (attempts : List LoginAttempt)
    (last : LoginAttempt) : Prop :=
  ∀ (later : List LoginAttempt) (a : LoginAttempt),
    (∀ b ∈ later ++ [a], accountByEmail env b.email db = some user ∧
      last.draws.now ≤ b.draws.now ∧ b.draws.now < last.draws.now + Timestamp.minutes 15) →
    (a.serve env ((attempts ++ later).foldl (LoginAttempt.step env) db)).1 = .error rateLimited

variable {env : Env} {db : Db} {user : User} {attempts : List LoginAttempt} {last : LoginAttempt}

/-- After any number of wrong passwords, five included, the law holds exactly for an
account that was locked for the whole window before the first of them. -/
theorem lockout_takes_effect_iff (env : Env) (db : Db) (user : User)
    (attempts : List LoginAttempt) (last : LoginAttempt) (final : attempts.getLast? = some last)
    (account : ∀ a ∈ attempts, accountByEmail env a.email db = some user)
    (wrong : ∀ a ∈ attempts, a.Wrong env user) :
    LockoutTakesEffect env db user attempts last ↔
      ∃ t, user.lockedUntil = some t ∧ last.draws.now + Timestamp.minutes 15 ≤ t := by
  have idle : attempts.foldl (LoginAttempt.step env) db = db :=
    foldl_step_idle fun a ha => step_wrong (account a ha) (wrong a ha)
  have hlast : last ∈ attempts := List.mem_of_getLast? final
  constructor
  · intro law
    by_contra hno
    -- the last wrong password once more, when the old lock, if any, has run out
    have probe (now : Timestamp) (after : last.draws.now ≤ now)
        (before : now < last.draws.now + Timestamp.minutes 15)
        (unlocked : user.lockedUntil.any (fun t => now < t) = false) : False := by
      have hacc := account last hlast
      have h := law [] { last with draws := { last.draws with now } } (by
        intro b hb
        obtain rfl := List.mem_singleton.mp hb
        exact ⟨hacc, after, before⟩)
      rw [List.append_nil, idle, serve_wrong (a := { last with draws := { last.draws with now } })
        hacc (wrong last hlast) unlocked] at h
      simp [rateLimited, Exc.unauthenticated] at h
    have window : last.draws.now < last.draws.now + Timestamp.minutes 15 := by
      simp only [Timestamp.minutes]
      exact Int.lt_add_of_pos_right _ (by decide)
    cases hl : user.lockedUntil with
    | none => exact probe last.draws.now (Int.le_refl _) window (by rw [hl]; rfl)
    | some t =>
        have ht : t < last.draws.now + Timestamp.minutes 15 :=
          Int.not_le.mp fun hle => hno ⟨t, hl, hle⟩
        refine probe (max last.draws.now t) (Int.le_max_left _ _) (Int.max_lt.mpr ⟨window, ht⟩) ?_
        simp only [hl, Option.any_some, decide_eq_false_iff_not]
        exact Int.not_lt.mpr (Int.le_max_right _ _)
  · rintro ⟨t, ht, hle⟩ later a hwindow
    have locked : ∀ b ∈ later ++ [a], user.lockedUntil.any (fun t => b.draws.now < t) = true := by
      intro b hb
      simp only [ht, Option.any_some, decide_eq_true_eq]
      exact Int.lt_of_lt_of_le (hwindow b hb).2.2 hle
    have idle' : later.foldl (LoginAttempt.step env) db = db :=
      foldl_step_idle fun b hb => by
        have hb : b ∈ later ++ [a] := List.mem_append_left _ hb
        rw [LoginAttempt.step, serve_locked (hwindow b hb).1 (locked b hb)]
    have ha : a ∈ later ++ [a] := List.mem_append_right _ List.mem_cons_self
    rw [List.foldl_append, idle, idle', serve_locked (hwindow a ha).1 (locked a ha)]

end Law

section Account

def alice : User :=
  { id := 1, orgId := 1, email := "alice@fund.com", passwordHash := some "correct horse battery"
    fullName := "Alice", role := .owner }

def aliceDb : Db where
  orgs := ⟨[{ id := 1, name := "Fund", slug := "fund" }], by decide⟩
  users := ⟨[alice], by decide⟩

/-- The draws of the request at the given second; the issued token is named after it. -/
def drawsAt (second : Nat) (raw : String) : Draws where
  now := Timestamp.seconds second
  id := 100 + second
  familyId := 200 + second
  rawRefresh := raw

/-- A request on Alice's account at the given minute. -/
def aliceAttempt (password : String) (minute : Int) : LoginAttempt where
  email := "alice@fund.com"
  password
  draws := { now := Timestamp.minutes minute, id := 7, familyId := 8, rawRefresh := "token" }

/-- Five wrong passwords in a row, and a minute later the right one is let in. -/
theorem five_failures_do_not_lock :
    (List.replicate 5 (aliceAttempt "guess" 0)).length = 5 ∧
    (∀ a ∈ List.replicate 5 (aliceAttempt "guess" 0),
      accountByEmail plainEnv a.email aliceDb = some alice ∧ a.Wrong plainEnv alice) ∧
    ¬ LockoutTakesEffect plainEnv aliceDb alice (List.replicate 5 (aliceAttempt "guess" 0))
      (aliceAttempt "guess" 0) := by
  refine ⟨rfl, ?_, ?_⟩
  · intro a ha
    obtain rfl := List.eq_of_mem_replicate ha
    exact ⟨rfl, rfl⟩
  · intro law
    have h := law [] (aliceAttempt "correct horse battery" 1) (by
      intro b hb
      obtain rfl := List.mem_singleton.mp hb
      exact ⟨rfl, by decide, by decide⟩)
    have hok := congrArg Except.toBool h
    revert hok
    decide

/-- The same attempts on an account that was already locked for two hours. -/
theorem lockout_of_locked_account :
    LockoutTakesEffect plainEnv
      { aliceDb with
        users := aliceDb.users.update 1 fun u =>
          { u with lockedUntil := some (Timestamp.hours 2) } }
      { alice with lockedUntil := some (Timestamp.hours 2) }
      (List.replicate 5 (aliceAttempt "guess" 0)) (aliceAttempt "guess" 0) :=
  (lockout_takes_effect_iff plainEnv _ _ _ _ rfl
    (fun a ha => by
      obtain rfl := List.eq_of_mem_replicate ha
      rfl)
    (fun a ha => by
      obtain rfl := List.eq_of_mem_replicate ha
      rfl)).mpr ⟨Timestamp.hours 2, rfl, by decide⟩

end Account
end DolphinVC
