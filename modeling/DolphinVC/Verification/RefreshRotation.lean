import DolphinVC.Transition.Run
import DolphinVC.Verification.AuthWrites
import DolphinVC.Verification.Lockout

/-!
# Concurrent refresh requests

Here requests interleave statement by statement. A rotation reads the record, decides
on what it read, and commits its revocation without looking again, so two requests
can both find the record live. `RotatesAsLoaded` is the condition that rules this out:
the row is, when the rotation commits, still the row that was loaded. Under it every
token is answered with new tokens at most once and every family keeps at most one
live token.
-/

namespace DolphinVC

open Relational Transaction Transition

/-- A request in flight ends with its answer, tagged with the request. -/
abbrev AuthWorld :=
  Transaction.World Db Write Exc Call (AuthRequest × Except Exc (Option IssuedTokens))

abbrev AuthAct := Act Db Write Exc Call (AuthRequest × Except Exc (Option IssuedTokens))

def AuthRequest.program (env : Env) (d : Draws) (r : AuthRequest) :
    Program Db Write Exc Call (AuthRequest × Except Exc (Option IssuedTokens)) :=
  (r.serve env d).run.bind fun answer => .done (r, answer)

/-- Only authentication requests arrive. -/
def AuthAct.Arrives (env : Env) (a : AuthAct) : Prop :=
  ∀ p, a = .spawn p → ∃ (r : AuthRequest) (d : Draws), p = r.program env d

/-- The request of this thread has answered the presented token with new tokens. -/
def Answered (w : AuthWorld) (i : Nat) (raw : String) : Prop :=
  ∃ t r tokens, w.threads[i]? = some t ∧ t.prog = .done (r, .ok tokens) ∧ r.presents = some raw

/-- Each token is answered with new ones at most once; a family has at most one live token. -/
structure SingleUse (w : AuthWorld) : Prop where
  once : ∀ i j raw, Answered w i raw → Answered w j raw → i = j
  oneLive : ∀ t ∈ w.db.refreshTokens, ∀ s ∈ w.db.refreshTokens, t.familyId = s.familyId →
    t.revokedAt = none → s.revokedAt = none → t = s

/-- A commit that rotates a row finds it as it was loaded. -/
def RotatesAsLoaded (w : AuthWorld) (a : AuthAct) : Prop :=
  ∀ ws, w.writeSet a = some ws → ∀ loaded ∈ ws.filterMap Write.rotates,
    w.db.refreshTokens.find? loaded.id = some loaded

/-- A commit that opens a session does so in a family that no token has: `uuid4`. -/
def OpensFreshFamily (w : AuthWorld) (a : AuthAct) : Prop :=
  ∀ ws familyId, w.writeSet a = some ws → Opens familyId ws →
    ∀ t ∈ w.db.refreshTokens, t.familyId ≠ familyId

section Tokens

variable {db db' : Db} {w : Write} {ws : List Write}

def OneLive (db : Db) : Prop :=
  ∀ t ∈ db.refreshTokens, ∀ s ∈ db.refreshTokens, t.familyId = s.familyId →
    t.revokedAt = none → s.revokedAt = none → t = s

/-- A token with this hash exists and is revoked. -/
def Spent (hash : String) (db : Db) : Prop :=
  ∃ t ∈ db.refreshTokens, t.tokenHash = hash ∧ t.revokedAt ≠ none

theorem spent_apply {hash : String} (hs : Spent hash db) (h : db.apply w = .ok db') :
    Spent hash db' := by
  obtain ⟨t, ht, hhash, hrev⟩ := hs
  rcases refreshTokens_apply h with ⟨row, rfl, -, hins⟩ | ⟨loaded, at', reason, rfl, hupd⟩ |
    ⟨ids, live, at', reason, rfl, hupd⟩ | ⟨-, hsame⟩
  · exact ⟨t, (Table.mem_insert? hins).mpr (Or.inl ht), hhash, hrev⟩
  · rw [Spent, hupd]
    refine ⟨_, Table.mem_update.mpr ⟨t, ht, rfl⟩, ?_⟩
    split
    · exact ⟨hhash, by simp⟩
    · exact ⟨hhash, hrev⟩
  · rw [Spent, hupd]
    refine ⟨_, Table.mem_updateWhere.mpr ⟨t, ht, rfl⟩, ?_⟩
    split
    · exact ⟨hhash, by simp⟩
    · exact ⟨hhash, hrev⟩
  · exact ⟨t, hsame ▸ ht, hhash, hrev⟩

theorem spent_applyAll {hash : String} (hs : Spent hash db)
    (h : backend.applyAll db ws = .ok db') : Spent hash db' :=
  Backend.applyAll_inv (Φ := fun _ => True) (fun _ _ _ _ hs h => spent_apply hs h)
    (fun _ _ => trivial) hs h

theorem live_of_settled (hsettled : ∀ w ∈ ws, w.Settled) (h : backend.applyAll db ws = .ok db')
    {t : RefreshToken} (ht : t ∈ db'.refreshTokens) (hlive : t.revokedAt = none) :
    t ∈ db.refreshTokens :=
  (live_applyAll h ht hlive).resolve_right fun hmem => by
    simpa [Write.issues] using (hsettled _ hmem).1

theorem oneLive_of_settled (ho : OneLive db) (hsettled : ∀ w ∈ ws, w.Settled)
    (h : backend.applyAll db ws = .ok db') : OneLive db' :=
  fun t ht s hs hf htl hsl =>
    ho t (live_of_settled hsettled h ht htl) s (live_of_settled hsettled h hs hsl) hf htl hsl

/-- A session opened in a new family adds the only token of that family. -/
theorem oneLive_of_opens {familyId : Uuid} (hu : UniqueHashes db) (ho : OneLive db)
    (hopens : Opens familyId ws) (fresh : ∀ t ∈ db.refreshTokens, t.familyId ≠ familyId)
    (h : backend.applyAll db ws = .ok db') : OneLive db' := by
  obtain ⟨⟨row, hrow, hfam⟩, -⟩ := hopens
  -- a live token is old, or it is the inserted row
  have origin (t : RefreshToken) (ht : t ∈ db'.refreshTokens) (hlive : t.revokedAt = none) :
      t ∈ db.refreshTokens ∨ t.asIssued = row := by
    obtain hold | hnew := live_applyAll h ht hlive
    · exact Or.inl hold
    · exact Or.inr (List.mem_singleton.mp (hrow ▸ mem_issues_of_insert hnew))
  have family {t : RefreshToken} (h : t.asIssued = row) : t.familyId = familyId :=
    (congrArg RefreshToken.familyId h).trans hfam
  intro t ht s hs hf htl hsl
  obtain hto | htn := origin t ht htl
  · obtain hso | hsn := origin s hs hsl
    · exact ho t hto s hso hf htl hsl
    · exact absurd (hf.trans (family hsn)) (fresh t hto)
  · obtain hso | hsn := origin s hs hsl
    · exact absurd (hf.symm.trans (family htn)) (fresh s hso)
    · have hhash := congrArg RefreshToken.tokenHash (htn.trans hsn.symm)
      exact (uniqueHashes_applyAll hu h).eq_of_hash ht hs hhash

/-- A rotation leaves the token it rotates revoked. -/
theorem spent_of_rotates {loaded : RefreshToken} (hrot : RotatesRow loaded ws)
    (hloaded : db.refreshTokens.find? loaded.id = some loaded)
    (h : backend.applyAll db ws = .ok db') : Spent loaded.tokenHash db' := by
  obtain ⟨at', child, rfl, -⟩ := hrot
  obtain ⟨mid, hmid, hrest⟩ := Backend.applyAll_cons_eq_ok.mp h
  refine spent_applyAll ?_ hrest
  have hupd : mid.refreshTokens =
      db.refreshTokens.update loaded.id (RefreshToken.revoke at' "rotated") := by
    cases hmid
    rfl
  rw [Spent, hupd]
  refine ⟨_, Table.mem_update.mpr ⟨loaded, Table.mem_of_find? hloaded, rfl⟩, ?_⟩
  rw [if_pos rfl]
  exact ⟨rfl, by simp⟩

/-- A rotation of a live row passes the family's only live token on to the child. -/
theorem oneLive_of_rotates {loaded : RefreshToken} (hu : UniqueHashes db) (ho : OneLive db)
    (hrot : RotatesRow loaded ws) (hloaded : db.refreshTokens.find? loaded.id = some loaded)
    (h : backend.applyAll db ws = .ok db') : OneLive db' := by
  have hu' : UniqueHashes db' := uniqueHashes_applyAll hu h
  obtain ⟨spent, hspent, hhash, hrevoked⟩ := spent_of_rotates hrot hloaded h
  obtain ⟨at', child, rfl, hlive, hfam, -⟩ := hrot
  have hmem : loaded ∈ db.refreshTokens := Table.mem_of_find? hloaded
  -- a live token is the child, or it is old and of another family
  have origin (t : RefreshToken) (ht : t ∈ db'.refreshTokens) (htl : t.revokedAt = none) :
      t = child ∨ (t ∈ db.refreshTokens ∧ t.familyId ≠ loaded.familyId) := by
    obtain hold | hnew := live_applyAll h ht htl
    · refine Or.inr ⟨hold, fun hf => ?_⟩
      obtain rfl := ho t hold loaded hmem hf htl hlive
      exact hrevoked (hu'.eq_of_hash hspent ht hhash ▸ htl)
    · simp only [List.mem_cons, Write.insertRefreshToken.injEq, List.not_mem_nil, or_false,
        reduceCtorEq, false_or] at hnew
      exact Or.inl hnew
  intro t ht s hs hf htl hsl
  obtain rfl | ⟨hto, htf⟩ := origin t ht htl
  · obtain rfl | ⟨-, hsf⟩ := origin s hs hsl
    · rfl
    · exact absurd (hf.symm.trans hfam) hsf
  · obtain rfl | ⟨hso, -⟩ := origin s hs hsl
    · exact absurd (hf.trans hfam) htf
    · exact ho t hto s hso hf htl hsl

end Tokens

section Rotations

variable {env : Env} {w : AuthWorld} {a : AuthAct}

/-- The rows that thread `i` has rotated. -/
def rotations (w : AuthWorld) (i : Nat) : List RefreshToken :=
  (w.committed i).flatten.filterMap Write.rotates

/-- What every action that meets the conditions keeps. -/
structure RotationInvariant (env : Env) (w : AuthWorld) : Prop where
  obeys : w.Obeys (fun j => TokenWrites env j.pending)
    (fun answer j => ∀ raw, answer.1.presents = some raw → Rotated env raw answer.2 j)
  hashes : UniqueHashes w.db
  oneLive : OneLive w.db
  spent : ∀ i, ∀ row ∈ rotations w i, Spent row.tokenHash w.db
  once : ∀ i j, ∀ row ∈ rotations w i, ∀ other ∈ rotations w j,
    row.tokenHash = other.tokenHash → i = j

theorem program_commits (r : AuthRequest) (d : Draws) :
    (r.program env d).Commits (fun j => TokenWrites env j.pending)
      (fun answer j => ∀ raw, answer.1.presents = some raw → Rotated env raw answer.2 j) {} :=
  Program.commits_bind.mpr (serve_commits r)

/-- A thread that answered with tokens has rotated the row of the presented one. -/
theorem rotation_of_answered (hI : RotationInvariant env w) {i : Nat} {raw : String}
    (h : Answered w i raw) : ∃ row ∈ rotations w i, row.tokenHash = env.sha256 raw := by
  obtain ⟨t, r, tokens, hi, hdone, hraw⟩ := h
  obtain ⟨ws, hws, loaded, hhash, at', child, rfl, -⟩ :=
    (hI.obeys t (List.mem_of_getElem? hi)).done hdone raw hraw _ rfl
  refine ⟨loaded, ?_, hhash⟩
  have hcommitted : w.committed i = t.session.journal.committed := by
    simp only [World.committed, hi]
    rfl
  rw [rotations, hcommitted, hws]
  simp [Write.rotates]

theorem RotationInvariant.singleUse (hI : RotationInvariant env w) : SingleUse w where
  once := by
    intro i j raw hi hj
    obtain ⟨row, hrow, hhash⟩ := rotation_of_answered hI hi
    obtain ⟨other, hother, hhash'⟩ := rotation_of_answered hI hj
    exact hI.once i j row hrow other hother (hhash.trans hhash'.symm)
  oneLive := hI.oneLive

theorem rotations_append {ws : List Write} {i : Nat} {w' : AuthWorld}
    (h : w'.committed i = w.committed i ++ [ws]) :
    rotations w' i = rotations w i ++ ws.filterMap Write.rotates := by
  rw [rotations, h, List.flatten_append, List.flatten_singleton, List.filterMap_append, rotations]

/-- The step lemma: each kind of write set, committed under the conditions, keeps the
invariant. -/
theorem rotationInvariant_act (hI : RotationInvariant env w) (arrives : a.Arrives env)
    (asLoaded : RotatesAsLoaded w a) (fresh : OpensFreshFamily w a) :
    RotationInvariant env (w.act backend a) := by
  have hobeys := hI.obeys.act (B := backend) (a := a) fun p hp => by
    obtain ⟨r, d, rfl⟩ := arrives p hp
    exact program_commits r d
  -- without a new rotation it is enough that the store keeps its part
  have quiet (hrot : ∀ i, rotations (w.act backend a) i = rotations w i)
      (hu : UniqueHashes (w.act backend a).db) (ho : OneLive (w.act backend a).db)
      (hs : ∀ hash, Spent hash w.db → Spent hash (w.act backend a).db) :
      RotationInvariant env (w.act backend a) := by
    refine ⟨hobeys, hu, ho, ?_, ?_⟩
    · intro i row hrow
      rw [hrot] at hrow
      exact hs _ (hI.spent i row hrow)
    · intro i j row hrow other hother
      rw [hrot] at hrow hother
      exact hI.once i j row hrow other hother
  rcases World.act_cases (B := backend) (w := w) (a := a) with
    ⟨hdb, hsame⟩ | ⟨i, ws, hw, happly, hown, hothers⟩
  · refine quiet (fun i => ?_) (hdb ▸ hI.hashes) (hdb ▸ hI.oneLive) (fun _ h => hdb ▸ h)
    rw [rotations, hsame, rotations]
  · have hu := uniqueHashes_applyAll hI.hashes happly
    have hs (hash : String) (h : Spent hash w.db) := spent_applyAll h happly
    have hrotations (k : Nat) : rotations (w.act backend a) k =
        rotations w k ++ if k = i then ws.filterMap Write.rotates else [] := by
      by_cases hk : k = i
      · rw [if_pos hk, hk, rotations_append hown]
      · rw [if_neg hk, List.append_nil, rotations, hothers k hk, rotations]
    have unchanged (hnone : ws.filterMap Write.rotates = []) (k : Nat) :
        rotations (w.act backend a) k = rotations w k := by
      rw [hrotations, hnone, ite_self, List.append_nil]
    obtain ⟨j, hj, hwrites⟩ := hI.obeys.writeSet hw
    rw [hj] at hwrites
    obtain hsettled | ⟨familyId, hopens⟩ | ⟨raw, loaded, hhash, hrot⟩ := hwrites
    · exact quiet (unchanged (rotates_of_settled hsettled)) hu
        (oneLive_of_settled hI.oneLive hsettled happly) hs
    · exact quiet (unchanged hopens.2) hu
        (oneLive_of_opens hI.hashes hI.oneLive hopens (fresh ws familyId hw hopens) happly) hs
    · have hnew : ws.filterMap Write.rotates = [loaded] := by
        obtain ⟨at', child, rfl, -⟩ := hrot
        simp [Write.rotates]
      have hloaded := asLoaded ws hw loaded (by simp [hnew])
      have hlive : loaded.revokedAt = none := by
        obtain ⟨at', child, -, hlive, -⟩ := hrot
        exact hlive
      -- a live row has not been rotated by anyone
      have unspent (k : Nat) (row : RefreshToken) (hrow : row ∈ rotations w k) :
          row.tokenHash ≠ loaded.tokenHash := by
        intro hsame
        obtain ⟨t, ht, hthash, htrev⟩ := hI.spent k row hrow
        have := hI.hashes.eq_of_hash ht (Table.mem_of_find? hloaded) (hthash.trans hsame)
        exact htrev (this ▸ hlive)
      have mem_cases (k : Nat) (row : RefreshToken)
          (hrow : row ∈ rotations (w.act backend a) k) :
          row ∈ rotations w k ∨ (k = i ∧ row = loaded) := by
        rw [hrotations, hnew] at hrow
        obtain hold | hadded := List.mem_append.mp hrow
        · exact Or.inl hold
        · by_cases hk : k = i
          · rw [if_pos hk] at hadded
            exact Or.inr ⟨hk, List.mem_singleton.mp hadded⟩
          · rw [if_neg hk] at hadded
            cases hadded
      refine ⟨hobeys, hu, oneLive_of_rotates hI.hashes hI.oneLive hrot hloaded happly, ?_, ?_⟩
      · intro k row hrow
        obtain hold | ⟨-, rfl⟩ := mem_cases k row hrow
        · exact hs _ (hI.spent k row hold)
        · exact spent_of_rotates hrot hloaded happly
      · intro k l row hrow other hother hsame
        obtain hold | ⟨rfl, rfl⟩ := mem_cases k row hrow
        · obtain hold' | ⟨-, rfl⟩ := mem_cases l other hother
          · exact hI.once k l row hold other hold' hsame
          · exact absurd hsame (unspent k row hold)
        · obtain hold' | ⟨rfl, -⟩ := mem_cases l other hother
          · exact absurd hsame.symm (unspent l other hold')
          · rfl

end Rotations

section Runs

/-- In every schedule of authentication requests whose rotations all commit on the row
as they loaded it, each token is answered with new tokens at most once and no state has a
family with two live tokens. -/
theorem rotation_single_use (env : Env) (db : Db) (schedule : List AuthAct)
    (hashes : UniqueHashes db) (oneLive : OneLive db)
    (arrives : ∀ a ∈ schedule, a.Arrives env)
    (fresh : Meets (World.act backend) OpensFreshFamily { db } schedule)
    (asLoaded : Meets (World.act backend) RotatesAsLoaded { db } schedule) :
    Along (World.act backend) SingleUse { db } schedule := by
  have hnone (i : Nat) : rotations { db } i = [] := by
    simp [rotations, World.committed]
  have start : RotationInvariant env { db } := by
    refine ⟨fun t ht => ?_, hashes, oneLive, fun i row hrow => ?_, fun i j row hrow => ?_⟩
    · cases ht
    · simp [hnone] at hrow
    · simp [hnone] at hrow
  have marks : Meets (World.act backend) (fun _ (a : AuthAct) => a.Arrives env) { db } schedule :=
    meets_of_mem arrives
  have run := marks.and (asLoaded.and fresh)
  have keep : Along (World.act backend) (RotationInvariant env) { db } schedule :=
    along_of_meets (fun _ _ hI hc => rotationInvariant_act hI hc.1 hc.2.1 hc.2.2) start run
  exact keep.mono fun _ hI => hI.singleUse

/-- Alice has one session, with one token. -/
def aliceSession : Db :=
  { aliceDb with
    refreshTokens := ⟨[
      { id := 100, userId := 1, tokenHash := "first", familyId := 200
        expiresAt := Timestamp.days 14 }], by decide⟩ }

theorem oneLive_aliceSession : OneLive aliceSession := by
  intro t ht s hs _ _ _
  rw [List.mem_singleton.mp ht, List.mem_singleton.mp hs]

def aliceRefresh (second : Nat) (issued : String) :
    Program Db Write Exc Call (AuthRequest × Except Exc (Option IssuedTokens)) :=
  (AuthRequest.refresh { refreshToken := some "first" }).program plainEnv (drawsAt second issued)

/-- Two requests with the same token: both read the record before either commits. -/
def racingRefreshes : List AuthAct :=
  [.spawn (aliceRefresh 1 "second"), .spawn (aliceRefresh 2 "third"), .step 0 none, .step 1 none] ++
    List.replicate 5 (.step 0 none) ++ List.replicate 5 (.step 1 none)

theorem refresh_twice :
    (∀ a ∈ racingRefreshes, a.Arrives plainEnv) ∧ UniqueHashes aliceSession ∧
      OneLive aliceSession ∧
      ¬ Along (World.act backend) SingleUse { db := aliceSession } racingRefreshes := by
  refine ⟨?_, List.nodup_singleton _, oneLive_aliceSession, ?_⟩
  · simp only [racingRefreshes, List.forall_mem_append, List.forall_mem_cons]
    refine ⟨⟨⟨?_, ?_, ?_, ?_, ?_⟩, ?_⟩, ?_⟩
    · rintro p ⟨⟩
      exact ⟨_, _, rfl⟩
    · rintro p ⟨⟩
      exact ⟨_, _, rfl⟩
    all_goals simp [AuthAct.Arrives]
  · intro run
    have both := run.last.once 0 1 "first" ⟨_, _, _, rfl, rfl, rfl⟩ ⟨_, _, _, rfl, rfl, rfl⟩
    cases both

/-- The second request with the token starts after the first has answered. -/
def refreshesInTurn : List AuthAct :=
  .spawn (aliceRefresh 1 "second") :: List.replicate 6 (.step 0 none) ++
    .spawn (aliceRefresh 2 "third") :: List.replicate 6 (.step 1 none)

/-- The first commits its rotation on the row it loaded, and the second is refused. -/
theorem second_refresh_refused :
    Along (World.act backend) SingleUse { db := aliceSession } refreshesInTurn ∧
      ∃ t r e, (refreshesInTurn.foldl (World.act backend) { db := aliceSession }).threads[1]? =
        some t ∧ t.prog = .done (r, .error e) := by
  have asLoaded : Meets (World.act backend) (fun w a => ∀ ws ∈ w.writeSet a,
      ∀ loaded ∈ ws.filterMap Write.rotates, w.db.refreshTokens.find? loaded.id = some loaded)
      { db := aliceSession } refreshesInTurn := by decide +kernel
  have opensNone : Meets (World.act backend) (fun w a => ∀ ws ∈ w.writeSet a,
      ws.flatMap Write.issues = [] ∨ ws.filterMap Write.rotates ≠ [])
      { db := aliceSession } refreshesInTurn := by decide +kernel
  refine ⟨rotation_single_use plainEnv aliceSession _ (List.nodup_singleton _)
    oneLive_aliceSession ?_ ?_ asLoaded, _, _, _, rfl, rfl⟩
  · intro a ha p hp
    subst hp
    simp only [refreshesInTurn, List.cons_append, List.mem_append, List.mem_cons,
      List.mem_replicate, reduceCtorEq, and_false, or_false, false_or, Act.spawn.injEq] at ha
    obtain rfl | rfl := ha
    · exact ⟨_, _, rfl⟩
    · exact ⟨_, _, rfl⟩
  · refine opensNone.mono fun w a h ws familyId hws hopens => ?_
    obtain ⟨⟨row, hissues, -⟩, hrotates⟩ := hopens
    obtain hnone | hsome := h ws hws
    · rw [hnone] at hissues
      cases hissues
    · exact absurd hrotates hsome

end Runs
end DolphinVC
