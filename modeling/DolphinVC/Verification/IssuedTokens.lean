import DolphinVC.Db.Frame

/-!
# The history of refresh tokens

Rows of `refresh_tokens` are inserted and revoked; nothing deletes one or changes its
hash, user or family. `issuedTokens` forgets the revocation columns, so it only ever
grows by the inserted rows, and a token that is live after some writes was live
before them or is one of these rows.
-/

namespace DolphinVC

open Relational Transaction

/-- The row as it was inserted. -/
def RefreshToken.asIssued (r : RefreshToken) : RefreshToken :=
  { r with revokedAt := none, revokedReason := none }

@[simp] theorem RefreshToken.asIssued_revoke (at' : Timestamp) (reason : String)
    (r : RefreshToken) : (r.revoke at' reason).asIssued = r.asIssued := rfl

@[simp] theorem RefreshToken.revokedAt_revoke (at' : Timestamp) (reason : String)
    (r : RefreshToken) : (r.revoke at' reason).revokedAt = some at' := rfl

@[simp] theorem RefreshToken.familyId_asIssued (r : RefreshToken) :
    r.asIssued.familyId = r.familyId := rfl

@[simp] theorem RefreshToken.userId_asIssued (r : RefreshToken) :
    r.asIssued.userId = r.userId := rfl

@[simp] theorem RefreshToken.tokenHash_asIssued (r : RefreshToken) :
    r.asIssued.tokenHash = r.tokenHash := rfl

def issuedTokens (db : Db) : List RefreshToken := db.refreshTokens.rows.map RefreshToken.asIssued

def Write.issues : Write → List RefreshToken
  | .insertRefreshToken row => [row.asIssued]
  | _ => []

variable {db db' : Db} {w : Write} {ws : List Write} {t : RefreshToken}

theorem asIssued_mem_issuedTokens (ht : t ∈ db.refreshTokens) : t.asIssued ∈ issuedTokens db :=
  List.mem_map_of_mem ht

theorem issues_of_target (h : w.target ≠ .refreshTokens) : w.issues = [] := by
  cases w <;> first | rfl | exact absurd rfl h

theorem issuedTokens_updateWhere (p : RefreshToken → Bool) (at' : Timestamp) (reason : String)
    (h : db'.refreshTokens = db.refreshTokens.updateWhere p (RefreshToken.revoke at' reason)) :
    issuedTokens db' = issuedTokens db := by
  simp only [issuedTokens, h, Table.updateWhere, List.map_map]
  apply List.map_congr_left
  intro r _
  simp only [Function.comp_apply]
  split <;> rfl

theorem issued_apply (h : db.apply w = .ok db') :
    issuedTokens db' = issuedTokens db ++ w.issues := by
  rcases refreshTokens_apply h with ⟨row, rfl, -, hins⟩ | ⟨loaded, at', reason, rfl, hupd⟩ |
    ⟨ids, live, at', reason, rfl, hupd⟩ | ⟨htarget, hsame⟩
  · simp only [issuedTokens, (Table.insert?_eq_some_iff.mp hins).2, List.map_append, Write.issues,
      List.map_cons, List.map_nil]
  · exact (issuedTokens_updateWhere _ _ _ hupd).trans (List.append_nil _).symm
  · exact (issuedTokens_updateWhere _ _ _ hupd).trans (List.append_nil _).symm
  · simp only [issuedTokens, hsame, issues_of_target htarget, List.append_nil]

/-- A live row after a write is a live row from before, or the inserted one. -/
theorem live_apply (h : db.apply w = .ok db') (ht : t ∈ db'.refreshTokens)
    (live : t.revokedAt = none) : t ∈ db.refreshTokens ∨ w = .insertRefreshToken t := by
  rcases refreshTokens_apply h with ⟨row, rfl, -, hins⟩ | ⟨loaded, at', reason, rfl, hupd⟩ |
    ⟨ids, lv, at', reason, rfl, hupd⟩ | ⟨-, hsame⟩
  · obtain ht | rfl := (Table.mem_insert? hins).mp ht
    · exact Or.inl ht
    · exact Or.inr rfl
  · rw [hupd] at ht
    obtain ⟨r, hr, rfl⟩ := Table.mem_update.mp ht
    split at live
    · cases live
    · exact Or.inl (by rwa [if_neg ‹_›])
  · rw [hupd] at ht
    obtain ⟨r, hr, rfl⟩ := Table.mem_updateWhere.mp ht
    split at live
    · cases live
    · exact Or.inl (by rwa [if_neg ‹_›])
  · exact Or.inl (hsame ▸ ht)

theorem issued_applyAll (h : backend.applyAll db ws = .ok db') :
    issuedTokens db' = issuedTokens db ++ ws.flatMap Write.issues := by
  induction ws generalizing db with
  | nil =>
      cases h
      simp
  | cons w ws ih =>
      obtain ⟨mid, hw, hrest⟩ := Backend.applyAll_cons_eq_ok.mp h
      rw [ih hrest, issued_apply hw, List.flatMap_cons, List.append_assoc]

theorem live_applyAll (h : backend.applyAll db ws = .ok db') (ht : t ∈ db'.refreshTokens)
    (live : t.revokedAt = none) : t ∈ db.refreshTokens ∨ .insertRefreshToken t ∈ ws := by
  induction ws generalizing db with
  | nil =>
      cases h
      exact Or.inl ht
  | cons w ws ih =>
      obtain ⟨mid, hw, hrest⟩ := Backend.applyAll_cons_eq_ok.mp h
      obtain hmid | hmem := ih hrest
      · obtain hold | rfl := live_apply hw hmid live
        · exact Or.inl hold
        · exact Or.inr List.mem_cons_self
      · exact Or.inr (List.mem_cons_of_mem w hmem)

theorem mem_issues_of_insert (h : .insertRefreshToken t ∈ ws) :
    t.asIssued ∈ ws.flatMap Write.issues :=
  List.mem_flatMap.mpr ⟨_, h, List.mem_singleton.mpr rfl⟩

/-- The database rejects a second token with the same hash. -/
def UniqueHashes (db : Db) : Prop := ((issuedTokens db).map RefreshToken.tokenHash).Nodup

theorem uniqueHashes_apply (hu : UniqueHashes db) (h : db.apply w = .ok db') :
    UniqueHashes db' := by
  rcases refreshTokens_apply h with ⟨row, rfl, fresh, hins⟩ | ⟨loaded, at', reason, rfl, hupd⟩ |
    ⟨ids, live, at', reason, rfl, hupd⟩ | ⟨htarget, hsame⟩
  · unfold UniqueHashes
    rw [issued_apply h, List.map_append]
    refine List.Nodup.append hu (List.nodup_singleton _) ?_
    intro hash hold hnew
    obtain ⟨r, hr, rfl⟩ := List.mem_map.mp hold
    obtain ⟨s, hs, rfl⟩ := List.mem_map.mp hr
    exact fresh s hs (List.mem_singleton.mp hnew)
  · unfold UniqueHashes
    rw [issuedTokens_updateWhere _ _ _ hupd]
    exact hu
  · unfold UniqueHashes
    rw [issuedTokens_updateWhere _ _ _ hupd]
    exact hu
  · unfold UniqueHashes issuedTokens
    rw [hsame]
    exact hu

theorem uniqueHashes_applyAll (hu : UniqueHashes db) (h : backend.applyAll db ws = .ok db') :
    UniqueHashes db' :=
  Backend.applyAll_inv (Φ := fun _ => True) (fun _ _ _ _ hu h => uniqueHashes_apply hu h)
    (fun _ _ => trivial) hu h

/-- Rows with the same hash are the same row. -/
theorem UniqueHashes.eq_of_hash {s : RefreshToken} (hu : UniqueHashes db)
    (ht : t ∈ db.refreshTokens) (hs : s ∈ db.refreshTokens) (h : t.tokenHash = s.tokenHash) :
    t = s := by
  unfold UniqueHashes issuedTokens at hu
  rw [List.map_map] at hu
  exact List.inj_on_of_nodup_map hu ht hs h

end DolphinVC
