import DolphinVC.Transaction.OneCommit
import DolphinVC.Routers.Theses
import DolphinVC.Verification.Deals

/-!
# What the thesis endpoints write

Served alone, an admitted request sends the writes that `ThesisRequest.writes` reads off the
store, in one transaction. From this follows row by row which theses are stored afterwards.
-/

namespace DolphinVC

open Relational Transaction

section Served

def fundThesis? (orgId thesisId : Uuid) (db : Db) : Option Thesis :=
  db.theses.rows.find? fun t => t.id = thesisId ∧ t.orgId = orgId

def fundTheses (orgId : Uuid) (db : Db) : List Uuid :=
  (db.theses.rows.filter fun t => t.orgId = orgId).map Thesis.id

def ThesisCreate.writes (db : Db) (orgId id : Uuid) (body : ThesisCreate) : List Write :=
  (if body.isDefault then [.clearDefaults (fundTheses orgId db)] else []) ++
    .insertThesis (body.row id orgId) :: body.refusals.map Write.refused

def ThesisUpdate.writes (body : ThesisUpdate) (ifMatch : Option String) (t : Thesis) : List Write :=
  if matchesVersion ifMatch t.version then
    .updateThesis t.id (t.changes (body.assign t)) :: body.refusals.map Write.refused
  else []

def deletionWrites (now : Timestamp) (t : Thesis) : List Write :=
  [.updateThesis t.id (t.changes { t with deletedAt := some now, isDefault := false })]

def defaultWrites (db : Db) (t : Thesis) (orgId : Uuid) : List Write :=
  [.clearDefaults (fundTheses orgId db),
    .updateThesis t.id
      ({ t with isDefault := false }.changes
        { { t with isDefault := false } with isDefault := true })]

/-- What an admitted request sends to the store. -/
def ThesisRequest.writes (now : Timestamp) (orgId : Uuid) (db : Db) : ThesisRequest → List Write
  | .create id body => body.writes db orgId id
  | .update thesisId body ifMatch =>
      (fundThesis? orgId thesisId db).elim [] (body.writes ifMatch)
  | .delete thesisId => (fundThesis? orgId thesisId db).elim [] (deletionWrites now)
  | .setDefault thesisId =>
      (fundThesis? orgId thesisId db).elim [] fun t => defaultWrites db t orgId

variable {env : Env} {credentials : Option Credentials} {now : Timestamp} {db : Db}
variable {principal : Principal}

theorem reads_getThesis (orgId thesisId : Uuid) : Tx.Reads (getThesis orgId thesisId) := by
  refine Tx.Reads.bind (Tx.Reads.query _) fun thesis? => ?_
  cases thesis? with
  | none => exact Tx.Reads.throw _
  | some thesis => exact Tx.Reads.pure _

theorem reads_thesisOut (t : Thesis) : Tx.Reads (thesisOut t) :=
  Tx.Reads.ite (fun _ => Tx.Reads.pure _) fun _ => Tx.Reads.throw _

theorem reads_refreshedThesis (id : Uuid) :
    Tx.Reads (refreshRow (fun db : Db => db.theses.find? id) >>= thesisOut) :=
  Tx.Reads.bind (reads_refreshRow _) reads_thesisOut

theorem getThesis_served (db : Db) (orgId thesisId : Uuid) :
    ((getThesis orgId thesisId).atomically backend db).1 =
    match fundThesis? orgId thesisId db with
    | none => .error (Exc.notFound "Thesis")
    | some t => .ok t := by
  unfold getThesis
  rw [Tx.atomically_query_bind]
  show ((match fundThesis? orgId thesisId db with
    | none => _
    | some t => _ : Tx Thesis).atomically backend db).1 = _
  cases fundThesis? orgId thesisId db <;> rfl

/-- A request about a thesis of the fund. -/
theorem getThesis_bind {α : Type} {orgId thesisId : Uuid} {k : Thesis → Tx α}
    {ws : Thesis → List Write}
    (hk : ∀ t, ((k t).atomically backend db).2 = backend.outcome db (ws t)) :
    ((getThesis orgId thesisId >>= k).atomically backend db).2 =
      backend.outcome db ((fundThesis? orgId thesisId db).elim [] ws) := by
  have hget := getThesis_served db orgId thesisId
  cases ht : fundThesis? orgId thesisId db with
  | none =>
      rw [ht] at hget
      rw [Tx.Reads.atomically_bind_error (reads_getThesis _ _) hget]
      rfl
  | some t =>
      rw [ht] at hget
      rw [Tx.Reads.atomically_bind (reads_getThesis _ _) hget]
      exact hk t

theorem clearFundDefaults_bind {α : Type} {orgId : Uuid} {k : Unit → Tx α} {ws : List Write}
    (hk : Tx.Leaves backend ws (k ())) :
    ((clearFundDefaults orgId >>= k).atomically backend db).2 =
      backend.outcome db (.clearDefaults (fundTheses orgId db) :: ws) := by
  refine (Tx.atomically_iff (P := fun _ db' => db' = _)).mpr (Tx.wp_query_first.mpr ?_)
  exact Tx.leaves_send hk db {} rfl

/-- An admitted request leaves the store with all its writes or with none. -/
theorem thesis_served (admitted : Admits env db .thesisWrite credentials now principal)
    (r : ThesisRequest) :
    ((r.serve env credentials now).atomically backend db).2 =
      backend.outcome db (r.writes now principal.orgId db) := by
  cases r with
  | create id body =>
      show ((Tx.void (createThesisEndpoint env credentials now id body)).atomically
        backend db).2 = _
      rw [Tx.atomically_void]
      unfold createThesisEndpoint
      rw [Tx.Reads.atomically_bind (reads_require _ _ _ _) admitted]
      have htail : Tx.Leaves backend
          (.insertThesis (body.row id principal.orgId) :: body.refusals.map Write.refused)
          (do
            Tx.stage (.insertThesis (body.row id principal.orgId))
            body.refusals.forM fun e => Tx.stage (.refused e)
            Tx.commit
            let thesis ← refreshRow fun db => db.theses.find? id
            thesisOut thesis : Tx Thesis) := by
        rw [← List.append_nil (body.refusals.map _)]
        exact Tx.leaves_stage (Tx.leaves_forM (Tx.leaves_commit (reads_refreshedThesis id)))
      dsimp only [ThesisRequest.writes, ThesisCreate.writes]
      cases body.isDefault with
      | true => exact clearFundDefaults_bind htail
      | false => exact htail.atomically db
  | update thesisId body ifMatch =>
      show ((Tx.void (updateThesisEndpoint env credentials now thesisId body ifMatch)).atomically
        backend db).2 = _
      rw [Tx.atomically_void]
      unfold updateThesisEndpoint
      rw [Tx.Reads.atomically_bind (reads_require _ _ _ _) admitted]
      refine getThesis_bind fun t => ?_
      dsimp only [ThesisUpdate.writes]
      by_cases hmatch : matchesVersion ifMatch t.version = true
      · rw [if_neg (not_not_intro hmatch), if_pos hmatch, ← List.append_nil (body.refusals.map _)]
        exact (Tx.leaves_stage (Tx.leaves_forM
          (Tx.leaves_commit (reads_refreshedThesis _)))).atomically db
      · rw [if_pos hmatch, if_neg hmatch]
        rfl
  | delete thesisId =>
      show ((deleteThesisEndpoint env credentials now thesisId).atomically backend db).2 = _
      unfold deleteThesisEndpoint
      rw [Tx.Reads.atomically_bind (reads_require _ _ _ _) admitted]
      exact getThesis_bind fun t => (Tx.leaves_stage Tx.leaves_commit_last).atomically db
  | setDefault thesisId =>
      show ((Tx.void (setDefaultEndpoint env credentials now thesisId)).atomically backend db).2 = _
      rw [Tx.atomically_void]
      unfold setDefaultEndpoint
      rw [Tx.Reads.atomically_bind (reads_require _ _ _ _) admitted]
      exact getThesis_bind fun t =>
        clearFundDefaults_bind (Tx.leaves_stage (Tx.leaves_commit (reads_refreshedThesis _)))

theorem thesis_refused {e : Exc}
    (refused : ((require .thesisWrite env credentials now).atomically backend db).1 = .error e)
    (r : ThesisRequest) : ((r.serve env credentials now).atomically backend db).2 = db := by
  have stopped {α : Type} {k : Principal → Tx α} :
      ((require .thesisWrite env credentials now >>= k).atomically backend db).2 = db :=
    congrArg Prod.snd (Tx.Reads.atomically_bind_error (reads_require _ _ _ _) refused)
  cases r with
  | create id body => exact Tx.atomically_void.trans stopped
  | update thesisId body ifMatch => exact Tx.atomically_void.trans stopped
  | delete thesisId => exact stopped
  | setDefault thesisId => exact Tx.atomically_void.trans stopped

end Served

section Rows

variable {db : Db} {orgId id thesisId : Uuid} {now : Timestamp} {t s : Thesis}

theorem fundThesis?_eq_some_iff :
    fundThesis? orgId thesisId db = some t ↔ t ∈ db.theses ∧ t.id = thesisId ∧ t.orgId = orgId := by
  constructor
  · intro h
    exact ⟨List.mem_of_find?_eq_some h, by simpa using List.find?_some h⟩
  · rintro ⟨ht, hid, horg⟩
    refine Table.find?_eq_some_of_unique ht (by simp [hid, horg]) fun r hr hrow => ?_
    simp only [decide_eq_true_eq] at hrow
    exact Table.eq_of_key hr ht (hrow.1.trans hid.symm)

theorem mem_fundTheses (ht : t ∈ db.theses) : t.id ∈ fundTheses orgId db ↔ t.orgId = orgId := by
  unfold fundTheses
  simp only [List.mem_map, List.mem_filter, decide_eq_true_eq, Table.mem_rows]
  constructor
  · rintro ⟨r, ⟨hr, horg⟩, hid⟩
    rw [← Table.eq_of_key hr ht hid]
    exact horg
  · intro horg
    exact ⟨t, ⟨ht, horg⟩, rfl⟩

def Thesis.undefault (r : Thesis) : Thesis := { r with isDefault := false }

theorem Thesis.undefault_id (r : Thesis) : r.undefault.id = r.id := rfl

/-- The UPDATE of the changes of a row makes it the row that was assigned. -/
theorem thesis_patch_changes {t' : Thesis} (hid : t'.id = t.id) (horg : t'.orgId = t.orgId)
    (hdeleted : t'.deletedAt = t.deletedAt ∨ t'.deletedAt.isSome) :
    t.patch (t.changes t') = t' := by
  simp only [Thesis.patch, Thesis.changes, changed_getD, changed_orElse hdeleted, ← hid, ← horg]

/-- The theses after the flag of a fund's theses is cleared. -/
def Db.cleared (db : Db) (orgId : Uuid) : Table Uuid Thesis Thesis.id :=
  db.theses.updateWhere (fun r => r.id ∈ fundTheses orgId db) Thesis.undefault Thesis.undefault_id

theorem mem_cleared : s ∈ db.cleared orgId ↔
    ∃ r ∈ db.theses, (if r.orgId = orgId then r.undefault else r) = s := by
  unfold Db.cleared
  rw [Table.mem_updateWhere]
  refine exists_congr fun r => and_congr_right fun hr => ?_
  simp only [decide_eq_true_eq, mem_fundTheses hr]

theorem find?_cleared : (db.cleared orgId).find? id = none ↔ db.theses.find? id = none := by
  unfold Db.cleared
  rw [Table.find?_updateWhere, Option.map_eq_none_iff]

/-- The row that a creation leaves of a stored one. -/
def ThesisCreate.leaves (body : ThesisCreate) (orgId : Uuid) (r : Thesis) : Thesis :=
  if body.isDefault ∧ r.orgId = orgId then r.undefault else r

theorem create_outcome_fresh (body : ThesisCreate) (orgId : Uuid)
    (fresh : db.theses.find? id = none) (holds : body.refusals = []) :
    ∃ theses, backend.outcome db (body.writes db orgId id) = { db with theses } ∧
      ∀ s, s ∈ theses ↔ (∃ r ∈ db.theses, body.leaves orgId r = s) ∨ s = body.row id orgId := by
  have inserted (mid : Db) (hmid : mid.theses.find? id = none) : ∃ theses,
      mid.apply (.insertThesis (body.row id orgId)) = .ok { mid with theses } ∧
        ∀ s, s ∈ theses ↔ s ∈ mid.theses ∨ s = body.row id orgId := by
    cases hins : mid.theses.insert? (body.row id orgId) with
    | none =>
        exfalso
        unfold Table.insert? at hins
        split at hins
        · rename_i hused
          obtain ⟨r, hr, hid⟩ := List.mem_map.mp hused
          exact Table.find?_eq_none_iff.mp hmid r hr hid
        · cases hins
    | some theses =>
        refine ⟨theses, map_eq_ok.mpr ⟨theses, insertRow_eq_ok.mpr ⟨fun _ _ => rfl, hins⟩, rfl⟩, ?_⟩
        exact fun s => Table.mem_insert? hins
  cases hdefault : body.isDefault with
  | false =>
      obtain ⟨theses, happly, hmem⟩ := inserted db fresh
      refine ⟨theses, outcome_of_ok ?_, fun s => ?_⟩
      · rw [ThesisCreate.writes, hdefault, holds]
        exact Backend.applyAll_singleton.trans happly
      · simp [hmem, ThesisCreate.leaves, hdefault]
  | true =>
      obtain ⟨theses, happly, hmem⟩ :=
        inserted { db with theses := db.cleared orgId } (find?_cleared.mpr fresh)
      refine ⟨theses, outcome_of_ok ?_, fun s => ?_⟩
      · rw [ThesisCreate.writes, hdefault, holds]
        exact Backend.applyAll_cons_eq_ok.mpr ⟨_, rfl, Backend.applyAll_singleton.trans happly⟩
      · rw [hmem, mem_cleared]
        simp [ThesisCreate.leaves, hdefault]

/-- A creation with an id in use, or a size that its column cannot hold, is refused. -/
theorem create_outcome_refused {body : ThesisCreate}
    (refused : db.theses.find? id = none → body.refusals ≠ []) :
    backend.outcome db (body.writes db orgId id) = db := by
  obtain hall | hsame := outcome_cases backend db (body.writes db orgId id)
  · exfalso
    obtain ⟨mid, hclear, hrest⟩ := Backend.applyAll_append_eq_ok.mp hall
    obtain ⟨stored, hinsert, hlast⟩ := Backend.applyAll_cons_eq_ok.mp hrest
    obtain ⟨theses, hrow, -⟩ := map_eq_ok.mp hinsert
    have hmid : mid.theses.find? id = none :=
      (Table.insert?_eq_some_iff.mp (insertRow_eq_ok.mp hrow).2).1
    have hfresh : db.theses.find? id = none := by
      cases hdefault : body.isDefault with
      | false =>
          rw [hdefault] at hclear
          cases hclear
          exact hmid
      | true =>
          rw [hdefault] at hclear
          cases hclear
          exact find?_cleared.mp hmid
    cases hrefusals : body.refusals with
    | nil => exact refused hfresh hrefusals
    | cons e es =>
        rw [hrefusals] at hlast
        cases hlast
  · exact hsame

/-- An UPDATE of one row of the theses. -/
theorem thesis_outcome_update {t' : Thesis} (ht : t ∈ db.theses)
    (hpatch : t.patch (t.changes t') = t') :
    ∃ theses, backend.outcome db [.updateThesis t.id (t.changes t')] = { db with theses } ∧
      ∀ s, s ∈ theses ↔ ∃ r ∈ db.theses, (if r.id = t.id then t' else r) = s := by
  refine ⟨db.theses.update t.id (Thesis.patch (t.changes t')),
    outcome_of_ok (Backend.applyAll_singleton.trans rfl), fun s => ?_⟩
  have hmem : s ∈ db.theses.update t.id (Thesis.patch (t.changes t')) ↔ ∃ r ∈ db.theses,
      (if r.id = t.id then Thesis.patch (t.changes t') r else r) = s := Table.mem_update
  rw [hmem]
  refine exists_congr fun r => and_congr_right fun hr => ?_
  by_cases hid : r.id = t.id
  · rw [if_pos hid, if_pos hid, Table.eq_of_key hr ht hid, hpatch]
  · rw [if_neg hid, if_neg hid]

theorem update_outcome (body : ThesisUpdate) {ifMatch : Option String} (ht : t ∈ db.theses)
    (matched : matchesVersion ifMatch t.version) (holds : body.refusals = []) :
    ∃ theses, backend.outcome db (body.writes ifMatch t) = { db with theses } ∧
      ∀ s, s ∈ theses ↔ ∃ r ∈ db.theses, (if r.id = t.id then body.assign t else r) = s := by
  rw [ThesisUpdate.writes, if_pos matched, holds]
  exact thesis_outcome_update ht (thesis_patch_changes rfl rfl (Or.inl rfl))

/-- An update that does not know the version or sets what a column cannot hold. -/
theorem update_outcome_refused {body : ThesisUpdate} {ifMatch : Option String}
    (refused : matchesVersion ifMatch t.version → body.refusals ≠ []) :
    backend.outcome db (body.writes ifMatch t) = db := by
  rw [ThesisUpdate.writes]
  split
  · rename_i matched
    cases hrefusals : body.refusals with
    | nil => exact absurd hrefusals (refused matched)
    | cons e es => exact outcome_of_error rfl
  · rfl

theorem deletion_outcome (now : Timestamp) (ht : t ∈ db.theses) :
    ∃ theses, backend.outcome db (deletionWrites now t) = { db with theses } ∧
      ∀ s, s ∈ theses ↔ ∃ r ∈ db.theses,
        (if r.id = t.id then { t with deletedAt := some now, isDefault := false } else r) = s :=
  thesis_outcome_update ht (thesis_patch_changes rfl rfl (Or.inr rfl))

/-- The row that a new default leaves of a stored one. -/
def Thesis.promoted (thesisId orgId : Uuid) (r : Thesis) : Thesis :=
  if r.orgId = orgId then { r with isDefault := r.id = thesisId } else r

theorem default_outcome (ht : t ∈ db.theses) (horg : t.orgId = orgId) :
    ∃ theses, backend.outcome db (defaultWrites db t orgId) = { db with theses } ∧
      ∀ s, s ∈ theses ↔ ∃ r ∈ db.theses, r.promoted t.id orgId = s := by
  have hcleared : t.undefault ∈ { db with theses := db.cleared orgId }.theses :=
    mem_cleared.mpr ⟨t, ht, if_pos horg⟩
  have hpatch : t.undefault.patch (t.undefault.changes { t.undefault with isDefault := true }) =
      { t.undefault with isDefault := true } := thesis_patch_changes rfl rfl (Or.inl rfl)
  obtain ⟨theses, hout, hmem⟩ := thesis_outcome_update hcleared hpatch
  have row (r : Thesis) (hr : r ∈ db.theses) :
      (if (if r.orgId = orgId then r.undefault else r).id = t.undefault.id then
        { t.undefault with isDefault := true }
        else if r.orgId = orgId then r.undefault else r) = r.promoted t.id orgId := by
    unfold Thesis.promoted
    by_cases hid : r.id = t.id
    · rw [Table.eq_of_key hr ht hid]
      simp [horg, Thesis.undefault]
    · by_cases hfund : r.orgId = orgId
      · simp [hfund, hid, Thesis.undefault]
      · simp [hfund, hid, Thesis.undefault]
  refine ⟨theses, ?_, fun s => ?_⟩
  · exact (outcome_cons_of_ok rfl _ ⟨_, rfl⟩).trans hout
  · rw [hmem]
    constructor
    · rintro ⟨r', hr', rfl⟩
      obtain ⟨r, hr, rfl⟩ := mem_cleared.mp hr'
      exact ⟨r, hr, (row r hr).symm⟩
    · rintro ⟨r, hr, rfl⟩
      exact ⟨_, mem_cleared.mpr ⟨r, hr, rfl⟩, row r hr⟩

end Rows

end DolphinVC
