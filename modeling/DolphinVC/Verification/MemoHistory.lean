import Mathlib
import DolphinVC.Transition.Run
import DolphinVC.Routers.Memos
import DolphinVC.Verification.Deals

/-!
# The history of memo versions

A generation inserts a row with a fresh version, an edit raises the version of the row it is
about. So an edit takes the version it started from out of the history, and the number it
arrives at may be taken. Neither happens to the newest memo of an opportunity as long as
nobody has asked for its version.
-/

namespace DolphinVC

open Relational Transaction Transition Transaction.Tx

/-- What became of a request to edit. One without a matching tag is refused. -/
inductive EditOutcome where
  | refused | fresh | repeated | collided
  deriving DecidableEq

/-- The store with what has happened to its memos: the versions that memos of an opportunity
have had, the memos that were returned for a version number, and the edits. -/
structure MemoHistory where
  db : Db
  used : List (Uuid × Nat)
  served : List Memo := []
  edits : List EditOutcome := []

def memoVersions (db : Db) : List (Uuid × Nat) :=
  db.memos.rows.map fun m => (m.opportunityId, m.version)

def MemoHistory.start (db : Db) : MemoHistory := { db, used := memoVersions db }

inductive MemoStep where
  | generate (run : RunEnv) (jobId : Uuid)
  | edit (env : Env) (credentials : Option Credentials) (now : Timestamp) (memoId : Uuid)
      (body : MemoPatch) (ifMatch : Option String)
  | get (env : Env) (credentials : Option Credentials) (now : Timestamp) (opportunityId : Uuid)
      (version : String)

namespace MemoHistory

/-- A collision is the answer of the constraint to a request that has a principal. -/
def outcome (h : MemoHistory) (principal : Except Exc Principal) (answer : Except Exc Memo) :
    EditOutcome :=
  match principal, answer with
  | .ok _, .ok memo => if (memo.opportunityId, memo.version) ∈ h.used then .repeated else .fresh
  | .ok _, .error (.integrity _) => .collided
  | _, _ => .refused

def step (h : MemoHistory) : MemoStep → MemoHistory
  | .generate run jobId =>
      let db := ((processJob run jobId).atomically backend h.db).2
      { h with db, used := h.used ++ memoVersions db }
  | .edit env credentials now memoId body ifMatch =>
      let principal := ((require .screen env credentials now).atomically backend h.db).1
      let (answer, db) :=
        (patchMemoEndpoint env credentials now memoId body ifMatch).atomically backend h.db
      { h with
        db, used := h.used ++ memoVersions db, edits := h.edits ++ [h.outcome principal answer] }
  | .get env credentials now opportunityId version =>
      match ((getOpportunityMemoEndpoint env credentials now opportunityId version).atomically
          backend h.db).1 with
      | .ok memo => if version = "latest" then h else { h with served := h.served ++ [memo] }
      | .error _ => h

/-- Versions that were returned are still returned, and every edit got a number of its own. -/
structure Kept (h : MemoHistory) : Prop where
  served : ∀ m ∈ h.served, ∃ m', memoVersion m.orgId m.opportunityId m.version h.db = some m' ∧
    m'.sections = m.sections
  edits : ∀ e ∈ h.edits, e ≠ .repeated ∧ e ≠ .collided

/-- The memo to edit is the newest of its opportunity, and its version was never returned. -/
def NewestUnread (h : MemoHistory) : MemoStep → Prop
  | .edit _ _ _ memoId _ ifMatch => ∀ m ∈ h.db.memos, m.id = memoId →
      matchesVersion ifMatch m.version = true →
      (∀ r ∈ h.db.memos, r.opportunityId = m.opportunityId → r.version ≤ m.version) ∧
        ∀ s ∈ h.served, ¬ (s.opportunityId = m.opportunityId ∧ s.version = m.version)
  | _ => True

end MemoHistory

section Generation

variable {db db' : Db} {ws : List Write}

/-- Every memo is still there, in front of new ones. -/
def MemosGrow (db db' : Db) : Prop := db.memos.rows <+: db'.memos.rows

theorem memos_grow {w : Write} (hw : w.OfRun) (h : db.apply w = .ok db') : MemosGrow db db' := by
  obtain ⟨row, -, -, hins⟩ | ⟨id, sections, version, rfl, -⟩ | ⟨-, heq⟩ := memos_apply h
  · exact ⟨[row], (Table.insert?_eq_some_iff.mp hins).2.symm⟩
  · cases hw
  · unfold MemosGrow
    rw [heq]

theorem processJob_memos (run : RunEnv) (jobId : Uuid) (db : Db) :
    MemosGrow db ((processJob run jobId).atomically backend db).2 :=
  Commits.atomically (I := fun db' => MemosGrow db db')
    ((processJob_emits).commits Journal.all_empty)
    (fun _ _ _ hw hdb happly => hdb.trans (memos_grow hw happly)) List.prefix_rfl

end Generation

section Edit

variable {env : Env} {credentials : Option Credentials} {now : Timestamp} {db db' : Db}
variable {memoId : Uuid} {body : MemoPatch} {ifMatch : Option String} {m : Memo}

/-- What a request to edit answers and leaves behind. -/
inductive PatchEffect (memoId : Uuid) (ifMatch : Option String) (db : Db) :
    Except Exc Memo → Db → Prop where
  | refused (e : Exc) (other : ∀ constraint, e ≠ .integrity constraint) :
      PatchEffect memoId ifMatch db (.error e) db
  | collided (e : Exc) (m r : Memo) (found : m ∈ db.memos ∧ m.id = memoId)
      (version : matchesVersion ifMatch m.version = true)
      (taken : r ∈ db.memos ∧ r.opportunityId = m.opportunityId ∧ r.version = m.version + 1) :
      PatchEffect memoId ifMatch db (.error e) db
  | edited (m m' : Memo) (sections : List MemoSection) (db' : Db)
      (found : m ∈ db.memos ∧ m.id = memoId)
      (version : matchesVersion ifMatch m.version = true)
      (answer : m'.opportunityId = m.opportunityId ∧ m'.version = m.version + 1)
      (free : ∀ r ∈ db.memos, r.id ≠ m.id → r.opportunityId = m.opportunityId →
        r.version ≠ m.version + 1)
      (memos : db'.memos = db.memos.update m.id
        fun r => { r with sections, version := m.version + 1 }) :
      PatchEffect memoId ifMatch db (.ok m') db'

theorem getMemo_served (orgId memoId : Uuid) (db : Db) :
    ((getMemo orgId memoId).atomically backend db).1 = .error (Exc.notFound "Memo") ∨
    ∃ m, ((getMemo orgId memoId).atomically backend db).1 = .ok m ∧ m ∈ db.memos ∧
      m.id = memoId := by
  unfold getMemo
  rw [atomically_query_bind]
  cases hf : db.memos.rows.find? fun m => m.id = memoId ∧ m.orgId = orgId with
  | none => exact Or.inl rfl
  | some m =>
      have hprops : m.id = memoId ∧ m.orgId = orgId := by simpa using List.find?_some hf
      exact Or.inr ⟨m, rfl, List.mem_of_find?_eq_some hf, hprops.1⟩

/-- The UPDATE of the loaded row, its commit and the row as it is loaded again. -/
theorem edit_served {sections : List MemoSection} (found : m ∈ db.memos ∧ m.id = memoId)
    (version : matchesVersion ifMatch m.version = true) :
    WP backend (fun answer db' _ => PatchEffect memoId ifMatch db answer db') (do
      Tx.stage (.updateMemo m.id sections (m.version + 1))
      Tx.commit
      refreshRow fun db => db.memos.find? m.id) db {} := by
  refine wp_bind.mpr (wp_stage.mpr (wp_bind.mpr ((wp_commit_live rfl).mpr ?_)))
  have happly : backend.applyAll db
      (({} : Session Write).stage (.updateMemo m.id sections (m.version + 1))).pending =
        (renumberMemo db.memos m.id sections (m.version + 1)).map fun t => { db with memos := t } :=
    Backend.applyAll_singleton
  rw [happly]
  cases hrow : renumberMemo db.memos m.id sections (m.version + 1) with
  | error e =>
      simp only [renumberMemo, List.any_eq_true, decide_eq_true_eq, Table.mem_rows] at hrow
      split at hrow
      · rename_i htaken
        obtain ⟨m', hm', hid, r, hr, -, hopp, hversion⟩ := htaken
        obtain rfl := Table.eq_of_key hm' found.1 hid
        exact .collided e m' r found version ⟨hr, hopp, hversion⟩
      · cases hrow
  | ok t =>
      obtain ⟨free, rfl⟩ := renumberMemo_eq_ok.mp hrow
      refine (wp_bind.mpr (wp_query.mpr ?_))
      have hfind : (db.memos.update m.id
          fun r => { r with sections, version := m.version + 1 }).find? m.id =
            some { m with sections, version := m.version + 1 } := by
        rw [Table.find?_update_self, Table.find?_of_mem found.1]
        rfl
      simp only [Session.query_unflushed, Except.map, hfind]
      exact .edited m _ sections _ found version ⟨rfl, rfl⟩ (free m found.1 rfl) rfl

theorem patch_served {principal : Principal}
    (hprincipal : Admits env db .screen credentials now principal) :
    PatchEffect memoId ifMatch db
      ((patchMemoEndpoint env credentials now memoId body ifMatch).atomically backend db).1
      ((patchMemoEndpoint env credentials now memoId body ifMatch).atomically backend db).2 := by
  unfold patchMemoEndpoint
  rw [(reads_require _ _ _ _).atomically_bind hprincipal]
  obtain hnone | ⟨m, hget, hfound⟩ := getMemo_served principal.orgId memoId db
  · rw [(reads_getMemo _ _).atomically_bind_error hnone]
    exact .refused _ fun constraint h => by cases h
  · rw [(reads_getMemo _ _).atomically_bind hget, atomically_ite]
    split
    · exact .refused _ fun constraint h => by cases h
    · rename_i hversion
      exact atomically_iff.mpr (edit_served hfound (by simpa using hversion))

end Edit

section Served

variable {db db' : Db} {orgId opportunityId : Uuid} {version : Int} {m : Memo}

theorem memoVersion_of_grow (grow : MemosGrow db db')
    (h : memoVersion orgId opportunityId version db = some m) :
    memoVersion orgId opportunityId version db' = some m := by
  obtain ⟨new, hnew⟩ := grow
  unfold memoVersion at h ⊢
  rw [← hnew, List.find?_append, h]
  rfl

theorem of_memoVersion (h : memoVersion orgId opportunityId version db = some m) :
    m ∈ db.memos ∧ m.opportunityId = opportunityId ∧ m.orgId = orgId ∧
      (m.version : Int) = version :=
  ⟨List.mem_of_find?_eq_some h, by simpa using List.find?_some h⟩

/-- An edit of another version leaves the answer for this one, since its new version is free. -/
theorem memoVersion_of_edit {edited : Memo} {sections : List MemoSection} {number : Nat}
    (hedited : edited ∈ db.memos)
    (free : ∀ r ∈ db.memos, r.id ≠ edited.id → r.opportunityId = edited.opportunityId →
      r.version ≠ number)
    (memos : db'.memos = db.memos.update edited.id
      fun r => { r with sections, version := number })
    (h : memoVersion orgId opportunityId version db = some m)
    (other : ¬ (m.opportunityId = edited.opportunityId ∧ m.version = edited.version)) :
    memoVersion orgId opportunityId version db' = some m := by
  obtain ⟨hm, hopp, horg, hversion⟩ := of_memoVersion h
  have hid : m.id ≠ edited.id := by
    intro hid
    obtain rfl := Table.eq_of_key hm hedited hid
    exact other ⟨rfl, rfl⟩
  have untouched : ∀ r ∈ db.memos.rows, decide (
      (if r.id = edited.id then { r with sections, version := number } else r).opportunityId =
          opportunityId ∧
        (if r.id = edited.id then { r with sections, version := number } else r).orgId = orgId ∧
        (((if r.id = edited.id then { r with sections, version := number } else r).version : Nat)
          : Int) = version) =
      decide (r.opportunityId = opportunityId ∧ r.orgId = orgId ∧ (r.version : Int) = version) := by
    intro r hr
    split
    · rename_i hsame
      obtain rfl := Table.eq_of_key hr hedited hsame
      rw [decide_eq_decide]
      constructor
      · rintro ⟨hopp', -, hversion'⟩
        have hnumber : (number : Int) = version := hversion'
        exact absurd (by omega) (free m hm hid (hopp.trans hopp'.symm))
      · rintro ⟨hopp', -, hversion'⟩
        exact absurd ⟨hopp.trans hopp'.symm, by omega⟩ other
    · rfl
  unfold memoVersion
  rw [memos]
  simp only [Table.update, Table.updateWhere, decide_eq_true_eq]
  rw [List.find?_map]
  refine (congrArg (Option.map _) (List.find?_congr untouched)).trans ?_
  rw [show db.memos.rows.find? _ = some m from h, Option.map_some, if_neg hid]

end Served

section Runs

open MemoHistory

variable {h : MemoHistory} {a : MemoStep}

/-- Versions that were used are not above the newest memo. -/
def MemoHistory.Bounded (h : MemoHistory) : Prop :=
  ∀ used ∈ h.used, ∃ m ∈ h.db.memos, m.opportunityId = used.1 ∧ used.2 ≤ m.version

theorem bounded_append {h : MemoHistory} {db : Db}
    (mono : ∀ m ∈ h.db.memos, ∃ m' ∈ db.memos, m'.opportunityId = m.opportunityId ∧
      m.version ≤ m'.version) (bounded : h.Bounded) :
    ∀ used ∈ h.used ++ memoVersions db, ∃ m ∈ db.memos, m.opportunityId = used.1 ∧
      used.2 ≤ m.version := by
  intro used hused
  obtain hused | hused := List.mem_append.mp hused
  · obtain ⟨m, hm, hopp, hle⟩ := bounded used hused
    obtain ⟨m', hm', hopp', hle'⟩ := mono m hm
    exact ⟨m', hm', hopp'.trans hopp, hle.trans hle'⟩
  · obtain ⟨m, hm, rfl⟩ := List.mem_map.mp hused
    exact ⟨m, hm, rfl, Nat.le_refl _⟩

theorem mono_of_grow {db db' : Db} (grow : MemosGrow db db') : ∀ m ∈ db.memos, ∃ m' ∈ db'.memos,
    m'.opportunityId = m.opportunityId ∧ m.version ≤ m'.version :=
  fun m hm => ⟨m, grow.subset hm, rfl, Nat.le_refl _⟩

theorem mono_of_edit {db db' : Db} {edited : Memo} {sections : List MemoSection}
    (hedited : edited ∈ db.memos)
    (memos : db'.memos = db.memos.update edited.id
      fun r => { r with sections, version := edited.version + 1 }) :
    ∀ m ∈ db.memos, ∃ m' ∈ db'.memos, m'.opportunityId = m.opportunityId ∧
      m.version ≤ m'.version := by
  intro m hm
  rw [memos]
  by_cases hid : m.id = edited.id
  · obtain rfl := Table.eq_of_key hm hedited hid
    exact ⟨_, Table.mem_update.mpr ⟨m, hm, if_pos rfl⟩, rfl, Nat.le_succ _⟩
  · exact ⟨m, Table.mem_update.mpr ⟨m, hm, if_neg hid⟩, rfl, Nat.le_refl _⟩

/-- What a version number returns is a memo of the store with that number. -/
theorem get_served {env : Env} {credentials : Option Credentials} {now : Timestamp}
    {opportunityId : Uuid} {version : String} {db : Db} {memo : Memo}
    (hversion : version ≠ "latest")
    (hget : ((getOpportunityMemoEndpoint env credentials now opportunityId version).atomically
      backend db).1 = .ok memo) :
    memoVersion memo.orgId memo.opportunityId memo.version db = some memo := by
  unfold getOpportunityMemoEndpoint at hget
  obtain ⟨principal, -, hget⟩ := (reads_require _ _ _ _).atomically_bind_eq_ok.mp hget
  obtain ⟨o, -, hget⟩ := (reads_getOpportunity _ _).atomically_bind_eq_ok.mp hget
  rw [if_neg hversion] at hget
  cases hk : parseInt env version with
  | none =>
      rw [hk] at hget
      cases hget
  | some k =>
      rw [hk] at hget
      simp only [atomically_query_bind] at hget
      cases hm : memoVersion principal.orgId opportunityId k db with
      | none =>
          rw [hm] at hget
          cases hget
      | some m =>
          rw [hm] at hget
          cases hget
          obtain ⟨-, hopp, horg, hk⟩ := of_memoVersion hm
          rw [hopp, horg, hk]
          exact hm

theorem kept_step (hkept : h.Kept) (hbounded : h.Bounded) (hnewest : h.NewestUnread a) :
    (h.step a).Kept ∧ (h.step a).Bounded := by
  cases a with
  | generate run jobId =>
      have grow := processJob_memos run jobId h.db
      refine ⟨⟨fun m hm => ?_, hkept.edits⟩, bounded_append (mono_of_grow grow) hbounded⟩
      obtain ⟨m', hm', hsections⟩ := hkept.served m hm
      exact ⟨m', memoVersion_of_grow grow hm', hsections⟩
  | get env credentials now opportunityId version =>
      simp only [step]
      split
      · rename_i memo hget
        split
        · exact ⟨hkept, hbounded⟩
        · rename_i hversion
          refine ⟨⟨fun m hm => ?_, hkept.edits⟩, hbounded⟩
          obtain hm | hm := List.mem_append.mp hm
          · exact hkept.served m hm
          · obtain rfl := List.mem_singleton.mp hm
            exact ⟨m, get_served hversion hget, rfl⟩
      · exact ⟨hkept, hbounded⟩
  | edit env credentials now memoId body ifMatch =>
      cases hprincipal : ((require .screen env credentials now).atomically backend h.db).1 with
      | error e =>
          have hserved : (patchMemoEndpoint env credentials now memoId body ifMatch).atomically
              backend h.db = (.error e, h.db) :=
            (reads_require _ _ _ _).atomically_bind_error hprincipal
          simp only [step, hserved, hprincipal, outcome]
          refine ⟨⟨hkept.served, fun o ho => ?_⟩,
            bounded_append (mono_of_grow List.prefix_rfl) hbounded⟩
          obtain ho | ho := List.mem_append.mp ho
          · exact hkept.edits o ho
          · rw [List.mem_singleton.mp ho]
            decide
      | ok principal =>
          have effect := @patch_served env credentials now h.db memoId body ifMatch
            principal hprincipal
          simp only [step, hprincipal]
          generalize (patchMemoEndpoint env credentials now memoId body ifMatch).atomically
            backend h.db = out at effect ⊢
          obtain ⟨answer, db'⟩ := out
          have decided (e : EditOutcome) (he : e ≠ .repeated ∧ e ≠ .collided) :
              ∀ o ∈ h.edits ++ [e], o ≠ .repeated ∧ o ≠ .collided := by
            intro o ho
            obtain ho | ho := List.mem_append.mp ho
            · exact hkept.edits o ho
            · exact List.mem_singleton.mp ho ▸ he
          cases effect with
          | refused e other =>
              refine ⟨⟨hkept.served, decided _ ?_⟩,
                bounded_append (mono_of_grow List.prefix_rfl) hbounded⟩
              cases e with
              | integrity constraint => exact absurd rfl (other constraint)
              | _ => exact ⟨by simp [outcome], by simp [outcome]⟩
          | collided e m r found version taken =>
              obtain ⟨hr, hopp, hversion⟩ := taken
              have := (hnewest m found.1 found.2 version).1 r hr hopp
              omega
          | edited m m' sections db'' found version answer free memos =>
              obtain ⟨newest, unread⟩ := hnewest m found.1 found.2 version
              refine ⟨⟨fun s hs => ?_, decided _ ?_⟩,
                bounded_append (mono_of_edit found.1 memos) hbounded⟩
              · obtain ⟨s', hs', hsections⟩ := hkept.served s hs
                obtain ⟨-, hopp, -, hversion⟩ := of_memoVersion hs'
                refine ⟨s', memoVersion_of_edit found.1 free memos hs' ?_, hsections⟩
                rintro ⟨hsame, hnumber⟩
                exact unread s hs ⟨hopp.symm.trans hsame, by omega⟩
              · have hfresh : (m'.opportunityId, m'.version) ∉ h.used := by
                  intro hused
                  obtain ⟨r, hr, hopp, hle⟩ := hbounded _ hused
                  have := newest r hr (hopp.trans answer.1)
                  have := answer.2
                  simp only at hle
                  omega
                simp [outcome, hfresh]

/-- The history is kept by every run whose edits are of the newest memo, not yet returned. -/
theorem memo_history_kept (db : Db) (steps : List MemoStep)
    (newest : Meets step NewestUnread (start db) steps) :
    Along step Kept (start db) steps := by
  have hstart : (start db).Kept ∧ (start db).Bounded := by
    refine ⟨⟨fun m hm => ?_, fun e he => ?_⟩, fun used hused => ?_⟩
    · cases hm
    · cases he
    · obtain ⟨m, hm, rfl⟩ := List.mem_map.mp hused
      exact ⟨m, hm, rfl, Nat.le_refl _⟩
  exact (along_of_meets (P := fun h : MemoHistory => h.Kept ∧ h.Bounded)
    (fun _ _ hI hC => kept_step hI.1 hI.2 hC) hstart newest).mono fun _ hI => hI.1

end Runs

section Example

def estuaryEnv : Env := { plainEnv with settings := { serviceToken := "service" } }

def estuaryCaller : Option Credentials := some { token := "service", orgHeader := some 1 }

def estuaryMemo (id : Uuid) (version : Nat) : Memo where
  id
  orgId := 1
  opportunityId := 3
  version
  sections := [[("key", "summary")]]
  recommendation := none
  recommendationRationale := none

/-- An opportunity with two memos. -/
def estuaryDb : Db where
  orgs := ⟨[{ id := 1, name := "Estuary Fund", slug := "estuary-fund" }], by decide⟩
  companies := ⟨[{ id := 2, name := "Heron", normalizedName := "heron" }], by decide⟩
  opportunities := ⟨[
    { id := 3, orgId := 1, companyId := 2, origin := .inbound, title := some "Heron"
      firstSignalAt := 0, slaDeadlineAt := 0 }], by decide⟩
  memos := ⟨[estuaryMemo 4 1, estuaryMemo 5 2], by decide⟩

def estuaryPatch : MemoPatch where
  sections := [[("key", "risks")]]
  nonempty := by simp

def estuaryGet (version : String) : MemoStep := .get estuaryEnv estuaryCaller 0 3 version

def estuaryEdit (memoId : Uuid) (version : String) : MemoStep :=
  .edit estuaryEnv estuaryCaller 0 memoId estuaryPatch (some version)

theorem MemoHistory.Kept.found {h : MemoHistory} (kept : h.Kept) :
    (h.served.all fun m => (memoVersion m.orgId m.opportunityId m.version h.db).isSome) = true := by
  refine List.all_eq_true.mpr fun m hm => ?_
  obtain ⟨m', hm', -⟩ := kept.served m hm
  rw [hm']
  rfl

/-- The newest memo is edited twice and then read by its number. -/
theorem estuary_history_kept :
    Along MemoHistory.step MemoHistory.Kept (.start estuaryDb)
      [estuaryGet "1", estuaryEdit 5 "2", estuaryEdit 5 "3", estuaryGet "4"] :=
  memo_history_kept estuaryDb _ (by
    refine ⟨trivial, ?_, ?_, trivial, trivial⟩
    · show ∀ m ∈ (MemoHistory.step (.start estuaryDb) (estuaryGet "1")).db.memos, _
      decide +kernel
    · show ∀ m ∈ ([estuaryGet "1", estuaryEdit 5 "2"].foldl MemoHistory.step
        (.start estuaryDb)).db.memos, _
      decide +kernel)

/-- An edit takes the version that was read out of the history, and an edit of an older memo
meets the constraint. -/
theorem edit_rewrites_history :
    ¬ Along MemoHistory.step MemoHistory.Kept (.start estuaryDb)
        [estuaryGet "2", estuaryEdit 5 "2"] ∧
      ¬ Along MemoHistory.step MemoHistory.Kept (.start estuaryDb) [estuaryEdit 4 "1"] := by
  constructor
  · intro h
    exact absurd h.last.found (by decide +kernel)
  · intro h
    have hcollided : EditOutcome.collided ∈
        ([estuaryEdit 4 "1"].foldl MemoHistory.step (.start estuaryDb)).edits := by decide +kernel
    exact (h.last.edits _ hcollided).2 rfl

end Example

end DolphinVC
