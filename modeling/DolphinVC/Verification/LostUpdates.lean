import DolphinVC.Routers.Theses
import DolphinVC.Transaction.Versioned
import DolphinVC.Verification.Deals

/-!
# Optimistic concurrency of opportunities and theses

PATCH requests carry the version they have read in `If-Match` and interleave with all other
writers, statement by statement. The comparison and the UPDATE are two statements, and the
UPDATE names the row by its key only. So a PATCH replaces what its client has read as long
as every UPDATE of a row that a PATCH names finds the version it was computed from and raises it
(`CommitsVersioned`).
-/

namespace DolphinVC

open Relational Transaction Transition

/-- A row that a PATCH can name. -/
inductive Resource where
  | opportunity (id : Uuid)
  | thesis (id : Uuid)

/-- The row as an `OpportunityDetail` shows it. The database also assigns `updated_at` in every
UPDATE, which no write here says: it stands only where there was no UPDATE at all. -/
def Opportunity.visible (o : Opportunity) : Opportunity :=
  { o with orgId := 0, decisionBy := none, dedupeKey := none }

def Resource.view : Resource → Db → Option (Opportunity ⊕ Thesis)
  | .opportunity id, db => (db.opportunities.find? id).map fun o => .inl o.visible
  | .thesis id, db => (db.theses.find? id).map .inr

def viewVersion : Opportunity ⊕ Thesis → Nat
  | .inl o => o.version
  | .inr t => t.version

/-- The statement is an UPDATE of the row. The ORM sends none when nothing was assigned. -/
def Write.Updates : Write → Resource → Prop
  | .updateOpportunity k set, .opportunity id => k = id ∧ set ≠ {}
  | .updateThesis k set, .thesis id => k = id ∧ set ≠ {}
  | .clearDefaults ids, .thesis id => id ∈ ids
  | _, _ => False

def Resource.versioned (r : Resource) : Versioned Db Write (Opportunity ⊕ Thesis) where
  row := r.view
  version := viewVersion
  Updates w := w.Updates r

/-- The version that the UPDATE sets. The bulk UPDATE of the theses sets none. -/
def Write.nextVersion : Write → Option Nat
  | .updateOpportunity _ set => set.version
  | .updateThesis _ set => set.version
  | _ => none

/-- An UPDATE of the row sets the version that follows the one stored. -/
def Write.Versioned (r : Resource) (db : Db) (w : Write) : Prop :=
  w.Updates r → ∃ x, r.view db = some x ∧ w.nextVersion = some (viewVersion x + 1)

section Rows

variable {db db' : Db} {w : Write}

theorem opportunity_patch_empty (o : Opportunity) : o.patch {} = o := by
  cases o
  rfl

theorem thesis_patch_empty (t : Thesis) : t.patch {} = t := by
  cases t
  rfl

theorem find?_updateOpportunity {id : Uuid} {set : OpportunityPatch}
    (h : db.apply (.updateOpportunity id set) = .ok db') :
    db'.opportunities.find? id = (db.opportunities.find? id).map (Opportunity.patch set) := by
  obtain ⟨-, h⟩ := ite_error_eq_ok.mp h
  cases h
  show (db.opportunities.update id (Opportunity.patch set)).find? id = _
  exact Table.find?_update_self id

theorem find?_updateThesis {id : Uuid} {set : ThesisPatch}
    (h : db.apply (.updateThesis id set) = .ok db') :
    db'.theses.find? id = (db.theses.find? id).map (Thesis.patch set) := by
  cases h
  show (db.theses.update id (Thesis.patch set)).find? id = _
  exact Table.find?_update_self id

theorem framed_versioned (r : Resource) : r.versioned.Framed backend := by
  intro db w db' x hw happly hx
  have happly : db.apply w = .ok db' := happly
  cases r with
  | opportunity id =>
      obtain ⟨o, ho, rfl⟩ := Option.map_eq_some_iff.mp hx
      refine Option.map_eq_some_iff.mpr ⟨o, ?_, rfl⟩
      obtain ⟨row, rfl, hins⟩ | ⟨k, set, rfl, hupd⟩ | ⟨-, hsame⟩ := opportunities_apply happly
      · exact Table.find?_of_insert? hins ho
      · rw [hupd]
        by_cases hk : k = id
        · subst hk
          have hempty : set = {} := by
            by_contra hne
            exact hw ⟨rfl, hne⟩
          have hpatched : (db.opportunities.find? k).map (Opportunity.patch set) = some o := by
            rw [ho, hempty, Option.map_some, opportunity_patch_empty]
          exact (Table.find?_update_self k).trans hpatched
        · exact (Table.find?_update_of_ne hk).trans ho
      · rw [hsame, ho]
  | thesis id =>
      obtain ⟨t, ht, rfl⟩ := Option.map_eq_some_iff.mp hx
      refine Option.map_eq_some_iff.mpr ⟨t, ?_, rfl⟩
      rcases theses_apply happly with
        ⟨row, rfl, hins⟩ | ⟨k, set, rfl, hupd⟩ | ⟨ids, rfl, hupd⟩ | hsame
      · exact Table.find?_of_insert? hins ht
      · rw [hupd]
        by_cases hk : k = id
        · subst hk
          have hempty : set = {} := by
            by_contra hne
            exact hw ⟨rfl, hne⟩
          have hpatched : (db.theses.find? k).map (Thesis.patch set) = some t := by
            rw [ht, hempty, Option.map_some, thesis_patch_empty]
          exact (Table.find?_update_self k).trans hpatched
        · exact (Table.find?_update_of_ne hk).trans ht
      · have hid : t.id ∉ ids := by
          rw [Table.key_of_find? ht]
          exact hw
        rw [hupd]
        refine (Table.find?_updateWhere id).trans ?_
        simp [ht, hid]
      · rw [hsame, ht]

/-- An UPDATE with a version leaves the row with this version. -/
theorem sets_opportunity {id : Uuid} {set : OpportunityPatch} {n : Nat} (h : set.version = some n) :
    (Resource.opportunity id).versioned.Sets backend (.updateOpportunity id set) n := by
  intro db db' y happly hy
  obtain ⟨o', ho', rfl⟩ := Option.map_eq_some_iff.mp hy
  obtain ⟨o, -, rfl⟩ :=
    Option.map_eq_some_iff.mp ((find?_updateOpportunity happly).symm.trans ho')
  change set.version.getD o.version = n
  rw [h]
  rfl

theorem sets_thesis {id : Uuid} {set : ThesisPatch} {n : Nat} (h : set.version = some n) :
    (Resource.thesis id).versioned.Sets backend (.updateThesis id set) n := by
  intro db db' y happly hy
  obtain ⟨t', ht', rfl⟩ := Option.map_eq_some_iff.mp hy
  obtain ⟨t, -, rfl⟩ := Option.map_eq_some_iff.mp ((find?_updateThesis happly).symm.trans ht')
  change set.version.getD t.version = n
  rw [h]
  rfl

theorem raises_of_versioned (r : Resource) (h : w.Versioned r db) :
    r.versioned.Raises backend db w := by
  intro updates
  obtain ⟨x, hx, hversion⟩ := h updates
  refine ⟨x, hx, fun db' happly => ?_⟩
  cases r with
  | opportunity id =>
      cases w with
      | updateOpportunity k set =>
          obtain ⟨rfl, -⟩ := updates
          obtain ⟨o, ho, rfl⟩ := Option.map_eq_some_iff.mp hx
          have hrow : (Resource.opportunity k).view db' = some (.inl (o.patch set).visible) := by
            rw [Resource.view, find?_updateOpportunity happly, ho]
            rfl
          exact ⟨_, hrow, sets_opportunity hversion db db' _ happly hrow⟩
      | _ => exact updates.elim
  | thesis id =>
      cases w with
      | updateThesis k set =>
          obtain ⟨rfl, -⟩ := updates
          obtain ⟨t, ht, rfl⟩ := Option.map_eq_some_iff.mp hx
          have hrow : (Resource.thesis k).view db' = some (.inr (t.patch set)) := by
            rw [Resource.view, find?_updateThesis happly, ht]
            rfl
          exact ⟨_, hrow, sets_thesis hversion db db' _ happly hrow⟩
      | clearDefaults ids => cases hversion
      | _ => exact updates.elim

end Rows

/-- The row and the `If-Match` of a PATCH. -/
abbrev PatchTag := Resource × Option String

abbrev WriterAnswer := Option PatchTag × Except Exc Unit

abbrev WriterWorld := Transaction.World Db Write Exc Call WriterAnswer

abbrev WriterAct := Act Db Write Exc Call WriterAnswer

/-- Whoever writes opportunities or theses. -/
inductive Writer where
  | deal (credentials : Option Credentials) (d : DealDraws) (r : DealRequest)
  | thesis (credentials : Option Credentials) (now : Timestamp) (r : ThesisRequest)
  | auth (r : AuthRequest) (d : Draws)
  | job (run : RunEnv) (jobId : Uuid)

def Writer.patch : Writer → Option PatchTag
  | .deal _ _ (.updateOpportunity id _ ifMatch) => some (.opportunity id, ifMatch)
  | .thesis _ _ (.update id _ ifMatch) => some (.thesis id, ifMatch)
  | _ => none

def Writer.serve (env : Env) : Writer → Tx Unit
  | .deal credentials d r => r.serve env credentials d
  | .thesis credentials now r => r.serve env credentials now
  | .auth r d => Tx.void (r.serve env d)
  | .job run jobId => processJob run jobId

def Writer.program (env : Env) (w : Writer) : Program Db Write Exc Call WriterAnswer :=
  (w.serve env).run.bind fun answer => .done (w.patch, answer)

def WriterAct.Arrives (env : Env) (a : WriterAct) : Prop :=
  ∀ p, a = .spawn p → ∃ w : Writer, p = w.program env

/-- Thread `i` is a PATCH of the row that has succeeded. -/
def Patched (w : WriterWorld) (i : Nat) (r : Resource) (ifMatch : Option String) : Prop :=
  ∃ t, w.threads[i]? = some t ∧ t.prog = .done (some (r, ifMatch), .ok ())

/-- Optimistic concurrency over a whole schedule. A PATCH that has succeeded committed at some
action, and the row was left alone from every earlier state that showed its version. No two of
them carried the same `If-Match`. -/
structure LosesNoUpdate (w : WriterWorld) (schedule : List WriterAct) : Prop where
  unchanged : ∀ i r ifMatch, Patched (schedule.foldl (World.act backend) w) i r ifMatch →
    ∃ earlier a later, schedule = earlier ++ a :: later ∧
      ((earlier.foldl (World.act backend) w).act backend a).committed i ≠
        (earlier.foldl (World.act backend) w).committed i ∧
      ∀ before since x, earlier = before ++ since →
        r.view (before.foldl (World.act backend) w).db = some x →
        matchesVersion ifMatch (viewVersion x) →
          r.versioned.Undisturbed backend (before.foldl (World.act backend) w) since
  once : ∀ i j r ifMatch, Patched (schedule.foldl (World.act backend) w) i r ifMatch →
    Patched (schedule.foldl (World.act backend) w) j r ifMatch → i = j

/-- A PATCH of the row arrives. -/
def Names (env : Env) (schedule : List WriterAct) (r : Resource) : Prop :=
  ∃ (w : Writer) (ifMatch : Option String),
    .spawn (w.program env) ∈ schedule ∧ w.patch = some (r, ifMatch)

/-- Every UPDATE of such a row that the action commits is versioned. -/
def CommitsVersioned (named : Resource → Prop) (w : WriterWorld) (a : WriterAct) : Prop :=
  ∀ ws, w.writeSet a = some ws → ∀ r, named r → backend.Each (Write.Versioned r) w.db ws

section Patch

open Tx

/-- What a PATCH that succeeds has committed. -/
def ReplacesRead {α : Type} (tag : PatchTag) (answer : Except Exc α) (j : Journal Write) : Prop :=
  ∀ a, answer = .ok a → ∃ ws version, j.committed = [ws] ∧ matchesVersion tag.2 version ∧
    tag.1.versioned.Replaces backend version ws

variable {env : Env} {credentials : Option Credentials} {R : Journal Write → Prop}
variable {j : Journal Write} {ifMatch : Option String}

theorem matchesVersion_unique {n m : Nat} (hn : matchesVersion ifMatch n)
    (hm : matchesVersion ifMatch m) : n = m := by
  cases ifMatch with
  | none => cases hn
  | some tag =>
      simp only [matchesVersion, Option.any_some, decide_eq_true_eq] at hn hm
      have hdigits : Nat.toDigits 10 n = Nat.toDigits 10 m := by
        simpa using hn.symm.trans hm
      calc
        n = Nat.ofDigitChars 10 (Nat.toDigits 10 n) 0 := Nat.ofDigitChars_ten_toDigits.symm
        _ = Nat.ofDigitChars 10 (Nat.toDigits 10 m) 0 := by rw [hdigits]
        _ = m := Nat.ofDigitChars_ten_toDigits

theorem getOpportunity_commits {orgId id : Uuid} {Q : Except Exc Opportunity → Journal Write → Prop}
    (herr : ∀ e, Q (.error e) j) (hok : ∀ o : Opportunity, o.id = id → Q (.ok o) j) :
    Commits R Q (getOpportunity orgId id) j := by
  refine commits_bind.mpr (commits_query.mpr ⟨fun db => ?_, herr⟩)
  dsimp only
  cases hfind : db.opportunities.rows.find? fun o => o.id = id ∧ o.orgId = orgId with
  | none => exact herr _
  | some o =>
      have hid := List.find?_some hfind
      simp only [decide_eq_true_eq] at hid
      exact hok o hid.1

theorem getThesis_commits {orgId id : Uuid} {Q : Except Exc Thesis → Journal Write → Prop}
    (herr : ∀ e, Q (.error e) j) (hok : ∀ t : Thesis, t.id = id → Q (.ok t) j) :
    Commits R Q (getThesis orgId id) j := by
  refine commits_bind.mpr (commits_query.mpr ⟨fun db => ?_, herr⟩)
  dsimp only
  cases hfind : db.theses.rows.find? fun t => t.id = id ∧ t.orgId = orgId with
  | none => exact herr _
  | some t =>
      have hid := List.find?_some hfind
      simp only [decide_eq_true_eq] at hid
      exact hok t hid.1

/-- Send what is pending and answer from reads. -/
theorem replacesRead_of_commit {α : Type} {tag : PatchTag} {tail : DolphinVC.Tx α} {version : Nat}
    (hj : j.committed = []) (matched : matchesVersion tag.2 version)
    (replaces : tag.1.versioned.Replaces backend version j.pending) (htail : Reads tail) :
    Commits (fun _ => True) (ReplacesRead tag) (do Tx.commit; tail) j := by
  refine commits_bind.mpr (commits_commit.mpr ⟨trivial, htail.commits fun _ _ _ => ?_, ?_⟩)
  · exact ⟨j.pending, version, by rw [Journal.committed_commit, hj, List.nil_append], matched,
      replaces⟩
  · intro e a h
    cases h

theorem updateOpportunity_commits {d : DealDraws} {id : Uuid} {body : OpportunityUpdate} :
    Commits (fun _ => True) (ReplacesRead (.opportunity id, ifMatch))
      (updateOpportunityEndpoint env credentials d id body ifMatch) {} := by
  have fails {e : Exc} {j : Journal Write} : ReplacesRead (α := OpportunityDetail)
      (.opportunity id, ifMatch) (.error e) j := by
    intro a h
    cases h
  refine commits_bind.mpr ((reads_require _ _ _ _).commits fun principal? => ?_)
  cases principal? with
  | error e => exact fails
  | ok principal =>
      refine commits_bind.mpr (getOpportunity_commits (fun e => fails) fun o hid => ?_)
      show Commits _ _ (if _ then _ else _) _
      split
      · exact fails
      · rename_i hmatch
        have hversion : (o.changes (body.assign o)).version = some (o.version + 1) := by
          simp [Opportunity.changes, OpportunityUpdate.assign, changed]
        have replaces (extra : List Write) : (Resource.opportunity id).versioned.Replaces backend
            o.version (.updateOpportunity o.id (o.changes (body.assign o)) :: extra) := by
          refine ⟨_, List.mem_cons_self, ⟨hid, fun hempty => ?_⟩, hid ▸ sets_opportunity hversion⟩
          rw [hempty] at hversion
          cases hversion
        have matched : matchesVersion ifMatch o.version := by simpa using hmatch
        refine commits_bind.mpr (commits_stage.mpr ?_)
        dsimp only
        split
        · refine commits_bind.mpr (commits_stage.mpr ?_)
          exact replacesRead_of_commit rfl matched (replaces [_]) (reads_refreshedDetail _)
        · exact replacesRead_of_commit rfl matched (replaces []) (reads_refreshedDetail _)

theorem updateThesis_commits {now : Timestamp} {id : Uuid} {body : ThesisUpdate} :
    Commits (fun _ => True) (ReplacesRead (.thesis id, ifMatch))
      (updateThesisEndpoint env credentials now id body ifMatch) {} := by
  have fails {e : Exc} {j : Journal Write} : ReplacesRead (α := Thesis)
      (.thesis id, ifMatch) (.error e) j := by
    intro a h
    cases h
  refine commits_bind.mpr ((reads_require _ _ _ _).commits fun principal? => ?_)
  cases principal? with
  | error e => exact fails
  | ok principal =>
      refine commits_bind.mpr (getThesis_commits (fun e => fails) fun t hid => ?_)
      show Commits _ _ (if _ then _ else _) _
      split
      · exact fails
      · rename_i hmatch
        have hversion : (t.changes (body.assign t)).version = some (t.version + 1) := by
          simp [Thesis.changes, ThesisUpdate.assign, changed]
        have updates : (Resource.thesis id).versioned.Updates
            (.updateThesis t.id (t.changes (body.assign t))) := by
          refine ⟨hid, fun hempty => ?_⟩
          rw [hempty] at hversion
          cases hversion
        have matched : matchesVersion ifMatch t.version := by simpa using hmatch
        refine commits_bind.mpr (commits_stage.mpr (commits_bind.mpr (commits_forM_stage.mpr ?_)))
        refine replacesRead_of_commit rfl matched ⟨_, List.mem_cons_self, updates,
          hid ▸ sets_thesis hversion⟩ ?_
        refine Reads.bind (reads_refreshRow _) fun thesis => ?_
        exact Reads.ite (fun _ => Reads.pure _) fun _ => Reads.throw _

theorem ReplacesRead.void {α : Type} {tag : PatchTag} {p : DolphinVC.Tx α}
    (h : Commits (fun _ => True) (ReplacesRead tag) p {}) :
    Commits (fun _ => True) (ReplacesRead tag) (Tx.void p) {} := by
  refine commits_bind.mpr (Program.Commits.mono h ?_)
  rintro (e | a) j hj
  · intro a h
    cases h
  · exact fun _ _ => hj a rfl

/-- What the answers of the writers tell about their histories. -/
def WriterDone (named : Resource → Prop) (answer : WriterAnswer) (j : Journal Write) : Prop :=
  ∀ tag, answer.1 = some tag → named tag.1 ∧ ReplacesRead tag answer.2 j

theorem program_done (env : Env) (w : Writer) {named : Resource → Prop}
    (hnamed : ∀ tag, w.patch = some tag → named tag.1) :
    (w.program env).Commits (fun _ => True) (WriterDone named) {} := by
  refine Program.commits_bind.mpr ?_
  show (w.serve env).run.Commits _ (fun answer j => WriterDone named (w.patch, answer) j) {}
  have plain (h : w.patch = none) : (w.serve env).run.Commits (fun _ => True)
      (fun answer j => WriterDone named (w.patch, answer) j) {} := by
    refine Program.commits_of_forall _ (fun _ => trivial) fun answer j tag htag => ?_
    rw [h] at htag
    cases htag
  have patch (tag : PatchTag) (h : w.patch = some tag)
      (hc : Commits (fun _ => True) (ReplacesRead tag) (w.serve env) {}) :
      (w.serve env).run.Commits (fun _ => True)
        (fun answer j => WriterDone named (w.patch, answer) j) {} := by
    refine Program.Commits.mono hc fun answer j hj tag' htag' => ?_
    obtain rfl := Option.some.inj (h.symm.trans htag')
    exact ⟨hnamed tag h, hj⟩
  cases w with
  | deal credentials d r =>
      cases r with
      | updateOpportunity id body ifMatch =>
          exact patch _ rfl (ReplacesRead.void updateOpportunity_commits)
      | _ => exact plain rfl
  | thesis credentials now r =>
      cases r with
      | update id body ifMatch => exact patch _ rfl (ReplacesRead.void updateThesis_commits)
      | _ => exact plain rfl
  | auth r d => exact plain rfl
  | job run jobId => exact plain rfl

end Patch

section Schedules

variable {env : Env} {w : WriterWorld} {schedule : List WriterAct}

theorem obeys_run {named : Resource → Prop} (arrives : ∀ a ∈ schedule, a.Arrives env)
    (hnamed : ∀ r, Names env schedule r → named r)
    (start : w.Obeys (fun _ => True) (WriterDone named)) :
    (schedule.foldl (World.act backend) w).Obeys (fun _ => True) (WriterDone named) := by
  induction schedule generalizing w with
  | nil => exact start
  | cons a as ih =>
      refine ih (fun b hb => arrives b (List.mem_cons_of_mem a hb)) (fun r hr => hnamed r ?_)
        (start.act fun p hp => ?_)
      · obtain ⟨writer, ifMatch, hmem, hpatch⟩ := hr
        exact ⟨writer, ifMatch, List.mem_cons_of_mem a hmem, hpatch⟩
      · obtain ⟨writer, rfl⟩ := arrives a List.mem_cons_self p hp
        subst hp
        exact program_done env writer fun tag htag =>
          hnamed tag.1 ⟨writer, tag.2, List.mem_cons_self, htag⟩

variable {named : Resource → Prop} {r : Resource}

/-- Versioned commits raise the version of every named row that they update. -/
theorem commitsRaise_of_versioned (hr : named r)
    (run : Meets (World.act backend) (CommitsVersioned named) w schedule) :
    Meets (World.act backend) (r.versioned.CommitsRaise backend) w schedule :=
  run.mono fun _ _ h ws hw => (h ws hw r hr).mono fun _ _ hv => raises_of_versioned r hv

/-- A PATCH that has succeeded replaced its version at one action of its own. -/
theorem replaces_of_patched {i : Nat} {ifMatch : Option String}
    (obeys : (schedule.foldl (World.act backend) w).Obeys (fun _ => True) (WriterDone named))
    (start : w.committed i = [])
    (h : Patched (schedule.foldl (World.act backend) w) i r ifMatch) :
    named r ∧ ∃ earlier a later ws version, schedule = earlier ++ a :: later ∧
      (earlier.foldl (World.act backend) w).writeSet a = some ws ∧
      backend.applyAll (earlier.foldl (World.act backend) w).db ws =
        .ok ((earlier.foldl (World.act backend) w).act backend a).db ∧
      (((earlier.foldl (World.act backend) w).act backend a).committed i ≠
        (earlier.foldl (World.act backend) w).committed i ∧
      ∀ j, j ≠ i → ((earlier.foldl (World.act backend) w).act backend a).committed j =
        (earlier.foldl (World.act backend) w).committed j) ∧
      matchesVersion ifMatch version ∧ r.versioned.Replaces backend version ws := by
  obtain ⟨t, ht, hdone⟩ := h
  obtain ⟨hr, done⟩ := (obeys t (List.mem_of_getElem? ht)).done hdone (r, ifMatch) rfl
  obtain ⟨ws, version, hcommitted, matched, replaces⟩ := done () rfl
  have hhistory : (schedule.foldl (World.act backend) w).committed i = [ws] := by
    rw [World.committed, ht]
    exact hcommitted
  obtain ⟨earlier, a, later, hsplit, hw, happly, hown⟩ := World.exists_commit start hhistory
  exact ⟨hr, earlier, a, later, ws, version, hsplit, hw, happly, hown, matched, replaces⟩

/-- The first of two commits rules out that the second replaces the same version. -/
theorem not_replaces_later {version : Nat} {middle : List WriterAct}
    {a b : WriterAct} {later : List WriterAct} {ws ws' : List Write} {db' : Db} (hr : named r)
    (run : Meets (World.act backend) (CommitsVersioned named) w (a :: (middle ++ b :: later)))
    (hw : w.writeSet a = some ws) (happly : backend.applyAll w.db ws = .ok (w.act backend a).db)
    (replaces : r.versioned.Replaces backend version ws)
    (hw' : (middle.foldl (World.act backend) (w.act backend a)).writeSet b = some ws')
    (happly' : backend.applyAll (middle.foldl (World.act backend) (w.act backend a)).db ws' =
      .ok db') :
    ¬ r.versioned.Replaces backend version ws' := by
  obtain ⟨hmiddle, hlater⟩ := meets_append.mp run.2
  have raises : ∀ {db ws}, backend.Each (Write.Versioned r) db ws →
      backend.Each (r.versioned.Raises backend) db ws :=
    fun h => h.mono fun _ _ hv => raises_of_versioned r hv
  exact Versioned.not_replaces_again (framed_versioned r) (raises (run.1 ws hw r hr)) happly
    replaces (commitsRaise_of_versioned hr hmiddle) (raises (hlater.1 ws' hw' r hr)) happly'

/-- In every schedule of the writers in which each committed UPDATE of a row that a PATCH names
sets the version after the one stored, no PATCH that succeeds loses an update. -/
theorem patches_lose_no_update (env : Env) (db : Db) (schedule : List WriterAct)
    (arrives : ∀ a ∈ schedule, a.Arrives env)
    (versioned : Meets (World.act backend) (CommitsVersioned (Names env schedule)) { db }
      schedule) :
    LosesNoUpdate { db } schedule := by
  have obeys : (schedule.foldl (World.act backend) ({ db } : WriterWorld)).Obeys (fun _ => True)
      (WriterDone (Names env schedule)) :=
    obeys_run arrives (fun _ hr => hr) fun t ht => absurd ht List.not_mem_nil
  have start (i : Nat) : ({ db } : WriterWorld).committed i = [] := rfl
  refine ⟨fun i r ifMatch hpatched => ?_, fun i j r ifMatch hi hj => ?_⟩
  · obtain ⟨hr, earlier, a, later, ws, version, hschedule, hw, happly, ⟨hown, -⟩, matched,
      replaces⟩ := replaces_of_patched obeys (start i) hpatched
    refine ⟨earlier, a, later, hschedule, hown, fun before since x hsplit hx hread => ?_⟩
    subst hsplit
    generalize Names env schedule = named at hr versioned
    rw [hschedule] at versioned
    obtain ⟨hearlier, hcommit, -⟩ := meets_append.mp versioned
    obtain ⟨-, hsince⟩ := meets_append.mp hearlier
    rw [List.foldl_append] at hw happly hcommit
    exact Versioned.undisturbed_of_replaces (framed_versioned r)
      (commitsRaise_of_versioned hr hsince)
      ((hcommit ws hw r hr).mono fun _ _ hv => raises_of_versioned r hv) happly replaces hx
      (matchesVersion_unique hread matched)
  · obtain ⟨hr, earlier, a, later, ws, n, hsplit, hw, happly, ⟨-, hothers⟩, matched,
      replaces⟩ := replaces_of_patched obeys (start i) hi
    obtain ⟨-, earlier', b, later', ws', m, hsplit', hw', happly', ⟨hown', hothers'⟩, matched',
      replaces'⟩ := replaces_of_patched obeys (start j) hj
    generalize Names env schedule = named at hr versioned
    obtain rfl := matchesVersion_unique matched matched'
    -- The two commits are the same action, or one of them comes first.
    rcases List.append_eq_append_iff.mp (hsplit.symm.trans hsplit') with
      ⟨middle, rfl, hmiddle⟩ | ⟨middle, rfl, hmiddle⟩
    · cases middle with
      | nil =>
          rw [List.append_nil] at hown' hothers'
          obtain ⟨rfl, -⟩ := List.cons.inj hmiddle
          by_contra hne
          exact hown' (hothers j (Ne.symm hne))
      | cons c middle =>
          obtain ⟨rfl, rfl⟩ := List.cons.inj hmiddle
          rw [hsplit] at versioned
          obtain ⟨-, hrun⟩ := meets_append.mp versioned
          rw [List.foldl_append] at hw' happly'
          exact absurd replaces' (not_replaces_later hr hrun hw happly replaces hw' happly')
    · cases middle with
      | nil =>
          rw [List.append_nil] at hothers
          obtain ⟨rfl, -⟩ := List.cons.inj hmiddle
          by_contra hne
          exact hown' (hothers j (Ne.symm hne))
      | cons c middle =>
          obtain ⟨rfl, rfl⟩ := List.cons.inj hmiddle
          rw [hsplit'] at versioned
          obtain ⟨-, hrun⟩ := meets_append.mp versioned
          rw [List.foldl_append] at hw happly
          exact absurd replaces (not_replaces_later hr hrun hw' happly' replaces' hw happly)

end Schedules

section HarborFund

/-- A fund with an analyst and an opportunity. -/
def harborDb : Db where
  orgs := ⟨[{ id := 21, name := "Harbor Fund", slug := "harbor-fund" }], by decide⟩
  users := ⟨[
    { id := 22, orgId := 21, email := "omar@harbor.fund", passwordHash := none
      fullName := "Omar" }], by decide⟩
  companies := ⟨[{ id := 23, name := "Buoy", normalizedName := "buoy" }], by decide⟩
  opportunities := ⟨[
    { id := 24, orgId := 21, companyId := 23, origin := .manual, title := some "Buoy"
      firstSignalAt := Timestamp.seconds 0, slaDeadlineAt := Timestamp.seconds 100 }], by decide⟩

def harborEnv : Env :=
  { plainEnv with
    decodeAccessToken := fun token _ =>
      if token = "omar" then
        .ok { sub := 22, org := 21, role := .analyst, scopes := [], iat := 0, exp := 1 }
      else .error (Exc.unauthenticated) }

/-- Omar retitles the opportunity he has read with version 1. -/
def retitle (title : String) : Writer :=
  .deal (some { token := "omar" }) { now := Timestamp.seconds 1 }
    (.updateOpportunity 24 { title := some (some title) } (some "1"))

theorem retitle_arrives (title : String) :
    WriterAct.Arrives harborEnv (.spawn ((retitle title).program harborEnv)) :=
  fun _ hp => ⟨retitle title, (Act.spawn.inj hp).symm⟩

theorem step_arrives (i : Nat) (fault : Option Exc) :
    WriterAct.Arrives harborEnv (.step i fault) := by
  intro p hp
  cases hp

/-- Both requests compare the version before either of them commits. -/
def crossedRetitles : List WriterAct :=
  [.spawn ((retitle "Harbor buoys").program harborEnv),
    .spawn ((retitle "Smart buoys").program harborEnv)] ++
    List.replicate 2 (.step 0 none) ++ List.replicate 8 (.step 1 none) ++
    List.replicate 6 (.step 0 none)

theorem crossed_retitles_both_succeed :
    (∀ a ∈ crossedRetitles, a.Arrives harborEnv) ∧
      ¬ LosesNoUpdate { db := harborDb } crossedRetitles := by
  constructor
  · intro a ha
    simp only [crossedRetitles, List.mem_append, List.mem_cons, List.mem_replicate,
      List.not_mem_nil, or_false] at ha
    obtain (((rfl | rfl) | ⟨-, rfl⟩) | ⟨-, rfl⟩) | ⟨-, rfl⟩ := ha
    · exact retitle_arrives _
    · exact retitle_arrives _
    · exact step_arrives 0 none
    · exact step_arrives 1 none
    · exact step_arrives 0 none
  · intro h
    have hsame : (0 : Nat) = 1 :=
      h.once 0 1 (.opportunity 24) (some "1") ⟨_, rfl, rfl⟩ ⟨_, rfl, rfl⟩
    exact absurd hsame (by decide)

/-- The first has answered before the second begins. -/
def staleRetitle : List WriterAct :=
  (.spawn ((retitle "Harbor buoys").program harborEnv) :: List.replicate 8 (.step 0 none)) ++
    (.spawn ((retitle "Smart buoys").program harborEnv) :: List.replicate 4 (.step 1 none))

theorem versioned_of_idle {named : Resource → Prop} {w : WriterWorld} {a : WriterAct}
    (h : (w.writeSet a).isNone = true) : CommitsVersioned named w a := by
  intro ws hw
  rw [hw] at h
  cases h

/-- The second finds another version than it has read and changes nothing. -/
theorem stale_retitle_fails :
    Patched (staleRetitle.foldl (World.act backend) { db := harborDb }) 0 (.opportunity 24)
        (some "1") ∧
      (∃ e, (staleRetitle.foldl (World.act backend) { db := harborDb }).result? 1 =
        some (some (.opportunity 24, some "1"), .error e)) ∧
      LosesNoUpdate { db := harborDb } staleRetitle := by
  refine ⟨⟨_, rfl, rfl⟩, ⟨_, rfl⟩, patches_lose_no_update harborEnv harborDb staleRetitle ?_ ?_⟩
  · intro a ha
    simp only [staleRetitle, List.mem_append, List.mem_cons, List.mem_replicate] at ha
    obtain (rfl | ⟨-, rfl⟩) | rfl | ⟨-, rfl⟩ := ha
    · exact retitle_arrives _
    · exact step_arrives 0 none
    · exact retitle_arrives _
    · exact step_arrives 1 none
  · generalize Names harborEnv staleRetitle = named
    refine meets_append.mpr ⟨⟨?_, ?_, ?_, ?_, ?commit, ?_, ?_, ?_, ?_, trivial⟩, ?later⟩
    case commit =>
      intro ws hw r _
      cases hw
      refine ⟨fun updates => ?_, fun _ _ => trivial⟩
      cases r with
      | opportunity id =>
          obtain ⟨rfl, -⟩ := updates
          exact ⟨_, rfl, rfl⟩
      | thesis id => exact updates.elim
    case later =>
      have idle : Meets (World.act backend) (fun w (a : WriterAct) => (w.writeSet a).isNone = true)
          ((.spawn ((retitle "Harbor buoys").program harborEnv) ::
            List.replicate 8 (.step 0 none)).foldl (World.act backend) { db := harborDb })
          (.spawn ((retitle "Smart buoys").program harborEnv) ::
            List.replicate 4 (.step 1 none)) := by decide +kernel
      exact idle.mono fun _ _ h => versioned_of_idle h
    all_goals exact versioned_of_idle rfl

end HarborFund

end DolphinVC
