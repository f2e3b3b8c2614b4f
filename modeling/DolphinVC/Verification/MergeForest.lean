import DolphinVC.Transition.Run
import DolphinVC.Verification.MergedFounders

/-!
# The forest of merges

A merge hangs the tree of its loser under its winner, and both are roots. So the pointers
of the rows lead to live founders as long as no founder is merged into itself. Nothing
refuses such a merge: a request that names one live founder twice makes a loop of it.
-/

namespace DolphinVC

open Relational Transaction Transition

/-- The chain of merges from every founder ends at a live one. -/
def Rooted (db : Db) : Prop := ∀ p ∈ db.persons, ∃ q, EndsAt db p.id q

structure MergeRequest where
  credentials : Option Credentials
  now : Timestamp
  personId : Uuid
  loserId : Uuid

namespace MergeRequest

variable (env : Env) (db : Db) (r : MergeRequest)

def serve : Db :=
  ((mergeFounderEndpoint env r.credentials r.now r.personId r.loserId).atomically backend db).2

def Admitted : Prop :=
  ∃ principal, ((require .admin env r.credentials r.now).atomically backend db).1 = .ok principal

/-- An administrator names one live founder as winner and as loser. -/
def Loops : Prop :=
  r.Admitted env db ∧ r.personId = r.loserId ∧
    ∃ p ∈ db.persons, p.id = r.personId ∧ p.mergedIntoId = none

end MergeRequest

section LivePerson

variable {db : Db} {id : Uuid}

theorem livePerson_missing (missing : ∀ p ∈ db.persons, p.id = id → p.mergedIntoId ≠ none) :
    ((livePerson id).atomically backend db).1 = .error (Exc.notFound "Founder") := by
  unfold livePerson
  rw [Tx.atomically_query_bind]
  have hfound : (db.persons.rows.find? fun r => r.id = id ∧ r.mergedIntoId = none) = none := by
    rw [List.find?_eq_none]
    intro p hp hrow
    simp only [decide_eq_true_eq] at hrow
    exact missing p hp hrow.1 hrow.2
  rw [hfound]
  rfl

/-- The id is one of a live row, or the look-up is answered with 404. -/
theorem livePerson_cases (db : Db) (id : Uuid) :
    (∃ p ∈ db.persons, p.id = id ∧ p.mergedIntoId = none) ∨
      ((livePerson id).atomically backend db).1 = .error (Exc.notFound "Founder") := by
  by_cases live : ∃ p ∈ db.persons, p.id = id ∧ p.mergedIntoId = none
  · exact Or.inl live
  · refine Or.inr (livePerson_missing fun p hp hid hlive => live ?_)
    exact ⟨p, hp, hid, hlive⟩

end LivePerson

section Step

variable {env : Env} {db : Db} {r : MergeRequest}

/-- What a merge request does: nothing, or a merge of two live founders. -/
theorem serve_cases (env : Env) (db : Db) (r : MergeRequest) :
    r.serve env db = db ∧ ¬ r.Loops env db ∨
      ∃ winner ∈ db.persons, ∃ loser ∈ db.persons, r.Admitted env db ∧
        winner.id = r.personId ∧ loser.id = r.loserId ∧
        winner.mergedIntoId = none ∧ loser.mergedIntoId = none ∧
        r.serve env db = db.merged loser.id winner.id := by
  cases hadmin : ((require .admin env r.credentials r.now).atomically backend db).1 with
  | error e =>
      refine Or.inl ⟨?_, ?_⟩
      · exact congrArg Prod.snd (Tx.Reads.atomically_bind_error (reads_require _ _ _ _) hadmin)
      · rintro ⟨⟨principal, hok⟩, -⟩
        rw [hadmin] at hok
        cases hok
  | ok principal =>
      have hserve : r.serve env db = ((do
          let winner ← livePerson r.personId
          let loser ← livePerson r.loserId
          Tx.stage (.mergePerson loser.id winner.id)
          Tx.commit
          return (winner.id, loser.id) : Tx (Uuid × Uuid)).atomically backend db).2 :=
        congrArg Prod.snd (Tx.Reads.atomically_bind (reads_require _ _ _ _) hadmin)
      obtain ⟨winner, hw, hwid, hwlive⟩ | hmissing := livePerson_cases db r.personId
      · obtain ⟨loser, hl, hlid, hllive⟩ | hmissing := livePerson_cases db r.loserId
        · refine Or.inr ⟨winner, hw, loser, hl, ⟨principal, hadmin⟩, hwid, hlid, hwlive, hllive, ?_⟩
          have hserved := mergeFounder_served hadmin hw hwlive hl hllive
          rw [hwid, hlid] at hserved
          rw [MergeRequest.serve, hserved, hwid, hlid]
        · refine Or.inl ⟨?_, ?_⟩
          · rw [hserve, ← hwid,
              Tx.Reads.atomically_bind (reads_livePerson _) (livePerson_served hw hwlive)]
            exact congrArg Prod.snd (Tx.Reads.atomically_bind_error (reads_livePerson _) hmissing)
          · rintro ⟨-, hsame, -⟩
            rw [← hsame, ← hwid, livePerson_served hw hwlive] at hmissing
            cases hmissing
      · refine Or.inl ⟨?_, ?_⟩
        · rw [hserve]
          exact congrArg Prod.snd (Tx.Reads.atomically_bind_error (reads_livePerson _) hmissing)
        · rintro ⟨-, -, p, hp, hid, hlive⟩
          rw [← hid, livePerson_served hp hlive] at hmissing
          cases hmissing

variable {winner loser : Person}

/-- A merge of two different live founders lets every chain go on to a live one. -/
theorem EndsAt.merged_live (hw : winner ∈ db.persons) (hwlive : winner.mergedIntoId = none)
    (hl : loser ∈ db.persons) (hllive : loser.mergedIntoId = none)
    (distinct : winner.id ≠ loser.id) {id : Uuid} {q : Person} (h : EndsAt db id q) :
    ∃ q', EndsAt (db.merged loser.id winner.id) id q' := by
  have hwrow : winner ∈ (db.merged loser.id winner.id).persons :=
    mem_merged.mpr ⟨winner, hw, if_neg distinct⟩
  induction h with
  | @live p hp hlive =>
      by_cases hid : p.id = loser.id
      · have hrow : { p with mergedIntoId := some winner.id } ∈
            (db.merged loser.id winner.id).persons := mem_merged.mpr ⟨p, hp, if_pos hid⟩
        have hend : EndsAt (db.merged loser.id winner.id)
            { p with mergedIntoId := some winner.id }.id winner :=
          EndsAt.merged hrow rfl (EndsAt.live hwrow hwlive)
        exact ⟨winner, hend⟩
      · exact ⟨p, EndsAt.live (mem_merged.mpr ⟨p, hp, if_neg hid⟩) hlive⟩
  | @merged p q next hp hnext rest ih =>
      have hid : p.id ≠ loser.id := by
        intro hid
        rw [Table.eq_of_key hp hl hid, hllive] at hnext
        cases hnext
      obtain ⟨q', hend⟩ := ih
      exact ⟨q', EndsAt.merged (mem_merged.mpr ⟨p, hp, if_neg hid⟩) hnext hend⟩

theorem Rooted.merged (h : Rooted db) (hw : winner ∈ db.persons)
    (hwlive : winner.mergedIntoId = none) (hl : loser ∈ db.persons)
    (hllive : loser.mergedIntoId = none) (distinct : winner.id ≠ loser.id) :
    Rooted (db.merged loser.id winner.id) := by
  intro r hr
  obtain ⟨p, hp, hrow⟩ := mem_merged.mp hr
  have hid : r.id = p.id := by
    rw [← hrow]
    split
    · rfl
    · rfl
  obtain ⟨q, hend⟩ := h p hp
  rw [hid]
  exact EndsAt.merged_live hw hwlive hl hllive distinct hend

/-- A chain that ends does not pass a founder merged into itself. -/
theorem EndsAt.ne_of_loop {id start : Uuid} {q : Person} (h : EndsAt (db.merged id id) start q) :
    start ≠ id := by
  have row (r : Person) (hr : r ∈ (db.merged id id).persons) (hid : r.id = id) :
      r.mergedIntoId = some id := by
    obtain ⟨p, -, rfl⟩ := mem_merged.mp hr
    split at hid
    · rw [if_pos ‹_›]
    · exact absurd hid ‹_›
  induction h with
  | @live p hp hlive =>
      intro hid
      rw [row p hp hid] at hlive
      cases hlive
  | @merged p q next hp hnext rest ih =>
      intro hid
      rw [row p hp hid] at hnext
      exact ih (Option.some.inj hnext).symm

/-- Whether the pointers still lead to live founders is decided by the request alone. -/
theorem rooted_serve_iff (h : Rooted db) : Rooted (r.serve env db) ↔ ¬ r.Loops env db := by
  rcases serve_cases env db r with ⟨hsame, hloop⟩ |
    ⟨winner, hw, loser, hl, hadmin, hwid, hlid, hwlive, hllive, hserve⟩
  · rw [hsame]
    exact iff_of_true h hloop
  · rw [hserve]
    by_cases hself : winner.id = loser.id
    · refine iff_of_false ?_ (not_not_intro ?_)
      · intro hrooted
        have hrow : { loser with mergedIntoId := some winner.id } ∈
            (db.merged loser.id winner.id).persons := mem_merged.mpr ⟨loser, hl, if_pos rfl⟩
        obtain ⟨q, hend⟩ := hrooted _ hrow
        rw [hself] at hend
        exact hend.ne_of_loop rfl
      · exact ⟨hadmin, by rw [← hwid, ← hlid, hself], winner, hw, hwid, hwlive⟩
    · refine iff_of_true (h.merged hw hwlive hl hllive hself) ?_
      rintro ⟨-, hsame, -⟩
      exact hself (by rw [hwid, hlid, hsame])

end Step

/-- Along a sequence of merge requests the founders form a forest with live roots exactly
when no request merges a live founder into itself. -/
theorem merges_rooted_iff (env : Env) (db : Db) (requests : List MergeRequest)
    (start : Rooted db) :
    Along (fun db (r : MergeRequest) => r.serve env db) Rooted db requests ↔
      Meets (fun db (r : MergeRequest) => r.serve env db)
        (fun db r => ¬ r.Loops env db) db requests :=
  along_iff_meets (I := fun _ => True) (A := fun _ => True) (fun _ _ _ _ => trivial)
    (fun _ _ _ _ h => rooted_serve_iff h) (fun _ _ => trivial) trivial start

section Reef

theorem reef_rooted : Rooted reefDb := by
  intro p hp
  have live : ∀ r ∈ reefDb.persons, r.mergedIntoId = none := by decide
  exact ⟨p, EndsAt.live hp (live p hp)⟩

/-- Bea is merged into Ana, and Ana into Bo. -/
def reefMerges : List MergeRequest :=
  [⟨ivo, 0, ana.id, bea.id⟩, ⟨ivo, 0, bo.id, ana.id⟩]

theorem reef_merges_rooted :
    Along (fun db (r : MergeRequest) => r.serve reefEnv db) Rooted reefDb reefMerges :=
  (merges_rooted_iff reefEnv reefDb reefMerges reef_rooted).mpr
    ⟨fun h => absurd h.2.1 (by decide), fun h => absurd h.2.1 (by decide), trivial⟩

/-- Merged into herself, Ana has no live successor. -/
theorem self_merge_loops :
    ¬ Along (fun db (r : MergeRequest) => r.serve reefEnv db) Rooted reefDb
      [⟨ivo, 0, ana.id, ana.id⟩] := by
  intro h
  have hana : ana ∈ reefDb.persons :=
    List.mem_cons_of_mem _ (List.mem_cons_of_mem _ List.mem_cons_self)
  obtain ⟨principal, admin⟩ := ivo_is_admin
  exact (rooted_serve_iff reef_rooted).mp h.last
    ⟨⟨principal, admin⟩, rfl, ana, hana, rfl, rfl⟩

end Reef

end DolphinVC
