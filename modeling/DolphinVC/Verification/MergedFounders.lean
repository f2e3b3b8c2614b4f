import DolphinVC.Transaction.Rely
import DolphinVC.Verification.Identities

/-!
# What a merge loses

A merge points the loser's row at the winner's and moves nothing: neither addresses and
identities nor score events. Every look-up skips the loser from then on. `Heir` is when
a contact that used to reach the loser reaches the winner all the same.
-/

namespace DolphinVC

open Relational Transaction

/-- What a founder is looked up by: the hint of a signal, or the contact of an application. -/
inductive Contact where
  | hint (provider value : String)
  | application (email? : Option String) (displayName : String)

namespace Contact

variable (env : Env)

def look : Contact → Tx (Option Person)
  | .hint provider value => Tx.query (personByIdentity env provider value)
  | .application email? displayName => findFounder env email? displayName

/-- The look-up served alone finds the person. -/
def Resolves (db : Db) (c : Contact) (p : Person) : Prop :=
  ((c.look env).atomically backend db).1 = .ok (some p)

/-- The person has the identity or the address. -/
def identifies (p : Person) : Contact → Bool
  | .hint provider value =>
      env.casefold (textAt provider p.links.texts) = env.casefold value ∨
        env.casefold (textAt provider p.links.identities) = env.casefold value
  | .application email? _ => email?.any fun email => email ∈ p.emails.map env.casefold

/-- The person has the name. -/
def names (p : Person) : Contact → Bool
  | .hint _ value => normalizeName env value ≠ "" ∧ p.normalizedName = normalizeName env value
  | .application _ displayName => p.normalizedName = normalizeName env displayName

end Contact

/-- The chain of merges from a row ends at a live person. -/
inductive EndsAt (db : Db) : Uuid → Person → Prop where
  | live {p : Person} (hp : p ∈ db.persons) (hlive : p.mergedIntoId = none) : EndsAt db p.id p
  | merged {p q : Person} {next : Uuid} (hp : p ∈ db.persons)
      (hnext : p.mergedIntoId = some next) (rest : EndsAt db next q) : EndsAt db p.id q

/-- The contact reaches the person that the loser was merged into, no new one, and that
person's score is computed from the loser's events too. -/
def Lossless (env : Env) (db : Db) (loserId : Uuid) (contact : Contact) : Prop :=
  ∃ p, EndsAt db loserId p ∧ contact.Resolves env db p ∧
    ∀ e ∈ db.founderScoreEvents, e.personId = loserId → e ∈ founderEvents p.id db

theorem endsAt_iff {db : Db} {id : Uuid} {q : Person} : EndsAt db id q ↔
    ∃ p ∈ db.persons, p.id = id ∧ (p.mergedIntoId = none ∧ p = q ∨
      ∃ next, p.mergedIntoId = some next ∧ EndsAt db next q) := by
  constructor
  · intro h
    cases h with
    | live hp hlive => exact ⟨q, hp, rfl, Or.inl ⟨hlive, rfl⟩⟩
    | merged hp hnext rest => exact ⟨_, hp, rfl, Or.inr ⟨_, hnext, rest⟩⟩
  · rintro ⟨p, hp, rfl, ⟨hlive, rfl⟩ | ⟨next, hnext, rest⟩⟩
    · exact EndsAt.live hp hlive
    · exact EndsAt.merged hp hnext rest

/-- The first row with the property. -/
def FirstWith (m : Person → Bool) (db : Db) (p : Person) : Prop :=
  m p = true ∧ ∃ before after, db.persons.rows = before ++ p :: after ∧ ∀ q ∈ before, m q = false

/-- A live person other than the loser. -/
def remains (loserId : Uuid) (p : Person) : Bool := p.mergedIntoId = none ∧ p.id ≠ loserId

/-- The winner has what the contact asks for itself, in front of every live row but the
loser's: the identity or address, or the name when no such row has the identity. -/
def Heir (env : Env) (db : Db) (loserId : Uuid) (contact : Contact) (winner : Person) : Prop :=
  FirstWith (fun p => remains loserId p && contact.identifies env p) db winner ∨
  (∀ p ∈ db.persons, remains loserId p = true → contact.identifies env p = false) ∧
    FirstWith (fun p => remains loserId p && contact.names env p) db winner

section LookUps

variable {env : Env} {db : Db}

/-- Both look-ups search the live rows for the identity and then for the name. -/
theorem contact_looks (contact : Contact) : Tx.Looks backend (contact.look env) fun db =>
    (db.persons.rows.find? fun p => p.mergedIntoId = none && contact.identifies env p).or
      (db.persons.rows.find? fun p => p.mergedIntoId = none && contact.names env p) := by
  cases contact with
  | hint provider value =>
      have hlook : personByIdentity env provider value = fun db =>
          (db.persons.rows.find? fun p =>
            p.mergedIntoId = none && (Contact.hint provider value).identifies env p).or
          (db.persons.rows.find? fun p =>
            p.mergedIntoId = none && (Contact.hint provider value).names env p) := by
        funext db
        unfold personByIdentity
        congr 1
        · congr 1
          funext p
          simp [Contact.identifies]
        · split
          · rename_i hempty
            refine (List.find?_eq_none.mpr fun p _ => ?_).symm
            simp [Contact.names, hempty]
          · rename_i hne
            congr 1
            funext p
            simp [Contact.names, hne, Bool.and_comm]
      rw [← hlook]
      exact Tx.looks_query _
  | application email? displayName =>
      have hlook : founderFor env email? displayName = fun db =>
          (db.persons.rows.find? fun p =>
            p.mergedIntoId = none && (Contact.application email? displayName).identifies env p).or
          (db.persons.rows.find? fun p =>
            p.mergedIntoId = none && (Contact.application email? displayName).names env p) := by
        funext db
        unfold founderFor
        congr 1
        · cases email? with
          | none =>
              refine (List.find?_eq_none.mpr fun p _ => ?_).symm
              simp [Contact.identifies]
          | some email =>
              show personByEmail env email db = _
              unfold personByEmail
              congr 1
              funext p
              simp [Contact.identifies]
        · unfold personByName
          congr 1
          funext p
          simp [Contact.names, Bool.and_comm]
      rw [← hlook]
      exact findFounder_looks

theorem resolves_iff {contact : Contact} {p : Person} : contact.Resolves env db p ↔
    (db.persons.rows.find? fun p => p.mergedIntoId = none && contact.identifies env p).or
      (db.persons.rows.find? fun p => p.mergedIntoId = none && contact.names env p) = some p := by
  unfold Contact.Resolves
  rw [(contact_looks contact).atomically, Except.ok.injEq]

/-- Only live founders are found. -/
theorem live_of_resolves {contact : Contact} {p : Person} (h : contact.Resolves env db p) :
    p ∈ db.persons ∧ p.mergedIntoId = none := by
  have found {m : Person → Bool}
      (h : (db.persons.rows.find? fun p => p.mergedIntoId = none && m p) = some p) :
      p ∈ db.persons ∧ p.mergedIntoId = none := by
    have hrow := List.find?_some h
    simp only [Bool.and_eq_true, decide_eq_true_eq] at hrow
    exact ⟨List.mem_of_find?_eq_some h, hrow.1⟩
  obtain h | ⟨-, h⟩ := Option.or_eq_some_iff.mp (resolves_iff.mp h)
  · exact found h
  · exact found h

theorem firstWith_iff {m : Person → Bool} {p : Person} :
    FirstWith m db p ↔ db.persons.rows.find? m = some p := by
  rw [List.find?_eq_some_iff_append]
  simp only [FirstWith, Bool.not_eq_eq_eq_not, Bool.not_true]

end LookUps

section Merge

variable {env : Env} {credentials : Option Credentials} {now : Timestamp} {db : Db}
variable {winner loser : Person} {contact : Contact}

theorem Person.mergedInto_id (winnerId : Uuid) (r : Person) :
    { r with mergedIntoId := some winnerId }.id = r.id := rfl

/-- The store after a merge. -/
def Db.merged (db : Db) (loserId winnerId : Uuid) : Db :=
  { db with
    persons := db.persons.update loserId (fun r => { r with mergedIntoId := some winnerId })
      (Person.mergedInto_id winnerId) }

theorem livePerson_served {p : Person} (hp : p ∈ db.persons) (hlive : p.mergedIntoId = none) :
    ((livePerson p.id).atomically backend db).1 = .ok p := by
  unfold livePerson
  rw [Tx.atomically_query_bind]
  have hfound : (db.persons.rows.find? fun r => r.id = p.id ∧ r.mergedIntoId = none) = some p := by
    refine Table.find?_eq_some_of_unique hp (by simp [hlive]) fun s hs hrow => ?_
    simp only [decide_eq_true_eq] at hrow
    exact Table.eq_of_key hs hp hrow.1
  rw [hfound]
  rfl

theorem mergeFounder_served {principal : Principal}
    (admin : ((require .admin env credentials now).atomically backend db).1 = .ok principal)
    (hw : winner ∈ db.persons) (hwlive : winner.mergedIntoId = none)
    (hl : loser ∈ db.persons) (hllive : loser.mergedIntoId = none) :
    (mergeFounderEndpoint env credentials now winner.id loser.id).atomically backend db =
      (.ok (winner.id, loser.id), db.merged loser.id winner.id) := by
  unfold mergeFounderEndpoint
  rw [Tx.Reads.atomically_bind (reads_require _ _ _ _) admin,
    Tx.Reads.atomically_bind (reads_livePerson _) (livePerson_served hw hwlive),
    Tx.Reads.atomically_bind (reads_livePerson _) (livePerson_served hl hllive)]
  rfl

theorem mem_merged {winnerId loserId : Uuid} {r : Person} :
    r ∈ (db.merged loserId winnerId).persons ↔ ∃ p ∈ db.persons,
      (if p.id = loserId then { p with mergedIntoId := some winnerId } else p) = r := by
  unfold Db.merged
  apply Table.mem_update
  exact fun _ => rfl

/-- A search among the live rows after the merge is one among those that remain. -/
theorem find?_merged {m : Person → Bool} {winnerId loserId : Uuid} :
    ((db.merged loserId winnerId).persons.rows.find? fun p => p.mergedIntoId = none && m p) =
      db.persons.rows.find? fun p => remains loserId p && m p := by
  have hrows : (db.merged loserId winnerId).persons.rows = db.persons.rows.map fun p =>
      if p.id = loserId then { p with mergedIntoId := some winnerId } else p := by
    simp [Db.merged, Table.update, Table.updateWhere]
  rw [hrows, List.find?_map]
  have hsame : ((fun p : Person => decide (p.mergedIntoId = none) && m p) ∘ fun p =>
      if p.id = loserId then { p with mergedIntoId := some winnerId } else p) =
      fun p => remains loserId p && m p := by
    funext p
    by_cases hp : p.id = loserId
    · simp [remains, hp]
    · simp [remains, hp]
  rw [hsame]
  cases hfound : db.persons.rows.find? fun p => remains loserId p && m p with
  | none => rfl
  | some p =>
      have hrow := List.find?_some hfound
      simp only [remains, Bool.and_eq_true, decide_eq_true_eq] at hrow
      simp [hrow.1.2]

theorem resolves_merged_iff {p : Person} :
    contact.Resolves env (db.merged loser.id winner.id) p ↔ Heir env db loser.id contact p := by
  rw [resolves_iff, find?_merged, find?_merged, Option.or_eq_some_iff]
  unfold Heir
  rw [firstWith_iff, firstWith_iff, List.find?_eq_none]
  simp only [Bool.and_eq_true, not_and, Bool.not_eq_true, Table.mem_rows]

theorem endsAt_merged_iff (hw : winner ∈ db.persons) (hwlive : winner.mergedIntoId = none)
    (hl : loser ∈ db.persons) (distinct : winner.id ≠ loser.id) {p : Person} :
    EndsAt (db.merged loser.id winner.id) loser.id p ↔ p = winner := by
  have row (r : Person) (hr : r ∈ (db.merged loser.id winner.id).persons) :
      r.id = loser.id ∧ r.mergedIntoId = some winner.id ∨ r.id ≠ loser.id ∧ r ∈ db.persons := by
    obtain ⟨r₀, hr₀, rfl⟩ := mem_merged.mp hr
    by_cases hid : r₀.id = loser.id
    · rw [if_pos hid]
      exact Or.inl ⟨hid, rfl⟩
    · rw [if_neg hid]
      exact Or.inr ⟨hid, hr₀⟩
  have hwrow : winner ∈ (db.merged loser.id winner.id).persons :=
    mem_merged.mpr ⟨winner, hw, if_neg distinct⟩
  have hlrow : { loser with mergedIntoId := some winner.id } ∈
      (db.merged loser.id winner.id).persons := mem_merged.mpr ⟨loser, hl, if_pos rfl⟩
  have atWinner {q : Person} (h : EndsAt (db.merged loser.id winner.id) winner.id q) :
      q = winner := by
    obtain ⟨r, hr, hid, hend⟩ := endsAt_iff.mp h
    obtain ⟨hloser, -⟩ | ⟨-, hmem⟩ := row r hr
    · exact absurd (hid.symm.trans hloser) distinct
    · obtain rfl := Table.eq_of_key hmem hw hid
      obtain ⟨-, rfl⟩ | ⟨next, hnext, -⟩ := hend
      · rfl
      · rw [hwlive] at hnext
        cases hnext
  constructor
  · intro h
    obtain ⟨r, hr, hid, hend⟩ := endsAt_iff.mp h
    obtain ⟨-, hmerged⟩ | ⟨hother, -⟩ := row r hr
    · obtain ⟨hlive, -⟩ | ⟨next, hnext, rest⟩ := hend
      · rw [hmerged] at hlive
        cases hlive
      · rw [hmerged] at hnext
        cases hnext
        exact atWinner rest
    · exact absurd hid hother
  · rintro rfl
    exact endsAt_iff.mpr ⟨_, hlrow, rfl, Or.inr ⟨_, rfl, EndsAt.live hwrow hwlive⟩⟩

/-- An event of the loser is never among the winner's. -/
theorem mem_founderEvents {personId : Uuid} {e : FounderScoreEvent} :
    e ∈ founderEvents personId db ↔ e ∈ db.founderScoreEvents ∧ e.personId = personId := by
  simp [founderEvents]

/-- A merge of two live founders loses nothing of a contact that reached the loser exactly
when the winner is the contact's heir and no score event was recorded for the loser. -/
theorem merge_lossless_iff (env : Env) (credentials : Option Credentials) (now : Timestamp)
    (db : Db) (winner loser : Person) (contact : Contact) (principal : Principal)
    (admin : ((require .admin env credentials now).atomically backend db).1 = .ok principal)
    (hw : winner ∈ db.persons) (hwlive : winner.mergedIntoId = none)
    (hl : loser ∈ db.persons) (distinct : winner.id ≠ loser.id)
    (reached : contact.Resolves env db loser) :
    Lossless env ((mergeFounderEndpoint env credentials now winner.id loser.id).atomically
        backend db).2 loser.id contact ↔
      Heir env db loser.id contact winner ∧
        ∀ e ∈ db.founderScoreEvents, e.personId ≠ loser.id := by
  have hllive : loser.mergedIntoId = none := (live_of_resolves reached).2
  rw [mergeFounder_served admin hw hwlive hl hllive]
  unfold Lossless
  simp only [endsAt_merged_iff hw hwlive hl distinct, exists_eq_left, resolves_merged_iff]
  refine and_congr_right fun _ => ?_
  constructor
  · intro h e he hloser
    exact distinct ((mem_founderEvents.mp (h e he hloser)).2.symm.trans hloser)
  · intro h e he hloser
    exact absurd hloser (h e he)

end Merge

section Later

variable {env : Env} {db db' : Db} {w : Write} {id : Uuid} {contact : Contact}

def MergedAway (id : Uuid) (db : Db) : Prop :=
  ∃ p ∈ db.persons, p.id = id ∧ p.mergedIntoId ≠ none

/-- No write takes a merge back. -/
theorem mergedAway_apply (h : MergedAway id db) (happly : db.apply w = .ok db') :
    MergedAway id db' := by
  obtain ⟨p, hp, rfl, hmerged⟩ := h
  have same (heq : db'.persons = db.persons) : MergedAway p.id db' := ⟨p, heq ▸ hp, rfl, hmerged⟩
  have updated {k : Uuid} {f : Person → Person} (keeps : ∀ r, (f r).id = r.id)
      (stays : (f p).mergedIntoId ≠ none) (heq : db'.persons = db.persons.update k f keeps) :
      MergedAway p.id db' := by
    refine ⟨_, heq ▸ Table.mem_update.mpr ⟨p, hp, rfl⟩, ?_⟩
    split
    · exact ⟨keeps p, stays⟩
    · exact ⟨rfl, hmerged⟩
  cases w with
  | insertPerson row =>
      obtain ⟨T, hT, rfl⟩ := map_eq_ok.mp happly
      exact ⟨p, (Table.mem_insert? (insertRow_eq_ok.mp hT).2).mpr (Or.inl hp), rfl, hmerged⟩
  | countSignal personId at' signalCount sourceCount =>
      cases happly
      refine updated ?_ ?_ rfl
      · exact fun _ => rfl
      · exact hmerged
  | addEmail personId emails =>
      cases happly
      refine updated ?_ ?_ rfl
      · exact fun _ => rfl
      · exact hmerged
  | mergePerson loserId winnerId =>
      cases happly
      refine updated ?_ ?_ rfl
      · exact fun _ => rfl
      · exact Option.some_ne_none winnerId
  | erasePerson id =>
      cases happly
      refine updated ?_ ?_ rfl
      · exact fun _ => rfl
      · exact hmerged
  | refused e => cases happly
  | _ =>
      simp only [Db.apply, map_eq_ok, ite_error_eq_ok, Except.ok.injEq] at happly
      first
      | (subst happly; exact same rfl)
      | (obtain ⟨t, -, rfl⟩ := happly; exact same rfl)
      | (obtain ⟨-, t, -, rfl⟩ := happly; exact same rfl)

/-- Score events are only added. -/
theorem scoreEvent_apply {e : FounderScoreEvent} (h : e ∈ db.founderScoreEvents)
    (happly : db.apply w = .ok db') : e ∈ db'.founderScoreEvents := by
  cases w with
  | insertFounderScoreEvent row =>
      cases happly
      exact List.mem_append_left _ h
  | refused e => cases happly
  | _ =>
      simp only [Db.apply, map_eq_ok, ite_error_eq_ok, Except.ok.injEq] at happly
      first
      | (subst happly; exact h)
      | (obtain ⟨t, -, rfl⟩ := happly; exact h)
      | (obtain ⟨-, t, -, rfl⟩ := happly; exact h)

/-- Whatever is merged, ingested and applied for later, nobody finds the loser again. -/
theorem loser_never_found (merged : MergedAway id db) (later : backend.Reaches db db') {p : Person}
    (found : contact.Resolves env db' p) : p.id ≠ id := by
  obtain ⟨q, hq, rfl, hmerged⟩ :=
    later.keeps (fun _ _ _ h happly => mergedAway_apply h happly) merged
  obtain ⟨hp, hlive⟩ := live_of_resolves found
  intro hid
  rw [← Table.eq_of_key hp hq hid] at hmerged
  exact hmerged hlive

/-- An event that was recorded for the loser counts for nobody whom a contact reaches, ever. -/
theorem never_lossless {e : FounderScoreEvent} (merged : MergedAway id db)
    (recorded : e ∈ db.founderScoreEvents) (hloser : e.personId = id)
    (later : backend.Reaches db db') : ¬ Lossless env db' id contact := by
  rintro ⟨p, -, found, counts⟩
  have kept : e ∈ db'.founderScoreEvents :=
    later.keeps (P := fun db => e ∈ db.founderScoreEvents)
      (fun _ _ _ h happly => scoreEvent_apply h happly) recorded
  have counted := (mem_founderEvents.mp (counts e kept hloser)).2
  exact loser_never_found merged later found (counted.symm.trans hloser)

end Later

section Reef

/-- Bea was discovered on GitHub, Ana wrote herself; Bo and Ana share an address. -/
def bea : Person :=
  newSignalPerson plainEnv 2 "github" "bea"

def bo : Person where
  id := 3
  displayName := "Bo"
  normalizedName := "bo"
  emails := ["team@reef.example"]

def ana : Person where
  id := 4
  displayName := "Ana"
  normalizedName := "ana"
  emails := ["team@reef.example"]

def reefDb : Db where
  orgs := ⟨[{ id := 11, name := "Reef Fund", slug := "reef-fund" }], by decide⟩
  users := ⟨[
    { id := 12, orgId := 11, email := "ivo@reef.fund", passwordHash := none, fullName := "Ivo"
      role := .owner }], by decide⟩
  persons := ⟨[bea, bo, ana], by decide⟩

def reefEnv : Env :=
  { plainEnv with
    decodeAccessToken := fun token _ =>
      if token = "ivo" then
        .ok { sub := 12, org := 11, role := .owner, scopes := [], iat := 0, exp := 1 }
      else .error (Exc.unauthenticated) }

def ivo : Option Credentials := some { token := "ivo" }

theorem ivo_is_admin : ∃ principal,
    ((require .admin reefEnv ivo 0).atomically backend reefDb).1 = .ok principal := ⟨_, rfl⟩

/-- Merged into Ana, Bea is not found by the GitHub name under which she was discovered. -/
theorem merged_identity_is_lost :
    (Contact.hint "github" "bea").Resolves reefEnv reefDb bea ∧
      ¬ Lossless reefEnv
        ((mergeFounderEndpoint reefEnv ivo 0 ana.id bea.id).atomically backend reefDb).2
        bea.id (.hint "github" "bea") := by
  obtain ⟨principal, admin⟩ := ivo_is_admin
  have hana : ana ∈ reefDb.persons :=
    List.mem_cons_of_mem _ (List.mem_cons_of_mem _ List.mem_cons_self)
  have hbea : bea ∈ reefDb.persons := List.mem_cons_self
  refine ⟨resolves_iff.mpr rfl, ?_⟩
  rw [mergeFounder_served admin hana rfl hbea rfl]
  rintro ⟨p, hend, hfound, -⟩
  rw [endsAt_merged_iff hana rfl hbea (by decide)] at hend
  subst hend
  have hid := congrArg (Option.map Person.id) (resolves_iff.mp hfound)
  revert hid
  decide +kernel

/-- Bo's address still leads to Ana, who has it too, and nothing was recorded for Bo. -/
theorem shared_address_is_kept :
    Lossless reefEnv
      ((mergeFounderEndpoint reefEnv ivo 0 ana.id bo.id).atomically backend reefDb).2
      bo.id (.application (some "team@reef.example") "Bo") := by
  obtain ⟨principal, admin⟩ := ivo_is_admin
  refine (merge_lossless_iff reefEnv ivo 0 reefDb ana bo _ principal admin
    (List.mem_cons_of_mem _ (List.mem_cons_of_mem _ List.mem_cons_self)) rfl
    (List.mem_cons_of_mem _ List.mem_cons_self) (by decide) (resolves_iff.mpr rfl)).mpr
    ⟨Or.inl ⟨by decide +kernel, [bea, bo], [], rfl, ?_⟩, fun e he => by cases he⟩
  decide +kernel

end Reef

end DolphinVC
