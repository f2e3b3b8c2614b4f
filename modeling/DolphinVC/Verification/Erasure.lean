import DolphinVC.Routers.Entities
import DolphinVC.Routers.Founders
import DolphinVC.Transaction.Blind
import DolphinVC.Transaction.OneCommit
import DolphinVC.Verification.Deals

/-!
# Erasing a person

Two stores that differ in nothing but the personal data of one person should answer alike once
that person is erased. The anonymization clears the names, the headline, the biography, the
emails, the links, the education and the employment; it leaves the location, the skills and the
identity hints of the person's signals, and the list of founders still finds the row by its
country. So the answers are alike exactly if what is left was alike wherever someone is shown it.
-/

namespace DolphinVC

open Relational Transaction

section Stores

/-- The row without what is personal. -/
def Person.impersonal (p : Person) : Person :=
  { p with
    displayName := ""
    normalizedName := ""
    headline := none
    bio := none
    locationText := none
    countryCode := none
    city := none
    emails := []
    links := {}
    education := []
    employment := []
    skills := [] }

def Signal.impersonal (s : Signal) : Signal := { s with identityHints := [] }

/-- The store without the personal data of one person. -/
def Db.impersonal (personId : Uuid) (db : Db) : Db :=
  { db with
    persons := db.persons.update personId Person.impersonal
    signals := db.signals.updateWhere (fun s => s.personId = some personId) Signal.impersonal }

def DifferOnly (personId : Uuid) (db₁ db₂ : Db) : Prop :=
  db₁.impersonal personId = db₂.impersonal personId

/-- An administrator erases the person. -/
def Erases (env : Env) (personId : Uuid) (db db' : Db) : Prop :=
  ∃ credentials now, (gdprEraseEndpoint env credentials now personId).atomically backend db =
    (.ok personId, db')

/-- Whoever asks about the person, with whatever query, gets the same answer from both. -/
structure SameAnswers (env : Env) (personId : Uuid) (db₁ db₂ : Db) : Prop where
  profile : ∀ credentials now,
    ((founderProfileEndpoint env credentials now personId).atomically backend db₁).1 =
      ((founderProfileEndpoint env credentials now personId).atomically backend db₂).1
  list : ∀ credentials now query,
    ((foundersEndpoint env credentials now query).atomically backend db₁).1 =
      ((foundersEndpoint env credentials now query).atomically backend db₂).1
  exported : ∀ credentials now,
    ((gdprExportEndpoint env credentials now personId).atomically backend db₁).1 =
      ((gdprExportEndpoint env credentials now personId).atomically backend db₂).1
  signals : ∀ credentials now (q : SignalQuery), q.personId = some personId →
    1 ≤ q.limit → q.limit ≤ 100 →
      ((signalsEndpoint env credentials now q).atomically backend db₁).1 =
        ((signalsEndpoint env credentials now q).atomically backend db₂).1

/-- Fewer rows than some query asks for come before the anonymized row in the list of founders. -/
def Listed (env : Env) (db : Db) (p : Person) : Prop :=
  ∃ (query : FounderQuery) (before after : List Person),
    db.persons.rows = before ++ p :: after ∧ query.accepts env (withScore db p.erase) = true ∧
      ahead (query.accepts env) bestFirst (before.map (withScore db)) (withScore db p.erase)
        (after.map (withScore db)) < query.limit

/-- The filters of `listSignals` -/
def SignalQuery.accepts (orgId : Uuid) (q : SignalQuery) (s : Signal) : Bool :=
  visibleTo orgId s.orgId ∧ matchesFilter q.personId s.personId ∧
    matchesFilter q.companyId s.companyId ∧ matchesFilter q.kind (some s.kind)

def latestFirst (a b : Signal) : Bool := b.observedAt ≤ a.observedAt

/-- The organization is shown the signal when it asks for those of the person. -/
def ShownTo (orgId personId : Uuid) (db : Db) (s : Signal) : Prop :=
  ∃ (q : SignalQuery) (before after : List Signal), q.personId = some personId ∧
    1 ≤ q.limit ∧ q.limit ≤ 100 ∧ db.signals.rows = before ++ s :: after ∧
      q.accepts orgId s = true ∧ ahead (q.accepts orgId) latestFirst before s after < q.limit

/-- What erasing the person leaves is alike in both stores, as far as an organization is shown
it. -/
structure LeftAlike (env : Env) (orgId personId : Uuid) (db₁ db₂ : Db) : Prop where
  profile : ∀ p₁ p₂, db₁.persons.find? personId = some p₁ → db₂.persons.find? personId = some p₂ →
    p₁.mergedIntoId = none → p₁.locationText = p₂.locationText ∧
      p₁.countryCode = p₂.countryCode ∧ p₁.city = p₂.city ∧ p₁.skills = p₂.skills
  list : ∀ p₁ p₂, db₁.persons.find? personId = some p₁ → db₂.persons.find? personId = some p₂ →
    Listed env db₁ p₁ ∨ Listed env db₂ p₂ →
      p₁.countryCode = p₂.countryCode ∧ p₁.city = p₂.city ∧ p₁.skills = p₂.skills
  signals : ∀ s₁ ∈ db₁.signals, ∀ s₂ ∈ db₂.signals, s₁.id = s₂.id →
    ShownTo orgId personId db₁ s₁ → s₁.identityHints = s₂.identityHints

end Stores

section Erased

variable {env : Env} {personId : Uuid} {db db' db₁ db₂ : Db} {p p₁ p₂ : Person}

theorem Person.id_erase (r : Person) : r.erase.id = r.id := rfl

def Db.erased (db : Db) (personId : Uuid) : Db :=
  { db with persons := db.persons.update personId Person.erase Person.id_erase }

theorem erases_of {credentials : Option Credentials} {now : Timestamp}
    (h : (gdprEraseEndpoint env credentials now personId).atomically backend db =
      (.ok personId, db')) :
    (∃ p, db.persons.find? personId = some p) ∧ db' = db.erased personId := by
  unfold gdprEraseEndpoint at h
  cases hrequire : ((require .admin env credentials now).atomically backend db).1 with
  | error e =>
      rw [Tx.Reads.atomically_bind_error (reads_require _ _ _ _) hrequire] at h
      cases h
  | ok principal =>
      rw [Tx.Reads.atomically_bind (reads_require _ _ _ _) hrequire,
        Tx.atomically_query_bind] at h
      cases hp : db.persons.find? personId with
      | none =>
          rw [hp] at h
          cases h
      | some p =>
          obtain rfl := Table.key_of_find? hp
          rw [hp] at h
          have happly : backend.apply db (Write.erasePerson p.id) = .ok (db.erased p.id) := rfl
          have hdone := h.symm.trans (Tx.atomically_stage_commit happly)
          exact ⟨⟨p, rfl⟩, (Prod.mk.inj hdone).2⟩

theorem Erases.eq (h : Erases env personId db db') :
    (∃ p, db.persons.find? personId = some p) ∧ db' = db.erased personId := by
  obtain ⟨credentials, now, h⟩ := h
  exact erases_of h

theorem impersonal_erased : (db.erased personId).impersonal personId = db.impersonal personId := by
  have hpersons : (db.persons.update personId Person.erase).update personId Person.impersonal =
      db.persons.update personId Person.impersonal := by
    apply Table.ext
    simp only [Table.update, Table.updateWhere, List.map_map]
    apply List.map_congr_left
    intro r _
    by_cases hr : r.id = personId
    · simp only [Function.comp_apply, decide_eq_true hr, if_true]
      rw [decide_eq_true (show r.erase.id = personId from hr)]
      rfl
    · simp only [Function.comp_apply, decide_eq_false hr, Bool.false_eq_true, if_false]
  simp only [Db.impersonal, Db.erased, hpersons]

theorem find?_erased : (db.erased personId).persons.find? personId =
    (db.persons.find? personId).map Person.erase := by
  show (db.persons.update personId Person.erase).find? personId = _
  exact Table.find?_update_self personId

def signalView (personId : Uuid) (s : Signal) : Signal :=
  if s.personId = some personId then s.impersonal else s

/-- Personal data is the only difference between the two rows and the two sets of signals. -/
theorem DifferOnly.rows (h : DifferOnly personId db₁ db₂)
    (hp₁ : db₁.persons.find? personId = some p₁) (hp₂ : db₂.persons.find? personId = some p₂) :
    ∃ before after, db₁.persons.rows = before ++ p₁ :: after ∧
      db₂.persons.rows = before ++ p₂ :: after ∧ p₁.impersonal = p₂.impersonal := by
  obtain ⟨hmem₁, hid₁⟩ := Table.find?_eq_some_iff.mp hp₁
  obtain ⟨hmem₂, hid₂⟩ := Table.find?_eq_some_iff.mp hp₂
  obtain ⟨before, after, hrows₁⟩ := List.append_of_mem hmem₁
  obtain ⟨before', after', hrows₂⟩ := List.append_of_mem hmem₂
  have hupdate := congrArg Db.persons h
  have hu₁ : (db₁.persons.update p₁.id Person.impersonal).rows =
      before ++ p₁.impersonal :: after := Table.rows_update_of_eq hrows₁
  have hu₂ : (db₂.persons.update p₂.id Person.impersonal).rows =
      before' ++ p₂.impersonal :: after' := Table.rows_update_of_eq hrows₂
  rw [hid₁] at hu₁
  rw [hid₂] at hu₂
  obtain ⟨rfl, himpersonal, rfl⟩ := Table.split_unique hu₁
    ((congrArg Table.rows hupdate).trans hu₂) (hid₁.trans hid₂.symm)
  exact ⟨before, after, hrows₁, hrows₂, himpersonal⟩

theorem DifferOnly.signals (h : DifferOnly personId db₁ db₂) :
    db₁.signals.rows.map (signalView personId) = db₂.signals.rows.map (signalView personId) := by
  have hrows := congrArg (fun db => db.signals.rows) h
  simp only [Db.impersonal, Table.updateWhere, decide_eq_true_eq] at hrows
  exact hrows

theorem DifferOnly.founderScores (h : DifferOnly personId db₁ db₂) :
    db₁.founderScores = db₂.founderScores := by
  have hscores := congrArg Db.founderScores h
  exact hscores

/-- Who may do what is not personal data. -/
theorem blind_require (permission : Permission) (credentials : Option Credentials)
    (now : Timestamp) :
    Tx.Blind backend (Db.impersonal personId) (require permission env credentials now) := by
  refine Tx.Blind.bind ?_ fun principal =>
    Tx.Blind.ite (fun _ => Tx.Blind.pure _) fun _ => Tx.Blind.throw _
  cases credentials with
  | none => exact Tx.Blind.throw _
  | some c =>
      refine Tx.Blind.ite (fun _ => ?service) fun _ => Tx.Blind.ite (fun _ => ?key) fun _ => ?token
      case service =>
        unfold servicePrincipal
        cases c.orgHeader with
        | none => exact Tx.Blind.throw _
        | some orgId =>
            exact Tx.Blind.bind (Tx.Blind.query fun _ => rfl) fun _ =>
              Tx.Blind.ite (fun _ => Tx.Blind.throw _) fun _ => Tx.Blind.pure _
      case key =>
        refine Tx.Blind.bind (Tx.Blind.query fun _ => rfl) fun key? => ?_
        cases key? with
        | none => exact Tx.Blind.throw _
        | some key => exact Tx.Blind.pure _
      case token =>
        cases env.decodeAccessToken c.token now with
        | error e => exact Tx.Blind.throw _
        | ok claims =>
            refine Tx.Blind.bind (Tx.Blind.query fun _ => rfl) fun user? => ?_
            cases user? with
            | none => exact Tx.Blind.throw _
            | some user =>
                exact Tx.Blind.ite (fun _ => Tx.Blind.throw _) fun _ => Tx.Blind.pure _

end Erased

section Profile

variable {env : Env} {personId : Uuid} {db db₁ db₂ : Db} {p p₁ p₂ : Person}

theorem erase_eq_of (h : p₁.impersonal = p₂.impersonal)
    (hlocation : p₁.locationText = p₂.locationText)
    (hcountry : p₁.countryCode = p₂.countryCode) (hcity : p₁.city = p₂.city)
    (hskills : p₁.skills = p₂.skills) : p₁.erase = p₂.erase := by
  cases p₁
  cases p₂
  simp_all [Person.impersonal, Person.erase]

theorem livePerson_erased (hp : db.persons.find? personId = some p) :
    ((livePerson personId).atomically backend (db.erased personId)).1 =
      if p.mergedIntoId = none then .ok p.erase else .error (Exc.notFound "Founder") := by
  unfold livePerson
  rw [Tx.atomically_query_bind, Table.find?_and, find?_erased, hp]
  by_cases hlive : p.mergedIntoId = none
  · rw [if_pos hlive, Option.map_some, Option.filter_some_pos (by simpa [Person.erase] using hlive)]
    rfl
  · rw [if_neg hlive, Option.map_some, Option.filter_some_neg (by simpa [Person.erase] using hlive)]
    rfl

theorem profile_same_iff (h : DifferOnly personId db₁ db₂)
    (hp₁ : db₁.persons.find? personId = some p₁) (hp₂ : db₂.persons.find? personId = some p₂)
    (credentials : Option Credentials) (now : Timestamp) :
    ((founderProfileEndpoint env credentials now personId).atomically backend
        (db₁.erased personId)).1 =
      ((founderProfileEndpoint env credentials now personId).atomically backend
        (db₂.erased personId)).1 ↔
    ∀ principal, Admits env (db₁.erased personId) .read credentials now principal →
      p₁.mergedIntoId = none → p₁.locationText = p₂.locationText ∧
        p₁.countryCode = p₂.countryCode ∧ p₁.city = p₂.city ∧ p₁.skills = p₂.skills := by
  obtain ⟨before, after, hrows₁, hrows₂, himpersonal⟩ := h.rows hp₁ hp₂
  have hmerged : p₁.mergedIntoId = p₂.mergedIntoId := by
    simpa [Person.impersonal] using congrArg Person.mergedIntoId himpersonal
  have hid : p₁.id = p₂.id := (Table.key_of_find? hp₁).trans (Table.key_of_find? hp₂).symm
  unfold founderProfileEndpoint
  rw [(blind_require .read credentials now).bind_congr_iff
    (impersonal_erased.trans (h.trans impersonal_erased.symm))]
  refine forall₂_congr fun principal _ => ?_
  have hreads : Tx.Reads (livePerson personId) := reads_livePerson personId
  have h₁ := livePerson_erased hp₁
  have h₂ := livePerson_erased hp₂
  by_cases hlive : p₁.mergedIntoId = none
  · rw [if_pos hlive] at h₁
    rw [if_pos (hmerged ▸ hlive)] at h₂
    rw [hreads.atomically_bind h₁, hreads.atomically_bind h₂]
    have hanswer : ∀ (db : Db) (p : Person), ((do
        let score? ← Tx.query fun db => db.founderScores.find? p.id
        return profileOf p score? : DolphinVC.Tx FounderProfile).atomically backend db).1 =
          .ok (profileOf p (db.founderScores.find? p.id)) := fun _ _ => rfl
    rw [hanswer, hanswer, Except.ok.injEq]
    constructor
    · intro heq _
      exact ⟨congrArg FounderProfile.locationText heq,
        congrArg (fun out => out.countryCode) heq, congrArg (fun out => out.city) heq,
        congrArg (fun out => out.skills) heq⟩
    · intro hall
      obtain ⟨hlocation, hcountry, hcity, hskills⟩ := hall hlive
      have hscores : (db₁.erased personId).founderScores = (db₂.erased personId).founderScores :=
        h.founderScores
      rw [erase_eq_of himpersonal hlocation hcountry hcity hskills, hscores]
  · rw [if_neg hlive] at h₁
    rw [if_neg (hmerged ▸ hlive)] at h₂
    rw [hreads.atomically_bind_error h₁, hreads.atomically_bind_error h₂]
    exact iff_of_true rfl fun hnone => absurd hnone hlive

end Profile

section List

variable {env : Env} {personId : Uuid} {db db₁ db₂ : Db} {p p₁ p₂ : Person}
variable {before after : List Person}

theorem bestFirst_trans (a b c : Person × Option FounderScore) (hab : bestFirst a b = true)
    (hbc : bestFirst b c = true) : bestFirst a c = true := by
  obtain ⟨pa, sa⟩ := a
  obtain ⟨pb, sb⟩ := b
  obtain ⟨pc, sc⟩ := c
  cases sa with
  | none =>
      cases sb with
      | none => exact hbc
      | some sb => cases hab
  | some sa =>
      cases sc with
      | none => rfl
      | some sc =>
          cases sb with
          | none => cases hbc
          | some sb =>
              exact decide_eq_true ((of_decide_eq_true hbc).trans (of_decide_eq_true hab))

theorem bestFirst_total (a b : Person × Option FounderScore) :
    (bestFirst a b || bestFirst b a) = true := by
  obtain ⟨pa, sa⟩ := a
  obtain ⟨pb, sb⟩ := b
  cases sa with
  | none => cases sb <;> rfl
  | some sa =>
      cases sb with
      | none => rfl
      | some sb => simpa [bestFirst] using le_total sb.score sa.score

/-- The row is on some page, as `Listed` says of where it stands. -/
theorem listed_iff (hrows : db.persons.rows = before ++ p :: after) :
    Listed env db p ↔ ∃ query : FounderQuery, query.accepts env (withScore db p.erase) = true ∧
      ahead (query.accepts env) bestFirst (before.map (withScore db)) (withScore db p.erase)
        (after.map (withScore db)) < query.limit := by
  constructor
  · rintro ⟨query, before', after', hrows', haccepts, hahead⟩
    obtain ⟨rfl, -, rfl⟩ := Table.split_unique hrows hrows' rfl
    exact ⟨query, haccepts, hahead⟩
  · rintro ⟨query, haccepts, hahead⟩
    exact ⟨query, before, after, hrows, haccepts, hahead⟩

theorem rows_erased (hrows : db.persons.rows = before ++ p :: after) (hid : p.id = personId) :
    (db.erased personId).persons.rows.map (withScore (db.erased personId)) =
      before.map (withScore db) ++ withScore db p.erase :: after.map (withScore db) := by
  subst hid
  have hupdate : (db.persons.update p.id Person.erase).rows = before ++ p.erase :: after :=
    Table.rows_update_of_eq hrows
  rw [show (db.erased p.id).persons.rows = before ++ p.erase :: after from hupdate,
    List.map_append, List.map_cons]
  rfl

/-- A row that no page shows might as well not be there. -/
theorem listFounders_of_not_listed (hrows : db.persons.rows = before ++ p :: after)
    (hid : p.id = personId) (h : ¬ Listed env db p) (query : FounderQuery) :
    listFounders env query (db.erased personId) =
      (page (query.accepts env) bestFirst query.limit
        (before.map (withScore db) ++ after.map (withScore db))).map fun row =>
          founderCard row.1 row.2 := by
  unfold listFounders
  rw [rows_erased hrows hid, page_append_cons_of_le _ _ bestFirst_trans bestFirst_total]
  intro haccepts
  by_contra hlt
  exact h ((listed_iff hrows).mpr ⟨query, haccepts, not_le.mp hlt⟩)

/-- A page that shows the row in one store and is the same in the other shows there what the
other store has. -/
theorem card_eq_of_listed (hrows₁ : db₁.persons.rows = before ++ p₁ :: after)
    (hrows₂ : db₂.persons.rows = before ++ p₂ :: after) (hid₁ : p₁.id = personId)
    (hid₂ : p₂.id = personId) (hlisted : Listed env db₁ p₁)
    (h : ∀ query, listFounders env query (db₁.erased personId) =
      listFounders env query (db₂.erased personId)) :
    p₁.countryCode = p₂.countryCode ∧ p₁.city = p₂.city ∧ p₁.skills = p₂.skills := by
  obtain ⟨query, haccepts, hahead⟩ := (listed_iff hrows₁).mp hlisted
  have hcard : founderCard p₁.erase (withScore db₁ p₁.erase).2 ∈
      listFounders env query (db₁.erased personId) := by
    refine List.mem_map.mpr ⟨withScore db₁ p₁.erase, ?_, rfl⟩
    rw [rows_erased hrows₁ hid₁]
    exact mem_page_of_ahead_lt _ _ bestFirst_trans bestFirst_total _ _ haccepts hahead
  rw [h query] at hcard
  obtain ⟨row, hrow, heq⟩ := List.mem_map.mp hcard
  obtain ⟨person, hperson, rfl⟩ := List.mem_map.mp (mem_of_mem_page hrow).1
  have hfound : (db₂.erased personId).persons.find? personId = some p₂.erase := by
    have hp₂ : p₂ ∈ db₂.persons := by
      rw [← Table.mem_rows, hrows₂]
      simp
    rw [find?_erased, ← hid₂, Table.find?_of_mem hp₂]
    rfl
  have hkey : person.id = personId := (congrArg FounderCard.id heq).trans hid₁
  obtain rfl : p₂.erase = person :=
    Option.some.inj (hfound.symm.trans (Table.find?_eq_some_iff.mpr ⟨hperson, hkey⟩))
  exact ⟨(congrArg FounderCard.countryCode heq).symm, (congrArg FounderCard.city heq).symm,
    (congrArg FounderCard.skills heq).symm⟩

/-- The columns that the list shows or looks at. -/
def listView (row : Person × Option FounderScore) : Person × Option FounderScore :=
  ({ row.1 with locationText := none }, row.2)

theorem map_listView (query : FounderQuery) (rows : List (Person × Option FounderScore)) :
    (page (query.accepts env) bestFirst query.limit rows).map (fun row => founderCard row.1 row.2) =
      (page (query.accepts env) bestFirst query.limit (rows.map listView)).map fun row =>
        founderCard row.1 row.2 := by
  have hpage : (page (query.accepts env) bestFirst query.limit rows).map listView =
      page (query.accepts env) bestFirst query.limit (rows.map listView) :=
    map_page listView (fun _ => rfl) fun _ _ => rfl
  rw [← hpage, List.map_map]
  rfl

theorem list_same_iff (h : DifferOnly personId db₁ db₂)
    (hp₁ : db₁.persons.find? personId = some p₁) (hp₂ : db₂.persons.find? personId = some p₂) :
    (∀ query, listFounders env query (db₁.erased personId) =
      listFounders env query (db₂.erased personId)) ↔
    (Listed env db₁ p₁ ∨ Listed env db₂ p₂ →
      p₁.countryCode = p₂.countryCode ∧ p₁.city = p₂.city ∧ p₁.skills = p₂.skills) := by
  obtain ⟨before, after, hrows₁, hrows₂, himpersonal⟩ := h.rows hp₁ hp₂
  have hid₁ := Table.key_of_find? hp₁
  have hid₂ := Table.key_of_find? hp₂
  have hscores : withScore db₁ = withScore db₂ := by
    funext person
    rw [withScore, h.founderScores, withScore]
  constructor
  · rintro hsame (hlisted | hlisted)
    · exact card_eq_of_listed hrows₁ hrows₂ hid₁ hid₂ hlisted hsame
    · obtain ⟨hcountry, hcity, hskills⟩ :=
        card_eq_of_listed hrows₂ hrows₁ hid₂ hid₁ hlisted fun query => (hsame query).symm
      exact ⟨hcountry.symm, hcity.symm, hskills.symm⟩
  · intro hlisted query
    by_cases hany : Listed env db₁ p₁ ∨ Listed env db₂ p₂
    · obtain ⟨hcountry, hcity, hskills⟩ := hlisted hany
      have hview : listView (withScore db₂ p₁.erase) = listView (withScore db₂ p₂.erase) := by
        have hcolumns : ({ p₁.erase with locationText := none } : Person) =
            { p₂.erase with locationText := none } := by
          cases p₁
          cases p₂
          simp_all [Person.impersonal, Person.erase]
        rw [listView, listView, withScore, withScore, hcolumns,
          show p₁.erase.id = p₂.erase.id from hid₁.trans hid₂.symm]
      refine (map_listView query _).trans (Eq.trans ?_ (map_listView query _).symm)
      rw [rows_erased hrows₁ hid₁, rows_erased hrows₂ hid₂, hscores]
      simp only [List.map_append, List.map_cons, hview]
    · obtain ⟨hout₁, hout₂⟩ := not_or.mp hany
      rw [listFounders_of_not_listed hrows₁ hid₁ hout₁,
        listFounders_of_not_listed hrows₂ hid₂ hout₂, hscores]

end List

section Signals

variable {env : Env} {orgId personId : Uuid} {db db₁ db₂ : Db}

theorem latestFirst_trans (a b c : Signal) (hab : latestFirst a b = true)
    (hbc : latestFirst b c = true) : latestFirst a c = true :=
  decide_eq_true ((of_decide_eq_true hbc).trans (of_decide_eq_true hab))

theorem latestFirst_total (a b : Signal) : (latestFirst a b || latestFirst b a) = true := by
  simpa [latestFirst] using le_total b.observedAt a.observedAt

theorem listSignals_eq_page (q : SignalQuery) :
    listSignals orgId q db = page (q.accepts orgId) latestFirst q.limit db.signals.rows := rfl

theorem shownTo_of_mem {q : SignalQuery} {s : Signal} (hperson : q.personId = some personId)
    (hlow : 1 ≤ q.limit) (hhigh : q.limit ≤ 100) (hs : s ∈ listSignals orgId q db) :
    ShownTo orgId personId db s := by
  rw [listSignals_eq_page] at hs
  obtain ⟨before, after, hrows⟩ := List.append_of_mem (mem_of_mem_page hs).1
  have hnodup := List.Nodup.of_map _ db.signals.nodup
  rw [hrows] at hs hnodup
  obtain ⟨-, hcons, hdisjoint⟩ := List.nodup_append.mp hnodup
  obtain ⟨haccepts, hahead⟩ := (mem_page_iff _ _ latestFirst_trans latestFirst_total
    (fun hmem => hdisjoint s hmem s List.mem_cons_self rfl) (List.nodup_cons.mp hcons).1).mp hs
  exact ⟨q, before, after, hperson, hlow, hhigh, hrows, haccepts, hahead⟩

theorem mem_of_shownTo {s : Signal} (h : ShownTo orgId personId db s) :
    ∃ q : SignalQuery, q.personId = some personId ∧ 1 ≤ q.limit ∧ q.limit ≤ 100 ∧
      s ∈ listSignals orgId q db := by
  obtain ⟨q, before, after, hperson, hlow, hhigh, hrows, haccepts, hahead⟩ := h
  refine ⟨q, hperson, hlow, hhigh, ?_⟩
  rw [listSignals_eq_page, hrows]
  exact mem_page_of_ahead_lt _ _ latestFirst_trans latestFirst_total _ _ haccepts hahead

theorem personId_of_mem {q : SignalQuery} {s : Signal} (hperson : q.personId = some personId)
    (hs : s ∈ listSignals orgId q db) : s.personId = some personId := by
  have haccepts := (mem_of_mem_page (listSignals_eq_page q ▸ hs)).2
  simp only [SignalQuery.accepts, hperson, matchesFilter, decide_eq_true_eq] at haccepts
  exact haccepts.2.1

theorem map_signalView (q : SignalQuery) :
    (listSignals orgId q db).map (signalView personId) =
      page (q.accepts orgId) latestFirst q.limit (db.signals.rows.map (signalView personId)) := by
  refine map_page (signalView personId) (fun s => ?_) fun s t => ?_
  · unfold signalView
    split <;> rfl
  · unfold signalView
    split <;> split <;> rfl

theorem signals_same_iff (h : DifferOnly personId db₁ db₂) :
    (∀ q : SignalQuery, q.personId = some personId → 1 ≤ q.limit → q.limit ≤ 100 →
      listSignals orgId q db₁ = listSignals orgId q db₂) ↔
    ∀ s₁ ∈ db₁.signals, ∀ s₂ ∈ db₂.signals, s₁.id = s₂.id →
      ShownTo orgId personId db₁ s₁ → s₁.identityHints = s₂.identityHints := by
  constructor
  · intro hsame s₁ _ s₂ hs₂ hid hshown
    obtain ⟨q, hperson, hlow, hhigh, hmem⟩ := mem_of_shownTo hshown
    rw [hsame q hperson hlow hhigh] at hmem
    rw [Table.eq_of_key (mem_of_mem_page hmem).1 hs₂ hid]
  · intro hhints q hperson hlow hhigh
    have hmap : (listSignals orgId q db₁).map (signalView personId) =
        (listSignals orgId q db₂).map (signalView personId) := by
      rw [map_signalView, map_signalView, h.signals]
    have hid := map_eq_of_map_eq (f := id) hmap fun s₁ hs₁ s₂ hs₂ heq => ?_
    · simpa only [List.map_id] using hid
    · have hperson₁ := personId_of_mem hperson hs₁
      have hperson₂ := personId_of_mem hperson hs₂
      rw [signalView, signalView, if_pos hperson₁, if_pos hperson₂] at heq
      have hkey : s₁.id = s₂.id := by simpa [Signal.impersonal] using congrArg Signal.id heq
      have halike := hhints s₁ (mem_of_mem_page hs₁).1 s₂ (mem_of_mem_page hs₂).1 hkey
        (shownTo_of_mem hperson hlow hhigh hs₁)
      cases s₁
      cases s₂
      simp_all [Signal.impersonal]

end Signals

section Answers

variable {env : Env} {personId : Uuid} {db db₁ db₂ db₁' db₂' : Db}

theorem admits_erased {permission : Permission} {credentials : Option Credentials}
    {now : Timestamp} {principal : Principal} :
    Admits env (db.erased personId) permission credentials now principal ↔
      Admits env db permission credentials now principal := by
  unfold Admits
  rw [(blind_require permission credentials now).congr impersonal_erased]

/-- A list of founders or signals is the same for whoever may read it, or nobody may. -/
theorem read_same_iff {α : Type} {g : Principal → Db → α} (h : DifferOnly personId db₁ db₂)
    (credentials : Option Credentials) (now : Timestamp) :
    ((require .read env credentials now >>= fun principal => Tx.query (g principal)).atomically
        backend (db₁.erased personId)).1 =
      ((require .read env credentials now >>= fun principal => Tx.query (g principal)).atomically
        backend (db₂.erased personId)).1 ↔
    ∀ principal, Admits env db₁ .read credentials now principal →
      g principal (db₁.erased personId) = g principal (db₂.erased personId) := by
  rw [(blind_require .read credentials now).bind_congr_iff
    (impersonal_erased.trans (h.trans impersonal_erased.symm))]
  refine forall_congr' fun principal => ?_
  have hadmits : Admits env (db₁.erased personId) .read credentials now principal ↔
      Admits env db₁ .read credentials now principal := admits_erased
  rw [← hadmits]
  exact imp_congr_right fun _ => ⟨Except.ok.inj, congrArg Except.ok⟩

theorem map_exportSignal (rows : List Signal) :
    (rows.filter fun s => s.personId = some personId).map exportSignal =
      ((rows.map (signalView personId)).filter fun s => s.personId = some personId).map
        exportSignal := by
  have hview : ∀ s : Signal, exportSignal (signalView personId s) = exportSignal s ∧
      (signalView personId s).personId = s.personId := by
    intro s
    unfold signalView
    split <;> exact ⟨rfl, rfl⟩
  rw [List.filter_map, List.map_map]
  simp only [Function.comp_def, hview]

/-- Of what the export shows, the anonymization overwrites all personal data. -/
theorem exported_same (h : DifferOnly personId db₁ db₂)
    (h₁ : ∃ p, db₁.persons.find? personId = some p)
    (h₂ : ∃ p, db₂.persons.find? personId = some p) (credentials : Option Credentials)
    (now : Timestamp) :
    ((gdprExportEndpoint env credentials now personId).atomically backend
        (db₁.erased personId)).1 =
      ((gdprExportEndpoint env credentials now personId).atomically backend
        (db₂.erased personId)).1 := by
  obtain ⟨p₁, hp₁⟩ := h₁
  obtain ⟨p₂, hp₂⟩ := h₂
  refine ((blind_require .admin credentials now).bind_congr_iff
    (impersonal_erased.trans (h.trans impersonal_erased.symm))).mpr fun principal _ => ?_
  have hid : p₁.erase.id = p₂.erase.id :=
    (Table.key_of_find? hp₁).trans (Table.key_of_find? hp₂).symm
  have hsignals :
    ((db₁.erased personId).signals.rows.filter fun s => s.personId = some personId).map
        exportSignal =
      ((db₂.erased personId).signals.rows.filter fun s => s.personId = some personId).map
        exportSignal := by
    rw [map_exportSignal, map_exportSignal (db₂.erased personId).signals.rows]
    rw [show (db₁.erased personId).signals.rows.map (signalView personId) =
      (db₂.erased personId).signals.rows.map (signalView personId) from h.signals]
  rw [Tx.atomically_query_bind, Tx.atomically_query_bind, find?_erased, find?_erased, hp₁, hp₂]
  simp only [Option.map_some]
  rw [Tx.atomically_query_bind, Tx.atomically_query_bind, Tx.atomically_pure, Tx.atomically_pure,
    hsignals, hid]
  rfl

/-- After an erasure the answers about the person give away nothing of what was personal exactly
if what was not erased is alike as far as anyone who may read is shown it. -/
theorem erasure_complete_iff (env : Env) (personId : Uuid) (db₁ db₂ db₁' db₂' : Db)
    (differ : DifferOnly personId db₁ db₂) (erases₁ : Erases env personId db₁ db₁')
    (erases₂ : Erases env personId db₂ db₂') :
    SameAnswers env personId db₁' db₂' ↔
      ∀ credentials now principal, Admits env db₁ .read credentials now principal →
        LeftAlike env principal.orgId personId db₁ db₂ := by
  obtain ⟨⟨p₁, hp₁⟩, rfl⟩ := erases₁.eq
  obtain ⟨⟨p₂, hp₂⟩, rfl⟩ := erases₂.eq
  constructor
  · intro same credentials now principal admitted
    constructor
    · intro q₁ q₂ hq₁ hq₂
      exact (profile_same_iff differ hq₁ hq₂ credentials now).mp (same.profile credentials now)
        principal (admits_erased.mpr admitted)
    · intro q₁ q₂ hq₁ hq₂
      exact (list_same_iff differ hq₁ hq₂).mp fun query =>
        (read_same_iff (g := fun _ => listFounders env query) differ credentials now).mp
          (same.list credentials now query) principal admitted
    · exact (signals_same_iff differ).mp fun q hperson hlow hhigh =>
        (read_same_iff (g := fun principal => listSignals principal.orgId q) differ credentials
          now).mp (same.signals credentials now q hperson hlow hhigh) principal admitted
  · intro alike
    constructor
    · intro credentials now
      exact (profile_same_iff differ hp₁ hp₂ credentials now).mpr fun principal admitted =>
        (alike credentials now principal (admits_erased.mp admitted)).profile p₁ p₂ hp₁ hp₂
    · intro credentials now query
      exact (read_same_iff (g := fun _ => listFounders env query) differ credentials now).mpr
        fun principal admitted => (list_same_iff differ hp₁ hp₂).mpr
          ((alike credentials now principal admitted).list p₁ p₂ hp₁ hp₂) query
    · exact exported_same differ ⟨p₁, hp₁⟩ ⟨p₂, hp₂⟩
    · intro credentials now q hperson hlow hhigh
      exact (read_same_iff (g := fun principal => listSignals principal.orgId q) differ credentials
        now).mpr fun principal admitted => (signals_same_iff differ).mpr
          (alike credentials now principal admitted).signals q hperson hlow hhigh

end Answers

section Demo

/-- A founder as the demo data has her. -/
def lea : Person where
  id := 20
  displayName := "Lea Marquez"
  normalizedName := "lea marquez"
  headline := some "Distributed systems engineer"
  countryCode := some "DE"
  city := some "Berlin"
  skills := ["rust", "distributed_systems", "ai_infra"]
  links := { texts := [("github", "https://github.com/example")] }
  signalCount := 4
  sourceCount := 3

/-- A fund that knows one founder. -/
def demoDb (founder : Person) (hints : List IdentityHint) : Db where
  orgs := ⟨[{ id := 1, name := "VC Brain Demo Fund", slug := "demo-fund" }], by simp⟩
  users := ⟨[
    { id := 6, orgId := 1, email := "demo@vcbrain.dev", passwordHash := none
      fullName := "Demo Partner", role := .owner }], by simp⟩
  persons := ⟨[founder], by simp⟩
  signals := ⟨[
    { id := 30, orgId := some 1, sourceId := 7, kind := .repoActivity, observedAt := 0
      title := some "example/nullpoint", contentHash := "nullpoint", identityHints := hints
      personId := some founder.id }], by simp⟩

/-- The name of the demo user is the token. -/
def demoEnv : Env :=
  { plainEnv with
    decodeAccessToken := fun token _ =>
      if token = "demo" then
        .ok { sub := 6, org := 1, role := .owner, scopes := [], iat := 0, exp := 1 }
      else .error (Exc.unauthenticated) }

def demoUser : Principal where
  userId := some 6
  orgId := 1
  role := .owner
  scopes := []

/-- Another founder in her place -/
def mila : Person :=
  { lea with
    displayName := "Mila Brandt"
    normalizedName := "mila brandt"
    headline := none
    countryCode := none
    city := none
    skills := []
    links := {} }

/-- Once erased, the profile still says where the founder lives and what she can do. -/
theorem location_survives_erasure :
    DifferOnly 20 (demoDb lea [⟨"github", "lea", 1⟩]) (demoDb mila [⟨"github", "mila", 1⟩]) ∧
      Erases demoEnv 20 (demoDb lea [⟨"github", "lea", 1⟩])
        ((demoDb lea [⟨"github", "lea", 1⟩]).erased 20) ∧
      Erases demoEnv 20 (demoDb mila [⟨"github", "mila", 1⟩])
        ((demoDb mila [⟨"github", "mila", 1⟩]).erased 20) ∧
      ¬ SameAnswers demoEnv 20 ((demoDb lea [⟨"github", "lea", 1⟩]).erased 20)
        ((demoDb mila [⟨"github", "mila", 1⟩]).erased 20) := by
  have differ : DifferOnly 20 (demoDb lea [⟨"github", "lea", 1⟩])
      (demoDb mila [⟨"github", "mila", 1⟩]) := rfl
  refine ⟨differ, ⟨some { token := "demo" }, 0, rfl⟩, ⟨some { token := "demo" }, 0, rfl⟩,
    fun same => ?_⟩
  have hlea : (demoDb lea [⟨"github", "lea", 1⟩]).persons.find? 20 = some lea := rfl
  have hmila : (demoDb mila [⟨"github", "mila", 1⟩]).persons.find? 20 = some mila := rfl
  have hfields := (profile_same_iff differ hlea hmila (some { token := "demo" }) 0).mp
    (same.profile _ _) demoUser rfl rfl
  exact nomatch hfields.2.1

/-- The same founder under another name leaves no trace of the name. -/
theorem renamed_founder_is_erased :
    SameAnswers demoEnv 20 ((demoDb lea []).erased 20)
      ((demoDb { lea with displayName := "Mila Brandt", normalizedName := "mila brandt" }
        []).erased 20) := by
  refine (erasure_complete_iff demoEnv 20 (demoDb lea []) (demoDb
    { lea with displayName := "Mila Brandt", normalizedName := "mila brandt" } []) _ _ rfl
    ⟨some { token := "demo" }, 0, rfl⟩ ⟨some { token := "demo" }, 0, rfl⟩).mpr
      fun credentials now principal _ => ?_
  constructor
  · rintro p₁ p₂ ⟨⟩ ⟨⟩ -
    exact ⟨rfl, rfl, rfl, rfl⟩
  · rintro p₁ p₂ ⟨⟩ ⟨⟩ -
    exact ⟨rfl, rfl, rfl⟩
  · intro s₁ hs₁ s₂ hs₂ _ _
    rw [List.mem_singleton.mp hs₁, List.mem_singleton.mp hs₂]

end Demo

end DolphinVC
