import DolphinVC.Verification.Identities

/-!
# What attaches an input to a row

`LookUp` lists the look-ups with which the four operations attach their input to a row
that is there, `LookUp.find` runs them, and `LookUp.Shares` says what input and row have
in common then. `normalize_name` maps every name without a letter `a-z` or a digit to the
empty key. Of the five look-ups by name only `_person_by_identity` leaves that key out;
the others take any row with the empty key for the one they look for.
-/

namespace DolphinVC

open Relational Transaction

/-- A look-up of one of the four operations, with its input. -/
inductive LookUp where
  | applicationCompany (form : ApplicationForm)
  | manualCompany (companyName : String)
  | applicationFounder (company : Company) (form : ApplicationForm)
  | signalCompany (signal : NormalizedSignal)
  | signalPerson (signal : NormalizedSignal)

/-- The row that an input is attached to. -/
inductive Row where
  | company (row : Company)
  | person (row : Person)

namespace LookUp

variable (env : Env)

def contactEmail (form : ApplicationForm) : Option String :=
  (given form.contactEmail).map env.casefold

def founderName (company : Company) (form : ApplicationForm) : String :=
  cleanName env form.contactName ("Unresolved founder at " ++ company.name)

/-- The part of the operation that looks for a row. -/
def find : LookUp → Tx (Option Row)
  | .applicationCompany form => do
      let company? ← findCompany env form
      return company?.map .company
  | .manualCompany companyName => do
      let company? ← Tx.query fun db => db.companies.rows.find? fun c =>
        c.normalizedName = normalizeName env companyName
      return company?.map .company
  | .applicationFounder company form => do
      let person? ← findFounder env (contactEmail env form) (founderName env company form)
      return person?.map .person
  | .signalCompany signal => do
      let company? ← findLiveCompany env signal
      return company?.map .company
  | .signalPerson signal =>
      match bestHint signal.identities with
      | none => return none
      | some hint => do
          let person? ← Tx.query (personByIdentity env hint.provider
            (cleanName env (some hint.value) "Unknown founder"))
          return person?.map .person

/-- The part of the operation that answers with a row, the one found or a new one. -/
def resolve (id : Uuid) : LookUp → Tx (Option Row)
  | .applicationCompany form => do
      let company ← DolphinVC.applicationCompany env form id
      return some (.company company)
  | .manualCompany companyName => do
      let company ← DolphinVC.manualCompany env (.name companyName) id
      return some (.company company)
  | .applicationFounder company form => do
      let person ← DolphinVC.applicationFounder env company form id
      return some (.person person)
  | .signalCompany signal => do
      let company ← ensureCompany env signal id
      return some (.company company)
  | .signalPerson signal =>
      match bestHint signal.identities with
      | none => return none
      | some hint => do
          let person ← personOfIdentity env hint.provider
            (cleanName env (some hint.value) "Unknown founder") id
          return some (.person person)

/-- The answer of a look-up served alone is a row. -/
def Attaches (db : Db) (l : LookUp) (row : Row) : Prop :=
  ((l.find env).atomically backend db).1 = .ok (some row)

/-- The names have one key, not the empty one. -/
def SameKey (key normalizedName : String) : Prop := normalizedName = key ∧ key ≠ ""

/-- The row has that identity of the provider on record. -/
def Recorded (provider value : String) (p : Person) : Prop :=
  ∃ t ∈ p.links.texts ++ p.links.identities, t.1 = provider ∧
    env.casefold t.2 = env.casefold value

/-- Input and row have a domain, an address or an identity in common, or the names do. -/
def Shares : LookUp → Row → Prop
  | .applicationCompany form, .company c =>
      (∃ domain, given (applicationDomain env form) = some domain ∧ c.domain = some domain) ∨
        SameKey (normalizeName env form.companyName) c.normalizedName
  | .manualCompany companyName, .company c =>
      SameKey (normalizeName env companyName) c.normalizedName
  | .applicationFounder company form, .person p =>
      (∃ email, contactEmail env form = some email ∧ email ∈ p.emails.map env.casefold) ∨
        SameKey (normalizeName env (founderName env company form)) p.normalizedName
  | .signalCompany signal, .company c =>
      (∃ domain, companyDomain env signal = some domain ∧ c.domain = some domain) ∨
        SameKey (normalizeName env (companyNameFromSignal env signal)) c.normalizedName
  | .signalPerson signal, .person p =>
      ∃ hint, bestHint signal.identities = some hint ∧
        (Recorded env hint.provider (cleanName env (some hint.value) "Unknown founder") p ∨
          SameKey (normalizeName env (cleanName env (some hint.value) "Unknown founder"))
            p.normalizedName)
  | _, _ => False

/-- Whatever row the input is attached to shares something with it. -/
def KeepsApart (db : Db) (l : LookUp) : Prop := ∀ row, Attaches env db l row → Shares env l row

/-- The name has a key, a stored row answers to the domain or the address, or none in sight
has the empty key. -/
def Keyed (db : Db) : LookUp → Prop
  | .applicationCompany form => normalizeName env form.companyName = "" →
      (∃ domain, given (applicationDomain env form) = some domain ∧
        ∃ c ∈ db.companies, c.domain = some domain) ∨ ∀ c ∈ db.companies, c.normalizedName ≠ ""
  | .manualCompany companyName => normalizeName env companyName = "" →
      ∀ c ∈ db.companies, c.normalizedName ≠ ""
  | .applicationFounder company form => normalizeName env (founderName env company form) = "" →
      (∃ email, contactEmail env form = some email ∧ ∃ p ∈ db.persons, p.mergedIntoId = none ∧
        email ∈ p.emails.map env.casefold) ∨
      ∀ p ∈ db.persons, p.mergedIntoId = none → p.normalizedName ≠ ""
  | .signalCompany signal => normalizeName env (companyNameFromSignal env signal) = "" →
      (∃ domain, companyDomain env signal = some domain ∧ ∃ c ∈ db.companies,
        c.domain = some domain ∧ c.mergedIntoId = none) ∨
      ∀ c ∈ db.companies, c.mergedIntoId = none → c.normalizedName ≠ ""
  | .signalPerson _ => True

end LookUp

section Fallback

variable {α γ : Type} {known : Option α} {rows : List γ} {strong : α → γ → Bool}
variable {weak : γ → Bool} {key : γ → String} {live : γ → Prop} {name : String}

/-- A search by an identifier that falls back on the name. Whatever it finds shares the
identifier or a key that is not empty, exactly when one of three things holds: the name has
a key, a row has the identifier, or no row in sight has the empty key. -/
theorem fallback_shares_iff (hweak : ∀ r, weak r = true ↔ key r = name ∧ live r) :
    (∀ r, (known.bind fun a => rows.find? (strong a)).or (rows.find? weak) = some r →
      (∃ a, known = some a ∧ strong a r = true) ∨ key r = name ∧ name ≠ "") ↔
    (name = "" → (∃ a, known = some a ∧ ∃ r ∈ rows, strong a r = true) ∨
      ∀ r ∈ rows, live r → key r ≠ "") := by
  constructor
  · intro h hname
    by_cases hstrong : ∃ a, known = some a ∧ ∃ r ∈ rows, strong a r = true
    · exact Or.inl hstrong
    · refine Or.inr fun r hr hlive hkey => ?_
      have hnone : (known.bind fun a => rows.find? (strong a)) = none := by
        rw [Option.bind_eq_none_iff]
        intro a ha
        rw [List.find?_eq_none]
        exact fun r hr hs => hstrong ⟨a, ha, r, hr, hs⟩
      have hsome : (rows.find? weak).isSome = true :=
        List.find?_isSome.mpr ⟨r, hr, (hweak r).mpr ⟨hkey.trans hname.symm, hlive⟩⟩
      obtain ⟨found, hfound⟩ := Option.isSome_iff_exists.mp hsome
      rw [hnone, Option.none_or] at h
      obtain ⟨a, ha, hs⟩ | ⟨-, hne⟩ := h found hfound
      · exact hstrong ⟨a, ha, found, List.mem_of_find?_eq_some hfound, hs⟩
      · exact hne hname
  · intro h row hrow
    obtain hs | ⟨hnone, hw⟩ := Option.or_eq_some_iff.mp hrow
    · obtain ⟨a, ha, hs⟩ := Option.bind_eq_some_iff.mp hs
      exact Or.inl ⟨a, ha, List.find?_some hs⟩
    · obtain ⟨hkey, hlive⟩ := (hweak row).mp (List.find?_some hw)
      refine Or.inr ⟨hkey, fun hname => ?_⟩
      obtain ⟨a, ha, r, hr, hs⟩ | hfree := h hname
      · exact absurd hs (List.find?_eq_none.mp (Option.bind_eq_none_iff.mp hnone a ha) r hr)
      · exact hfree row (List.mem_of_find?_eq_some hw) hlive (hkey.trans hname)

end Fallback

section Attachment

variable {env : Env} {db : Db}

open LookUp

theorem attaches_iff {γ : Type} {p : DolphinVC.Tx (Option γ)} {look : Db → Option γ}
    {wrap : γ → Row} {row : Row} (hp : Tx.Looks backend p look) :
    ((p >>= fun r => pure (r.map wrap)).atomically backend db).1 = .ok (some row) ↔
      ∃ r, look db = some r ∧ wrap r = row := by
  rw [hp.atomically_bind]
  show Except.ok ((look db).map wrap) = .ok (some row) ↔ _
  rw [Except.ok.injEq, Option.map_eq_some_iff]

/-- What the rows of a look-up share, seen from the rows. -/
theorem attached_iff {γ : Type} {p : DolphinVC.Tx (Option γ)} {look : Db → Option γ}
    {wrap : γ → Row} {S : Row → Prop} (hp : Tx.Looks backend p look) :
    (∀ row, ((p >>= fun r => pure (r.map wrap)).atomically backend db).1 = .ok (some row) →
      S row) ↔ ∀ r, look db = some r → S (wrap r) := by
  constructor
  · intro h r hr
    exact h (wrap r) ((attaches_iff hp).mpr ⟨r, hr, rfl⟩)
  · intro h row hrow
    obtain ⟨r, hr, rfl⟩ := (attaches_iff hp).mp hrow
    exact h r hr

theorem applicationCompany_shares (form : ApplicationForm) :
    KeepsApart env db (.applicationCompany form) ↔ Keyed env db (.applicationCompany form) := by
  refine (attached_iff findCompany_looks).trans (Iff.trans ?_ ((@fallback_shares_iff _ _
    (given (applicationDomain env form)) db.companies.rows
    (fun domain c => decide (c.domain = some domain))
    (fun c => decide (c.normalizedName = normalizeName env form.companyName))
    Company.normalizedName (fun _ => True) (normalizeName env form.companyName)
    (by simp)).trans ?_))
  · simp only [companyFor, Shares, SameKey, decide_eq_true_eq]
  · simp only [Keyed, decide_eq_true_eq, Table.mem_rows, true_implies]

theorem manualCompany_shares (companyName : String) :
    KeepsApart env db (.manualCompany companyName) ↔ Keyed env db (.manualCompany companyName) := by
  refine (attached_iff (Tx.looks_query _)).trans (Iff.trans ?_ ((@fallback_shares_iff Unit _
    none db.companies.rows (fun _ _ => false)
    (fun c => decide (c.normalizedName = normalizeName env companyName))
    Company.normalizedName (fun _ => True) (normalizeName env companyName) (by simp)).trans ?_))
  · simp [Shares, SameKey]
  · simp [Keyed]

theorem founderFor_live {email? : Option String} {displayName : String} {p : Person}
    (h : founderFor env email? displayName db = some p) : p.mergedIntoId = none := by
  obtain hemail | ⟨-, hname⟩ := Option.or_eq_some_iff.mp h
  · obtain ⟨email, -, hfound⟩ := Option.bind_eq_some_iff.mp hemail
    have hrow := List.find?_some hfound
    simp only [decide_eq_true_eq] at hrow
    exact hrow.1
  · have hrow := List.find?_some hname
    simp only [decide_eq_true_eq] at hrow
    exact hrow.2

theorem liveCompanyFor_live {signal : NormalizedSignal} {c : Company}
    (h : liveCompanyFor env signal db = some c) : c.mergedIntoId = none := by
  obtain hdomain | ⟨-, hname⟩ := Option.or_eq_some_iff.mp h
  · obtain ⟨domain, -, hfound⟩ := Option.bind_eq_some_iff.mp hdomain
    have hrow := List.find?_some hfound
    simp only [decide_eq_true_eq] at hrow
    exact hrow.2
  · have hrow := List.find?_some hname
    simp only [decide_eq_true_eq] at hrow
    exact hrow.2

theorem applicationFounder_shares (company : Company) (form : ApplicationForm) :
    KeepsApart env db (.applicationFounder company form) ↔
      Keyed env db (.applicationFounder company form) := by
  refine (attached_iff findFounder_looks).trans (Iff.trans (forall_congr' fun p =>
    forall_congr' fun hp => ?_) ((@fallback_shares_iff _ _ (contactEmail env form)
      db.persons.rows
      (fun email p => decide (p.mergedIntoId = none ∧ email ∈ p.emails.map env.casefold))
      (fun p => decide (p.normalizedName = normalizeName env (founderName env company form) ∧
        p.mergedIntoId = none))
      Person.normalizedName (fun p => p.mergedIntoId = none)
      (normalizeName env (founderName env company form)) (by simp)).trans ?_))
  · simp only [Shares, SameKey, decide_eq_true_eq, founderFor_live hp, true_and]
  · simp only [Keyed, decide_eq_true_eq, Table.mem_rows]

theorem signalCompany_shares (signal : NormalizedSignal) :
    KeepsApart env db (.signalCompany signal) ↔ Keyed env db (.signalCompany signal) := by
  refine (attached_iff findLiveCompany_looks).trans (Iff.trans (forall_congr' fun c =>
    forall_congr' fun hc => ?_) ((@fallback_shares_iff _ _ (companyDomain env signal)
      db.companies.rows
      (fun domain c => decide (c.domain = some domain ∧ c.mergedIntoId = none))
      (fun c => decide (c.normalizedName = normalizeName env (companyNameFromSignal env signal) ∧
        c.mergedIntoId = none))
      Company.normalizedName (fun c => c.mergedIntoId = none)
      (normalizeName env (companyNameFromSignal env signal)) (by simp)).trans ?_))
  · simp only [Shares, SameKey, decide_eq_true_eq, liveCompanyFor_live hc, and_true]
  · simp only [Keyed, decide_eq_true_eq, Table.mem_rows]

/-- The operation goes on with the row that its look-up found. -/
theorem resolve_of_attaches {l : LookUp} {row : Row} (h : Attaches env db l row) (id : Uuid) :
    ((l.resolve env id).atomically backend db).1 = .ok (some row) := by
  cases l with
  | applicationCompany form =>
      obtain ⟨c, hc, rfl⟩ := (attaches_iff findCompany_looks).mp h
      simp only [LookUp.resolve, applicationCompany, Tx.atomically_map,
        findCompany_looks.atomically_bind, hc]
      rfl
  | manualCompany companyName =>
      obtain ⟨c, hc, rfl⟩ := (attaches_iff (Tx.looks_query _)).mp h
      simp only [LookUp.resolve, manualCompany, Tx.atomically_map,
        (Tx.looks_query _).atomically_bind, hc]
      rfl
  | applicationFounder company form =>
      obtain ⟨p, hp, rfl⟩ := (attaches_iff findFounder_looks).mp h
      simp only [contactEmail, founderName] at hp
      simp only [LookUp.resolve, applicationFounder, Tx.atomically_map,
        findFounder_looks.atomically_bind, hp]
      unfold addContactEmail
      cases (given form.contactEmail).map env.casefold with
      | none => rfl
      | some email =>
          dsimp only
          split
          · rfl
          · rfl
  | signalCompany signal =>
      obtain ⟨c, hc, rfl⟩ := (attaches_iff findLiveCompany_looks).mp h
      simp only [LookUp.resolve, ensureCompany, Tx.atomically_map,
        findLiveCompany_looks.atomically_bind, hc]
      rfl
  | signalPerson signal =>
      simp only [Attaches, LookUp.find] at h
      simp only [LookUp.resolve]
      cases hhint : bestHint signal.identities with
      | none =>
          rw [hhint] at h
          cases h
      | some hint =>
          rw [hhint] at h
          obtain ⟨p, hp, rfl⟩ := (attaches_iff (Tx.looks_query _)).mp h
          simp only [personOfIdentity, Tx.atomically_map, (Tx.looks_query _).atomically_bind, hp]
          rfl

theorem recorded_of_textAt {provider value : String} {texts : List (String × String)}
    (fold : ∀ v, env.casefold v = env.casefold "" → v = "") (hvalue : value ≠ "")
    (h : env.casefold (textAt provider texts) = env.casefold value) :
    ∃ t ∈ texts, t.1 = provider ∧ env.casefold t.2 = env.casefold value := by
  unfold textAt at h
  cases hfound : texts.find? fun t => t.1 = provider with
  | none =>
      rw [hfound] at h
      exact absurd (fold value h.symm) hvalue
  | some t =>
      rw [hfound] at h
      exact ⟨t, List.mem_of_find?_eq_some hfound, by simpa using List.find?_some hfound, h⟩

theorem cleanName_ne_empty {value : Option String} {fallback : String} (h : fallback ≠ "") :
    cleanName env value fallback ≠ "" := by
  unfold cleanName
  dsimp only
  split
  · intro hempty
    have htake : fallback.toList.take 200 = [] := by
      simpa using congrArg String.toList hempty
    rw [List.take_eq_nil_iff] at htake
    exact h (String.toList_eq_nil_iff.mp (htake.resolve_left (by decide)))
  · rename_i hcleaned
    intro hempty
    have htake := congrArg String.toList hempty
    rw [String.toList_ofList, String.toList_empty, List.take_eq_nil_iff] at htake
    exact hcleaned (List.isEmpty_iff.mpr (htake.resolve_left (by decide)))

/-- The one look-up that leaves the empty key out. -/
theorem signalPerson_shares (fold : ∀ v, env.casefold v = env.casefold "" → v = "")
    (signal : NormalizedSignal) {row : Row} (h : Attaches env db (.signalPerson signal) row) :
    Shares env (.signalPerson signal) row := by
  simp only [Attaches, LookUp.find] at h
  cases hhint : bestHint signal.identities with
  | none =>
      rw [hhint] at h
      cases h
  | some hint =>
      rw [hhint] at h
      obtain ⟨p, hp, rfl⟩ := (attaches_iff (Tx.looks_query _)).mp h
      refine ⟨hint, hhint, ?_⟩
      have hvalue : cleanName env (some hint.value) "Unknown founder" ≠ "" :=
        cleanName_ne_empty (by decide)
      obtain hfound | ⟨-, hname⟩ := Option.or_eq_some_iff.mp hp
      · have hrow := List.find?_some hfound
        simp only [decide_eq_true_eq] at hrow
        refine Or.inl ?_
        obtain htext | hidentity := hrow.2
        · obtain ⟨t, ht, hsame⟩ := recorded_of_textAt fold hvalue htext
          exact ⟨t, List.mem_append_left _ ht, hsame⟩
        · obtain ⟨t, ht, hsame⟩ := recorded_of_textAt fold hvalue hidentity
          exact ⟨t, List.mem_append_right _ ht, hsame⟩
      · split at hname
        · cases hname
        · rename_i hne
          have hrow := List.find?_some hname
          simp only [decide_eq_true_eq] at hrow
          exact Or.inr ⟨hrow.1, hne⟩

/-- An input that is attached to a row shares something with it exactly when its name has a
key, a row answers to its identifier, or no row in sight has the empty key. Of the libraries
it is assumed that case folding maps the empty text only to the empty text. -/
theorem attached_shares_iff (env : Env)
    (fold : ∀ v, env.casefold v = env.casefold "" → v = "") (db : Db) (l : LookUp) :
    KeepsApart env db l ↔ Keyed env db l := by
  cases l with
  | applicationCompany form => exact applicationCompany_shares form
  | manualCompany companyName => exact manualCompany_shares companyName
  | applicationFounder company form => exact applicationFounder_shares company form
  | signalCompany signal => exact signalCompany_shares signal
  | signalPerson signal =>
      exact iff_of_true (fun row h => signalPerson_shares fold signal h) trivial

end Attachment

section TwoScripts

/-- A fund gets an application of a company with a Japanese name. -/
def sakuraStep : IdentityOp :=
  .createApplication { companyName := "桜", website := some "sakura" }
    { orgId := 11, sourceChannel := "portal" }
    { now := 0, companyId := 1, opportunityId := 2, applicationId := 3, jobId := 4, personId := 5 }

/-- Another company with a Japanese name is taken for the first one. -/
theorem other_name_is_conflated :
    ¬ LookUp.KeepsApart plainEnv (sakuraStep.step plainEnv {})
      (.applicationCompany { companyName := "海" }) := by
  rw [applicationCompany_shares]
  intro h
  have hkey : normalizeName plainEnv "海" = "" := by decide +kernel
  obtain ⟨domain, hdomain, -⟩ | hfree := h hkey
  · have hnone : given (applicationDomain plainEnv { companyName := "海" }) = none := by
      decide +kernel
    rw [hnone] at hdomain
    cases hdomain
  · have hrow : ∃ c ∈ (sakuraStep.step plainEnv {}).companies.rows, c.normalizedName = "" := by
      decide +kernel
    obtain ⟨c, hc, hempty⟩ := hrow
    exact hfree c hc hempty

/-- A company that has a Latin name beside it is told apart. -/
theorem latin_name_is_kept_apart :
    LookUp.KeepsApart plainEnv (sakuraStep.step plainEnv {})
      (.applicationCompany { companyName := "Sea" }) := by
  refine (attached_shares_iff plainEnv (fun _ h => h) _ _).mpr fun hkey => ?_
  exact absurd hkey (by decide +kernel)

end TwoScripts

end DolphinVC
