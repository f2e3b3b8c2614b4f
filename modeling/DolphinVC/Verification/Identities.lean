import DolphinVC.Routers.Founders
import DolphinVC.Transaction.Alone
import DolphinVC.Transition.Run
import DolphinVC.Verification.LiveOpportunity

/-!
# One row for one name

Four operations insert companies or persons, each behind look-ups of its own, and a
merge and an erasure change what the look-ups see. `Identified` is the invariant of
every store they lead to: live companies differ in name and domain, live persons in
name, and a person's name is one that `normalize_name` can make or carries the row's own
number, so that an erasure cannot take another row's name.
-/

namespace DolphinVC

open Relational Transaction Transition

/-- Different live rows differ in the columns that identify them. -/
structure Unmistakable (db : Db) : Prop where
  companyName : ∀ c ∈ db.companies, ∀ c' ∈ db.companies, c.mergedIntoId = none →
    c'.mergedIntoId = none → c.normalizedName = c'.normalizedName → c = c'
  companyDomain : ∀ c ∈ db.companies, ∀ c' ∈ db.companies, c.mergedIntoId = none →
    c'.mergedIntoId = none → ∀ domain, c.domain = some domain → c'.domain = some domain → c = c'
  personName : ∀ p ∈ db.persons, ∀ p' ∈ db.persons, p.mergedIntoId = none →
    p'.mergedIntoId = none → p.normalizedName ≠ "" → p.normalizedName = p'.normalizedName → p = p'

/-- The name is no erased one, or it is the row's own. -/
def Person.Keyed (p : Person) : Prop :=
  '-' ∉ p.normalizedName.toList ∨ p.normalizedName = "erased-" ++ toString p.id

structure Identified (db : Db) : Prop extends Unmistakable db where
  live : ∀ c ∈ db.companies, c.mergedIntoId = none
  keyed : ∀ p ∈ db.persons, p.Keyed

theorem identified_empty : Identified {} where
  companyName c hc := absurd hc (Table.not_mem_empty c)
  companyDomain c hc := absurd hc (Table.not_mem_empty c)
  personName p hp := absurd hp (Table.not_mem_empty p)
  live c hc := absurd hc (Table.not_mem_empty c)
  keyed p hp := absurd hp (Table.not_mem_empty p)

section Names

theorem splitOnP_free {p : Char → Bool} {l w : List Char} (hw : w ∈ l.splitOnP p) {c : Char}
    (hc : c ∈ w) : p c = false := by
  induction l generalizing w with
  | nil =>
      rw [List.splitOnP_nil, List.mem_singleton] at hw
      subst hw
      cases hc
  | cons x xs ih =>
      rw [List.splitOnP_cons_eq_if_modifyHead] at hw
      split at hw
      · obtain rfl | hw := List.mem_cons.mp hw
        · cases hc
        · exact ih hw hc
      · rename_i hx
        cases hsplit : xs.splitOnP p with
        | nil => exact absurd hsplit (List.splitOnP_ne_nil p xs)
        | cons head rest =>
            rw [hsplit] at hw
            obtain rfl | hw := List.mem_cons.mp hw
            · obtain rfl | hc := List.mem_cons.mp hc
              · simpa using hx
              · exact ih (hsplit ▸ List.mem_cons_self) hc
            · exact ih (hsplit ▸ List.mem_cons_of_mem _ hw) hc

theorem mem_intersperse {α : Type} {sep x : α} {l : List α} (h : x ∈ l.intersperse sep) :
    x ∈ l ∨ x = sep := by
  match l with
  | [] => cases h
  | [a] => exact Or.inl h
  | a :: b :: rest =>
      rw [List.intersperse_cons_cons] at h
      obtain rfl | h := List.mem_cons.mp h
      · exact Or.inl List.mem_cons_self
      · obtain rfl | h := List.mem_cons.mp h
        · exact Or.inr rfl
        · exact (mem_intersperse h).imp_left (List.mem_cons_of_mem a)

/-- A normalized name has no hyphen. -/
theorem hyphen_not_mem_normalizeName (env : Env) (value : String) :
    '-' ∉ (normalizeName env value).toList := by
  unfold normalizeName
  dsimp only
  rw [String.toList_ofList, List.mem_flatten]
  rintro ⟨w, hw, hc⟩
  obtain hw | rfl := mem_intersperse hw
  · have := splitOnP_free (List.mem_filter.mp hw).1 hc
    simp at this
  · simp at hc

theorem hyphen_mem_erased (id : Uuid) : '-' ∈ ("erased-" ++ toString id).toList := by
  rw [String.toList_append]
  exact List.mem_append_left _ (by decide)

theorem erased_injective {id id' : Uuid}
    (h : "erased-" ++ toString id = "erased-" ++ toString id') : id = id' := by
  have hsame : ("erased-" ++ toString id).toList = ("erased-" ++ toString id').toList :=
    congrArg String.toList h
  rw [String.toList_append, String.toList_append] at hsame
  have hdigits : Nat.toDigits 10 id = Nat.toDigits 10 id' := by
    simpa [toString, Nat.repr] using List.append_cancel_left hsame
  rw [← @Nat.ofDigitChars_ten_toDigits id, hdigits, Nat.ofDigitChars_ten_toDigits]

end Names

section Writes

variable {db db' : Db} {w : Write}

/-- Rows with the same identity whose names were not changed are as different as before. -/
theorem Identified.of_origin (h : Identified db) (companies : db'.companies = db.companies)
    (persons : ∀ p' ∈ db'.persons, ∃ p ∈ db.persons, p.id = p'.id ∧
      p.normalizedName = p'.normalizedName ∧ (p'.mergedIntoId = none → p.mergedIntoId = none)) :
    Identified db' where
  companyName := by
    rw [companies]
    exact h.companyName
  companyDomain := by
    rw [companies]
    exact h.companyDomain
  live := by
    rw [companies]
    exact h.live
  personName := by
    intro p' hp' q' hq' hlive hlive' hne hname
    obtain ⟨p, hp, hid, hkey, horigin⟩ := persons p' hp'
    obtain ⟨q, hq, hid', hkey', horigin'⟩ := persons q' hq'
    have hsame : p = q := h.personName p hp q hq (horigin hlive) (horigin' hlive')
      (hkey ▸ hne) (hkey.trans (hname.trans hkey'.symm))
    exact Table.eq_of_key hp' hq' (hid.symm.trans ((congrArg Person.id hsame).trans hid'))
  keyed := by
    intro p' hp'
    obtain ⟨p, hp, hid, hkey, -⟩ := persons p' hp'
    unfold Person.Keyed
    rw [← hkey, ← hid]
    exact h.keyed p hp

theorem persons_update {id : Uuid} {f : Person → Person} (keeps : ∀ r, (f r).id = r.id)
    (key : ∀ r, (f r).normalizedName = r.normalizedName)
    (live : ∀ r, (f r).mergedIntoId = none → r.mergedIntoId = none) :
    ∀ p' ∈ db.persons.update id f keeps, ∃ p ∈ db.persons, p.id = p'.id ∧
      p.normalizedName = p'.normalizedName ∧ (p'.mergedIntoId = none → p.mergedIntoId = none) := by
  intro p' hp'
  obtain ⟨p, hp, rfl⟩ := Table.mem_update.mp hp'
  refine ⟨p, hp, ?_⟩
  split
  · exact ⟨(keeps p).symm, (key p).symm, live p⟩
  · exact ⟨rfl, rfl, fun hlive => hlive⟩

theorem neutral_nameless (hw : w.Nameless) : backend.Neutral Identified w := by
  intro db db' h happly
  have same (hc : db'.companies = db.companies) (hp : db'.persons = db.persons) :
      Identified db' := by
    refine h.of_origin hc fun p hp' => ⟨p, ?_, rfl, rfl, fun hlive => hlive⟩
    rwa [hp] at hp'
  change db.apply w = .ok db' at happly
  cases w with
  | insertCompany row => cases hw
  | insertPerson row => cases hw
  | mergePerson loserId winnerId => cases hw
  | erasePerson id => cases hw
  | refused e => cases happly
  | countSignal personId at' signalCount sourceCount =>
      cases happly
      refine h.of_origin rfl (persons_update ?_ ?_ ?_)
      · exact fun _ => rfl
      · exact fun _ => rfl
      · exact fun _ hlive => hlive
  | addEmail personId emails =>
      cases happly
      refine h.of_origin rfl (persons_update ?_ ?_ ?_)
      · exact fun _ => rfl
      · exact fun _ => rfl
      · exact fun _ hlive => hlive
  | _ =>
      simp only [Db.apply, map_eq_ok, ite_error_eq_ok, Except.ok.injEq] at happly
      first
      | (subst happly; exact same rfl rfl)
      | (obtain ⟨t, -, rfl⟩ := happly; exact same rfl rfl)
      | (obtain ⟨-, t, -, rfl⟩ := happly; exact same rfl rfl)

/-- A merge takes a name off the live ones. -/
theorem neutral_mergePerson (loserId winnerId : Uuid) :
    backend.Neutral Identified (.mergePerson loserId winnerId) := by
  intro db db' h happly
  cases happly
  refine h.of_origin rfl (persons_update ?_ ?_ ?_)
  · exact fun _ => rfl
  · exact fun _ => rfl
  · exact fun _ hlive => by cases hlive

/-- An erased name is taken by no other row. -/
theorem neutral_erasePerson (id : Uuid) : backend.Neutral Identified (.erasePerson id) := by
  intro db db' h happly
  cases happly
  have origin : ∀ r' ∈ db.persons.update id Person.erase, ∃ r ∈ db.persons,
      (if r.id = id then r.erase else r) = r' := fun r' hr' => Table.mem_update.mp hr'
  have keyed : ∀ p' ∈ db.persons.update id Person.erase, p'.Keyed := by
    intro p' hp'
    obtain ⟨p, hp, rfl⟩ := origin p' hp'
    split
    · exact Or.inr rfl
    · exact h.keyed p hp
  refine { h with keyed, personName := ?_ }
  intro p' hp' q' hq' hlive hlive' hne hname
  -- a row that carries the number of another one is that row
  have own (r r' : Person) (hr' : r'.Keyed) (hr : r.normalizedName = "erased-" ++ toString r.id)
      (heq : r.normalizedName = r'.normalizedName) : r.id = r'.id := by
    obtain hfree | hkey := hr'
    · rw [← heq, hr] at hfree
      exact absurd (hyphen_mem_erased r.id) hfree
    · exact erased_injective (hr.symm.trans (heq.trans hkey))
  have hkeyed := keyed q' hq'
  have hkeyed' := keyed p' hp'
  obtain ⟨p, hp, rfl⟩ := origin p' hp'
  obtain ⟨q, hq, rfl⟩ := origin q' hq'
  refine Table.eq_of_key hp' hq' ?_
  by_cases hpid : p.id = id
  · rw [if_pos hpid] at hname ⊢
    exact own _ _ hkeyed rfl hname
  · by_cases hqid : q.id = id
    · rw [if_pos hqid] at hname ⊢
      exact (own _ _ hkeyed' rfl hname.symm).symm
    · rw [if_neg hpid] at hname hlive hne ⊢
      rw [if_neg hqid] at hname hlive' ⊢
      exact congrArg Person.id (h.personName p hp q hq hlive hlive' hne hname)

/-- The name of a new company is taken by none; the index sees to the domain. -/
theorem Identified.insertCompany {row : Company} (h : Identified db)
    (live : row.mergedIntoId = none)
    (free : ∀ c ∈ db.companies, c.mergedIntoId = none → c.normalizedName ≠ row.normalizedName)
    (happly : db.apply (.insertCompany row) = .ok db') : Identified db' := by
  obtain ⟨t, ht, rfl⟩ := map_eq_ok.mp happly
  obtain ⟨clash, hins⟩ := insertRow_eq_ok.mp ht
  have free_domain {c : Company} (hc : c ∈ db.companies) {domain : String}
      (hrow : row.domain = some domain) (hdomain : c.domain = some domain) : False := by
    have := clash c hc
    simp [hrow, hdomain] at this
  refine { h with live := ?live, companyName := ?name, companyDomain := ?domain }
  case live =>
    intro c hc
    obtain hc | rfl := (Table.mem_insert? hins).mp hc
    · exact h.live c hc
    · exact live
  case name =>
    intro c hc c' hc' hlive hlive' hname
    obtain hc | rfl := (Table.mem_insert? hins).mp hc
    · obtain hc' | rfl := (Table.mem_insert? hins).mp hc'
      · exact h.companyName c hc c' hc' hlive hlive' hname
      · exact absurd hname (free c hc hlive)
    · obtain hc' | rfl := (Table.mem_insert? hins).mp hc'
      · exact absurd hname.symm (free c' hc' hlive')
      · rfl
  case domain =>
    intro c hc c' hc' hlive hlive' domain hdomain hdomain'
    obtain hc | rfl := (Table.mem_insert? hins).mp hc
    · obtain hc' | rfl := (Table.mem_insert? hins).mp hc'
      · exact h.companyDomain c hc c' hc' hlive hlive' domain hdomain hdomain'
      · exact (free_domain hc hdomain' hdomain).elim
    · obtain hc' | rfl := (Table.mem_insert? hins).mp hc'
      · exact (free_domain hc' hdomain hdomain').elim
      · rfl

/-- The name of a new person is empty or taken by no live one. -/
theorem Identified.insertPerson {row : Person} (h : Identified db)
    (keyed : '-' ∉ row.normalizedName.toList)
    (free : row.normalizedName ≠ "" → ∀ p ∈ db.persons, p.mergedIntoId = none →
      p.normalizedName ≠ row.normalizedName)
    (happly : db.apply (.insertPerson row) = .ok db') : Identified db' := by
  obtain ⟨t, ht, rfl⟩ := map_eq_ok.mp happly
  have hins := (insertRow_eq_ok.mp ht).2
  refine { h with keyed := ?keyed, personName := ?name }
  case keyed =>
    intro p hp
    obtain hp | rfl := (Table.mem_insert? hins).mp hp
    · exact h.keyed p hp
    · exact Or.inl keyed
  case name =>
    intro p hp p' hp' hlive hlive' hne hname
    obtain hp | rfl := (Table.mem_insert? hins).mp hp
    · obtain hp' | rfl := (Table.mem_insert? hins).mp hp'
      · exact h.personName p hp p' hp' hlive hlive' hne hname
      · exact absurd hname (free (hname ▸ hne) p hp hlive)
    · obtain hp' | rfl := (Table.mem_insert? hins).mp hp'
      · exact absurd hname.symm (free hne p' hp' hlive')
      · rfl

end Writes

section LookUps

variable {env : Env} {form : ApplicationForm} {item : NormalizedSignal}

open Tx

/-- The company an application is attached to. -/
def companyFor (env : Env) (form : ApplicationForm) (db : Db) : Option Company :=
  ((given (applicationDomain env form)).bind fun domain =>
    db.companies.rows.find? fun c => c.domain = some domain).or
    (db.companies.rows.find? fun c => c.normalizedName = normalizeName env form.companyName)

/-- The company a signal is attached to. -/
def liveCompanyFor (env : Env) (item : NormalizedSignal) (db : Db) : Option Company :=
  ((companyDomain env item).bind fun domain =>
    db.companies.rows.find? fun c => c.domain = some domain ∧ c.mergedIntoId = none).or
    (db.companies.rows.find? fun c =>
      c.normalizedName = normalizeName env (companyNameFromSignal env item) ∧
        c.mergedIntoId = none)

/-- The person an application is attached to. -/
def founderFor (env : Env) (email? : Option String) (displayName : String) (db : Db) :
    Option Person :=
  (email?.bind fun email => personByEmail env email db).or
    (personByName (normalizeName env displayName) db)

theorem findCompany_looks : Looks backend (findCompany env form) (companyFor env form) :=
  looks_or (fun _ => rfl) rfl

theorem findLiveCompany_looks :
    Looks backend (findLiveCompany env item) (liveCompanyFor env item) :=
  looks_or (fun _ => rfl) rfl

theorem findFounder_looks {email? : Option String} {displayName : String} :
    Looks backend (findFounder env email? displayName) (founderFor env email? displayName) :=
  looks_or (fun _ => rfl) rfl

end LookUps

section Operations

variable {env : Env} {db : Db} {s : Session Write} {view : Db}

open Tx

theorem wp_insertCompany {row : Company} (hs : s.Clean backend Identified db)
    (hq : s.query backend db none = .ok view) (live : row.mergedIntoId = none)
    (free : ∀ c ∈ view.companies, c.normalizedName ≠ row.normalizedName) :
    WP backend (fun r db' s' => s'.Leads backend Identified db' ∧ ∀ a, r = .ok a → s'.dirty = [])
      (insertCompany row) db s := by
  refine wp_send (leads_create hs hq fun db' happly => ?_) (Settles.pure _)
  exact (hs.view hq).1.insertCompany live (fun c hc _ => free c hc) happly

theorem wp_insertPerson {row : Person} (hs : s.Clean backend Identified db)
    (hq : s.query backend db none = .ok view) {value : String}
    (key : row.normalizedName = normalizeName env value)
    (free : row.normalizedName ≠ "" → ∀ p ∈ view.persons, p.mergedIntoId = none →
      p.normalizedName ≠ row.normalizedName) :
    WP backend (fun r db' s' => s'.Leads backend Identified db' ∧ ∀ a, r = .ok a → s'.dirty = [])
      (insertPerson row) db s := by
  refine wp_send (leads_create hs hq fun db' happly => ?_) (Settles.pure _)
  refine (hs.view hq).1.insertPerson ?_ free happly
  rw [key]
  exact hyphen_not_mem_normalizeName env value

theorem applicationCompany_settles {form : ApplicationForm} {id : Uuid} :
    Settles backend Identified (applicationCompany env form id) := by
  refine settles_lookup findCompany_looks (fun c => Settles.pure c) fun db s view hs hq hnone => ?_
  refine wp_insertCompany hs hq rfl fun c hc hname => ?_
  have hmiss := List.find?_eq_none.mp (Option.or_eq_none_iff.mp hnone).2 c hc
  simp [hname] at hmiss

theorem ensureCompany_settles {item : NormalizedSignal} {id : Uuid} :
    Settles backend Identified (ensureCompany env item id) := by
  refine settles_lookup findLiveCompany_looks (fun c => Settles.pure c)
    fun db s view hs hq hnone => ?_
  refine wp_insertCompany hs hq rfl fun c hc hname => ?_
  have hmiss := List.find?_eq_none.mp (Option.or_eq_none_iff.mp hnone).2 c hc
  simp [hname, (hs.view hq).1.live c hc] at hmiss

theorem manualCompany_settles {ref : CompanyRef} {id : Uuid} :
    Settles backend Identified (manualCompany env ref id) := by
  cases ref with
  | id companyId =>
      refine Reads.settles (Reads.bind (Reads.query _) fun company? => ?_)
      cases company? with
      | none => exact Reads.throw _
      | some company => exact Reads.pure _
  | name companyName =>
      refine settles_lookup (looks_query _) (fun c => Settles.pure c)
        fun db s view hs hq hnone => ?_
      refine wp_insertCompany hs hq rfl fun c hc hname => ?_
      have hmiss := List.find?_eq_none.mp hnone c hc
      simp [hname] at hmiss

theorem personOfIdentity_settles {provider value : String} {id : Uuid} :
    Settles backend Identified (personOfIdentity env provider value id) := by
  refine settles_lookup (looks_query _) (fun p => Settles.pure p) fun db s view hs hq hnone => ?_
  refine wp_insertPerson hs hq rfl fun hne p hp hlive hname => ?_
  have hmiss := (Option.or_eq_none_iff.mp hnone).2
  change normalizeName env value ≠ "" at hne
  rw [if_neg hne] at hmiss
  have := List.find?_eq_none.mp hmiss p hp
  simp [hlive] at this
  exact this hname

theorem applicationFounder_follows {company : Company} {form : ApplicationForm} {id : Uuid} :
    Follows backend Identified (applicationFounder env company form id) := by
  refine follows_lookup findFounder_looks (fun p => ?_) fun db s view hs hq hnone => ?_
  · refine (Stages.preserves (Stages.bind ?_ fun _ => Stages.pure _)).follows
    unfold addContactEmail
    cases (given form.contactEmail).map env.casefold with
    | none => exact Stages.pure _
    | some email =>
        exact Stages.ite (fun _ => Stages.pure _) fun _ =>
          Stages.stage (neutral_nameless (by trivial))
  · refine (wp_insertPerson hs hq rfl fun hne p hp hlive hname => ?_).mono fun _ _ _ h => h.1
    have hmiss := List.find?_eq_none.mp (Option.or_eq_none_iff.mp hnone).2 p hp
    simp [hlive] at hmiss
    exact hmiss hname

theorem preserves_of_nameless {α : Type} {p : DolphinVC.Tx α} (h : Stages Write.Nameless p) :
    Preserves backend (fun db s => s.Leads backend Identified db) p :=
  (h.weaken fun _ hw => neutral_nameless hw).preserves

theorem preserves_of_linking {α : Type} {p : DolphinVC.Tx α} (h : Stages Write.Linking p) :
    Preserves backend (fun db s => s.Leads backend Identified db) p :=
  preserves_of_nameless (h.weaken fun _ hw => hw.2)

theorem ensureApplicationFounder_follows {company : Company} {form : ApplicationForm}
    {d : DealDraws} : Follows backend Identified (ensureApplicationFounder env company form d) :=
  Settles.follows_bind settles_call fun _ =>
    applicationFounder_follows.bind fun _ => preserves_of_linking linkFounder_stages

theorem applicationDocument_settles {submission : Submission} {deck? : Option Deck}
    {companyId id : Uuid} :
    Settles backend Identified (applicationDocument submission deck? companyId id) := by
  cases deck? with
  | none => exact Settles.pure _
  | some deck =>
      refine Settles.bind settles_call fun _ =>
        settles_lookup (looks_query _) (fun document => Settles.pure _) fun db s view hs _ _ => ?_
      exact (Settles.bind settles_call fun _ =>
        settles_send (neutral_nameless (by trivial)) (Settles.pure _)) db s hs

theorem applicationOpportunity_settles {orgId : Uuid} {company : Company} {d : DealDraws} :
    Settles backend Identified (applicationOpportunity env orgId company d) :=
  settles_lookup (looks_query _) (fun opportunity => Settles.pure _) fun db s view hs _ _ =>
    (Settles.bind (Reads.settles (Reads.query _)) fun thesis? =>
      settles_send (neutral_nameless (by trivial)) (Settles.pure _)) db s hs

theorem createApplication_follows {form : ApplicationForm} {submission : Submission}
    {d : DealDraws} : Follows backend Identified (createApplication env form submission d) := by
  refine Settles.follows_bind (Reads.settles validateApplication_reads) fun _ =>
    Settles.follows_bind (Reads.settles (Reads.query _)) fun prior? => ?_
  cases prior? with
  | some prior => exact (Settles.pure _).follows
  | none =>
      refine applicationCompany_settles.follows_bind fun company =>
        applicationDocument_settles.follows_bind fun documentId =>
          applicationOpportunity_settles.follows_bind fun opportunityId =>
            ensureApplicationFounder_follows.bind fun _ => preserves_of_nameless ?_
      exact Stages.bind (Stages.stage (by trivial)) fun _ => Stages.bind Stages.flush fun _ =>
        Stages.bind (Stages.stage (by trivial)) fun _ => Stages.bind Stages.flush fun _ =>
          Stages.pure _

theorem createManualOpportunity_follows {orgId : Uuid} {body : OpportunityCreate}
    {d : DealDraws} : Follows backend Identified (createManualOpportunity env orgId body d) :=
  manualCompany_settles.follows_bind fun company =>
    Settles.follows_bind (Reads.settles (Reads.query _)) fun existing =>
      (preserves_of_nameless (Stages.ite (fun _ => (Reads.throw _).stages) fun _ =>
        Stages.bind (Stages.stage (by trivial)) fun _ => Stages.bind Stages.flush fun _ =>
          Stages.pure _)).follows

theorem ensureSignalPerson_follows {item : NormalizedSignal} {signalId id : Uuid} :
    Follows backend Identified (ensureSignalPerson env item signalId id) := by
  unfold ensureSignalPerson
  cases bestHint item.identities with
  | none => exact (Settles.pure _).follows
  | some hint =>
      exact personOfIdentity_settles.follows_bind fun person => (preserves_of_linking
        (Stages.bind countSignalOnce_stages fun _ => Stages.pure _)).follows

theorem resolveOutboundSignal_follows {orgId : Option Uuid} {item : NormalizedSignal}
    {sourceId : Uuid} {channel? : Option SourcingChannel} {ids : CandidateIds} {now : Timestamp} :
    Follows backend Identified
      (resolveOutboundSignal env orgId item sourceId channel? ids now) := by
  refine Settles.follows_bind settles_call fun _ => ensureCompany_settles.follows_bind
    fun company => ensureSignalPerson_follows.bind fun person? => preserves_of_nameless ?_
  refine Stages.bind (Stages.bind (Stages.stage (by trivial)) fun _ => ?_) fun _ => Stages.bind
    (recordMemory_stages.weaken fun _ hw => hw.2) fun _ =>
      Stages.bind (resolveOpportunity_stages (fun _ _ _ => trivial) (fun _ => trivial)
        fun _ => trivial) fun _ => Stages.pure _
  exact linkPerson_stages.weaken fun _ hw => hw.2

theorem mergeFounder_follows {credentials : Option Credentials} {now : Timestamp}
    {personId loserId : Uuid} :
    Follows backend Identified (mergeFounderEndpoint env credentials now personId loserId) :=
  Settles.follows_bind (Reads.settles (reads_require _ _ _ _)) fun _ =>
    Settles.follows_bind (Reads.settles (reads_livePerson _)) fun _ =>
      Settles.follows_bind (Reads.settles (reads_livePerson _)) fun _ =>
        ((preserves_stage (neutral_mergePerson _ _)).bind fun _ =>
          preserves_commit.bind fun _ => Preserves.pure _).follows

theorem gdprErase_follows {credentials : Option Credentials} {now : Timestamp} {personId : Uuid} :
    Follows backend Identified (gdprEraseEndpoint env credentials now personId) := by
  refine Settles.follows_bind (Reads.settles (reads_require _ _ _ _)) fun _ =>
    Settles.follows_bind (Reads.settles (Reads.query _)) fun person? => ?_
  cases person? with
  | none => exact (Reads.settles (Reads.throw _)).follows
  | some person =>
      exact ((preserves_stage (neutral_erasePerson _)).bind fun _ =>
        preserves_commit.bind fun _ => Preserves.pure _).follows

end Operations

section Runs

/-- The operations that resolve, merge or erase identities, each in a transaction of its own. -/
inductive IdentityOp where
  | createApplication (form : ApplicationForm) (submission : Submission) (d : DealDraws)
  | createManualOpportunity (orgId : Uuid) (body : OpportunityCreate) (d : DealDraws)
  | resolveSignal (orgId : Option Uuid) (signal : NormalizedSignal) (sourceId : Uuid)
      (channel? : Option SourcingChannel) (ids : CandidateIds) (now : Timestamp)
  | mergeFounder (credentials : Option Credentials) (now : Timestamp) (personId loserId : Uuid)
  | gdprErase (credentials : Option Credentials) (now : Timestamp) (personId : Uuid)

def IdentityOp.program (env : Env) : IdentityOp → Tx Unit
  | .createApplication form submission d => do
      let _ ← DolphinVC.createApplication env form submission d
      Tx.commit
  | .createManualOpportunity orgId body d => do
      let _ ← DolphinVC.createManualOpportunity env orgId body d
      Tx.commit
  | .resolveSignal orgId signal sourceId channel? ids now => do
      let _ ← resolveOutboundSignal env orgId signal sourceId channel? ids now
      Tx.commit
  | .mergeFounder credentials now personId loserId => do
      let _ ← mergeFounderEndpoint env credentials now personId loserId
      return ()
  | .gdprErase credentials now personId => do
      let _ ← gdprEraseEndpoint env credentials now personId
      return ()

def IdentityOp.step (env : Env) (db : Db) (op : IdentityOp) : Db :=
  ((op.program env).atomically backend db).2

open Tx in
theorem identityOp_follows (env : Env) (op : IdentityOp) :
    Follows backend Identified (op.program env) := by
  cases op with
  | createApplication form submission d =>
      exact createApplication_follows.bind fun _ => preserves_commit
  | createManualOpportunity orgId body d =>
      exact createManualOpportunity_follows.bind fun _ => preserves_commit
  | resolveSignal orgId signal sourceId channel? ids now =>
      exact resolveOutboundSignal_follows.bind fun _ => preserves_commit
  | mergeFounder credentials now personId loserId =>
      exact mergeFounder_follows.bind fun _ => Preserves.pure ()
  | gdprErase credentials now personId =>
      exact gdprErase_follows.bind fun _ => Preserves.pure ()

/-- Every operation keeps the rows apart. -/
theorem identified_step (env : Env) (db : Db) (op : IdentityOp) (h : Identified db) :
    Identified (op.step env db) := (identityOp_follows env op).atomically h

/-- From the empty store, no sequence of these operations makes two live companies with one
name or domain, or two live persons with one name. -/
theorem identities_unique (env : Env) (ops : List IdentityOp) :
    Along (IdentityOp.step env) Unmistakable {} ops :=
  (along_of_step (identified_step env) identified_empty).mono fun _ h => h.toUnmistakable

end Runs

end DolphinVC
