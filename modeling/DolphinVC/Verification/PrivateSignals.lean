import DolphinVC.Routers.Entities
import DolphinVC.Verification.Deals

/-!
# Private signals

Persons are shared between funds and signals are not: a signal with an organization is
private to it. The list of signals and the search in the knowledge base apply that filter;
the export of a person's data does not, so it keeps signals private exactly when every
signal of the person is public or the caller's own.
-/

namespace DolphinVC

open Transaction Relational

/-- Nothing in the answer belongs to another organization. -/
def SignalAnswer.PrivateTo (db : Db) (orgId : Uuid) : SignalAnswer → Prop
  | .signals rows => ∀ s ∈ rows, visibleTo orgId s.orgId = true
  | .chunks items => ∀ i ∈ items, ∀ c ∈ db.kbChunks, c.id = i.id → visibleTo orgId c.orgId = true
  | .personExport answer =>
      ∀ i ∈ answer.signals, ∀ s ∈ db.signals, s.id = i.id → visibleTo orgId s.orgId = true

/-- Whoever sends the request sees signals of other organizations in no answer. -/
def KeepsPrivate (env : Env) (db : Db) (credentials : Option Credentials) (now : Timestamp)
    (r : SignalRequest) : Prop :=
  ∀ principal answer, Admits env db r.permission credentials now principal →
    ((r.serve env credentials now).atomically backend db).1 = .ok answer →
      answer.PrivateTo db principal.orgId

/-- An export meets no private signal of another organization. -/
def ExportsOwn (env : Env) (db : Db) (credentials : Option Credentials) (now : Timestamp)
    (r : SignalRequest) : Prop :=
  ∀ personId principal, r = .gdprExport personId →
    Admits env db .admin credentials now principal → (db.persons.find? personId).isSome →
      ∀ s ∈ db.signals, s.personId = some personId → visibleTo principal.orgId s.orgId = true

section Endpoints

variable {env : Env} {db : Db} {credentials : Option Credentials} {now : Timestamp}
variable {orgId : Uuid}

theorem listSignals_private {q : SignalQuery} :
    ∀ s ∈ listSignals orgId q db, visibleTo orgId s.orgId = true := by
  intro s hs
  have hmem := List.mem_mergeSort.mp (List.mem_of_mem_take hs)
  simp only [List.mem_filter, decide_eq_true_eq] at hmem
  exact hmem.2.1

/-- A found chunk is one of the visible rows. -/
theorem mem_searchKb {body : KBSearchRequest} {i : ChunkOut} (h : i ∈ searchKb env orgId body db) :
    ∃ c ∈ db.kbChunks, c.id = i.id ∧ visibleTo orgId c.orgId = true := by
  obtain ⟨scored, hscored, rfl⟩ := List.mem_map.mp h
  have hkept := List.mem_filter.mp (List.mem_mergeSort.mp (List.mem_of_mem_take hscored))
  obtain ⟨c, hc, rfl⟩ := List.mem_map.mp hkept.1
  have hrow := List.mem_filter.mp (List.mem_of_mem_take hc)
  simp only [decide_eq_true_eq] at hrow
  exact ⟨c, hrow.1, rfl, hrow.2.1⟩

theorem searchKb_private {body : KBSearchRequest} :
    (SignalAnswer.chunks (searchKb env orgId body db)).PrivateTo db orgId := by
  intro i hi c hc hid
  obtain ⟨c', hc', hid', hvisible⟩ := mem_searchKb hi
  obtain rfl := Table.eq_of_key hc hc' (hid.trans hid'.symm)
  exact hvisible

theorem reads_gdprExportEndpoint {personId : Uuid} :
    (gdprExportEndpoint env credentials now personId).Reads :=
  Tx.Reads.bind (reads_require _ _ _ _) fun _ => Tx.Reads.bind (Tx.Reads.query _) fun
    | none => Tx.Reads.throw _
    | some _ => Tx.Reads.bind (Tx.Reads.query _) fun _ => Tx.Reads.pure _

/-- An export of a known person answers with all signals of that person. -/
theorem gdprExport_answer {personId : Uuid} {principal : Principal}
    (admitted : Admits env db .admin credentials now principal) :
    ((gdprExportEndpoint env credentials now personId).atomically backend db).1 =
      match db.persons.find? personId with
      | none => .error (Exc.notFound "Founder")
      | some person => .ok
          { id := person.id, displayName := person.displayName, headline := person.headline
            bio := person.bio, links := person.links
            signals := (db.signals.rows.filter fun s => s.personId = some personId).map
              exportSignal } := by
  unfold gdprExportEndpoint
  rw [Tx.Reads.atomically_bind (reads_require _ _ _ _) admitted, Tx.atomically_query_bind]
  cases db.persons.find? personId with
  | none => rfl
  | some person => rfl

/-- The exported signals are private exactly when the person's signals are. -/
theorem personExport_private_iff {personId : Uuid} {answer : PersonExport}
    (h : answer.signals =
      (db.signals.rows.filter fun s => s.personId = some personId).map exportSignal) :
    (SignalAnswer.personExport answer).PrivateTo db orgId ↔
      ∀ s ∈ db.signals, s.personId = some personId → visibleTo orgId s.orgId = true := by
  simp only [SignalAnswer.PrivateTo, h, List.forall_mem_map, List.mem_filter, decide_eq_true_eq]
  constructor
  · intro hall s hs hperson
    exact hall s ⟨hs, hperson⟩ s hs rfl
  · rintro hall s ⟨hs, hperson⟩ t ht hid
    obtain rfl := Table.eq_of_key ht hs hid
    exact hall t ht hperson

/-- The three requests keep private signals private exactly when no export meets a
signal of another organization. -/
theorem private_signals_iff (env : Env) (db : Db) (credentials : Option Credentials)
    (now : Timestamp) (r : SignalRequest) :
    KeepsPrivate env db credentials now r ↔ ExportsOwn env db credentials now r := by
  cases r with
  | signals q =>
      refine iff_of_true (fun principal answer admitted hok => ?_) nofun
      change Admits env db .read credentials now principal at admitted
      obtain ⟨rows, hrows, hanswer⟩ :=
        (Tx.Reads.atomically_bind_eq_ok (Tx.Reads.bind (reads_require _ _ _ _) fun _ =>
          Tx.Reads.query _)).mp hok
      rw [Tx.Reads.atomically_bind (reads_require _ _ _ _) admitted] at hrows
      cases hrows
      cases hanswer
      exact listSignals_private
  | searchKb body =>
      refine iff_of_true (fun principal answer admitted hok => ?_) nofun
      change Admits env db .read credentials now principal at admitted
      obtain ⟨items, hitems, hanswer⟩ :=
        (Tx.Reads.atomically_bind_eq_ok (Tx.Reads.bind (reads_require _ _ _ _) fun _ =>
          Tx.Reads.query _)).mp hok
      rw [Tx.Reads.atomically_bind (reads_require _ _ _ _) admitted] at hitems
      cases hitems
      cases hanswer
      exact searchKb_private
  | gdprExport personId =>
      constructor
      · -- The answer of a known person is the export of all its signals.
        rintro hkeeps _ principal ⟨⟩ admitted hknown
        obtain ⟨person, hperson⟩ := Option.isSome_iff_exists.mp hknown
        have hanswer :
            ((gdprExportEndpoint env credentials now personId).atomically backend db).1 = _ :=
          gdprExport_answer admitted
        rw [hperson] at hanswer
        refine (personExport_private_iff rfl).mp
          (hkeeps principal _ admitted ((Tx.Reads.atomically_bind_eq_ok
            reads_gdprExportEndpoint).mpr ⟨_, hanswer, rfl⟩))
      · intro hexports principal answer admitted hok
        obtain ⟨exported, hexported, hanswer⟩ :=
          (Tx.Reads.atomically_bind_eq_ok reads_gdprExportEndpoint).mp hok
        rw [gdprExport_answer admitted] at hexported
        cases hperson : db.persons.find? personId with
        | none =>
            rw [hperson] at hexported
            nomatch hexported
        | some person =>
            rw [hperson] at hexported
            cases hexported
            cases hanswer
            exact (personExport_private_iff rfl).mpr
              (hexports personId principal rfl admitted (by rw [hperson]; rfl))

end Endpoints

section SharedFounder

/-- Two funds that share a founder; the second one has heard about a pivot. -/
def sharedDb : Db where
  orgs := ⟨[{ id := 1, name := "East Fund", slug := "east-fund" },
    { id := 2, name := "West Fund", slug := "west-fund" }], by decide⟩
  users := ⟨[
    { id := 6, orgId := 1, email := "olga@east.fund", passwordHash := none, fullName := "Olga"
      role := .owner }], by decide⟩
  persons := ⟨[{ id := 20, displayName := "Ada", normalizedName := "ada" }], by decide⟩
  signals := ⟨[
    { id := 30, orgId := some 2, sourceId := 7, kind := .forumPost
      title := some "Pivot", url := some "https://news.example/pivot", observedAt := 0
      contentHash := "pivot", personId := some 20 }], by decide⟩

/-- Olga owns the first fund; her name is her token. -/
def eastEnv : Env :=
  { plainEnv with
    decodeAccessToken := fun token _ =>
      if token = "olga" then
        .ok { sub := 6, org := 1, role := .owner, scopes := [], iat := 0, exp := 1 }
      else .error (Exc.unauthenticated) }

/-- The owner of one fund exports what another fund has noted about the founder. -/
theorem export_reveals_signal :
    ¬ KeepsPrivate eastEnv sharedDb (some { token := "olga" }) 0 (.gdprExport 20) := by
  rw [private_signals_iff]
  intro h
  have hvisible := h 20 { userId := some 6, orgId := 1, role := .owner, scopes := [] } rfl
    (by rfl) rfl
  exact absurd (hvisible _ (List.mem_singleton_self _) rfl) (by decide)

end SharedFounder

end DolphinVC
