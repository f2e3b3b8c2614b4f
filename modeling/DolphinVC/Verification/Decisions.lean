import DolphinVC.Verification.SlaBreach

/-!
# Decisions

What a decision does is said once: it is a replay, it is refused, or it commits one write set.
Two results rest on it. In a run the stored decision is that of the last request with a new
key, whatever was sent again in between, and a pass has evidence. The application that a
decision takes along is the first one found: the others learn nothing of it.
-/

namespace DolphinVC

open Relational Transaction Transition

section Served

open Tx

variable {env : Env} {credentials : Option Credentials} {d : DealDraws} {db db' : Db}
variable {o : Opportunity} {id : Uuid} {body : DecisionRequest} {idempotencyKey : Option String}

/-- The application that is taken along. -/
def firstApplication (id : Uuid) (db : Db) : Option Application :=
  db.applications.rows.find? fun a => a.opportunityId = some id

def applicationWrites (id : Uuid) (db : Db) : List Write :=
  match firstApplication id db with
  | none => []
  | some a => if a.status = .decided then [] else [.updateApplication a.id .decided]

/-- What a decision commits. -/
def decisionWrites (principal : Principal) (body : DecisionRequest) (key : String)
    (now : Timestamp) (o : Opportunity) (db : Db) : List Write :=
  .updateOpportunity o.id (o.changes (body.assign principal now o)) ::
    .insertAuditLog (decideAudit principal body key o.id) :: applicationWrites o.id db

/-- A decision that gets as far as the look-up of its key. -/
structure Reaches (env : Env) (db : Db) (credentials : Option Credentials) (now : Timestamp)
    (id : Uuid) (idempotencyKey : Option String) (principal : Principal) (o : Opportunity)
    (key : String) : Prop where
  admitted : Admits env db .decide credentials now principal
  key : given idempotencyKey = some key
  found : o ∈ db.opportunities ∧ o.id = id ∧ o.orgId = principal.orgId
  live : o.stage ≠ .archived

/-- The key was used and there is a decision. -/
def Replays (o : Opportunity) (key : String) (db : Db) : Prop :=
  alreadyDecided o.orgId o.id key db = true ∧ o.decision.isSome = true

instance : Decidable (Replays o key db) := inferInstanceAs (Decidable (_ ∧ _))

/-- The row that was loaded is there and its company too: the answer can be built. -/
theorem wp_refreshedDetail {o' : Opportunity} {committed : List (List Write)}
    (ho : o' ∈ db.opportunities) (hcompany : (db.companies.find? o'.companyId).isSome) :
    Tx.WP backend (fun r db' _ => db' = db ∧ ∃ detail, r = .ok detail) (do
      let o ← refreshRow fun db => db.opportunities.find? o'.id
      buildDetail o) db { committed } := by
  have hfind : db.opportunities.find? o'.id = some o' := Table.find?_eq_some_iff.mpr ⟨ho, rfl⟩
  obtain ⟨company, hc⟩ := Option.isSome_iff_exists.mp hcompany
  simp [refreshRow, buildDetail, Tx.wp_bind, hfind, hc, Except.map]

/-- The applications afterwards. -/
def decideFirst (id : Uuid) (db : Db) : Table Uuid Application Application.id :=
  match firstApplication id db with
  | none => db.applications
  | some a =>
      if a.status = .decided then db.applications
      else db.applications.update a.id fun r => { r with status := .decided }

/-- The database afterwards. -/
def decided (principal : Principal) (body : DecisionRequest) (key : String) (now : Timestamp)
    (o : Opportunity) (db : Db) : Db :=
  { db with
    opportunities :=
      db.opportunities.update o.id (Opportunity.patch (o.changes (body.assign principal now o)))
    auditLog := db.auditLog ++ [decideAudit principal body key o.id]
    applications := decideFirst o.id db }

theorem applyAll_decisionWrites {principal : Principal} {key : String} {now : Timestamp} :
    backend.applyAll db (decisionWrites principal body key now o db) =
      .ok (decided principal body key now o db) := by
  have hupdate : db.apply (.updateOpportunity o.id (o.changes (body.assign principal now o))) =
      .ok { db with
        opportunities :=
          db.opportunities.update o.id
            (Opportunity.patch (o.changes (body.assign principal now o))) } := by
    simp [Db.apply, fkOk, Opportunity.changes, DecisionRequest.assign]
  refine Backend.applyAll_cons_eq_ok.mpr ⟨_, hupdate, Backend.applyAll_cons_eq_ok.mpr ⟨_, rfl, ?_⟩⟩
  unfold applicationWrites decided decideFirst
  cases firstApplication o.id db with
  | none => rfl
  | some a =>
      dsimp only
      split <;> rfl

/-- The end of a decision. -/
theorem wp_recordDecision {Q : Except Exc OpportunityDetail → Db → Session Write → Prop}
    {principal : Principal} {key : String} (ho : o ∈ db.opportunities)
    (hok : ∀ r s, ((db.companies.find? o.companyId).isSome → ∃ detail, r = .ok detail) →
      Q r (decided principal body key d.now o db) s) :
    Tx.WP backend Q (recordDecision d principal o body key) db {} := by
  have finish {extra : List Write} (hextra : extra = applicationWrites o.id db) :
      Tx.WP backend Q (do
        Tx.commit
        let o ← refreshRow fun db => db.opportunities.find? o.id
        buildDetail o) db
        { dirty := .updateOpportunity o.id (o.changes (body.assign principal d.now o)) ::
            .insertAuditLog (decideAudit principal body key o.id) :: extra } := by
    subst hextra
    refine Tx.wp_bind.mpr ((Tx.wp_commit_live rfl).mpr ?_)
    rw [show Session.pending _ = decisionWrites principal body key d.now o db from rfl,
      applyAll_decisionWrites]
    refine (reads_refreshedDetail o.id).wp.mpr (hok _ _ fun hcompany => ?_)
    have hrow : body.assign principal d.now o ∈
        (decided principal body key d.now o db).opportunities := by
      change _ ∈ db.opportunities.update o.id _
      exact Table.mem_update.mpr ⟨o, ho, by rw [if_pos rfl, patch_assign_decision]⟩
    exact (wp_refreshedDetail hrow hcompany).2
  refine Tx.wp_bind.mpr (Tx.wp_stage.mpr (Tx.wp_bind.mpr (Tx.wp_stage.mpr
    (Tx.wp_bind.mpr (Tx.wp_bind.mpr ?_)))))
  rw [Tx.wp_query, show Session.query backend db none
    (((({} : Session Write).stage (.updateOpportunity o.id
      (o.changes (body.assign principal d.now o)))).stage
      (.insertAuditLog (decideAudit principal body key o.id)))) = .ok db from rfl]
  simp only [Except.map]
  cases hfirst : db.applications.rows.find? fun a => a.opportunityId = some o.id with
  | none => exact finish (by simp [applicationWrites, firstApplication, hfirst])
  | some a =>
      rw [Tx.wp_ite]
      split
      · exact finish (by simp [applicationWrites, firstApplication, *])
      · exact finish (by simp [applicationWrites, firstApplication, *])

/-- A decision changes nothing, and is a replay when it is answered, or it commits its writes. -/
def DecideOutcome (env : Env) (db : Db) (credentials : Option Credentials) (now : Timestamp)
    (id : Uuid) (body : DecisionRequest) (idempotencyKey : Option String)
    (r : Except Exc OpportunityDetail) (db' : Db) : Prop :=
  (db' = db ∧ ∀ detail, r = .ok detail → ∃ principal o key,
    Reaches env db credentials now id idempotencyKey principal o key ∧ Replays o key db) ∨
  ∃ principal o key, Reaches env db credentials now id idempotencyKey principal o key ∧
    ¬ Replays o key db ∧ (body.decision = .pass → hasEvidence o.id db = true) ∧
    db' = decided principal body key now o db ∧
    ((db.companies.find? o.companyId).isSome → ∃ detail, r = .ok detail)

theorem decide_outcome (env : Env) (db : Db) (credentials : Option Credentials) (d : DealDraws)
    (id : Uuid) (body : DecisionRequest) (idempotencyKey : Option String) :
    DecideOutcome env db credentials d.now id body idempotencyKey
      ((decideEndpoint env credentials d id body idempotencyKey).atomically backend db).1
      ((decideEndpoint env credentials d id body idempotencyKey).atomically backend db).2 := by
  refine (Tx.atomically_iff (P := DecideOutcome env db credentials d.now id body
    idempotencyKey)).mpr ?_
  have refused {e : Exc} : DecideOutcome env db credentials d.now id body idempotencyKey
      (.error e) db := Or.inl ⟨rfl, fun _ h => by cases h⟩
  refine Tx.Reads.wp_bind (reads_require _ _ _ _) (fun _ => refused) fun principal hprincipal => ?_
  cases hkey : given idempotencyKey with
  | none => exact refused
  | some key =>
      refine Tx.Reads.wp_bind (reads_getOpportunity _ _) (fun _ => refused) fun o hget => ?_
      rw [Tx.wp_ite]
      split
      · exact refused
      · rename_i hstage
        obtain ⟨ho, hid, horg⟩ := of_getOpportunity hget
        have reaches : Reaches env db credentials d.now id idempotencyKey principal o key :=
          ⟨hprincipal, hkey, ⟨ho, hid, horg⟩, hstage⟩
        refine Tx.Reads.wp_bind (Tx.Reads.query _) (fun _ => refused) fun used hused => ?_
        obtain rfl : alreadyDecided principal.orgId o.id key db = used := Except.ok.inj hused
        rw [Tx.wp_ite, ← horg]
        split
        · rename_i hreplay
          exact (reads_buildDetail o).wp.mpr (Or.inl ⟨rfl, fun _ _ => ⟨principal, o, key, reaches,
            hreplay⟩⟩)
        · rename_i hnew
          refine Tx.Reads.wp_bind (Tx.Reads.query _) (fun _ => refused) fun evidence hevidence => ?_
          obtain rfl : hasEvidence o.id db = evidence := Except.ok.inj hevidence
          rw [Tx.wp_ite]
          split
          · exact refused
          · rename_i hpass
            refine wp_recordDecision ho fun r s hanswer => Or.inr ⟨principal, o, key, reaches, hnew,
              fun hp => ?_, rfl, hanswer⟩
            by_contra hnone
            exact hpass ⟨hp, hnone⟩

end Served

section Applicants

variable {env : Env} {credentials : Option Credentials} {d : DealDraws} {db db' : Db}
variable {o : Opportunity} {id : Uuid} {body : DecisionRequest} {idempotencyKey : Option String}

/-- Every application of the opportunity that is not deleted says that it is decided. -/
def Informed (id : Uuid) (db : Db) : Prop :=
  ∀ a ∈ db.applications, a.opportunityId = some id → a.deletedAt = none → a.status = .decided

/-- The request replays the decision of its opportunity. -/
def ReplaysRequest (id : Uuid) (idempotencyKey : Option String) (db : Db) : Prop :=
  ∃ o ∈ db.opportunities, o.id = id ∧ ∃ key, given idempotencyKey = some key ∧ Replays o key db

def Application.decide (a : Application) : Application := { a with status := .decided }

theorem mem_decideFirst {a' : Application} : a' ∈ decideFirst id db ↔
    ∃ a ∈ db.applications, firstApplication id db = some a ∧ a' = a.decide ∨
      firstApplication id db ≠ some a ∧ a' = a := by
  unfold decideFirst
  cases hfirst : firstApplication id db with
  | none => simp
  | some first =>
      have hmem : first ∈ db.applications := List.mem_of_find?_eq_some hfirst
      have hsame {a : Application} (ha : a ∈ db.applications) : a.id = first.id ↔ first = a :=
        ⟨fun hid => Table.eq_of_key hmem ha hid.symm, fun heq => heq ▸ rfl⟩
      simp only [Option.some.injEq, ne_eq]
      split
      · rename_i hstatus
        have hdecide : first.decide = first := by rw [Application.decide, ← hstatus]
        constructor
        · intro ha
          by_cases heq : first = a'
          · exact ⟨a', ha, Or.inl ⟨heq, by rw [← heq, hdecide]⟩⟩
          · exact ⟨a', ha, Or.inr ⟨heq, rfl⟩⟩
        · rintro ⟨a, ha, ⟨rfl, rfl⟩ | ⟨-, rfl⟩⟩
          · rwa [hdecide]
          · exact ha
      · refine Table.mem_update.trans ⟨?_, ?_⟩
        · rintro ⟨a, ha, rfl⟩
          by_cases heq : first = a
          · exact ⟨a, ha, Or.inl ⟨heq, if_pos ((hsame ha).mpr heq)⟩⟩
          · exact ⟨a, ha, Or.inr ⟨heq, if_neg fun hid => heq ((hsame ha).mp hid)⟩⟩
        · rintro ⟨a, ha, ⟨heq, rfl⟩ | ⟨heq, rfl⟩⟩
          · exact ⟨a, ha, if_pos ((hsame ha).mpr heq)⟩
          · exact ⟨_, ha, if_neg fun hid => heq ((hsame ha).mp hid)⟩

/-- After a decision that was answered every applicant can see it exactly if, before it, all
but the application found first could, and that one too in the case of a replay. -/
theorem decision_informs_iff (env : Env) (credentials : Option Credentials) (d : DealDraws)
    (db : Db) (id : Uuid) (body : DecisionRequest) (idempotencyKey : Option String)
    (detail : OpportunityDetail)
    (answered : ((decideEndpoint env credentials d id body idempotencyKey).atomically
      backend db).1 = .ok detail) :
    Informed id ((decideEndpoint env credentials d id body idempotencyKey).atomically
        backend db).2 ↔
      ∀ a ∈ db.applications, a.opportunityId = some id → a.deletedAt = none →
        a.status = .decided ∨
          firstApplication id db = some a ∧ ¬ ReplaysRequest id idempotencyKey db := by
  rcases decide_outcome env db credentials d id body idempotencyKey with
    ⟨hsame, hreplay⟩ | ⟨principal, o, key, reaches, hnew, -, hdb, -⟩
  · obtain ⟨principal, o, key, reaches, hreplays⟩ := hreplay detail answered
    have replays : ReplaysRequest id idempotencyKey db :=
      ⟨o, reaches.found.1, reaches.found.2.1, key, reaches.key, hreplays⟩
    rw [hsame]
    simp only [Informed, replays, not_true_eq_false, and_false, or_false]
  · have hid : o.id = id := reaches.found.2.1
    have fresh : ¬ ReplaysRequest id idempotencyKey db := by
      rintro ⟨o', ho', hid', key', hkey', hreplays⟩
      obtain rfl := Table.eq_of_key ho' reaches.found.1 (hid'.trans hid.symm)
      obtain rfl := Option.some.inj (hkey'.symm.trans reaches.key)
      exact hnew hreplays
    have happlications :
        (decided principal body key d.now o db).applications = decideFirst id db := by
      rw [← hid]
      rfl
    rw [hdb]
    simp only [Informed, fresh, not_false_eq_true, and_true, happlications]
    constructor
    · intro informed a ha hopportunity hdeleted
      by_cases hfirst : firstApplication id db = some a
      · exact Or.inr hfirst
      · exact Or.inl (informed a (mem_decideFirst.mpr ⟨a, ha, Or.inr ⟨hfirst, rfl⟩⟩)
          hopportunity hdeleted)
    · intro h a' ha' hopportunity hdeleted
      obtain ⟨a, ha, ⟨-, rfl⟩ | ⟨hfirst, rfl⟩⟩ := mem_decideFirst.mp ha'
      · rfl
      · exact (h _ ha hopportunity hdeleted).resolve_right hfirst

end Applicants

section Estuaries

def tidalDeal : Opportunity where
  id := 91
  orgId := 1
  companyId := 10
  origin := .inbound
  title := some "Acme"
  firstSignalAt := Timestamp.seconds 1
  slaDeadlineAt := Timestamp.seconds 90000

/-- Acme has applied twice. -/
def tidalApplication (second : Nat) : Application where
  id := 92 + second
  orgId := 1
  companyName := "Acme"
  deckDocumentId := none
  contactEmail := none
  contactName := none
  website := none
  artifacts := []
  notes := none
  submittedIp := none
  opportunityId := some 91
  sourceChannel := some "public_form"
  receivedAt := Timestamp.seconds second
  trackingTokenHash := some (toString second)

def tidalDb : Db :=
  { fundDb with
    opportunities := ⟨[tidalDeal], by decide⟩
    applications := ⟨[tidalApplication 1, tidalApplication 2], by decide⟩ }

theorem invest_is_human : DecisionKind.invest ≠ .needsHuman := by decide

theorem rationale_fits :
    10 ≤ "The market is large.".length ∧ "The market is large.".length ≤ 5000 := by
  decide

def tidalDecision : DecisionRequest where
  decision := .invest
  rationale := "The market is large."
  human := invest_is_human
  rationaleLength := rationale_fits

theorem tidal_answered : ∃ detail, ((decideEndpoint fundEnv (some { token := "carol" })
    { now := Timestamp.seconds 5 } 91 tidalDecision (some "first")).atomically backend
      tidalDb).1 = .ok detail := ⟨_, rfl⟩

/-- The second applicant reads RECEIVED on. -/
theorem second_applicant_not_informed :
    ¬ ∀ (env : Env) (credentials : Option Credentials) (d : DealDraws) (db : Db) (id : Uuid)
      (body : DecisionRequest) (idempotencyKey : Option String) (detail : OpportunityDetail),
      ((decideEndpoint env credentials d id body idempotencyKey).atomically backend db).1 =
          .ok detail →
        Informed id
          ((decideEndpoint env credentials d id body idempotencyKey).atomically backend db).2 := by
  intro h
  obtain ⟨detail, answered⟩ := tidal_answered
  have informed := h fundEnv (some { token := "carol" }) { now := Timestamp.seconds 5 } tidalDb 91
    tidalDecision (some "first") detail answered
  have hrow : tidalApplication 2 ∈ ((decideEndpoint fundEnv (some { token := "carol" })
      { now := Timestamp.seconds 5 } 91 tidalDecision (some "first")).atomically backend
        tidalDb).2.applications := by
    have hrows : ((decideEndpoint fundEnv (some { token := "carol" })
        { now := Timestamp.seconds 5 } 91 tidalDecision (some "first")).atomically backend
          tidalDb).2.applications.rows = [(tidalApplication 1).decide, tidalApplication 2] := rfl
    rw [← Table.mem_rows, hrows]
    simp
  have := informed _ hrow rfl rfl
  cases this

theorem tidal_informs_iff :
    (∃ detail, ((decideEndpoint fundEnv (some { token := "carol" })
      { now := Timestamp.seconds 5 } 91 tidalDecision (some "first")).atomically backend
        tidalDb).1 = .ok detail) ∧
    (Informed 91 ((decideEndpoint fundEnv (some { token := "carol" })
        { now := Timestamp.seconds 5 } 91 tidalDecision (some "first")).atomically backend
          tidalDb).2 ↔
      ∀ a ∈ tidalDb.applications, a.opportunityId = some 91 → a.deletedAt = none →
        a.status = .decided ∨
          firstApplication 91 tidalDb = some a ∧ ¬ ReplaysRequest 91 (some "first") tidalDb) := by
  obtain ⟨detail, answered⟩ := tidal_answered
  exact ⟨⟨detail, answered⟩, decision_informs_iff fundEnv (some { token := "carol" })
    { now := Timestamp.seconds 5 } tidalDb 91 tidalDecision (some "first") detail answered⟩

end Estuaries

section Kept

variable {db db' : Db} {w : Write} {id orgId : Uuid} {key : String}

/-- Companies, claims and pieces of evidence stay, whatever is written. -/
theorem record_persists (h : db.apply w = .ok db') :
    (∀ id, (db.companies.find? id).isSome → (db'.companies.find? id).isSome) ∧
    (∀ c ∈ db.claims, c ∈ db'.claims) ∧ ∀ e ∈ db.evidence, e ∈ db'.evidence := by
  cases w with
  | insertCompany row =>
      obtain ⟨t, ht, rfl⟩ := map_eq_ok.mp h
      refine ⟨fun id hid => ?_, fun c hc => hc, fun e he => he⟩
      obtain ⟨company, hcompany⟩ := Option.isSome_iff_exists.mp hid
      exact Option.isSome_iff_exists.mpr
        ⟨company, Table.find?_of_insert? (insertRow_eq_ok.mp ht).2 hcompany⟩
  | insertClaim row =>
      obtain ⟨t, ht, rfl⟩ := map_eq_ok.mp h
      exact ⟨fun id hid => hid,
        fun c hc => (Table.mem_insert? (insertRow_eq_ok.mp ht).2).mpr (Or.inl hc), fun e he => he⟩
  | insertEvidence row =>
      obtain ⟨t, ht, rfl⟩ := map_eq_ok.mp h
      exact ⟨fun id hid => hid, fun c hc => hc,
        fun e he => (Table.mem_insert? (insertRow_eq_ok.mp ht).2).mpr (Or.inl he)⟩
  | refused e => cases h
  | _ =>
      simp only [Db.apply, map_eq_ok, ite_error_eq_ok, Except.ok.injEq] at h
      first
      | (subst h; exact ⟨fun _ hid => hid, fun _ hc => hc, fun _ he => he⟩)
      | (obtain ⟨t, -, rfl⟩ := h; exact ⟨fun _ hid => hid, fun _ hc => hc, fun _ he => he⟩)
      | (obtain ⟨-, t, -, rfl⟩ := h; exact ⟨fun _ hid => hid, fun _ hc => hc, fun _ he => he⟩)

theorem hasEvidence_iff : hasEvidence id db = true ↔
    ∃ e ∈ db.evidence, ∃ c ∈ db.claims, c.id = e.claimId ∧ c.opportunityId = some id := by
  simp [hasEvidence, List.any_eq_true, Table.mem_rows]

theorem hasEvidence_apply (h : hasEvidence id db = true) (happly : db.apply w = .ok db') :
    hasEvidence id db' = true := by
  obtain ⟨e, he, c, hc, hclaim⟩ := hasEvidence_iff.mp h
  obtain ⟨-, claims, evidence⟩ := record_persists happly
  exact hasEvidence_iff.mpr ⟨e, evidence e he, c, claims c hc, hclaim⟩

theorem alreadyDecided_append (row : AuditLog) (h : db'.auditLog = db.auditLog ++ [row]) :
    alreadyDecided orgId id key db' = true ↔ alreadyDecided orgId id key db = true ∨
      row.orgId = some orgId ∧ row.action = "opportunity.decide" ∧ row.targetId = some id ∧
        row.metaIdempotencyKey = some key := by
  simp [alreadyDecided, h]

end Kept

section History

variable {env : Env} {credentials : Option Credentials} {d : DealDraws} {db db' : Db}
variable {id orgId : Uuid}

/-- A decide request that was answered, with its key and the user behind it. -/
structure DecisionAnswer where
  key : String
  body : DecisionRequest
  userId : Option Uuid

/-- The decide request on the opportunity that this event answers. -/
def answeredBy (env : Env) (id : Uuid) (db : Db) : DealEvent → Option DecisionAnswer
  | .request credentials d (.decide opportunityId body idempotencyKey) =>
      if opportunityId = id then
        match given idempotencyKey,
          ((require .decide env credentials d.now).atomically backend db).1,
          ((decideEndpoint env credentials d opportunityId body idempotencyKey).atomically
            backend db).1 with
        | some key, .ok principal, .ok _ => some ⟨key, body, principal.userId⟩
        | _, _, _ => none
      else none
  | _ => none

/-- A state, the keys that succeeded on the opportunity and the last request with a new one. -/
structure History where
  state : DealState
  keys : List String := []
  last : Option DecisionAnswer := none

def historyStep (env : Env) (id : Uuid) (h : History) (a : DealEvent) : History :=
  match answeredBy env id h.state.db a with
  | none => { h with state := dealStep env h.state a }
  | some x =>
      if x.key ∈ h.keys then { h with state := dealStep env h.state a }
      else { state := dealStep env h.state a, keys := x.key :: h.keys, last := some x }

/-- The opportunity stores the last request with a new key, and a pass has evidence. -/
def StoresLast (id : Uuid) (h : History) : Prop :=
  ∃ o ∈ h.state.db.opportunities, o.id = id ∧
    o.decision = h.last.map (fun x => x.body.decision) ∧
    o.decisionRationale = h.last.map (fun x => x.body.rationale) ∧
    o.decisionBy = h.last.bind DecisionAnswer.userId ∧
    (o.decision = some .pass → hasEvidence id h.state.db = true)

/-- A request whose key succeeded before changes nothing. -/
def ReplayHarmless (env : Env) (id : Uuid) (h : History) (a : DealEvent) : Prop :=
  ∀ credentials d body idempotencyKey key,
    a = .request credentials d (.decide id body idempotencyKey) →
      given idempotencyKey = some key → key ∈ h.keys → (dealStep env h.state a).db = h.state.db

/-- As an opportunity is created: no decision, no record of one, and its company. -/
structure Undecided (o : Opportunity) (db : Db) : Prop where
  stored : o ∈ db.opportunities
  decision : o.decision = none ∧ o.decisionRationale = none ∧ o.decisionBy = none
  unrecorded : ∀ a ∈ db.auditLog, a.action = "opportunity.decide" → a.targetId ≠ some o.id
  company : (db.companies.find? o.companyId).isSome

/-- What the database says about the opportunity. -/
structure Records (id orgId : Uuid) (keys : List String) (last : Option DecisionAnswer) (db : Db) :
    Prop where
  row : ∃ o ∈ db.opportunities, o.id = id ∧ o.orgId = orgId ∧
    (db.companies.find? o.companyId).isSome ∧
    o.decision = last.map (fun x => x.body.decision) ∧
    o.decisionRationale = last.map (fun x => x.body.rationale) ∧
    o.decisionBy = last.bind DecisionAnswer.userId
  known : ∀ key, alreadyDecided orgId id key db = true ↔ key ∈ keys
  latest : keys ≠ [] → last.isSome
  evidence : last.map (fun x => x.body.decision) = some .pass → hasEvidence id db = true

variable {keys : List String} {last : Option DecisionAnswer}

theorem patch_undeciding {o : Opportunity} {set : OpportunityPatch} (h : set.decision = none ∧
    set.decisionRationale = none ∧ set.decisionBy = none) :
    (o.patch set).decision = o.decision ∧ (o.patch set).decisionRationale = o.decisionRationale ∧
      (o.patch set).decisionBy = o.decisionBy := by
  simp [Opportunity.patch, h]

theorem Records.apply {w : Write} (h : Records id orgId keys last db) (hw : w.Undeciding)
    (happly : db.apply w = .ok db') : Records id orgId keys last db' where
  row := by
    obtain ⟨o, ho, hid, horg, hcompany, hdecision, hrationale, hby⟩ := h.row
    have hcompany' := (record_persists happly).1 _ hcompany
    obtain ⟨row, rfl, hins⟩ | ⟨id', set, rfl, hupd⟩ | ⟨-, heq⟩ := opportunities_apply happly
    · exact ⟨o, (Table.mem_insert? hins).mpr (Or.inl ho), hid, horg, hcompany', hdecision,
        hrationale, hby⟩
    · refine ⟨if o.id = id' then o.patch set else o, ?_, ?_⟩
      · rw [hupd]
        exact Table.mem_update.mpr ⟨o, ho, rfl⟩
      · split
        · obtain ⟨hd, hr, hb⟩ := patch_undeciding (o := o) hw
          exact ⟨hid, horg, hcompany', hd.trans hdecision, hr.trans hrationale, hb.trans hby⟩
        · exact ⟨hid, horg, hcompany', hdecision, hrationale, hby⟩
    · exact ⟨o, heq ▸ ho, hid, horg, hcompany', hdecision, hrationale, hby⟩
  known := by
    intro key
    obtain ⟨row, rfl, hlog⟩ | ⟨-, hlog⟩ := auditLog_apply happly
    · rw [alreadyDecided_append row hlog, h.known]
      have haction : row.action ≠ "opportunity.decide" := hw
      simp [haction]
    · rw [← h.known]
      simp [alreadyDecided, hlog]
  latest := h.latest
  evidence hpass := hasEvidence_apply (h.evidence hpass) happly

theorem Records.atomically {α : Type} {p : DolphinVC.Tx α} (h : Records id orgId keys last db)
    (hp : Tx.Emits Write.Undeciding p) : Records id orgId keys last (p.atomically backend db).2 :=
  Tx.Commits.atomically (I := Records id orgId keys last) (Tx.Emits.commits hp Journal.all_empty)
    (fun _ _ _ hw hdb happly => hdb.apply hw happly) h

/-- A decision about another opportunity. -/
theorem Records.decided_other {o : Opportunity} {principal : Principal} {body : DecisionRequest}
    {key : String} {now : Timestamp} (h : Records id orgId keys last db) (hid : o.id ≠ id) :
    Records id orgId keys last (decided principal body key now o db) where
  row := by
    obtain ⟨r, hr, hrid, hrest⟩ := h.row
    refine ⟨r, ?_, hrid, hrest⟩
    change r ∈ db.opportunities.update o.id _
    exact Table.mem_update.mpr ⟨r, hr, if_neg fun heq => hid (heq.symm.trans hrid)⟩
  known key' := by
    rw [alreadyDecided_append (decideAudit principal body key o.id) rfl, h.known]
    simp [decideAudit, hid]
  latest := h.latest
  evidence := h.evidence

/-- A decision about this one, with a new key. -/
theorem Records.decided_self {o : Opportunity} {principal : Principal} {body : DecisionRequest}
    {key : String} {now : Timestamp} (h : Records id orgId keys last db)
    (ho : o ∈ db.opportunities) (hid : o.id = id) (horg : o.orgId = principal.orgId)
    (hpass : body.decision = .pass → hasEvidence o.id db = true) :
    Records id orgId (key :: keys) (some ⟨key, body, principal.userId⟩)
      (decided principal body key now o db) := by
  obtain ⟨r, hr, hrid, hrorg, hcompany, -⟩ := h.row
  obtain rfl : r = o := Table.eq_of_key hr ho (hrid.trans hid.symm)
  refine ⟨⟨body.assign principal now r, ?_, hid, hrorg, hcompany, rfl, rfl, rfl⟩, ?_, fun _ => rfl,
    fun h => ?_⟩
  · change _ ∈ db.opportunities.update r.id _
    exact Table.mem_update.mpr ⟨r, hr, by rw [if_pos rfl, patch_assign_decision]⟩
  · intro key'
    rw [alreadyDecided_append (decideAudit principal body key r.id) rfl, h.known]
    simp [decideAudit, hid, ← horg, hrorg, or_comm, eq_comm]
  · rw [← hid]
    exact hpass (Option.some.inj h)

/-- The records and the job runs in progress. -/
def Accounts (id orgId : Uuid) (h : History) : Prop :=
  h.state.Blocks RunBlock ∧ Records id orgId h.keys h.last h.state.db

theorem answeredBy_decide {opportunityId : Uuid} {body : DecisionRequest}
    {idempotencyKey : Option String} {principal : Principal} {key : String}
    {detail : OpportunityDetail} (hid : opportunityId = id)
    (hprincipal : Admits env db .decide credentials d.now principal)
    (hkey : given idempotencyKey = some key)
    (hanswer : ((decideEndpoint env credentials d opportunityId body idempotencyKey).atomically
      backend db).1 = .ok detail) :
    answeredBy env id db (.request credentials d (.decide opportunityId body idempotencyKey)) =
      some ⟨key, body, principal.userId⟩ := by
  unfold Admits at hprincipal
  simp only [answeredBy, if_pos hid, hkey, hprincipal, hanswer]

theorem answeredBy_eq_some {a : DealEvent} {x : DecisionAnswer}
    (h : answeredBy env id db a = some x) :
    ∃ credentials d body idempotencyKey detail,
      a = .request credentials d (.decide id body idempotencyKey) ∧
        given idempotencyKey = some x.key ∧
        ((decideEndpoint env credentials d id body idempotencyKey).atomically backend db).1 =
          .ok detail := by
  unfold answeredBy at h
  split at h
  · rename_i credentials d opportunityId body idempotencyKey
    split at h
    · rename_i hid
      subst hid
      split at h
      · rename_i key principal detail hkey hprincipal hanswer
        cases h
        exact ⟨credentials, d, body, idempotencyKey, detail, rfl, hkey, hanswer⟩
      · cases h
    · cases h
  · cases h

/-- Every event but a decision leaves the records as they are. -/
theorem records_plain {s : DealState} (env : Env) (a : DealEvent) (hb : s.Blocks RunBlock)
    (other : ∀ credentials d opportunityId body idempotencyKey,
      a ≠ .request credentials d (.decide opportunityId body idempotencyKey))
    (h : Records id orgId keys last s.db) : Records id orgId keys last (dealStep env s a).db := by
  cases a with
  | request credentials d r =>
      refine h.atomically ((serve_plain r ?_).weaken fun _ hw => hw.2)
      rintro opportunityId body idempotencyKey rfl
      exact other _ _ _ _ _ rfl
  | auth r d => exact h.atomically ((auth_writes r).weaken fun _ hw => hw.undeciding)
  | reap now => exact h.atomically (reapStaleJobs_queues.weaken fun _ hw => hw.undeciding)
  | deliver run jobId => exact h
  | run i faults =>
      obtain heq | ⟨ws, -, hws, happly⟩ := run_cases env hb i faults
      · rw [heq]
        exact h
      · exact Backend.applyAll_inv (P := Records id orgId keys last)
          (fun _ _ _ hw hdb happly => hdb.apply hw happly)
          (fun w hw => (hws w hw).undeciding) h happly

theorem historyStep_state (h : History) (a : DealEvent) :
    (historyStep env id h a).state = dealStep env h.state a := by
  unfold historyStep
  split
  · rfl
  · split <;> rfl

/-- An event that is no answer to a new key changes the state of the history only. -/
theorem historyStep_known (env : Env) (id : Uuid) (h : History) (a : DealEvent)
    (known : ∀ x, answeredBy env id h.state.db a = some x → x.key ∈ h.keys) :
    historyStep env id h a = { h with state := dealStep env h.state a } := by
  unfold historyStep
  split
  · rfl
  · rename_i x hx
    rw [if_pos (known x hx)]

theorem decided_step (h : History) (opportunityId : Uuid) (body : DecisionRequest)
    (idempotencyKey : Option String) :
    (dealStep env h.state
      (.request credentials d (.decide opportunityId body idempotencyKey))).db =
        ((decideEndpoint env credentials d opportunityId body idempotencyKey).atomically
          backend h.state.db).2 := by
  simp only [dealStep, DealRequest.serve, Tx.atomically_void]

/-- A replay was known: the look-up of its key found it. -/
theorem Records.known_of_replay {o : Opportunity} {key : String} {now : Timestamp}
    {idempotencyKey : Option String} {principal : Principal}
    (h : Records id orgId keys last db)
    (reaches : Reaches env db credentials now id idempotencyKey principal o key)
    (hreplays : Replays o key db) : key ∈ keys := by
  obtain ⟨r, hr, hrid, hrorg, -⟩ := h.row
  obtain rfl := Table.eq_of_key hr reaches.found.1 (hrid.trans reaches.found.2.1.symm)
  rw [← h.known, ← hrid, ← hrorg]
  exact hreplays.1

/-- A known key is a replay. -/
theorem Records.replay_of_known {o : Opportunity} {key : String} (h : Records id orgId keys last db)
    (ho : o ∈ db.opportunities) (hid : o.id = id) (hkey : key ∈ keys) : Replays o key db := by
  obtain ⟨r, hr, hrid, hrorg, -, hdecision, -⟩ := h.row
  obtain rfl := Table.eq_of_key hr ho (hrid.trans hid.symm)
  refine ⟨?_, ?_⟩
  · rw [hrid, hrorg]
    exact (h.known key).mpr hkey
  · rw [hdecision, Option.isSome_map]
    exact h.latest (List.ne_nil_of_mem hkey)

/-- What a decision does to the history of an opportunity: the records follow it, and a known
key changes nothing. -/
theorem records_decide {h : History} (opportunityId : Uuid) (body : DecisionRequest)
    (idempotencyKey : Option String) (hrecords : Records id orgId h.keys h.last h.state.db) :
    Records id orgId
        (historyStep env id h
          (.request credentials d (.decide opportunityId body idempotencyKey))).keys
        (historyStep env id h
          (.request credentials d (.decide opportunityId body idempotencyKey))).last
        (dealStep env h.state
          (.request credentials d (.decide opportunityId body idempotencyKey))).db ∧
      ∀ key, opportunityId = id → given idempotencyKey = some key → key ∈ h.keys →
        (dealStep env h.state
          (.request credentials d (.decide opportunityId body idempotencyKey))).db =
            h.state.db := by
  rw [decided_step]
  rcases decide_outcome env h.state.db credentials d opportunityId body idempotencyKey with
    ⟨hsame, hreplay⟩ | ⟨principal, o, key, reaches, hnew, hpass, hdb, hanswer⟩
  · have hknown := historyStep_known env id h
      (.request credentials d (.decide opportunityId body idempotencyKey)) fun x hx => by
        obtain ⟨credentials', d', body', idempotencyKey', detail, hevent, hkey, hok⟩ :=
          answeredBy_eq_some hx
        cases hevent
        obtain ⟨principal, o, key, reaches, hreplays⟩ := hreplay detail hok
        obtain rfl := Option.some.inj (hkey.symm.trans reaches.key)
        exact hrecords.known_of_replay reaches hreplays
    rw [hsame, hknown]
    exact ⟨hrecords, fun _ _ _ _ => rfl⟩
  · by_cases hid : opportunityId = id
    · subst hid
      obtain ⟨ho, hoid, horg⟩ := reaches.found
      have hfresh : key ∉ h.keys := fun hkey => hnew (hrecords.replay_of_known ho hoid hkey)
      obtain ⟨r, hr, hrid, -, hcompany, -⟩ := hrecords.row
      obtain rfl := Table.eq_of_key hr ho (hrid.trans hoid.symm)
      obtain ⟨detail, hok⟩ := hanswer hcompany
      have hanswered := answeredBy_decide rfl reaches.admitted reaches.key hok
      refine ⟨?_, fun key' _ hkey' hmem => ?_⟩
      · rw [historyStep, hanswered, hdb]
        simp only [if_neg hfresh]
        exact hrecords.decided_self ho hoid horg hpass
      · obtain rfl := Option.some.inj (hkey'.symm.trans reaches.key)
        exact absurd hmem hfresh
    · have hnone : answeredBy env id h.state.db
          (.request credentials d (.decide opportunityId body idempotencyKey)) = none := by
        simp only [answeredBy, if_neg hid]
      rw [historyStep, hnone, hdb]
      exact ⟨hrecords.decided_other (reaches.found.2.1 ▸ hid), fun _ heq => absurd heq hid⟩

theorem accounts_step {h : History} (env : Env) (a : DealEvent) (hA : Accounts id orgId h) :
    Accounts id orgId (historyStep env id h a) := by
  obtain ⟨hblocks, hrecords⟩ := hA
  refine ⟨?_, ?_⟩
  · rw [historyStep_state]
    exact blocks_step hblocks a processJob_runBlocks
  · rw [historyStep_state]
    by_cases other : ∀ credentials d opportunityId body idempotencyKey,
        a ≠ .request credentials d (.decide opportunityId body idempotencyKey)
    · rw [historyStep_known _ _ _ _ fun x hx => by
        obtain ⟨credentials, d, body, idempotencyKey, -, hevent, -⟩ := answeredBy_eq_some hx
        exact absurd hevent (other _ _ _ _ _)]
      exact records_plain env a hblocks other hrecords
    · simp only [ne_eq, not_forall, not_not] at other
      obtain ⟨credentials, d, opportunityId, body, idempotencyKey, rfl⟩ := other
      exact (records_decide opportunityId body idempotencyKey hrecords).1

/-- From the moment an opportunity is created undecided, in every run: it stores the last
request that was answered with a new key, a pass has evidence, and a key that was answered
before changes nothing. -/
theorem decisions_replay_safely (env : Env) (db : Db) (past later : List DealEvent)
    (o : Opportunity) (undecided : Undecided o (past.foldl (dealStep env) { db }).db) :
    Along (historyStep env o.id) (StoresLast o.id)
        { state := past.foldl (dealStep env) { db } } later ∧
      Meets (historyStep env o.id) (ReplayHarmless env o.id)
        { state := past.foldl (dealStep env) { db } } later := by
  have blocks : (past.foldl (dealStep env) { db }).Blocks RunBlock :=
    (along_of_step (P := fun s : DealState => s.Blocks RunBlock)
      (fun _ a hb => blocks_step hb a processJob_runBlocks)
      (fun _ ht => absurd ht List.not_mem_nil)).last
  generalize past.foldl (dealStep env) { db } = s at undecided blocks ⊢
  have start : Accounts o.id o.orgId { state := s } := by
    obtain ⟨hd, hr, hb⟩ := undecided.decision
    refine ⟨blocks, ⟨o, undecided.stored, rfl, rfl, undecided.company, hd, hr, hb⟩, ?_,
      fun h => absurd rfl h, fun h => by cases h⟩
    intro key
    refine iff_of_false ?_ List.not_mem_nil
    simp only [alreadyDecided, List.any_eq_true, decide_eq_true_eq]
    rintro ⟨a, ha, -, haction, htarget, -⟩
    exact undecided.unrecorded a ha haction htarget
  have run : Along (historyStep env o.id) (Accounts o.id o.orgId) { state := s } later :=
    along_of_step (fun _ a hA => accounts_step env a hA) start
  refine ⟨run.mono fun h hA => ?_, meets_of_along run fun h a hA => ?_⟩
  · obtain ⟨r, hr, hid, -, -, hdecision, hrationale, hby⟩ := hA.2.row
    exact ⟨r, hr, hid, hdecision, hrationale, hby, fun hpass =>
      hA.2.evidence (hdecision.symm.trans hpass)⟩
  · rintro credentials d body idempotencyKey key rfl hkey hmem
    exact (records_decide o.id body idempotencyKey hA.2).2 key rfl hkey hmem

end History

section Tides

theorem tidal_undecided : Undecided tidalDeal tidalDb :=
  ⟨List.mem_singleton_self _, ⟨rfl, rfl, rfl⟩, fun _ ha => absurd ha List.not_mem_nil, rfl⟩

/-- Carol decides, and sends another decision under the same key. -/
def tidalDecisions : List DealEvent :=
  [.request (some { token := "carol" }) { now := Timestamp.seconds 5 }
      (.decide 91 tidalDecision (some "first")),
    .request (some { token := "carol" }) { now := Timestamp.seconds 6 }
      (.decide 91 { tidalDecision with decision := .watchlist, human := by decide }
        (some "first"))]

theorem tidal_replays_safely :
    Undecided tidalDeal tidalDb ∧
    Along (historyStep fundEnv 91) (StoresLast 91) { state := { db := tidalDb } } tidalDecisions ∧
      Meets (historyStep fundEnv 91) (ReplayHarmless fundEnv 91) { state := { db := tidalDb } }
        tidalDecisions :=
  ⟨tidal_undecided, decisions_replay_safely fundEnv tidalDb [] tidalDecisions tidalDeal
    tidal_undecided⟩

end Tides

end DolphinVC
