import DolphinVC.Verification.Submissions
import DolphinVC.Verification.WriteIsolation

/-!
# Tracking tokens

The public form answers with a token, of which only the hash is stored, with the application.
Nothing that is done afterwards separates the two: the page behind the token shows what is
stored of that application by then.
-/

namespace DolphinVC

open Relational Transaction Transition Tx

section Tokens

variable {db db' : Db} {w : Write} {id : Uuid} {tokenHash : String}

/-- The application is the one that the token was issued for. -/
def HasToken (db : Db) (id : Uuid) (tokenHash : String) : Prop :=
  ∃ a ∈ db.applications, a.id = id ∧ a.trackingTokenHash = some tokenHash

/-- The UNIQUE constraint on the column. -/
def TokensUnique (db : Db) : Prop :=
  ∀ a ∈ db.applications, ∀ b ∈ db.applications, ∀ t, a.trackingTokenHash = some t →
    b.trackingTokenHash = some t → a = b

theorem hasToken_apply (h : db.apply w = .ok db') : HasToken db' id tokenHash ↔
    HasToken db id tokenHash ∨
      ∃ row, w = .insertApplication row ∧ row.id = id ∧ row.trackingTokenHash = some tokenHash :=
  applications_held (p := fun a => a.id = id ∧ a.trackingTokenHash = some tokenHash)
    (fun _ _ => Iff.rfl) h

/-- An insertion with a hash that is there is refused, and no statement changes one. -/
theorem tokensUnique_apply (hu : TokensUnique db) (h : db.apply w = .ok db') :
    TokensUnique db' := by
  obtain ⟨row, rfl, hins⟩ | ⟨id, status, rfl, hupd⟩ | ⟨-, heq⟩ := applications_apply h
  · obtain ⟨T, hT, rfl⟩ := map_eq_ok.mp h
    have fresh {a : Application} (ha : a ∈ db.applications) {t : String}
        (hrow : row.trackingTokenHash = some t) : a.trackingTokenHash ≠ some t := by
      have hclash := (insertRow_eq_ok.mp hT).1 a ha
      simpa [hrow] using hclash
    intro a ha b hb t hat hbt
    obtain ha | rfl := (Table.mem_insert? hins).mp ha
    · obtain hb | rfl := (Table.mem_insert? hins).mp hb
      · exact hu a ha b hb t hat hbt
      · exact absurd hat (fresh ha hbt)
    · obtain hb | rfl := (Table.mem_insert? hins).mp hb
      · exact absurd hbt (fresh hb hat)
      · rfl
  · intro a ha b hb t hat hbt
    rw [hupd] at ha hb
    obtain ⟨a', ha', rfl⟩ := Table.mem_update.mp ha
    obtain ⟨b', hb', rfl⟩ := Table.mem_update.mp hb
    have hash (c : Application) : (if c.id = id then { c with status } else c).trackingTokenHash =
        c.trackingTokenHash := by split <;> rfl
    rw [hash] at hat hbt
    rw [hu a' ha' b' hb' t hat hbt]
  · intro a ha b hb t hat hbt
    exact hu a (heq ▸ ha) b (heq ▸ hb) t hat hbt

/-- What is known about tokens while an application is submitted. -/
def tokens : Transaction.Evidence Db Write (Uuid × String) where
  Holds f db := HasToken db f.1 f.2
  Provides w f :=
    ∃ row, w = .insertApplication row ∧ row.id = f.1 ∧ row.trackingTokenHash = some f.2
  Fits _ _ := True
  Doomed _ := False

theorem tokens_lawful : tokens.Lawful backend where
  keeps _ _ _ _ h hf := (hasToken_apply h).mpr (Or.inl hf)
  provides _ _ _ _ h hf := (hasToken_apply h).mpr (Or.inr hf)
  origin _ _ _ _ h hf := (hasToken_apply h).mp hf
  doomed _ _ _ h := h.elim
  fits _ _ _ _ h := h

end Tokens

section Issued

variable {env : Env} {db : Db} {d : DealDraws} {form : ApplicationForm} {submission : Submission}
variable {orgSlug : String} {submittedIp : Option String} {created : CreatedApplication}

theorem any_tokens {α : Type} {p : DolphinVC.Tx α} {fs : List (Uuid × String)} :
    Shows tokens backend fs p fun _ => fs := Shows.any tokens_lawful fun _ _ => trivial

/-- A submission without a key replays none, it is answered with a new application. -/
theorem createApplication_answer (hpublic : submission.isPublic = true)
    (hkey : submission.idempotencyKey = none) : EmitsTo (fun _ => True)
      (fun c => c.applicationId = d.applicationId ∧ c.trackingToken = some d.trackingToken)
      (createApplication env form submission d) := by
  refine EmitsTo.bind Emits.any.to fun _ _ =>
    EmitsTo.bind (P := fun prior? => prior? = none) (EmitsTo.query fun _ => by rw [hkey]; rfl) ?_
  rintro _ rfl
  exact EmitsTo.bind Emits.any.to fun _ _ => EmitsTo.bind Emits.any.to fun _ _ =>
    EmitsTo.bind Emits.any.to fun _ _ => EmitsTo.bind Emits.any.to fun _ _ =>
      EmitsTo.bind Emits.any.to fun _ _ => EmitsTo.bind Emits.any.to fun _ _ =>
        EmitsTo.bind Emits.any.to fun _ _ => EmitsTo.bind Emits.any.to fun _ _ =>
          EmitsTo.pure ⟨rfl, if_pos hpublic⟩

/-- The token is stored with that application. -/
theorem createApplication_issues (hpublic : submission.isPublic = true)
    (hkey : submission.idempotencyKey = none) :
    Shows tokens backend [] (createApplication env form submission d) fun _ =>
      [(d.applicationId, env.sha256 d.trackingToken)] := by
  refine Shows.bind any_tokens fun _ => Shows.andThen (P := fun prior? => prior? = none) any_tokens
    (EmitsTo.query (Φ := fun _ => True) fun _ => by rw [hkey]; rfl) ?_
  rintro _ rfl
  refine Shows.bind any_tokens fun _ => Shows.bind any_tokens fun _ =>
    Shows.bind any_tokens fun _ => Shows.bind any_tokens fun _ =>
      Shows.bind (Shows.stage (G := fun _ => [(d.applicationId, env.sha256 d.trackingToken)])
        tokens_lawful trivial ?_) fun _ => Shows.bind any_tokens fun _ =>
          Shows.bind any_tokens fun _ => Shows.bind any_tokens fun _ => Shows.pure fun _ hf => hf
  intro f hf
  obtain rfl := List.mem_singleton.mp hf
  exact Or.inr ⟨_, rfl, rfl, if_pos hpublic⟩

/-- The endpoint asserts that there is a token. -/
theorem publicApply_answer
    (answered : ((publicApplyEndpoint env d orgSlug form submittedIp).atomically backend db).1 =
      .ok created) :
    created.applicationId = d.applicationId ∧ created.trackingToken = some d.trackingToken := by
  refine EmitsTo.answer (Φ := fun _ => True) (P := fun c =>
    c.applicationId = d.applicationId ∧ c.trackingToken = some d.trackingToken)
    (EmitsTo.bind Emits.any.to fun org? _ => ?_) answered
  cases org? with
  | none => exact EmitsTo.throw _
  | some org =>
      exact EmitsTo.bind Emits.any.to fun _ _ => EmitsTo.bind
        (createApplication_answer rfl rfl) fun _ hc => EmitsTo.bind Emits.any.to fun _ _ =>
          EmitsTo.bind Emits.any.to fun _ _ => EmitsTo.pure hc

/-- Once the public form has answered, the token is stored with its application. -/
theorem publicApply_issues
    (answered : ((publicApplyEndpoint env d orgSlug form submittedIp).atomically backend db).1 =
      .ok created) :
    HasToken ((publicApplyEndpoint env d orgSlug form submittedIp).atomically backend db).2
      d.applicationId (env.sha256 d.trackingToken) := by
  have part {α : Type} {p : DolphinVC.Tx α} {fs : List (Uuid × String)}
      {G : α → List (Uuid × String)} (h : Shows tokens backend fs p G) :
      Contract backend tokens.Sound (fun _ _ => True) (tokens.Knows fs) p fun a =>
        tokens.Knows (G a) :=
    Contract.consequence h (fun _ _ hk => hk) (fun _ _ _ => trivial) fun _ _ _ hk => hk
  have stable : Stable backend fun db (_ : Session Write) =>
      HasToken db d.applicationId (env.sha256 d.trackingToken) :=
    stable_of_write fun _ _ _ _ h happly => (hasToken_apply happly).mpr (Or.inl h)
  have contract : Contract backend tokens.Sound (fun _ _ => True) (tokens.Knows [])
      (publicApplyEndpoint env d orgSlug form submittedIp)
      fun _ db _ => HasToken db d.applicationId (env.sha256 d.trackingToken) := by
    refine Contract.bind (part any_tokens) fun org? => ?_
    cases org? with
    | none => exact Contract.throw fun _ _ _ => trivial
    | some org =>
        refine Contract.bind (part any_tokens) fun _ =>
          Contract.bind (part (createApplication_issues rfl rfl)) fun created =>
            Contract.bind (Shows.stored tokens_lawful fun _ _ _ => trivial) fun _ =>
              Contract.bind (K := fun _ db _ =>
                HasToken db d.applicationId (env.sha256 d.trackingToken))
                ?_ fun _ => Contract.pure fun _ _ h => h
        exact (Stages.contract (Φ := fun _ => False) dispatchJob_stages stable
          fun _ _ _ h _ => h).consequence (fun _ _ h => h _ (List.mem_singleton_self _))
            (fun _ _ _ => trivial) fun _ _ _ h => h
  exact contract.answer (.start (by simp)) answered

/-- The page shows the application as it is stored. -/
theorem publicStatus_of_hasToken {id : Uuid} {token : String} (unique : TokensUnique db)
    (now : Timestamp)
    (h : HasToken db id (env.sha256 token)) : ∃ a ∈ db.applications, a.id = id ∧
      (publicStatusEndpoint env now token).atomically backend db =
        (.ok (a.progress now (a.opportunityId.bind db.opportunities.find?)), db) := by
  obtain ⟨a, ha, hid, hhash⟩ := h
  refine ⟨a, ha, hid, ?_⟩
  have found : (db.applications.rows.find? fun a =>
      a.trackingTokenHash = some (env.sha256 token)) = some a :=
    Table.find?_eq_some_of_unique ha (decide_eq_true hhash) fun b hb hbhash =>
      unique b hb a ha _ (of_decide_eq_true hbhash) hhash
  unfold publicStatusEndpoint
  rw [atomically_query_bind, found]
  rfl

end Issued

section Runs

variable {env : Env} {s : DealState}

/-- An event moves the store on by writes. -/
theorem reaches_deskStep (a : DeskEvent) : backend.Reaches s.db (deskStep env s a).db := by
  have alone {α : Type} (p : DolphinVC.Tx α) : backend.Reaches s.db (p.atomically backend s.db).2 :=
    reaches_atomically backend p s.db
  cases a with
  | fund a =>
      cases a with
      | thesis credentials now r => exact alone _
      | deal a =>
          cases a with
          | request credentials d r => exact alone _
          | auth r d => exact alone _
          | reap now => exact alone _
          | deliver run jobId => exact .refl s.db
          | run i faults =>
              simp only [deskStep, fundStep, dealStep]
              split
              · exact .refl s.db
              · exact Thread.reaches_toCommit backend s.db faults _
  | outreach e => exact alone _
  | editMemo credentials now memoId body ifMatch => exact alone _
  | exportMemo credentials d memoId format => exact alone _
  | requestInfo credentials now applicationId => exact alone _
  | mergeFounder credentials now personId loserId => exact alone _
  | eraseFounder credentials now personId => exact alone _
  | rescoreFounder credentials d personId => exact alone _
  | invite credentials body d => exact alone _
  | deactivate credentials userId now => exact alone _

theorem tokensUnique_step (h : TokensUnique s.db) (a : DeskEvent) :
    TokensUnique (deskStep env s a).db :=
  (reaches_deskStep a).keeps (fun _ _ _ h happly => tokensUnique_apply h happly) h

theorem hasToken_step {id : Uuid} {tokenHash : String} (h : HasToken s.db id tokenHash)
    (a : DeskEvent) : HasToken (deskStep env s a).db id tokenHash :=
  (reaches_deskStep a).keeps (fun _ _ _ h happly => (hasToken_apply happly).mpr (Or.inl h)) h

/-- The public form answers with a token, and whatever is done afterwards, the token leads to
the application that was submitted, as it is stored by then. -/
theorem token_follows_application (env : Env) (s : DealState) (unique : TokensUnique s.db)
    (credentials : Option Credentials) (d : DealDraws) (orgSlug : String) (form : ApplicationForm)
    (submittedIp : Option String) (created : CreatedApplication)
    (answered : ((publicApplyEndpoint env d orgSlug form submittedIp).atomically backend s.db).1 =
      .ok created) (later : List DeskEvent) :
    created.trackingToken = some d.trackingToken ∧
      Along (deskStep env) (fun s => ∀ now, ∃ a ∈ s.db.applications, a.id = created.applicationId ∧
          (publicStatusEndpoint env now d.trackingToken).atomically backend s.db =
            (.ok (a.progress now (a.opportunityId.bind s.db.opportunities.find?)), s.db))
        (deskStep env s
          (.fund (.deal (.request credentials d (.publicApply orgSlug form submittedIp)))))
        later := by
  let submitted : DealState :=
    deskStep env s (.fund (.deal (.request credentials d (.publicApply orgSlug form submittedIp))))
  obtain ⟨hid, htoken⟩ := publicApply_answer answered
  have issued : HasToken submitted.db d.applicationId (env.sha256 d.trackingToken) := by
    simp only [submitted, deskStep, fundStep, dealStep, DealRequest.serve, Tx.atomically_void]
    exact publicApply_issues answered
  have stays : Along (deskStep env) (fun s => HasToken s.db d.applicationId
      (env.sha256 d.trackingToken)) submitted later :=
    along_of_step (fun _ a h => hasToken_step h a) issued
  have constrained : Along (deskStep env) (fun s => TokensUnique s.db) submitted later :=
    along_of_step (fun _ a h => tokensUnique_step h a) (tokensUnique_step unique _)
  refine ⟨htoken, (constrained.and stays).mono fun s h now => ?_⟩
  rw [hid]
  exact publicStatus_of_hasToken h.1 now h.2

/-- Eve applies with the link of her website. -/
def eveForm : ApplicationForm := { companyName := "Eve", website := some "eve.dev" }

def eveDraws : DealDraws := { now := 0, opportunityId := 40, jobId := 41, trackingToken := "eve" }

def eveApplies : DeskEvent :=
  .fund (.deal (.request none eveDraws (.publicApply "harbour-capital" eveForm none)))

/-- Carol asks her for more. -/
def eveWaits : List DeskEvent := [.requestInfo (some { token := "carol" }) (Timestamp.seconds 5) 0]

def eveDb : Db :=
  (eveWaits.foldl (deskStep fundEnv) (deskStep fundEnv { db := twoFunds } eveApplies)).db

theorem eve_answered : ∃ created, ((publicApplyEndpoint fundEnv eveDraws "harbour-capital" eveForm
    none).atomically backend twoFunds).1 = .ok created := by
  have hok : ((publicApplyEndpoint fundEnv eveDraws "harbour-capital" eveForm none).atomically
      backend twoFunds).1.isOk = true := by decide +kernel
  cases answered : ((publicApplyEndpoint fundEnv eveDraws "harbour-capital" eveForm
      none).atomically backend twoFunds).1 with
  | error e =>
      rw [answered] at hok
      cases hok
  | ok created => exact ⟨created, rfl⟩

/-- The page tells her so. -/
theorem eve_token_follows : TokensUnique twoFunds ∧ ∀ now, ∃ a ∈ eveDb.applications,
    a.status = .needsInfo ∧ (publicStatusEndpoint fundEnv now "eve").atomically backend eveDb =
      (.ok (a.progress now (a.opportunityId.bind eveDb.opportunities.find?)), eveDb) := by
  have unique : TokensUnique twoFunds := fun a ha => absurd ha (Table.not_mem_empty a)
  refine ⟨unique, fun now => ?_⟩
  obtain ⟨created, answered⟩ := eve_answered
  obtain ⟨a, ha, -, hpage⟩ := (token_follows_application fundEnv { db := twoFunds } unique none
    eveDraws "harbour-capital" eveForm none created answered eveWaits).2.last now
  have waiting : ∀ a ∈ eveDb.applications.rows, a.status = .needsInfo := by decide +kernel
  exact ⟨a, ha, waiting a ha, hpage⟩

end Runs

end DolphinVC
