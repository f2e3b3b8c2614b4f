import DolphinVC.Verification.PipelineWrites
import DolphinVC.Transaction.Atomic
import DolphinVC.Transition.Run
import Mathlib

/-!
# The claims of the decks

An analysis extracts claims from its deck unless the opportunity has claims already, from
whichever deck they are. So of the decks that are analysed one after the other for an
opportunity only the first that yields anything contributes, and each deck contributes
its claims exactly when no two of them yield any.
-/

namespace DolphinVC

open Transaction Transition Relational

/-- The columns of a claim and of its evidence, without their keys. -/
structure CitedClaim where
  category : ClaimCategory
  predicate : String
  text : String
  valueNum : Option Rat
  valueUnit : Option String
  status : ClaimStatus
  trustScore : Rat
  trustInputs : TrustInputs
  verificationNote : Option String
  extractedBy : Option String
  documentId : Option Uuid
  locator : Locator
  snippet : String
  supports : Bool
  independenceGroup : Option String

def Claim.citing (c : Claim) (e : Evidence) : CitedClaim where
  category := c.category
  predicate := c.predicate
  text := c.text
  valueNum := c.valueNum
  valueUnit := c.valueUnit
  status := c.status
  trustScore := c.trustScore
  trustInputs := c.trustInputs
  verificationNote := c.verificationNote
  extractedBy := c.extractedBy
  documentId := e.documentId
  locator := e.locator
  snippet := e.snippet
  supports := e.supports
  independenceGroup := e.independenceGroup

/-- The claims that are stored for an opportunity, each with the evidence that cites it. -/
def citedClaims (opportunityId : Uuid) (db : Db) : List CitedClaim :=
  (opportunityClaims opportunityId db).flatMap fun c =>
    (db.evidence.rows.filter fun e => e.claimId = c.id).map c.citing

def storedPages (documentId : Uuid) (db : Db) : List ParsedPage :=
  (db.documentPages.rows.filter fun p => p.documentId = documentId).map fun p =>
    { pageNo := p.pageNo, text := p.text.getD "", ocrUsed := p.ocrUsed }

/-- The pages an analysis works on. -/
def deckPages (analysis : Analysis) (document : Document) (db : Db) : List ParsedPage :=
  if (storedPages document.id db).isEmpty then analysis.parseDeck document
  else storedPages document.id db

/-- An extracted claim as it is to be stored, with the trust in it and the quote. -/
def ExtractedClaim.cited (analysis : Analysis) (document : Document) (item : ExtractedClaim) :
    CitedClaim where
  category := item.category
  predicate := item.predicate
  text := item.text
  valueNum := item.valueNum.map (numeric 4)
  valueUnit := item.valueUnit
  status :=
    if item.unverifiable then .unverifiable else (analysis.computeTrust document item).status
  trustScore := (analysis.computeTrust document item).score
  trustInputs := (analysis.computeTrust document item).inputs
  verificationNote :=
    if item.unverifiable then some "Prompt-injection-like text detected." else none
  extractedBy := some "deterministic-v1"
  documentId := some document.id
  locator := item.locator
  snippet := String.ofList (item.locator.snippet.toList.take 400)
  supports := !item.unverifiable
  independenceGroup := some ("deck:" ++ toString document.id)

/-- What `extract_claims` and `_product_claim` yield for a document. -/
def deckClaims (env : Env) (analysis : Analysis) (db : Db) (document : Document) :
    List CitedClaim :=
  (extractedClaims env analysis (deckPages analysis document db)).map (·.cited analysis document)

/-- The run of a job, with the document that its input names. -/
structure DeckRun where
  run : RunEnv
  jobId : Uuid
  document : Document

def deckStep (db : Db) (r : DeckRun) : Db := ((processJob r.run r.jobId).atomically backend db).2

def Finished (jobId : Uuid) (db : Db) : Prop :=
  ∃ j ∈ db.jobs, j.id = jobId ∧ j.status = .succeeded

def Unfinished (jobId : Uuid) (db : Db) : Prop :=
  ∃ j ∈ db.jobs, j.id = jobId ∧ j.status ≠ .succeeded

/-- A queued screening of the opportunity on its document runs and succeeds. -/
structure ScreensDeck (env : Env) (analysis : Analysis) (opportunityId : Uuid) (db : Db)
    (r : DeckRun) : Prop where
  env_eq : r.run.env = env
  analysis_eq : r.run.analysis = analysis
  queued : ∃ job ∈ db.jobs, job.id = r.jobId ∧ job.status = .queued ∧
    job.kind ∈ ["application.process", "screen"] ∧ job.opportunityId = some opportunityId ∧
    job.input.documentId = some r.document.id
  stored : r.document ∈ db.documents
  succeeds : Finished r.jobId (deckStep db r)

/-- Each document's claims are stored once, and nothing else. -/
def EachDeckOnce (contribution : Document → List CitedClaim) (documents : List Document)
    (stored : List CitedClaim) : Prop :=
  stored.Perm (documents.dedup.flatMap contribution)

/-- No two of the documents yield claims. -/
def OneYields (contribution : Document → List CitedClaim) (documents : List Document) : Prop :=
  ∀ D ∈ documents, ∀ D' ∈ documents, contribution D ≠ [] → contribution D' ≠ [] → D = D'

/-- Evidence belongs to a claim. -/
def EvidenceCites (db : Db) : Prop := ∀ e ∈ db.evidence, ∃ c ∈ db.claims, c.id = e.claimId

section Writes

open Tx

/-- The write touches neither decks nor claims and does not end a job in success. -/
def Write.Aside : Write → Prop
  | .insertDocument _ | .insertDocumentPage _ | .insertClaim _ | .insertEvidence _ => False
  | .updateJob _ set => set.status ≠ some .succeeded
  | _ => True

/-- The write does not end a job in success. -/
def Write.Unfinishing : Write → Prop
  | .updateJob _ set => set.status ≠ some .succeeded
  | _ => True

/-- The tables of the decks and of the claims. -/
structure SameDecks (db db' : Db) : Prop where
  documents : db'.documents = db.documents
  documentPages : db'.documentPages = db.documentPages
  claims : db'.claims = db.claims
  evidence : db'.evidence = db.evidence

theorem SameDecks.refl (db : Db) : SameDecks db db := ⟨rfl, rfl, rfl, rfl⟩

theorem SameDecks.trans {db db' db'' : Db} (h : SameDecks db db') (h' : SameDecks db' db'') :
    SameDecks db db'' :=
  ⟨h'.documents.trans h.documents, h'.documentPages.trans h.documentPages,
    h'.claims.trans h.claims, h'.evidence.trans h.evidence⟩

variable {db db' : Db} {w : Write} {jobId : Uuid}

theorem Write.Aside.unfinishing (h : w.Aside) : w.Unfinishing := by
  cases w with
  | updateJob id set => exact h
  | _ => trivial

theorem sameDecks_apply (hw : w.Aside) (h : db.apply w = .ok db') : SameDecks db db' := by
  cases w with
  | insertDocument row => exact hw.elim
  | insertDocumentPage row => exact hw.elim
  | insertClaim row => exact hw.elim
  | insertEvidence row => exact hw.elim
  | refused e => cases h
  | _ =>
      simp only [Db.apply, map_eq_ok, ite_error_eq_ok, Except.ok.injEq] at h
      first
      | (subst h; exact ⟨rfl, rfl, rfl, rfl⟩)
      | (obtain ⟨t, -, rfl⟩ := h; exact ⟨rfl, rfl, rfl, rfl⟩)
      | (obtain ⟨-, t, -, rfl⟩ := h; exact ⟨rfl, rfl, rfl, rfl⟩)

theorem Unfinished.apply (h : Unfinished jobId db) (hw : w.Unfinishing)
    (happly : db.apply w = .ok db') : Unfinished jobId db' := by
  obtain ⟨j, hj, hid, hstatus⟩ := h
  obtain ⟨row, rfl, hins⟩ | ⟨id, set, rfl, hupd⟩ | ⟨-, heq⟩ := jobs_apply happly
  · exact ⟨j, (Table.mem_insert? hins).mpr (Or.inl hj), hid, hstatus⟩
  · rw [Unfinished, hupd]
    refine ⟨_, Table.mem_update.mpr ⟨j, hj, rfl⟩, ?_⟩
    split
    · refine ⟨hid, fun hsucceeded => ?_⟩
      cases hset : set.status with
      | none => exact hstatus (by simpa [Job.patch, hset] using hsucceeded)
      | some status =>
          have : status = .succeeded := by simpa [Job.patch, hset] using hsucceeded
          exact hw (hset.trans (congrArg some this))
    · exact ⟨hid, hstatus⟩
  · exact ⟨j, heq ▸ hj, hid, hstatus⟩

theorem Unfinished.not_finished (h : Unfinished jobId db) : ¬ Finished jobId db := by
  obtain ⟨j, hj, hid, hstatus⟩ := h
  rintro ⟨j', hj', hid', hstatus'⟩
  obtain rfl := Table.eq_of_key hj hj' (hid.trans hid'.symm)
  exact hstatus hstatus'

/-- The decks are what they were and the job is not done. -/
def Pending (base : Db) (jobId : Uuid) (db : Db) : Prop := SameDecks base db ∧ Unfinished jobId db

theorem Pending.apply {base : Db} (hw : w.Aside) (h : Pending base jobId db)
    (happly : db.apply w = .ok db') : Pending base jobId db' :=
  ⟨h.1.trans (sameDecks_apply hw happly), h.2.apply hw.unfinishing happly⟩

end Writes

section Parts

open Tx

variable {run : RunEnv} {job : Job} {o : Opportunity}

theorem not_succeeded_of_same {loaded assigned : Job} (h : assigned.status = loaded.status) :
    (loaded.changes assigned).status ≠ some .succeeded := by
  intro hs
  exact (changed_eq_some.mp hs).1 h.symm

theorem recordStep_aside {copy : Job} {seq : Nat} {action message : String} {progress : Rat} :
    EmitsTo Write.Aside (fun j => j.input = copy.input)
      (recordStep run copy seq action progress message) :=
  EmitsTo.bind (Emits.stage trivial).to fun _ _ =>
    EmitsTo.bind (Emits.stage (by exact not_succeeded_of_same rfl)).to fun _ _ =>
      EmitsTo.bind Emits.commit.to fun _ _ => EmitsTo.pure rfl

theorem assignStatus_aside {a : Application} {status : ApplicationStatus} :
    Emits Write.Aside (assignStatus a status) :=
  Emits.ite (fun _ => Emits.pure _) fun _ => Emits.stage trivial

theorem beginApplication_aside : Emits Write.Aside (beginApplication job) := by
  unfold beginApplication
  cases job.input.applicationId with
  | none => exact Emits.pure _
  | some id =>
      refine Emits.bind (Emits.query _) fun application? => ?_
      cases application? with
      | none => exact Emits.pure _
      | some application => exact Emits.bind assignStatus_aside fun _ => Emits.pure _

theorem ensurePrescreen_aside {id : Uuid} : Emits Write.Aside (ensurePrescreen id) := by
  refine Emits.bind (Emits.query _) fun prescreen? => ?_
  cases prescreen? with
  | some p => exact Emits.pure _
  | none => exact Emits.bind (Emits.stage trivial) fun _ => Emits.commit

theorem addScores_aside {claims : List Claim} {axes : List AxisKind}
    {created : List OpportunityScore} :
    Emits Write.Aside (addScores run o claims axes created) := by
  induction axes generalizing created with
  | nil => exact Emits.pure _
  | cons axis axes ih =>
      exact Emits.bind (Emits.query _) fun _ => Emits.bind (Emits.stage trivial) fun _ => ih

theorem scoreAxes_aside {claims : List Claim} : Emits Write.Aside (scoreAxes run o claims) :=
  Emits.bind (Emits.call _) fun _ => Emits.bind addScores_aside fun _ =>
    Emits.bind Emits.flush fun _ => Emits.pure _

theorem thesisFit_aside {company : Company} : Emits Write.Aside (thesisFit run o company) :=
  Emits.bind (Emits.query _) fun _ => Emits.bind (Emits.call _) fun _ => Emits.ofExcept _

theorem writeMemo_aside {application? : Option Application} {recommendation : Recommendation}
    {sections : List MemoSection} :
    Emits Write.Aside (writeMemo run o application? recommendation sections) := by
  refine Emits.bind (Emits.call _) fun _ => Emits.bind (Emits.query _) fun latest =>
    Emits.bind (Emits.stage trivial) fun _ => Emits.bind (Emits.stage trivial) fun _ => ?_
  cases application? with
  | none => exact Emits.commit
  | some a => exact Emits.bind assignStatus_aside fun _ => Emits.commit

theorem failJob_unfinishing {e : Exc} :
    Emits Write.Unfinishing (failJob run job e) := by
  refine Emits.bind (Emits.stage ?_) fun _ => Emits.commit
  intro (hs : (job.changes (job.failed (run.now .failure) e)).status = some .succeeded)
  cases (changed_eq_some.mp hs).2

end Parts

section Rows

variable (run : RunEnv) (document : Document) (o : Opportunity)

def pageRow (page : ParsedPage) : DocumentPage where
  documentId := document.id
  pageNo := page.pageNo
  text := some page.text
  ocrUsed := page.ocrUsed

def claimRow (item : ExtractedClaim) (index : Nat) : Claim where
  id := run.id (.claim index)
  orgId := o.orgId
  opportunityId := some o.id
  category := item.category
  predicate := item.predicate
  text := item.text
  valueNum := item.valueNum.map (numeric 4)
  valueUnit := item.valueUnit
  status :=
    if item.unverifiable then .unverifiable
    else (run.analysis.computeTrust document item).status
  trustScore := (run.analysis.computeTrust document item).score
  trustInputs := (run.analysis.computeTrust document item).inputs
  verificationNote :=
    if item.unverifiable then some "Prompt-injection-like text detected." else none
  extractedBy := some "deterministic-v1"

def evidenceRow (item : ExtractedClaim) (index : Nat) : Evidence where
  id := run.id (.evidence index)
  claimId := run.id (.claim index)
  documentId := some document.id
  locator := item.locator
  snippet := String.ofList (item.locator.snippet.toList.take 400)
  supports := !item.unverifiable
  independenceGroup := some ("deck:" ++ toString document.id)

def claimRows (items : List ExtractedClaim) (index : Nat) : List Claim :=
  items.zipIdx index |>.map fun item => claimRow run document o item.1 item.2

def evidenceRows (items : List ExtractedClaim) (index : Nat) : List Evidence :=
  items.zipIdx index |>.map fun item => evidenceRow run document item.1 item.2

def claimWrites (items : List ExtractedClaim) (index : Nat) : List Write :=
  (items.zipIdx index).flatMap fun item =>
    [.insertClaim (claimRow run document o item.1 item.2),
      .insertEvidence (evidenceRow run document item.1 item.2)]

/-- The pages that an analysis adds. -/
def newPages (db : Db) : List ParsedPage :=
  if (storedPages document.id db).isEmpty then run.analysis.parseDeck document else []

/-- What an analysis extracts; nothing when the opportunity has claims. -/
def newClaims (db : Db) : List ExtractedClaim :=
  if (opportunityClaims o.id db).isEmpty then
    extractedClaims run.env run.analysis (deckPages run.analysis document db)
  else []

/-- What the document step of an analysis adds to the tables. -/
structure Gathered (db db' : Db) : Prop where
  documents : db'.documents = db.documents
  documentPages : db'.documentPages.rows =
    db.documentPages.rows ++ (newPages run document db).map (pageRow document)
  claims : db'.claims.rows =
    db.claims.rows ++ claimRows run document o (newClaims run document o db) 0
  evidence : db'.evidence.rows =
    db.evidence.rows ++ evidenceRows run document (newClaims run document o db) 0

variable {run document o} {db db' : Db} {ws : List Write}

theorem map_zipIdx_fst {α β : Type} (g : α → β) (xs : List α) (n : Nat) :
    (xs.zipIdx n).map (fun x => g x.1) = xs.map g := by
  conv_rhs => rw [← List.zipIdx_map_fst n xs, List.map_map]
  rfl

/-- The rows of the claims have the categories of the items, in order. -/
theorem map_category_claimRows (items : List ExtractedClaim) (index : Nat) :
    (claimRows run document o items index).map Claim.category =
      items.map ExtractedClaim.category := by
  rw [claimRows, List.map_map]
  exact map_zipIdx_fst ExtractedClaim.category items index

/-- What happens to other tables before and after does not matter. -/
theorem Gathered.between {db₁ db₂ : Db} (h : Gathered run document o db₁ db₂)
    (hbefore : SameDecks db db₁) (hafter : SameDecks db₂ db') : Gathered run document o db db' := by
  have hstored : storedPages document.id db₁ = storedPages document.id db := by
    unfold storedPages
    rw [hbefore.documentPages]
  have hpages : newPages run document db₁ = newPages run document db := by
    unfold newPages
    rw [hstored]
  have hclaims : newClaims run document o db₁ = newClaims run document o db := by
    unfold newClaims deckPages opportunityClaims
    rw [hstored, hbefore.claims]
  constructor
  · rw [hafter.documents, h.documents, hbefore.documents]
  · rw [hafter.documentPages, h.documentPages, hpages, hbefore.documentPages]
  · rw [hafter.claims, h.claims, hclaims, hbefore.claims]
  · rw [hafter.evidence, h.evidence, hclaims, hbefore.evidence]

theorem sameDecks_applyAll (hws : ∀ w ∈ ws, w.Aside) (h : backend.applyAll db ws = .ok db') :
    SameDecks db db' :=
  Backend.applyAll_inv (P := fun db' => SameDecks db db')
    (fun _ _ _ hw hsame happly => hsame.trans (sameDecks_apply hw happly)) hws (.refl db) h

theorem applyAll_pages {pages : List ParsedPage}
    (h : backend.applyAll db (pages.map fun p => .insertDocumentPage (pageRow document p)) =
      .ok db') :
    db'.documentPages.rows = db.documentPages.rows ++ pages.map (pageRow document) ∧
      db'.documents = db.documents ∧ db'.claims = db.claims ∧ db'.evidence = db.evidence := by
  induction pages generalizing db with
  | nil =>
      cases h
      simp
  | cons page pages ih =>
      obtain ⟨mid, hmid, hrest⟩ := Backend.applyAll_cons_eq_ok.mp h
      obtain ⟨t, ht, rfl⟩ := map_eq_ok.mp hmid
      obtain ⟨hpages, hdocuments, hclaims, hevidence⟩ := ih hrest
      refine ⟨?_, hdocuments, hclaims, hevidence⟩
      rw [hpages]
      simp [(Table.insert?_eq_some_iff.mp (insertRow_eq_ok.mp ht).2).2]

theorem applyAll_claims {items : List ExtractedClaim} {index : Nat}
    (h : backend.applyAll db (claimWrites run document o items index) = .ok db') :
    db'.claims.rows = db.claims.rows ++ claimRows run document o items index ∧
      db'.evidence.rows = db.evidence.rows ++ evidenceRows run document items index ∧
      db'.documents = db.documents ∧ db'.documentPages = db.documentPages := by
  induction items generalizing db index with
  | nil =>
      cases h
      simp [claimRows, evidenceRows]
  | cons item items ih =>
      have h' : backend.applyAll db (.insertClaim (claimRow run document o item index) ::
          .insertEvidence (evidenceRow run document item index) ::
            claimWrites run document o items (index + 1)) = .ok db' := h
      obtain ⟨mid, hmid, hrest⟩ := Backend.applyAll_cons_eq_ok.mp h'
      obtain ⟨t, ht, rfl⟩ := map_eq_ok.mp hmid
      obtain ⟨mid', hmid', hrest'⟩ := Backend.applyAll_cons_eq_ok.mp hrest
      obtain ⟨u, hu, rfl⟩ := map_eq_ok.mp hmid'
      obtain ⟨hclaims, hevidence, hdocuments, hpages⟩ := ih hrest'
      refine ⟨?_, ?_, hdocuments, hpages⟩
      · rw [hclaims]
        simp [(Table.insert?_eq_some_iff.mp (insertRow_eq_ok.mp ht).2).2, claimRows]
      · rw [hevidence]
        simp [(Table.insert?_eq_some_iff.mp (insertRow_eq_ok.mp hu).2).2, evidenceRows]

/-- What the write set of the document step makes of the tables. -/
theorem gathered_applyAll {before between : List Write} (hbefore : ∀ w ∈ before, w.Aside)
    (hbetween : ∀ w ∈ between, w.Aside)
    (h : backend.applyAll db (before ++
      (newPages run document db).map (fun p => .insertDocumentPage (pageRow document p)) ++
        between ++ claimWrites run document o (newClaims run document o db) 0) = .ok db') :
    Gathered run document o db db' := by
  obtain ⟨db₃, h₃, h₄⟩ := Backend.applyAll_append_eq_ok.mp h
  obtain ⟨db₂, h₂, hbetween'⟩ := Backend.applyAll_append_eq_ok.mp h₃
  obtain ⟨db₁, h₁, hpages'⟩ := Backend.applyAll_append_eq_ok.mp h₂
  have first := sameDecks_applyAll hbefore h₁
  obtain ⟨hpages, hdocuments, hclaims, hevidence⟩ := applyAll_pages hpages'
  have second := sameDecks_applyAll hbetween hbetween'
  obtain ⟨hclaims', hevidence', hdocuments', hpages'⟩ := applyAll_claims h₄
  constructor
  · rw [hdocuments', second.documents, hdocuments, first.documents]
  · rw [hpages', second.documentPages, hpages, first.documentPages]
  · rw [hclaims', second.claims, hclaims, first.claims]
  · rw [hevidence', second.evidence, hevidence, first.evidence]

end Rows

section Gather

open Tx

variable {run : RunEnv} {document : Document} {o : Opportunity} {db : Db} {s : Session Write}
variable {jobId : Uuid}

/-- How a part of the document step may end: nothing is committed, and where it raises,
nothing that is pending would end the job in success. -/
def Drafted {α : Type} (db : Db) (R : α → List Write → Prop) (r : Except Exc α) (db' : Db)
    (s : Session Write) : Prop :=
  db' = db ∧ match r with
    | .ok a => R a s.pending
    | .error _ => s.Holds fun ws => ∀ w ∈ ws, w.Unfinishing

theorem aside_of_flushed (hs : ∀ w ∈ s.pending, w.Aside) {view : Db}
    (hview : backend.applyAll db s.flushed = .ok view) : SameDecks db view :=
  sameDecks_applyAll (fun w hw => hs w (List.mem_append_left _ hw)) hview

theorem wp_addPages {pages : List ParsedPage} {Q : Except Exc Unit → Db → Session Write → Prop}
    (h : Q (.ok ()) db { s with
      dirty := s.dirty ++ pages.map fun p => .insertDocumentPage (pageRow document p) }) :
    WP backend Q (addPages document pages) db s := by
  induction pages generalizing s with
  | nil => exact Tx.wp_pure.mpr (by simpa using h)
  | cons page pages ih =>
      refine Tx.wp_bind.mpr (Tx.wp_stage.mpr (ih ?_))
      simpa [Session.stage, pageRow] using h

theorem wp_documentPages (hs : ∀ w ∈ s.pending, w.Aside) :
    WP backend (Drafted db fun pages ws => pages = deckPages run.analysis document db ∧
      ws = s.pending ++
        (newPages run document db).map fun p => .insertDocumentPage (pageRow document p))
      (documentPages run document) db s := by
  have unfinishing : s.Holds fun ws => ∀ w ∈ ws, w.Unfinishing :=
    Or.inr fun w hw => (hs w hw).unfinishing
  refine Tx.wp_bind.mpr (Tx.wp_query_cases (fun view hview => ?_) fun e => ⟨rfl, unfinishing⟩)
  rw [(aside_of_flushed hs hview).documentPages]
  dsimp only
  rw [Tx.wp_ite]
  have hstored : (storedPages document.id db).isEmpty =
      (db.documentPages.rows.filter fun p => p.documentId = document.id).isEmpty := by
    simp [storedPages, List.isEmpty_map]
  split
  · rename_i hne
    have hne' : (storedPages document.id db).isEmpty = false := by
      rw [hstored]
      simpa using hne
    refine Tx.wp_pure.mpr ⟨rfl, ?_, ?_⟩
    · simp only [deckPages, hne']
      rfl
    · simp [newPages, hne', Session.pending]
  · rename_i hempty
    have hempty' : (storedPages document.id db).isEmpty = true := by
      rw [hstored]
      simpa using hempty
    refine Tx.wp_bind.mpr (Tx.wp_call.mpr (Tx.wp_bind.mpr (wp_addPages (Tx.wp_bind.mpr
      (Tx.wp_flush_cases ?_ fun e => ⟨rfl, Or.inl rfl⟩)))))
    refine Tx.wp_pure.mpr ⟨rfl, ?_, ?_⟩
    · simp [deckPages, hempty']
    · simp [newPages, hempty', Session.pending]

theorem wp_ensureDeckSource (hs : ∀ w ∈ s.pending, w.Unfinishing) :
    WP backend (Drafted db fun _ ws =>
      ∃ between : List Write, (∀ w ∈ between, w.Aside) ∧ ws = s.pending ++ between)
      (ensureDeckSource run) db s := by
  refine Tx.wp_bind.mpr (Tx.wp_query_cases (fun view hview => ?_) fun e => ⟨rfl, Or.inr hs⟩)
  dsimp only
  cases view.sources.rows.find? fun s => s.key = "deck" with
  | some source => exact Tx.wp_pure.mpr ⟨rfl, [], by simp, by simp⟩
  | none =>
      refine Tx.wp_bind.mpr (Tx.wp_stage.mpr (Tx.wp_bind.mpr
        (Tx.wp_flush_cases ?_ fun e => ⟨rfl, Or.inl rfl⟩)))
      let source : Source :=
        { id := run.id .deckSource, key := "deck", displayName := "Founder-submitted deck" }
      refine Tx.wp_pure.mpr ⟨rfl, [.insertSource source], ?_, ?_⟩
      · intro w hw
        obtain rfl := List.mem_singleton.mp hw
        trivial
      · simp [Session.pending, Session.stage, source]

theorem wp_addClaims {items : List ExtractedClaim} {index : Nat} {created : List Claim} :
    WP backend (Drafted db fun _ ws =>
      ws = s.pending ++ claimWrites run document o items index)
      (addClaims run document o items index created) db s := by
  induction items generalizing s index created with
  | nil => exact Tx.wp_pure.mpr ⟨rfl, by simp [claimWrites]⟩
  | cons item items ih =>
      refine Tx.wp_bind.mpr (Tx.wp_call.mpr (Tx.wp_bind.mpr (Tx.wp_stage.mpr (Tx.wp_bind.mpr
        (Tx.wp_flush_cases ?_ fun e => ⟨rfl, Or.inl rfl⟩)))))
      refine Tx.wp_bind.mpr (Tx.wp_stage.mpr (ih.mono ?_))
      rintro (e | claims) db' s' ⟨rfl, hpending⟩
      · exact ⟨rfl, hpending⟩
      · refine ⟨rfl, ?_⟩
        rw [hpending]
        simp [Session.pending, Session.stage, claimWrites, claimRow, evidenceRow]

theorem unfinishing_append {ws vs : List Write} (hws : ∀ w ∈ ws, w.Unfinishing)
    (hvs : ∀ w ∈ vs, w.Unfinishing) : ∀ w ∈ ws ++ vs, w.Unfinishing :=
  fun w hw => (List.mem_append.mp hw).elim (hws w) (hvs w)

/-- What is pending when the claims of the document have been gathered. -/
def Gathers (run : RunEnv) (document : Document) (o : Opportunity) (db : Db)
    (before ws : List Write) : Prop :=
  ∃ between : List Write, (∀ w ∈ between, w.Aside) ∧
    ws = before ++
      (newPages run document db).map (fun p => .insertDocumentPage (pageRow document p)) ++
        between ++ claimWrites run document o (newClaims run document o db) 0

theorem wp_parseAndExtract (hs : ∀ w ∈ s.pending, w.Aside) :
    WP backend (Drafted db fun _ ws => Gathers run document o db s.pending ws)
      (parseAndExtract run document o) db s := by
  refine Tx.wp_bind.mpr ((wp_documentPages hs).mono ?_)
  rintro (e | pages) db' s₁ ⟨rfl, hdraft⟩
  · exact ⟨rfl, hdraft⟩
  obtain ⟨rfl, hpending⟩ := hdraft
  have unfinishing₁ : ∀ w ∈ s₁.pending, w.Unfinishing := by
    rw [hpending]
    refine unfinishing_append (fun w hw => (hs w hw).unfinishing) fun w hw => ?_
    obtain ⟨p, -, rfl⟩ := List.mem_map.mp hw
    trivial
  refine Tx.wp_bind.mpr (Tx.wp_query_cases (fun view hview => ?_) fun e =>
    ⟨rfl, Or.inr unfinishing₁⟩)
  have hclaims : view.claims = db'.claims := by
    refine Backend.applyAll_inv (P := fun view => view.claims = db'.claims)
      (Φ := fun w => w.Aside ∨ ∃ p, w = .insertDocumentPage (pageRow document p)) ?_
      (fun w hw => ?_) rfl hview
    · rintro db₁ w db₂ (hw | ⟨p, rfl⟩) hsame happly
      · exact (sameDecks_apply hw happly).claims.trans hsame
      · obtain ⟨t, -, rfl⟩ := map_eq_ok.mp happly
        exact hsame
    · have hmem : w ∈ s₁.pending := List.mem_append_left _ hw
      rw [hpending] at hmem
      obtain hmem | hmem := List.mem_append.mp hmem
      · exact Or.inl (hs w hmem)
      · obtain ⟨p, -, rfl⟩ := List.mem_map.mp hmem
        exact Or.inr ⟨p, rfl⟩
  have hexisting : opportunityClaims o.id view = opportunityClaims o.id db' := by
    unfold opportunityClaims
    rw [hclaims]
  dsimp only
  rw [hexisting, Tx.wp_ite]
  split
  · rename_i hne
    refine Tx.wp_pure.mpr ⟨rfl, [], by simp, ?_⟩
    have : (opportunityClaims o.id db').isEmpty = false := by simpa using hne
    simp [hpending, newClaims, this, claimWrites]
  · rename_i hempty
    have hempty' : (opportunityClaims o.id db').isEmpty = true := by simpa using hempty
    refine Tx.wp_bind.mpr ((wp_ensureDeckSource unfinishing₁).mono ?_)
    rintro (e | source) db₂ s₂ ⟨rfl, hdraft₂⟩
    · exact ⟨rfl, hdraft₂⟩
    obtain ⟨between, hbetween, hpending₂⟩ := hdraft₂
    refine Tx.wp_bind.mpr (Tx.wp_call.mpr (Tx.wp_bind.mpr (wp_addClaims.mono ?_)))
    rintro (e | created) db₃ s₃ ⟨rfl, hpending₃⟩
    · exact ⟨rfl, hpending₃⟩
    refine Tx.wp_bind.mpr (Tx.wp_flush_cases ?_ fun e => ⟨rfl, Or.inl rfl⟩)
    refine Tx.wp_pure.mpr ⟨rfl, between, hbetween, ?_⟩
    have hflushed :
        Session.pending { s₃ with flushed := s₃.pending, dirty := [] } = s₃.pending := by
      simp [Session.pending]
    rw [hflushed, hpending₃, hpending₂, hpending]
    simp [newClaims, hempty']

/-- The document step of an analysis, with the commit that follows it. -/
theorem wp_gatherClaims {copy : Job} (hdocument : copy.input.documentId = some document.id)
    (hstored : document ∈ db.documents) (hs : s.Holds fun ws => ∀ w ∈ ws, w.Aside)
    (hun : Unfinished jobId db) :
    WP backend (fun r db' s' => Unfinished jobId db' ∧ match r with
      | .ok _ => Gathered run document o db db' ∧ s'.Holds fun ws => ∀ w ∈ ws, w.Aside
      | .error _ => s'.Holds fun ws => ∀ w ∈ ws, w.Unfinishing)
      (gatherClaims run copy o) db s := by
  have unfinishing : s.Holds fun ws => ∀ w ∈ ws, w.Unfinishing :=
    hs.mono fun ws hws w hw => (hws w hw).unfinishing
  by_cases hf : s.failed = true
  · refine Tx.wp_bind.mpr (Tx.wp_query.mpr ?_)
    rw [show s.query backend db none = .error backend.dead by simp [Session.query, hf]]
    exact ⟨hun, unfinishing⟩
  have hs' := hs.resolve_left hf
  refine Tx.wp_bind.mpr (Tx.wp_query_cases (fun view₀ _ => ?_) fun e => ⟨hun, unfinishing⟩)
  dsimp only
  rw [hdocument]
  refine Tx.wp_bind.mpr (Tx.wp_query_cases (fun view hview => ?_) fun e => ⟨hun, unfinishing⟩)
  have hfind : view.documents.find? document.id = some document := by
    rw [(aside_of_flushed hs' hview).documents]
    exact Table.find?_of_mem hstored
  dsimp only
  rw [hfind]
  refine Tx.wp_bind.mpr ((wp_parseAndExtract hs').mono ?_)
  rintro (e | claims) db' s₁ ⟨rfl, hdraft⟩
  · exact ⟨hun, hdraft⟩
  obtain ⟨between, hbetween, hpending⟩ := hdraft
  have unfinishing₁ : ∀ w ∈ s₁.pending, w.Unfinishing := by
    rw [hpending]
    refine unfinishing_append (unfinishing_append (unfinishing_append
      (fun w hw => (hs' w hw).unfinishing) fun w hw => ?_)
      fun w hw => (hbetween w hw).unfinishing) fun w hw => ?_
    · obtain ⟨p, -, rfl⟩ := List.mem_map.mp hw
      trivial
    · obtain ⟨item, -, hw⟩ := List.mem_flatMap.mp hw
      simp only [List.mem_cons, List.not_mem_nil, or_false] at hw
      obtain rfl | rfl := hw
      · trivial
      · trivial
  refine Tx.wp_bind.mpr (Tx.wp_commit_cases (fun db₂ happly => ?_) fun e => ⟨hun, Or.inl rfl⟩)
  have hun₂ : Unfinished jobId db₂ :=
    Backend.applyAll_inv (P := Unfinished jobId) (Φ := Write.Unfinishing)
      (fun _ _ _ hw h ha => h.apply hw ha) unfinishing₁ hun happly
  rw [hpending] at happly
  exact Tx.wp_pure.mpr ⟨hun₂, gathered_applyAll hs' hbetween happly,
    Or.inr fun w hw => absurd hw List.not_mem_nil⟩

end Gather

section Run

open Tx

variable {run : RunEnv} {document : Document} {o : Opportunity} {base db : Db}
variable {s : Session Write} {jobId : Uuid}

/-- How the body of a run may end. -/
def Ends {α : Type} (run : RunEnv) (document : Document) (o : Opportunity) (base : Db)
    (jobId : Uuid) (r : Except Exc α) (db' : Db) (s : Session Write) : Prop :=
  match r with
  | .ok _ => Gathered run document o base db'
  | .error _ => Unfinished jobId db' ∧ s.Holds fun ws => ∀ w ∈ ws, w.Unfinishing

theorem unfinishing_of_aside (h : s.Holds fun ws => ∀ w ∈ ws, w.Aside) :
    s.Holds fun ws => ∀ w ∈ ws, w.Unfinishing :=
  h.mono fun _ hws w hw => (hws w hw).unfinishing

/-- A part of a run that leaves the decks alone. -/
theorem wp_aside {α β : Type} {P : α → Prop} {p : DolphinVC.Tx α} {f : α → DolphinVC.Tx β}
    {base' : Db} (h : EmitsTo Write.Aside P p) (hP : Pending base' jobId db)
    (hs : s.Holds fun ws => ∀ w ∈ ws, w.Aside)
    (hok : ∀ a db' s', P a → Pending base' jobId db' → (s'.Holds fun ws => ∀ w ∈ ws, w.Aside) →
      WP backend (Ends run document o base jobId) (f a) db' s') :
    WP backend (Ends run document o base jobId) (p >>= f) db s :=
  h.wp_bind (fun _ _ _ hw hI happly => hI.apply hw happly) hs hP
    (fun _ _ _ hI hs' => ⟨hI.2, unfinishing_of_aside hs'⟩) hok

/-- The last commit ends the job in success and touches no deck. -/
theorem wp_finishAnalysis {copy : Job} {result : JobResult} {db₁ db₂ : Db}
    (hbefore : SameDecks base db₁)
    (hgathered : Gathered run document o db₁ db₂) (hP : Pending db₂ jobId db)
    (hs : s.Holds fun ws => ∀ w ∈ ws, w.Aside) :
    WP backend (Ends run document o base jobId) (finishAnalysis run copy result) db s := by
  refine Tx.wp_bind.mpr (Tx.wp_stage.mpr (Tx.wp_bind.mpr (Tx.wp_stage.mpr ?_)))
  cases hf : s.failed with
  | true =>
      rw [Tx.wp_commit]
      have hsend (w w' : Write) :
          ((s.stage w).stage w').send backend db none = .error backend.dead := by
        simp [Session.send, hf]
      simp only [Session.commit, hsend]
      exact ⟨hP.2, Or.inl rfl⟩
  | false =>
      refine Tx.wp_commit_cases (fun db' happly => ?_) fun e => ⟨hP.2, Or.inl rfl⟩
      refine hgathered.between hbefore (hP.1.trans ?_)
      refine Backend.applyAll_inv (P := fun db' => SameDecks db db')
        (Φ := fun w => w.Aside ∨ ∃ id set, w = .updateJob id set) ?_ ?_ (.refl db) happly
      · rintro db₃ w db₄ (hw | ⟨id, set, rfl⟩) hsame happly
        · exact hsame.trans (sameDecks_apply hw happly)
        · cases happly
          exact hsame.trans ⟨rfl, rfl, rfl, rfl⟩
      · intro w hw
        simp only [Session.pending_stage, List.mem_append, List.mem_singleton] at hw
        obtain (hw | rfl) | rfl := hw
        · exact Or.inl (hs.resolve_left (by simp [hf]) w hw)
        · exact Or.inr ⟨_, _, rfl⟩
        · exact Or.inl trivial

theorem wp_analyse {copy : Job} {company : Company} {application? : Option Application}
    (hdocument : copy.input.documentId = some document.id) (hstored : document ∈ base.documents)
    (hP : Pending base jobId db) (hs : s.Holds fun ws => ∀ w ∈ ws, w.Aside) :
    WP backend (Ends run document o base jobId) (analyse run copy o company application?) db s := by
  refine wp_aside recordStep_aside hP hs fun copy₁ db₁ s₁ hinput hP₁ hs₁ => ?_
  refine wp_aside ensurePrescreen_aside.to hP₁ hs₁ fun _ db₂ s₂ _ hP₂ hs₂ => ?_
  have hstored₂ : document ∈ db₂.documents := hP₂.1.documents ▸ hstored
  refine Tx.wp_bind.mpr ((wp_gatherClaims (hinput ▸ hdocument) hstored₂ hs₂ hP₂.2).mono ?_)
  rintro (e | claims) db₃ s₃ ⟨hun, hgathered⟩
  · exact ⟨hun, hgathered⟩
  obtain ⟨hgathered, hs₃⟩ := hgathered
  have hP₃ : Pending db₃ jobId db₃ := ⟨.refl db₃, hun⟩
  refine wp_aside recordStep_aside hP₃ hs₃ fun copy₄ db₄ s₄ _ hP₄ hs₄ => ?_
  refine wp_aside scoreAxes_aside.to hP₄ hs₄ fun axes db₅ s₅ _ hP₅ hs₅ => ?_
  refine wp_aside Emits.commit.to hP₅ hs₅ fun _ db₆ s₆ _ hP₆ hs₆ => ?_
  refine wp_aside recordStep_aside hP₆ hs₆ fun copy₇ db₇ s₇ _ hP₇ hs₇ => ?_
  refine wp_aside thesisFit_aside.to hP₇ hs₇ ?_
  rintro ⟨fit, gateReason⟩ db₈ s₈ - hP₈ hs₈
  refine wp_aside (Emits.stage (by trivial)).to hP₈ hs₈ fun _ db₉ s₉ _ hP₉ hs₉ => ?_
  refine wp_aside (Emits.call _).to hP₉ hs₉ fun _ db₁₀ s₁₀ _ hP₁₀ hs₁₀ => ?_
  refine wp_aside recordStep_aside hP₁₀ hs₁₀ fun copy₁₁ db₁₁ s₁₁ _ hP₁₁ hs₁₁ => ?_
  refine wp_aside writeMemo_aside.to hP₁₁ hs₁₁ fun _ db₁₂ s₁₂ _ hP₁₂ hs₁₂ => ?_
  refine wp_aside recordStep_aside hP₁₂ hs₁₂ fun copy₁₃ db₁₃ s₁₃ _ hP₁₃ hs₁₃ => ?_
  exact wp_finishAnalysis hP₂.1 hgathered hP₁₃ hs₁₃

/-- The body of a run on a deck, whichever copy of its opportunity it works on. -/
theorem wp_processAnalysis {job : Job} {opportunityId : Uuid}
    (htarget : job.opportunityId = some opportunityId)
    (hdocument : job.input.documentId = some document.id) (hstored : document ∈ base.documents)
    (hP : Pending base jobId db) (hs : s.Holds fun ws => ∀ w ∈ ws, w.Aside) :
    WP backend (fun r db' s' => ∃ o : Opportunity, o.id = opportunityId ∧
      Ends run document o base jobId r db' s') (processAnalysis run job) db s := by
  refine loadTarget_returns.wp_bind (Φ := Write.Aside)
    (fun _ _ _ hw hI happly => Pending.apply hw hI happly) hs hP ?_ ?_
  · intro e db' s' hI hs'
    exact ⟨{ id := opportunityId, orgId := 0, companyId := 0, origin := .manual, title := none
             firstSignalAt := 0, slaDeadlineAt := 0 }, rfl, hI.2, unfinishing_of_aside hs'⟩
  · rintro ⟨o, company⟩ db₁ s₁ ho hP₁ hs₁
    have hid : o.id = opportunityId := Option.some.inj (ho.symm.trans htarget)
    refine WP.mono (Q := Ends run document { o with stage := .screening } base jobId) ?_
      fun r db' s' hends => ⟨{ o with stage := .screening }, hid, hends⟩
    refine wp_aside (Emits.stage (by trivial)).to hP₁ hs₁ fun _ db₂ s₂ _ hP₂ hs₂ => ?_
    refine wp_aside beginApplication_aside.to hP₂ hs₂ fun application? db₃ s₃ _ hP₃ hs₃ => ?_
    refine wp_aside Emits.commit.to hP₃ hs₃ fun _ db₄ s₄ _ hP₄ hs₄ => ?_
    exact wp_analyse hdocument hstored hP₄ hs₄

/-- What a successful screening does to the decks and the claims is what its document step does. -/
theorem deckStep_gathered {env : Env} {analysis : Analysis} {opportunityId : Uuid} {r : DeckRun}
    (h : ScreensDeck env analysis opportunityId db r) :
    ∃ o : Opportunity, o.id = opportunityId ∧
      Gathered r.run r.document o db (deckStep db r) := by
  obtain ⟨job, hjob, hid, hqueued, hkind, htarget, hdocument⟩ := h.queued
  have hun : Unfinished r.jobId db := ⟨job, hjob, hid, by simp [hqueued]⟩
  suffices hwp : WP backend (fun _ db' _ => Finished r.jobId db' →
      ∃ o : Opportunity, o.id = opportunityId ∧ Gathered r.run r.document o db db')
      (processJob r.run r.jobId) db {} from hwp h.succeeds
  have idle (db' : Db) (hun' : Unfinished r.jobId db') : Finished r.jobId db' →
      ∃ o : Opportunity, o.id = opportunityId ∧ Gathered r.run r.document o db db' :=
    fun hfinished => absurd hfinished hun'.not_finished
  refine Tx.wp_bind.mpr (Tx.wp_query_cases (fun view hview => ?_) fun e => idle db hun)
  cases hview
  rw [← hid, Table.find?_of_mem hjob]
  dsimp only
  rw [if_neg (by simp [hqueued]), hid]
  refine Tx.wp_bind.mpr (Tx.wp_stage.mpr (Tx.wp_bind.mpr
    (Tx.wp_commit_cases (fun db₁ happly => ?_) fun e => idle db hun)))
  have hstart : Write.Aside (.updateJob job.id (job.changes (job.started (r.run.now .start)))) := by
    intro hs
    cases (changed_eq_some.mp hs).2
  have hP : Pending db r.jobId db₁ :=
    Pending.apply hstart ⟨.refl db, hun⟩ (Backend.applyAll_singleton.symm.trans happly)
  refine Tx.wp_tryCatch.mpr ?_
  have hbody : (job.started (r.run.now .start)).kind ≠ "ingest.harvest" := by
    intro (hharvest : job.kind = "ingest.harvest")
    simp [hharvest] at hkind
  unfold runBody
  rw [Tx.wp_ite, if_neg hbody]
  refine WP.mono (wp_processAnalysis htarget hdocument h.stored hP
    (Or.inr fun _ hw => absurd hw List.not_mem_nil)) ?_
  rintro (e | u) db' s' ⟨o, ho, hends⟩
  · refine (failJob_unfinishing.to.wp (I := Unfinished r.jobId)
      (fun _ _ _ hw hI happly => hI.apply hw happly) hends.2 hends.1).mono ?_
    rintro r' db'' s'' ⟨-, hun', -⟩
    exact idle db'' hun'
  · exact fun _ => ⟨o, ho, hends⟩

end Run

section Settled

variable {run : RunEnv} {document : Document} {o : Opportunity} {db db' : Db}
variable {opportunityId : Uuid}

theorem filter_key_eq_singleton {α β : Type} [DecidableEq β] {key : α → β} {l : List α} {a : α}
    (hnodup : (l.map key).Nodup) (ha : a ∈ l) : l.filter (fun b => key b = key a) = [a] := by
  induction l with
  | nil => cases ha
  | cons b l ih =>
      obtain ⟨hfresh, hrest⟩ := List.nodup_cons.mp hnodup
      obtain rfl | ha := List.mem_cons.mp ha
      · have hnone : l.filter (fun b => key b = key a) = [] := by
          rw [List.filter_eq_nil_iff]
          intro c hc
          have hne : key c ≠ key a := fun h => hfresh (List.mem_map.mpr ⟨c, hc, h⟩)
          simpa using hne
        simp [hnone]
      · have hne : key b ≠ key a := fun h => hfresh (h ▸ List.mem_map_of_mem ha)
        rw [List.filter_cons_of_neg (by simpa using hne)]
        exact ih hrest ha

theorem Gathered.storedPages_append (h : Gathered run document o db db') (documentId : Uuid) :
    storedPages documentId db' = storedPages documentId db ++
      ((newPages run document db).filter fun _ => document.id = documentId) := by
  simp only [storedPages, h.documentPages, List.filter_append, List.map_append,
    List.filter_map, List.map_map]
  congr 1
  exact List.map_id _

/-- The pages of other documents stay, and those of this one are what the parse gave. -/
theorem Gathered.deckPages (h : Gathered run document o db db')
    (hdocument : document ∈ db.documents) {D : Document} (hD : D ∈ db.documents) :
    deckPages run.analysis D db' = deckPages run.analysis D db := by
  have hpages := h.storedPages_append D.id
  by_cases hid : document.id = D.id
  · obtain rfl := Table.eq_of_key hdocument hD hid
    unfold DolphinVC.deckPages
    rw [hpages]
    unfold newPages
    cases hempty : (storedPages document.id db).isEmpty with
    | false => simp [List.isEmpty_eq_false_iff.mp hempty]
    | true =>
        rw [List.isEmpty_iff.mp hempty]
        cases hparse : run.analysis.parseDeck document with
        | nil => simp
        | cons page pages => simp
  · unfold DolphinVC.deckPages
    rw [hpages]
    simp [hid]

theorem Gathered.evidenceCites (h : Gathered run document o db db') (hcites : EvidenceCites db) :
    EvidenceCites db' := by
  intro e he
  have hrow : e ∈ db'.evidence.rows := he
  rw [h.evidence, List.mem_append] at hrow
  obtain hold | hnew := hrow
  · obtain ⟨c, hc, hid⟩ := hcites e hold
    refine ⟨c, ?_, hid⟩
    have : c ∈ db'.claims.rows := by
      rw [h.claims]
      exact List.mem_append_left _ hc
    exact this
  · obtain ⟨item, hitem, rfl⟩ := List.mem_map.mp hnew
    refine ⟨claimRow run document o item.1 item.2, ?_, rfl⟩
    have : claimRow run document o item.1 item.2 ∈ db'.claims.rows := by
      rw [h.claims]
      exact List.mem_append_right _ (List.mem_map_of_mem hitem)
    exact this

theorem Gathered.opportunityClaims (h : Gathered run document o db db') :
    opportunityClaims o.id db' =
      opportunityClaims o.id db ++ claimRows run document o (newClaims run document o db) 0 := by
  unfold DolphinVC.opportunityClaims
  rw [h.claims, List.filter_append]
  congr 1
  rw [List.filter_eq_self]
  intro c hc
  obtain ⟨item, -, rfl⟩ := List.mem_map.mp hc
  simp [claimRow]

/-- A later analysis adds nothing. -/
theorem Gathered.citedClaims_of_claims (h : Gathered run document o db db')
    (hclaims : DolphinVC.opportunityClaims o.id db ≠ []) :
    citedClaims o.id db' = citedClaims o.id db := by
  have hnew : newClaims run document o db = [] := by
    simp [newClaims, List.isEmpty_iff, hclaims]
  unfold citedClaims
  rw [h.opportunityClaims, h.evidence, hnew]
  simp [claimRows, evidenceRows]

/-- A claim that an analysis adds has the one evidence added with it. -/
theorem Gathered.evidence_of_claim (h : Gathered run document o db db') (hcites : EvidenceCites db)
    {item : ExtractedClaim × Nat} (hitem : item ∈ (newClaims run document o db).zipIdx 0) :
    (db'.evidence.rows.filter fun e => e.claimId = (claimRow run document o item.1 item.2).id) =
      [evidenceRow run document item.1 item.2] := by
  have hkeys := db'.claims.nodup
  rw [h.claims, List.map_append] at hkeys
  have hnodup : (((newClaims run document o db).zipIdx 0).map fun item =>
      run.id (.claim item.2)).Nodup := by
    simpa [claimRows, claimRow, Function.comp_def] using hkeys.of_append_right
  have hold : (db.evidence.rows.filter fun e =>
      e.claimId = (claimRow run document o item.1 item.2).id) = [] := by
    rw [List.filter_eq_nil_iff]
    intro e he
    obtain ⟨c, hc, hid⟩ := hcites e he
    have hne : e.claimId ≠ (claimRow run document o item.1 item.2).id := by
      intro heq
      exact (List.nodup_append.mp hkeys).2.2 c.id (List.mem_map_of_mem hc)
        (claimRow run document o item.1 item.2).id
        (List.mem_map_of_mem (List.mem_map_of_mem hitem)) (hid.trans heq)
    simpa using hne
  rw [h.evidence, List.filter_append, hold, List.nil_append]
  have hone := filter_key_eq_singleton hnodup hitem
  simp only [evidenceRows, List.filter_map]
  exact congrArg (List.map fun item => evidenceRow run document item.1 item.2) hone

/-- The first analysis adds what its deck yields. -/
theorem Gathered.citedClaims_of_empty (h : Gathered run document o db db')
    (hcites : EvidenceCites db) (hclaims : DolphinVC.opportunityClaims o.id db = []) :
    citedClaims o.id db' = deckClaims run.env run.analysis db document := by
  have hnew : newClaims run document o db =
      extractedClaims run.env run.analysis (DolphinVC.deckPages run.analysis document db) := by
    simp [newClaims, hclaims]
  let items := (newClaims run document o db).zipIdx 0
  have hrows : citedClaims o.id db' =
      items.flatMap fun item => [item.1.cited run.analysis document] := by
    unfold citedClaims
    rw [h.opportunityClaims, hclaims, List.nil_append]
    simp only [claimRows, List.flatMap_map]
    refine List.flatMap_congr fun item hitem => ?_
    rw [h.evidence_of_claim hcites hitem]
    rfl
  calc citedClaims o.id db'
      = items.map fun item => item.1.cited run.analysis document := by
        rw [hrows, List.map_eq_flatMap]
    _ = (items.map Prod.fst).map (·.cited run.analysis document) := by
        rw [List.map_map]
        rfl
    _ = deckClaims run.env run.analysis db document := by
        rw [List.zipIdx_map_fst, hnew]
        rfl

end Settled

section Contributions

variable {contribution : Document → List CitedClaim} {documents : List Document} {D₀ : Document}

/-- What the first of the documents that yields claims contributes. -/
def firstContribution (contribution : Document → List CitedClaim) :
    List Document → List CitedClaim
  | [] => []
  | D :: rest =>
      if (contribution D).isEmpty then firstContribution contribution rest else contribution D

theorem firstContribution_cases :
    (firstContribution contribution documents = [] ∧ ∀ D ∈ documents, contribution D = []) ∨
      ∃ D₀ ∈ documents, contribution D₀ ≠ [] ∧
        firstContribution contribution documents = contribution D₀ := by
  induction documents with
  | nil => exact Or.inl ⟨rfl, by simp⟩
  | cons D rest ih =>
      unfold firstContribution
      by_cases hempty : contribution D = []
      · rw [if_pos (List.isEmpty_iff.mpr hempty)]
        obtain ⟨hfirst, hall⟩ | ⟨D₀, hD₀, hne, hfirst⟩ := ih
        · exact Or.inl ⟨hfirst, List.forall_mem_cons.mpr ⟨hempty, hall⟩⟩
        · exact Or.inr ⟨D₀, List.mem_cons_of_mem D hD₀, hne, hfirst⟩
      · rw [if_neg (by simpa [List.isEmpty_iff] using hempty)]
        exact Or.inr ⟨D, List.mem_cons_self, hempty, rfl⟩

theorem eachDeckOnce_iff (hD₀ : D₀ ∈ documents) :
    EachDeckOnce contribution documents (contribution D₀) ↔
      ∀ D ∈ documents, D ≠ D₀ → contribution D = [] := by
  have split : (documents.dedup.flatMap contribution).Perm
      (contribution D₀ ++ (documents.dedup.erase D₀).flatMap contribution) :=
    (List.perm_cons_erase (List.mem_dedup.mpr hD₀)).flatMap_right contribution
  constructor
  · intro hperm D hD hne
    have hlength := (hperm.trans split).length_eq
    have hothers : (documents.dedup.erase D₀).flatMap contribution = [] := by
      rw [List.length_append] at hlength
      exact List.length_eq_zero_iff.mp (by omega)
    exact List.flatMap_eq_nil_iff.mp hothers D
      ((List.mem_erase_of_ne hne).mpr (List.mem_dedup.mpr hD))
  · intro hothers
    have hnil : (documents.dedup.erase D₀).flatMap contribution = [] := by
      rw [List.flatMap_eq_nil_iff]
      intro D hD
      obtain ⟨hne, hmem⟩ := (List.nodup_dedup documents).mem_erase_iff.mp hD
      exact hothers D (List.mem_dedup.mp hmem) hne
    rw [hnil, List.append_nil] at split
    exact split.symm

/-- The first contribution is each deck's contribution just when no two decks yield any. -/
theorem eachDeckOnce_first_iff :
    EachDeckOnce contribution documents (firstContribution contribution documents) ↔
      OneYields contribution documents := by
  rcases @firstContribution_cases contribution documents with
    ⟨hfirst, hall⟩ | ⟨D₀, hD₀, hne, hfirst⟩
  · have hnil : documents.dedup.flatMap contribution = [] :=
      List.flatMap_eq_nil_iff.mpr fun D hD => hall D (List.mem_dedup.mp hD)
    rw [hfirst, EachDeckOnce, hnil]
    exact iff_of_true .nil fun D hD _ _ hyields => absurd (hall D hD) hyields
  · rw [hfirst, eachDeckOnce_iff hD₀]
    constructor
    · intro hothers
      have eq_first (D : Document) (hD : D ∈ documents) (hyields : contribution D ≠ []) :
          D = D₀ := by
        by_contra hother
        exact hyields (hothers D hD hother)
      intro D hD D' hD' hyields hyields'
      exact (eq_first D hD hyields).trans (eq_first D' hD' hyields').symm
    · intro hone D hD hother
      by_contra hyields
      exact hother (hone D hD D₀ hD₀ hyields hne)

end Contributions

section Sequence

variable {env : Env} {analysis : Analysis} {opportunityId : Uuid} {db : Db} {runs : List DeckRun}

/-- Once the opportunity has claims, no screening changes them. -/
theorem citedClaims_keep
    (run : Meets deckStep (ScreensDeck env analysis opportunityId) db runs)
    (hclaims : opportunityClaims opportunityId db ≠ []) :
    citedClaims opportunityId (runs.foldl deckStep db) = citedClaims opportunityId db := by
  induction runs generalizing db with
  | nil => rfl
  | cons r runs ih =>
      obtain ⟨o, rfl, hgathered⟩ := deckStep_gathered run.1
      have hclaims' : opportunityClaims o.id (deckStep db r) ≠ [] := by
        rw [hgathered.opportunityClaims]
        simp [hclaims]
      rw [List.foldl_cons, ih run.2 hclaims', hgathered.citedClaims_of_claims hclaims]

/-- The claims after a sequence of screenings are those of the first deck that yields any.
The induction carries that the contribution of every stored document is what it was. -/
theorem citedClaims_run {contribution : Document → List CitedClaim}
    (same : ∀ D ∈ db.documents, contribution D = deckClaims env analysis db D)
    (cites : EvidenceCites db) (empty : opportunityClaims opportunityId db = [])
    (run : Meets deckStep (ScreensDeck env analysis opportunityId) db runs) :
    citedClaims opportunityId (runs.foldl deckStep db) =
      firstContribution contribution (runs.map DeckRun.document) := by
  induction runs generalizing db with
  | nil => simp [citedClaims, empty, firstContribution]
  | cons r runs ih =>
      obtain ⟨hscreens, hrest⟩ := run
      obtain ⟨o, rfl, hgathered⟩ := deckStep_gathered hscreens
      have hr := same r.document hscreens.stored
      have hfirst : citedClaims o.id (deckStep db r) = contribution r.document := by
        rw [hgathered.citedClaims_of_empty cites empty, hscreens.env_eq, hscreens.analysis_eq, hr]
      have hnew : newClaims r.run r.document o db =
          extractedClaims env analysis (deckPages analysis r.document db) := by
        simp [newClaims, empty, hscreens.env_eq, hscreens.analysis_eq]
      have hclaims := hgathered.opportunityClaims
      rw [empty, List.nil_append, hnew] at hclaims
      rw [List.foldl_cons, List.map_cons, firstContribution]
      by_cases hempty : contribution r.document = []
      · rw [if_pos (List.isEmpty_iff.mpr hempty)]
        refine ih (fun D hD => ?_) (hgathered.evidenceCites cites) ?_ hrest
        · rw [hgathered.documents] at hD
          have hpages := hgathered.deckPages hscreens.stored hD
          rw [hscreens.analysis_eq] at hpages
          rw [same D hD, deckClaims, deckClaims, hpages]
        · rw [hr, deckClaims, List.map_eq_nil_iff] at hempty
          rw [hclaims, hempty]
          rfl
      · rw [if_neg (by simpa [List.isEmpty_iff] using hempty), ← hfirst]
        refine citedClaims_keep hrest fun hnone => hempty ?_
        rw [← hfirst, citedClaims, hnone, List.flatMap_nil]

/-- Every deck that is screened contributes its claims once if and only if no two distinct
decks of the sequence yield claims. -/
theorem each_deck_once_iff (env : Env) (analysis : Analysis) (opportunityId : Uuid) (db : Db)
    (runs : List DeckRun) (cites : EvidenceCites db)
    (empty : opportunityClaims opportunityId db = [])
    (run : Meets deckStep (ScreensDeck env analysis opportunityId) db runs) :
    EachDeckOnce (deckClaims env analysis db) (runs.map DeckRun.document)
        (citedClaims opportunityId (runs.foldl deckStep db)) ↔
      OneYields (deckClaims env analysis db) (runs.map DeckRun.document) := by
  rw [citedClaims_run (fun D _ => rfl) cites empty run]
  exact eachDeckOnce_first_iff

end Sequence

section MarinaFund

instance (jobId : Uuid) (db : Db) : Decidable (Finished jobId db) :=
  inferInstanceAs (Decidable (∃ j ∈ db.jobs, j.id = jobId ∧ j.status = .succeeded))

def deck (id : Uuid) (sha256 : String) : Document where
  id
  orgId := some 1
  companyId := some 2
  kind := "deck"
  filename := none
  mime := none
  sizeBytes := none
  sha256
  s3Key := sha256
  uploadedBy := none

/-- A screening of the one opportunity on a deck. -/
def deckJob (id documentId : Uuid) : Job where
  id
  orgId := some 1
  kind := "screen"
  targetId := some 3
  input := { documentId := some documentId }
  createdAt := 0

/-- A company that applied with two decks, whose screenings are queued. -/
def marinaDb : Db where
  orgs := ⟨[{ id := 1, name := "Marina Fund", slug := "marina-fund" }], by decide⟩
  companies := ⟨[{ id := 2, name := "Tern", normalizedName := "tern" }], by decide⟩
  opportunities := ⟨[
    { id := 3, orgId := 1, companyId := 2, origin := .inbound, title := some "Tern"
      firstSignalAt := 0, slaDeadlineAt := 0 }], by decide⟩
  documents := ⟨[deck 4 "seed deck", deck 5 "series A deck"], by decide⟩
  jobs := ⟨[deckJob 6 4, deckJob 7 5], by decide⟩

/-- One page whose text is the deck's content. -/
def onePage : Analysis where
  parseDeck document := [{ pageNo := 1, text := "Tern " ++ document.s3Key }]
  extractClaims _ := []
  scoreAxis _ _ _ _ := ⟨0, 0, ""⟩
  thesisFit _ _ := .ok (0, none)
  recommend _ _ _ _ := ⟨.needsHuman, ""⟩

def marinaIds (jobId : Uuid) : Draw → Uuid
  | .claim index => 1000 * jobId + index
  | .evidence index => 1000 * jobId + 100 + index
  | .score .founder => 1000 * jobId + 200
  | .score .market => 1000 * jobId + 201
  | .score .ideaVsMarket => 1000 * jobId + 202
  | .memo => 1000 * jobId + 300
  | _ => 1000 * jobId + 400

def marinaRun (jobId : Uuid) (document : Document) : DeckRun where
  run :=
    { env := plainEnv, analysis := onePage, now := fun _ => 0, id := marinaIds jobId
      enabled := fun _ => true, harvested := fun _ => [] }
  jobId
  document

theorem marina_screens {db : Db} {jobId : Uuid} {document : Document}
    (queued : ∃ job ∈ db.jobs, job.id = jobId ∧ job.status = .queued ∧
      job.kind ∈ ["application.process", "screen"] ∧ job.opportunityId = some 3 ∧
      job.input.documentId = some document.id)
    (stored : document ∈ db.documents)
    (succeeds : Finished jobId (deckStep db (marinaRun jobId document))) :
    ScreensDeck plainEnv onePage 3 db (marinaRun jobId document) :=
  ⟨rfl, rfl, queued, stored, succeeds⟩

/-- The claims of the second deck are dropped. -/
theorem second_deck_is_dropped :
    Meets deckStep (ScreensDeck plainEnv onePage 3) marinaDb
        [marinaRun 6 (deck 4 "seed deck"), marinaRun 7 (deck 5 "series A deck")] ∧
      ¬ EachDeckOnce (deckClaims plainEnv onePage marinaDb)
        [deck 4 "seed deck", deck 5 "series A deck"]
        (citedClaims 3 ([marinaRun 6 (deck 4 "seed deck"),
          marinaRun 7 (deck 5 "series A deck")].foldl deckStep marinaDb)) := by
  have first : ScreensDeck plainEnv onePage 3 marinaDb (marinaRun 6 (deck 4 "seed deck")) :=
    marina_screens (by decide +kernel) (by decide +kernel) (by decide +kernel)
  have second : ScreensDeck plainEnv onePage 3
      (deckStep marinaDb (marinaRun 6 (deck 4 "seed deck")))
      (marinaRun 7 (deck 5 "series A deck")) :=
    marina_screens (by decide +kernel) (by decide +kernel) (by decide +kernel)
  refine ⟨⟨first, second, trivial⟩, fun hperm => ?_⟩
  have hlength := hperm.length_eq
  revert hlength
  decide +kernel

/-- A single deck contributes its claims. -/
theorem one_deck_contributes :
    EachDeckOnce (deckClaims plainEnv onePage marinaDb) [deck 4 "seed deck"]
      (citedClaims 3 ([marinaRun 6 (deck 4 "seed deck")].foldl deckStep marinaDb)) := by
  have screens : ScreensDeck plainEnv onePage 3 marinaDb (marinaRun 6 (deck 4 "seed deck")) :=
    marina_screens (by decide +kernel) (by decide +kernel) (by decide +kernel)
  refine (each_deck_once_iff plainEnv onePage 3 marinaDb [marinaRun 6 (deck 4 "seed deck")]
    (fun e he => absurd he (Table.not_mem_empty e)) rfl ⟨screens, trivial⟩).mpr ?_
  intro D hD D' hD' _ _
  exact (List.mem_singleton.mp hD).trans (List.mem_singleton.mp hD').symm

end MarinaFund

end DolphinVC
