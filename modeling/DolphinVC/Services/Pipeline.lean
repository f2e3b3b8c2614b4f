import DolphinVC.Services.Ingestion
import DolphinVC.Services.Jobs

/-!
# The pipeline

`process_job` loads its job once and keeps that copy: the guard looks at the copy,
and every later UPDATE carries the columns in which the copy changed. The two bodies,
harvesting and analysis, run inside one `try` whose handler marks the job FAILED on
the same session.

A run takes from its environment the clock, the `uuid4` draws, the connectors and the
pure functions that parse, extract and score (`Analysis`). `Tx.call (.evaluate …)`
stands where such a function may raise.
-/

namespace DolphinVC

open Transaction

structure ParsedPage where
  pageNo : Nat
  text : String
  ocrUsed : Bool := false

structure ExtractedClaim where
  category : ClaimCategory := .other
  predicate : String := ""
  text : String
  valueNum : Option Rat := none
  valueUnit : Option String := none
  locator : Locator
  extractionConfidence : Rat := 0
  unverifiable : Bool := false

structure TrustResult where
  score : Rat := 3 / 10
  status : ClaimStatus := .claimed
  inputs : TrustInputs := {}

structure AxisScore where
  score : Rat
  confidence : Rat
  rationale : String

structure Recommendation where
  decision : DecisionKind
  rationale : String

structure Analysis where
  parseDeck : Document → List ParsedPage
  extractClaims : List ParsedPage → List ExtractedClaim
  /-- The trust in what a deck says; the deck's source is self-reported. -/
  computeTrust : Document → ExtractedClaim → TrustResult := fun _ _ => {}
  scoreAxis : Db → Opportunity → List Claim → AxisKind → AxisScore
  thesisFit : Option Thesis → Company → Except Exc (Rat × Option String)
  recommend : List OpportunityScore → Rat → Option String → List Claim → Recommendation
  composeMemo : List Claim → Recommendation → List MemoSection := fun _ _ => []

/-- The places where a run reads the clock. -/
inductive Tick where
  | start
  | step (seq : Nat)
  | candidate (seq item : Nat)
  | source (seq : Nat)
  | memo
  | finish
  | failure

/-- The rows a run draws an id for. -/
inductive Draw where
  | source (seq : Nat)
  | signal (seq item : Nat)
  | channel (seq : Nat)
  | company (seq item : Nat)
  | person (seq item : Nat)
  | chunk (seq item : Nat)
  | edge (seq item : Nat)
  | opportunity (seq item : Nat)
  | child (seq item : Nat)
  | deckSource
  | claim (index : Nat)
  | evidence (index : Nat)
  | score (axis : AxisKind)
  | memo

structure RunEnv where
  env : Env
  analysis : Analysis
  now : Tick → Timestamp
  id : Draw → Uuid
  enabled : String → Bool
  harvested : String → List NormalizedSignal

section Harvest

variable (run : RunEnv) (job : Job)

def connectorTypes : List String := ["github", "hackernews", "arxiv", "tavily"]

/-- What a loop over the value goes through: of a string its characters. -/
def Channels.items : Channels → List String
  | .text s => s.toList.map String.singleton
  | .names keys => keys

def harvestKeys : List String :=
  if run.env.settings.demoMode then []
  else if job.input.channels = .text "auto" then connectorTypes
  else job.input.channels.items.filter (· ∈ connectorTypes)

/-- `child_job_ids` and `failures`. -/
structure Harvest where
  children : List Uuid := []
  failures : List (String × String) := []

def Harvest.start : Harvest where
  failures :=
    if run.env.settings.demoMode then
      [("all", "network harvesting disabled in DEMO_MODE")]
    else []

def newSource (key : String) (seq : Nat) : Source where
  id := run.id (.source seq)
  key
  displayName := key.capitalize

def screeningJob (seq item : Nat) (signalId opportunityId : Uuid) : Job where
  id := run.id (.child seq item)
  orgId := job.orgId
  kind := "screen"
  targetType := some "opportunity"
  targetId := some opportunityId
  idempotencyKey := some ("outbound-signal:" ++ toString signalId)
  input := { opportunityId := some opportunityId, signalId := some signalId }
  createdAt := run.now (.candidate seq item)

def candidateIds (seq index : Nat) : CandidateIds where
  signal := run.id (.signal seq index)
  company := run.id (.company seq index)
  person := run.id (.person seq index)
  chunk := run.id (.chunk seq index)
  edge := run.id (.edge seq index)
  opportunity := run.id (.opportunity seq index)
  job := run.id (.child seq index)

def newSignal (source : Source) (id : Uuid) (item : NormalizedSignal) : Signal where
  id
  orgId := job.orgId
  sourceId := source.id
  kind := item.kind
  externalId := item.externalId
  url := item.url
  title := item.title
  body := item.body
  identityHints := item.identities
  contentHash := item.contentHash
  observedAt := item.observedAt

/-- The row of the source that the item repeats. -/
def isDuplicate (source : Source) (item : NormalizedSignal) (db : Db) : Bool :=
  db.signals.rows.any fun s =>
    s.sourceId = source.id ∧ s.contentHash = item.contentHash ∧ s.observedAt = item.observedAt

def SourcingChannel.discovered (channel : SourcingChannel) : SourcingChannel :=
  { channel with discoveredCount := channel.discoveredCount + 1 }

/-- An item that is no duplicate. Returns its screening job. -/
def ingestItem (source : Source) (channel : SourcingChannel) (seq index : Nat)
    (item : NormalizedSignal) : Tx (Uuid × SourcingChannel) := do
  let ids := candidateIds run seq index
  Tx.call (.evaluate "Signal")
  Tx.stage (.insertSignal (newSignal job source ids.signal item))
  Tx.flush
  let candidate ← resolveOutboundSignal run.env job.orgId item source.id (some channel) ids
    (run.now (.candidate seq index))
  Tx.stage (.insertJob (screeningJob run job seq index ids.signal candidate.opportunityId))
  Tx.flush
  let channel := candidate.channel.getD channel
  countChannel channel.discovered
  return (ids.job, channel.discovered)

/-- The screening job of a new signal; `none` for a duplicate. -/
def harvestItem (source : Source) (channel : SourcingChannel) (seq index : Nat)
    (item : NormalizedSignal) : Tx (Option (Uuid × SourcingChannel)) := do
  let duplicate ← Tx.query (isDuplicate source item)
  if duplicate then return none
  else do
    let ingested ← ingestItem run job source channel seq index item
    return some ingested

/-- The loop over the items, with the children collected until it ended or raised. -/
def harvestItems (source : Source) (seq : Nat) :
    List NormalizedSignal → Nat → SourcingChannel → List Uuid → Tx (List Uuid × Except Exc Unit)
  | [], _, _, children => return (children, .ok ())
  | item :: rest, index, channel, children => do
      let r ← Tx.attempt (harvestItem run job source channel seq index item)
      match r with
      | .error e => return (children, .error e)
      | .ok none => harvestItems source seq rest (index + 1) channel children
      | .ok (some (child, channel)) =>
          harvestItems source seq rest (index + 1) channel (children ++ [child])

def newChannel (source : Source) (seq : Nat) : SourcingChannel where
  id := run.id (.channel seq)
  key := source.key
  label := source.displayName
  kind := "source"

def ensureChannel (source : Source) (seq : Nat) : Tx SourcingChannel := do
  let channel? ← Tx.query fun db => db.channels.rows.find? fun c => c.key = source.key
  match channel? with
  | some channel => return channel
  | none => do
      Tx.stage (.insertChannel (newChannel run source seq))
      return newChannel run source seq

/-- The rows of the source and of its channel. -/
def ensureSource (key : String) (seq : Nat) (source? : Option Source) : Tx SourcingChannel :=
  match source? with
  | some source => ensureChannel run source seq
  | none => do
      Tx.stage (.insertSource (newSource run key seq))
      Tx.flush
      ensureChannel run (newSource run key seq) seq

/-- The `try` body after the connector has answered. -/
def ingestSource (key : String) (seq : Nat) (source? : Option Source) :
    Tx (List Uuid × Except Exc Unit) := do
  let source := source?.getD (newSource run key seq)
  let ensured ← Tx.attempt (ensureSource run key seq source?)
  match ensured with
  | .error e => return ([], .error e)
  | .ok channel => do
      let (children, ingested) ← harvestItems run job source seq (run.harvested key) 0 channel []
      match ingested with
      | .error e => return (children, .error e)
      | .ok () => do
          let committed ← Tx.attempt (do
            Tx.stage (.sourceOk source.id (run.now (.source seq)))
            Tx.commit)
          return (children, committed)

/-- The `except` branch: without a source row there is nothing to mark. -/
def degradeSource (seq : Nat) (source? : Option Source) (e : Exc) : Tx Unit :=
  match source? with
  | none => pure ()
  | some source => do
      Tx.stage (.sourceDegraded source.id (run.now (.source seq))
        (String.ofList (e.text.toList.take 500)))
      Tx.commit

/-- One enabled source up to its `finally`; the second component is the failure. -/
def harvestEnabled (key : String) (seq : Nat) (source? : Option Source) :
    Tx (List Uuid × Option Exc) := do
  let answered ← Tx.attempt (Tx.call (.harvest key))
  match answered with
  | .error e => do
      degradeSource run seq source? e
      return ([], some e)
  | .ok () => do
      let (children, ingested) ← ingestSource run job key seq source?
      match ingested with
      | .ok () => return (children, none)
      | .error e => do
          degradeSource run seq (some (source?.getD (newSource run key seq))) e
          return (children, some e)

/-- `round(x, 2)` -/
def round2 (x : Rat) : Rat :=
  let below := (x * 100).floor
  let rest := x * 100 - below
  if rest < 1 / 2 ∨ rest = 1 / 2 ∧ below % 2 = 0 then below / 100 else (below + 1) / 100

def harvestStep (key : String) (seq total : Nat) (h : Harvest) : AgentStep where
  jobId := job.id
  seq
  agent := "harvester"
  action := "ingest." ++ key
  status := if h.failures.any fun f => f.1 = key then "degraded" else "succeeded"
  progress := round2 ((seq : Rat) / (max 1 total : Nat) * 90)
  message := some ("Harvested source " ++ key ++ ".")

/-- A disabled connector is closed and gets no step. -/
def harvestSource (total : Nat) (key : String) (seq : Nat) (h : Harvest) : Tx Harvest := do
  let source? ← Tx.query fun db => db.sources.rows.find? fun s => s.key = key
  if ¬ run.enabled key then do
    Tx.call (.close key)
    return { h with failures := h.failures ++ [(key, "no_credentials")] }
  else do
    let (children, failure) ←
      Tx.finally' (harvestEnabled run job key seq source?) (Tx.call (.close key))
    let h : Harvest :=
      { children := h.children ++ children
        failures := h.failures ++ (failure.map fun e => (key, e.className)).toList }
    Tx.stage (.insertAgentStep (harvestStep job key seq total h))
    Tx.commit
    return h

def harvestSources (total : Nat) : List String → Nat → Harvest → Tx Harvest
  | [], _, h => return h
  | key :: rest, seq, h => do
      let h ← harvestSource run job total key seq h
      harvestSources total rest (seq + 1) h

def Job.harvestDone (h : Harvest) (now : Timestamp) (j : Job) : Job :=
  { j with
    status := if h.failures.isEmpty then .succeeded else .partialSuccess
    progress := 100
    currentStep := some "done"
    finishedAt := some now
    result := .harvest h.children.length h.children.length h.children h.failures }

/-- Returns the screening jobs to dispatch. -/
def processHarvest : Tx (List Uuid) := do
  Tx.call (.evaluate "limit")
  let keys := harvestKeys run job
  let h ← harvestSources run job keys.length keys 1 (Harvest.start run)
  Tx.stage (.updateJob job.id (job.changes (job.harvestDone h (run.now .finish))))
  Tx.commit
  return h.children

def dispatchChildren : List Uuid → Tx Unit
  | [] => pure ()
  | child :: rest => do
      dispatchJob run.env.settings.queueEager child
      dispatchChildren rest

end Harvest

section Analysis

variable (run : RunEnv)

def pipelineStep (jobId : Uuid) (seq : Nat) (action : String) (progress : Rat)
    (message : String) : AgentStep where
  jobId
  seq
  agent := "pipeline"
  action
  status := "succeeded"
  progress
  message := some message

def Job.stepped (action : String) (progress : Rat) (now : Timestamp) (j : Job) : Job :=
  { j with progress, currentStep := some action, heartbeatAt := some now }

/-- `_step`; returns the session's copy of the job. -/
def recordStep (job : Job) (seq : Nat) (action : String) (progress : Rat) (message : String) :
    Tx Job := do
  let stepped := job.stepped action progress (run.now (.step seq))
  Tx.stage (.insertAgentStep (pipelineStep job.id seq action progress message))
  Tx.stage (.updateJob job.id (job.changes stepped))
  Tx.commit
  return stepped

/-- Where `str.splitlines()` splits, but for the pair of CR and LF, which here leaves an empty
line behind. -/
def isLineBoundary (c : Char) : Bool :=
  c.toNat ∈ [0x0A, 0x0B, 0x0C, 0x0D, 0x1C, 0x1D, 0x1E, 0x85, 0x2028, 0x2029]

/-- The lines of a page, stripped. -/
def pageLines (env : Env) (page : ParsedPage) : List (List Char) :=
  (page.text.toList.splitOnP isLineBoundary).map (strip env)

/-- The first line of 12 characters or more. -/
def productClaim (env : Env) (pages : List ParsedPage) : Option ExtractedClaim :=
  let lines := pages.flatMap fun page =>
    (pageLines env page).map fun line => (page.pageNo, line)
  (lines.find? fun line => 12 ≤ line.2.length).map fun (pageNo, line) =>
    { category := .product, predicate := "deck_summary", text := String.ofList (line.take 500)
      locator := { page := pageNo, snippet := String.ofList (line.take 400) }
      extractionConfidence := 72 / 100 }

/-- What `extract_claims` and `_product_claim` yield. -/
def extractedClaims (env : Env) (analysis : Analysis) (pages : List ParsedPage) :
    List ExtractedClaim :=
  analysis.extractClaims pages ++ (productClaim env pages).toList

def ensureDeckSource : Tx Source := do
  let source? ← Tx.query fun db => db.sources.rows.find? fun s => s.key = "deck"
  match source? with
  | some source => return source
  | none => do
      let source : Source :=
        { id := run.id .deckSource, key := "deck", displayName := "Founder-submitted deck" }
      Tx.stage (.insertSource source)
      Tx.flush
      return source

def addPages (document : Document) : List ParsedPage → Tx Unit
  | [] => pure ()
  | page :: rest => do
      Tx.stage (.insertDocumentPage
        { documentId := document.id, pageNo := page.pageNo, text := some page.text
          ocrUsed := page.ocrUsed })
      addPages document rest

/-- The stored pages of the document, or those of a fresh parse. -/
def documentPages (document : Document) : Tx (List ParsedPage) := do
  let stored ← Tx.query fun db => db.documentPages.rows.filter fun p => p.documentId = document.id
  if ¬ stored.isEmpty then
    return stored.map fun p =>
      { pageNo := p.pageNo, text := p.text.getD "", ocrUsed := p.ocrUsed }
  else do
    Tx.call (.evaluate "parse_deck")
    let pages := run.analysis.parseDeck document
    addPages document pages
    Tx.flush
    return pages

def addClaims (document : Document) (opportunity : Opportunity) :
    List ExtractedClaim → Nat → List Claim → Tx (List Claim)
  | [], _, created => return created
  | item :: rest, index, created => do
      let trust := run.analysis.computeTrust document item
      let claim : Claim :=
        { id := run.id (.claim index), orgId := opportunity.orgId
          opportunityId := some opportunity.id, category := item.category
          predicate := item.predicate, text := item.text
          valueNum := item.valueNum.map (numeric 4), valueUnit := item.valueUnit
          status := if item.unverifiable then .unverifiable else trust.status
          trustScore := trust.score, trustInputs := trust.inputs
          verificationNote :=
            if item.unverifiable then some "Prompt-injection-like text detected." else none
          extractedBy := some "deterministic-v1" }
      Tx.call (.evaluate "compute_trust")
      Tx.stage (.insertClaim claim)
      Tx.flush
      Tx.stage (.insertEvidence
        { id := run.id (.evidence index), claimId := claim.id, documentId := some document.id
          locator := item.locator
          snippet := String.ofList (item.locator.snippet.toList.take 400)
          supports := !item.unverifiable
          independenceGroup := some ("deck:" ++ toString document.id) })
      addClaims document opportunity rest (index + 1) (created ++ [claim])

def opportunityClaims (opportunityId : Uuid) (db : Db) : List Claim :=
  db.claims.rows.filter fun c => c.opportunityId = some opportunityId

def parseAndExtract (document : Document) (opportunity : Opportunity) : Tx (List Claim) := do
  let pages ← documentPages run document
  let existing ← Tx.query (opportunityClaims opportunity.id)
  if ¬ existing.isEmpty then return existing
  else do
    let _ ← ensureDeckSource run
    Tx.call (.evaluate "extract_claims")
    let created ← addClaims run document opportunity
      (extractedClaims run.env run.analysis pages) 0 []
    Tx.flush
    return created

/-- `max(version)` of the stored rows, 0 when there are none. -/
def latestScoreVersion (opportunityId : Uuid) (axis : AxisKind) (db : Db) : Nat :=
  ((db.opportunityScores.rows.filter fun s =>
    s.opportunityId = opportunityId ∧ s.axis = axis).map OpportunityScore.version).foldl max 0

def addScores (opportunity : Opportunity) (claims : List Claim) :
    List AxisKind → List OpportunityScore → Tx (List OpportunityScore)
  | [], created => return created
  | axis :: rest, created => do
      let (value, latest) ← Tx.query fun db =>
        (run.analysis.scoreAxis db opportunity claims axis,
          latestScoreVersion opportunity.id axis db)
      let row : OpportunityScore :=
        { id := run.id (.score axis), opportunityId := opportunity.id, axis
          score := value.score, confidence := value.confidence, rationale := value.rationale
          version := latest + 1 }
      Tx.stage (.insertOpportunityScore row)
      addScores opportunity claims rest (created ++ [row])

def scoreAxes (opportunity : Opportunity) (claims : List Claim) : Tx (List OpportunityScore) := do
  Tx.call (.evaluate "_score_axes")
  let created ← addScores run opportunity claims [.founder, .market, .ideaVsMarket] []
  Tx.flush
  return created

def thesisFit (opportunity : Opportunity) (company : Company) : Tx (Rat × Option String) := do
  let thesis? ← Tx.query fun db => opportunity.thesisId.bind db.theses.find?
  Tx.call (.evaluate "compute_thesis_fit")
  ofExcept (run.analysis.thesisFit thesis? company)

def latestMemoVersion (opportunityId : Uuid) (db : Db) : Nat :=
  ((db.memos.rows.filter fun m => m.opportunityId = opportunityId).map Memo.version).foldl max 0

/-- The opportunity and the company an analysis works on. -/
def loadTarget (job : Job) : Tx (Opportunity × Company) :=
  match job.targetId.or job.input.opportunityId with
  | none => throw (Exc.raised "KeyError" "'opportunity_id'")
  | some opportunityId => do
      let opportunity? ← Tx.query fun db => db.opportunities.find? opportunityId
      match opportunity? with
      | none => throw (Exc.raised "RuntimeError" "opportunity missing")
      | some opportunity => do
          let company? ← Tx.query fun db => db.companies.find? opportunity.companyId
          match company? with
          | none => throw (Exc.raised "RuntimeError" "company missing")
          | some company => return (opportunity, company)

def assignStatus (application : Application) (status : ApplicationStatus) : Tx Unit :=
  if application.status = status then pure ()
  else Tx.stage (.updateApplication application.id status)

/-- The application named by the job, marked as being parsed. -/
def beginApplication (job : Job) : Tx (Option Application) :=
  match job.input.applicationId with
  | none => return none
  | some applicationId => do
      let application? ← Tx.query fun db => db.applications.find? applicationId
      match application? with
      | none => return none
      | some application => do
          assignStatus application .parsing
          return some { application with status := .parsing }

def ensurePrescreen (opportunityId : Uuid) : Tx Unit := do
  let prescreen? ← Tx.query fun db => db.prescreenResults.find? opportunityId
  match prescreen? with
  | some _ => pure ()
  | none => do
      Tx.stage (.insertPrescreenResult { opportunityId, passed := true, latencyMs := 1 })
      Tx.commit

/-- The claims to score: those of the job's document, or those already stored. -/
def gatherClaims (job : Job) (opportunity : Opportunity) : Tx (List Claim) := do
  let claims ← Tx.query (opportunityClaims opportunity.id)
  match job.input.documentId with
  | none => return claims
  | some documentId => do
      let document? ← Tx.query fun db => db.documents.find? documentId
      match document? with
      | none => return claims
      | some document => do
          let claims ← parseAndExtract run document opportunity
          Tx.commit
          return claims

def Opportunity.memoReady (now : Timestamp) (o : Opportunity) : Opportunity :=
  { o with
    stage := .decision
    screenedAt := some now
    memoReadyAt := some now
    version := o.version + 1 }

/-- The memo together with the stage and status that open the decision. -/
def writeMemo (opportunity : Opportunity) (application? : Option Application)
    (recommendation : Recommendation) (sections : List MemoSection) : Tx Unit := do
  Tx.call (.evaluate "compose_memo")
  let latest ← Tx.query (latestMemoVersion opportunity.id)
  Tx.stage (.insertMemo
    { id := run.id .memo, orgId := opportunity.orgId, opportunityId := opportunity.id
      version := latest + 1, status := "ready", sections
      recommendation := some recommendation.decision
      recommendationRationale := some recommendation.rationale })
  Tx.stage (.updateOpportunity opportunity.id
    (opportunity.changes (opportunity.memoReady (run.now .memo))))
  match application? with
  | none => pure ()
  | some application => assignStatus application .inDiligence
  Tx.commit

def Job.analysisDone (result : JobResult) (now : Timestamp) (j : Job) : Job :=
  { j with
    status := .succeeded, progress := 100, currentStep := some "done", finishedAt := some now
    result }

def finishAnalysis (job : Job) (result : JobResult) : Tx Unit := do
  Tx.stage (.updateJob job.id (job.changes (job.analysisDone result (run.now .finish))))
  Tx.stage (.insertAgentStep
    (pipelineStep job.id 6 "done" 100 "Decision-support package is ready."))
  Tx.commit

/-- The analysis of an opportunity once its stage is SCREENING. -/
def analyse (job : Job) (opportunity : Opportunity) (company : Company)
    (application? : Option Application) : Tx Unit := do
  let job ← recordStep run job 1 "prescreen" 8 "Mechanical prescreen completed."
  ensurePrescreen opportunity.id
  let claims ← gatherClaims run job opportunity
  let job ← recordStep run job 2 "extract_claims" 32
    ("Extracted " ++ toString claims.length ++ " evidence-backed claims.")
  let axes ← scoreAxes run opportunity claims
  Tx.commit
  let job ← recordStep run job 3 "score_axes" 58
    "Three independent axes scored without averaging."
  let (fit, gateReason) ← thesisFit run opportunity company
  let scored := { opportunity with thesisFit := some fit }
  Tx.stage (.updateOpportunity opportunity.id (opportunity.changes scored))
  Tx.call (.evaluate "recommend")
  let recommendation := run.analysis.recommend axes fit gateReason claims
  let job ← recordStep run job 4 "thesis_and_recommend" 72
    "Thesis fit and recommendation computed."
  writeMemo run scored application? recommendation (run.analysis.composeMemo claims recommendation)
  let job ← recordStep run job 5 "memo" 95
    "Evidence-backed memo generated; gaps marked not disclosed."
  finishAnalysis run job (.decision opportunity.id (run.id .memo) recommendation.decision)

/-- The jobs of every kind but harvesting. -/
def processAnalysis (job : Job) : Tx Unit := do
  let (opportunity, company) ← loadTarget job
  let screening := { opportunity with stage := .screening }
  Tx.stage (.updateOpportunity opportunity.id (opportunity.changes screening))
  let application? ← beginApplication job
  Tx.commit
  analyse run job screening company application?

end Analysis

section Job

variable (run : RunEnv)

def Job.started (now : Timestamp) (j : Job) : Job :=
  { j with
    status := .running
    startedAt := some now
    attempts := j.attempts + 1
    heartbeatAt := some now }

def Job.failed (now : Timestamp) (e : Exc) (j : Job) : Job :=
  { j with
    status := .failed
    errorCode := some e.className.toUpper
    errorMessage := some (String.ofList (e.text.toList.take 1000))
    finishedAt := some now }

def runBody (job : Job) : Tx Unit :=
  if job.kind = "ingest.harvest" then do
    let children ← processHarvest run job
    dispatchChildren run children
  else processAnalysis run job

/-- The handler assigns four columns of the copy that is RUNNING. -/
def failJob (job : Job) (e : Exc) : Tx Unit := do
  Tx.stage (.updateJob job.id (job.changes (job.failed (run.now .failure) e)))
  Tx.commit

/-- What follows the guard. -/
def startJob (loaded : Job) : Tx Unit := do
  let job := loaded.started (run.now .start)
  Tx.stage (.updateJob loaded.id (loaded.changes job))
  Tx.commit
  tryCatch (runBody run job) (failJob run job)

def processJob (jobId : Uuid) : Tx Unit := do
  let job? ← Tx.query fun db => db.jobs.find? jobId
  match job? with
  | none => return ()
  | some job => if job.status = .cancelled then return () else startJob run job

end Job
end DolphinVC
