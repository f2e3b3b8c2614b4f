import DolphinVC.Config
import Mathlib.Algebra.Order.Ring.Unbundled.Rat
import Mathlib.Data.List.Sort

/-!
# Resolving candidates

Inbound applications and harvested signals converge here on a person, a company and on
the live opportunity of a fund for it. `liveOpportunity?` is the rule the creators of
opportunities share: one that is not archived is reused.

A person's score is computed from all the events recorded for that person and kept in one
row, with a snapshot of each day.
-/

namespace DolphinVC

open Transaction

/-- What a connector hands on for one item. Of the payload it keeps `company_name`, when
that is a string, and the number of stars. -/
structure NormalizedSignal where
  kind : SignalKind := .other
  externalId : Option String := none
  url : Option String := none
  title : Option String := none
  body : Option String := none
  companyName : Option String := none
  stars : Int := 0
  contentHash : String
  observedAt : Timestamp
  identities : List IdentityHint := []

/-- The `uuid4` draws for one harvested item. -/
structure CandidateIds where
  signal : Uuid
  company : Uuid
  person : Uuid
  chunk : Uuid
  edge : Uuid
  opportunity : Uuid
  job : Uuid

section Names

variable (env : Env)

def strip (s : List Char) : List Char :=
  ((s.dropWhile env.isSpace).reverse.dropWhile env.isSpace).reverse

/-- White space collapsed, at most 200 characters. -/
def cleanName (value : Option String) (fallback : String) : String :=
  let words := ((value.getD "").toList.splitOnP env.isSpace).filter fun w => !w.isEmpty
  let cleaned := (words.intersperse [' ']).flatten
  if cleaned.isEmpty then String.ofList (fallback.toList.take 200)
  else String.ofList (cleaned.take 200)

/-- `value.rsplit("/", 1)[-1]` -/
def afterLastSlash (value : String) : String :=
  String.ofList (value.toList.reverse.takeWhile (· ≠ '/')).reverse

def dropLaunchPrefix (launch title : String) : String :=
  if (env.casefold launch).toList <+: (env.casefold title).toList then
    String.ofList (strip env (title.toList.drop launch.length))
  else title

def companyNameFromSignal (signal : NormalizedSignal) : String :=
  match signal.companyName.filter fun name => !(strip env name.toList).isEmpty with
  | some explicit => cleanName env (some explicit) "Discovered company"
  | none =>
      if signal.kind = .repoActivity ∧ (signal.title.filter (· ≠ "")).isSome then
        cleanName env (signal.title.map afterLastSlash) "Discovered repository"
      else
        let title := cleanName env signal.title ""
        if title ≠ "" then
          dropLaunchPrefix env "Launch HN:" (dropLaunchPrefix env "Show HN:" title)
        else cleanName env (env.hostname (signal.url.getD "")) "Discovered company"

/-- Hosts that many candidates share name no company. -/
def companyDomain (signal : NormalizedSignal) : Option String :=
  ((env.hostname (signal.url.getD "")).map env.casefold).filter fun host =>
    host ∉ ["", "github.com", "arxiv.org", "news.ycombinator.com"]

end Names

/-- The live company with the signal's domain, else with its name. -/
def findLiveCompany (env : Env) (signal : NormalizedSignal) : Tx (Option Company) := do
  let byDomain ← Tx.query fun db => (companyDomain env signal).bind fun domain =>
    db.companies.rows.find? fun c => c.domain = some domain ∧ c.mergedIntoId = none
  match byDomain with
  | some company => return some company
  | none => Tx.query fun db => db.companies.rows.find? fun c =>
      c.normalizedName = normalizeName env (companyNameFromSignal env signal) ∧
        c.mergedIntoId = none

theorem reads_findLiveCompany (env : Env) (signal : NormalizedSignal) :
    Tx.Reads (findLiveCompany env signal) := by
  refine Tx.Reads.bind (Tx.Reads.query _) fun byDomain => ?_
  cases byDomain with
  | some company => exact Tx.Reads.pure _
  | none => exact Tx.Reads.query _

def insertCompany (company : Company) : Tx Company := do
  Tx.stage (.insertCompany company)
  Tx.flush
  return company

def ensureCompany (env : Env) (signal : NormalizedSignal) (id : Uuid) : Tx Company := do
  let company? ← findLiveCompany env signal
  match company? with
  | some company => return company
  | none =>
      insertCompany
        { id
          name := companyNameFromSignal env signal
          normalizedName := normalizeName env (companyNameFromSignal env signal)
          domain := companyDomain env signal }

/-- The text under a key, empty when there is none. -/
def textAt (provider : String) (texts : List (String × String)) : String :=
  ((texts.find? fun t => t.1 = provider).map Prod.snd).getD ""

/-- A live person with that identity, else one with that name. -/
def personByIdentity (env : Env) (provider value : String) (db : Db) : Option Person :=
  (db.persons.rows.find? fun person => person.mergedIntoId = none ∧
    (env.casefold (textAt provider person.links.texts) = env.casefold value ∨
      env.casefold (textAt provider person.links.identities) = env.casefold value)).or
    (if normalizeName env value = "" then none
      else db.persons.rows.find? fun person =>
        person.normalizedName = normalizeName env value ∧ person.mergedIntoId = none)

def identityLink (provider value : String) : Option String :=
  if provider = "github" then some ("https://github.com/" ++ value)
  else if provider = "hackernews" then some ("https://news.ycombinator.com/user?id=" ++ value)
  else none

def newSignalPerson (env : Env) (id : Uuid) (provider value : String) : Person where
  id
  displayName := value
  normalizedName := normalizeName env value
  links :=
    { identities := [(provider, value)]
      texts := ((identityLink provider value).map fun link => (provider, link)).toList }
  isStub := provider ∈ ["github", "hackernews"]

/-- The hint with the highest confidence among those with a value. -/
def bestHint (hints : List IdentityHint) : Option IdentityHint :=
  (hints.filter fun hint => hint.value ≠ "").foldl
    (fun best hint => match best with
      | some b => if b.confidence < hint.confidence then some hint else some b
      | none => some hint) none

def insertPerson (person : Person) : Tx Person := do
  Tx.stage (.insertPerson person)
  Tx.flush
  return person

/-- The person behind an identity, created when there is none. -/
def personOfIdentity (env : Env) (provider value : String) (id : Uuid) : Tx Person := do
  let person? ← Tx.query (personByIdentity env provider value)
  match person? with
  | some person => return person
  | none => insertPerson (newSignalPerson env id provider value)

/-- Count the signal unless its row names the person already. -/
def countSignalOnce (person : Person) (signal : NormalizedSignal) (signalId : Uuid) : Tx Unit := do
  let linked ← Tx.query fun db => (db.signals.find? signalId).bind Signal.personId
  if linked = some person.id then pure ()
  else
    Tx.stage (.countSignal person.id
      (max (person.lastSignalAt.getD signal.observedAt) signal.observedAt)
      (person.signalCount + 1) (person.sourceCount + 1))

def ensureSignalPerson (env : Env) (signal : NormalizedSignal) (signalId id : Uuid) :
    Tx (Option Person) :=
  match bestHint signal.identities with
  | none => return none
  | some hint => do
      let person ← personOfIdentity env hint.provider
        (cleanName env (some hint.value) "Unknown founder") id
      countSignalOnce person signal signalId
      return some person

def ensureAffiliation (personId companyId : Uuid) (confidence : Rat) : Tx Unit := do
  let existing? ← Tx.query fun db => db.affiliations.find? (personId, companyId, "founder")
  match existing? with
  | none =>
      Tx.stage (.insertAffiliation
        { personId, companyId, role := "founder", isFounder := true, confidence })
  | some existing =>
      Tx.stage (.confirmFounder personId companyId "founder" (max existing.confidence confidence))

/-- Component, delta, weight and reason. -/
def scoreEventsFor (signal : NormalizedSignal) : List (String × Rat × Rat × String) :=
  if signal.kind = .repoActivity then
    [("execution", 62, 80 / 100, "Public repository activity."),
      ("technical_depth", 68, 80 / 100, "Public technical artifact."),
      ("validation", min 82 (42 + Int.fdiv signal.stars 25 : Int), 65 / 100,
        "Repository adoption signal.")]
  else if signal.kind = .paper then
    [("technical_depth", 76, 85 / 100, "Published research artifact."),
      ("domain_expertise", 70, 75 / 100, "Research domain evidence.")]
  else if signal.kind ∈ [SignalKind.launchPost, .press] then
    [("communication", 58, 45 / 100, "Public launch communication."),
      ("execution", 54, 45 / 100, "Public product-launch evidence.")]
  else []

def addFounderEvents (personId signalId : Uuid) (occurredAt : Timestamp) :
    List (String × Rat × Rat × String) → Tx Unit
  | [] => pure ()
  | (component, delta, weight, reason) :: rest => do
      let recorded ← Tx.query fun db => db.founderScoreEvents.any fun e =>
        e.personId = personId ∧ e.signalId = some signalId ∧ e.component = component
      if recorded then addFounderEvents personId signalId occurredAt rest
      else do
        Tx.stage (.insertFounderScoreEvent
          { personId, component, delta, weight, reason, signalId := some signalId, occurredAt })
        addFounderEvents personId signalId occurredAt rest

/-- The events of one person, oldest first. -/
def founderEvents (personId : Uuid) (db : Db) : List FounderScoreEvent :=
  (db.founderScoreEvents.filter fun e => e.personId = personId).insertionSort
    fun a b => a.occurredAt ≤ b.occurredAt

/-- The source is the signal, or the event itself without one. -/
def FounderScoreEvent.scored (e : FounderScoreEvent) : ScoreEvent Rat where
  component := e.component
  delta := e.delta
  occurredAt := e.occurredAt
  weight := e.weight
  sourceKey := match e.signalId with
    | some signalId => toString signalId
    | none => "event:" ++ toString e.id

/-- The first row of a person. -/
def FounderScoreResult.row (r : FounderScoreResult Rat) (personId : Uuid) (now : Timestamp) :
    FounderScore where
  personId
  score := r.score
  ciLow := r.ciLow
  ciHigh := r.ciHigh
  confidence := r.confidence
  components := r.components
  coldStart := r.coldStart
  computedAt := now

def trendOf (delta : Int) : TrendKind :=
  if |delta| < 3 then .stable else if 0 < delta then .improving else .declining

/-- The trend is relative to the row as it was. -/
def FounderScore.rescore (current : FounderScore) (r : FounderScoreResult Rat)
    (now : Timestamp) : FounderScore :=
  { current with
    score := r.score
    ciLow := r.ciLow
    ciHigh := r.ciHigh
    confidence := r.confidence
    components := r.components
    coldStart := r.coldStart
    trend30d := r.score - current.score
    trend := trendOf (r.score - current.score)
    version := current.version + 1
    computedAt := now }

def scoreWrite (personId : Uuid) (r : FounderScoreResult Rat) (now : Timestamp) :
    Option FounderScore → Write
  | none => .insertFounderScore (r.row personId now)
  | some current => .updateFounderScore (current.rescore r now)

def snapshotWrite (personId : Uuid) (r : FounderScoreResult Rat) (now : Timestamp) :
    Option FounderScoreSnapshot → Write
  | none => .insertFounderScoreSnapshot
      { personId, day := now.date, score := r.score, confidence := r.confidence }
  | some _ => .updateFounderScoreSnapshot personId now.date r.score r.confidence

def storeFounderScore (personId : Uuid) (r : FounderScoreResult Rat) (now : Timestamp) :
    Tx Unit := do
  let current? ← Tx.query fun db => db.founderScores.find? personId
  Tx.stage (scoreWrite personId r now current?)
  let snapshot? ← Tx.query fun db => db.founderScoreSnapshots.find? (personId, now.date)
  Tx.stage (snapshotWrite personId r now snapshot?)
  Tx.flush

def recomputeFounderScore (env : Env) (personId : Uuid) (now : Timestamp) : Tx Unit := do
  let events ← Tx.query (founderEvents personId)
  Tx.call (.evaluate "compute_founder_score")
  match computeFounderScore env.maths .standard (events.map FounderScoreEvent.scored) now with
  | none => throw (Exc.raised "ZeroDivisionError" "float division by zero")
  | some result => storeFounderScore personId result now

def recordFounderEvents (env : Env) (personId signalId : Uuid) (signal : NormalizedSignal)
    (now : Timestamp) : Tx Unit := do
  addFounderEvents personId signalId signal.observedAt (scoreEventsFor signal)
  Tx.flush
  recomputeFounderScore env personId now

/-- The title and the body of a signal. -/
def signalContent (env : Env) (signal : NormalizedSignal) : String :=
  let parts := [signal.title, signal.body].filterMap fun part => part.filter (· ≠ "")
  String.ofList (strip env ((parts.map String.toList).intersperse ['\n']).flatten)

def signalChunk (env : Env) (orgId : Option Uuid) (signal : NormalizedSignal) (sourceId : Uuid)
    (person? : Option Person) (companyId : Uuid) (ids : CandidateIds) : KBChunk where
  id := ids.chunk
  orgId
  scope := "signal"
  personId := person?.map Person.id
  companyId := some companyId
  signalId := some ids.signal
  title := signal.title
  content := signalContent env signal
  sourceId := some sourceId
  sourceUrl := signal.url
  observedAt := some signal.observedAt

def recordChunk (env : Env) (orgId : Option Uuid) (signal : NormalizedSignal) (sourceId : Uuid)
    (person? : Option Person) (companyId : Uuid) (ids : CandidateIds) : Tx Unit :=
  if signalContent env signal = "" then pure ()
  else do
    let stored ← Tx.query fun db => db.kbChunks.rows.any fun c => c.signalId = some ids.signal
    if stored then pure ()
    else Tx.stage (.insertKBChunk (signalChunk env orgId signal sourceId person? companyId ids))

def recordEdge (channelId : Uuid) (person? : Option Person) (companyId id : Uuid) : Tx Unit := do
  let stored ← Tx.query fun db => db.channelEdges.rows.any fun e =>
    e.channelId = channelId ∧ e.personId = person?.map Person.id ∧ e.companyId = some companyId
  if stored then pure ()
  else
    Tx.stage (.insertChannelEdge
      { id, channelId, personId := person?.map Person.id, companyId := some companyId })

def recordMemory (env : Env) (orgId : Option Uuid) (signal : NormalizedSignal) (sourceId : Uuid)
    (person? : Option Person) (companyId : Uuid) (channel? : Option SourcingChannel)
    (ids : CandidateIds) : Tx Unit := do
  Tx.call (.evaluate "_record_memory")
  recordChunk env orgId signal sourceId person? companyId ids
  match channel? with
  | none => pure ()
  | some channel => recordEdge channel.id person? companyId ids.edge

/-- The opportunity of the fund and company that is not archived. -/
def liveOpportunity? (orgId companyId : Uuid) (db : Db) : Option Opportunity :=
  db.opportunities.rows.find? fun o =>
    o.orgId = orgId ∧ o.companyId = companyId ∧ o.stage ≠ .archived

/-- The row that each creator inserts. -/
def newOpportunity (env : Env) (id orgId : Uuid) (company : Company) (thesisId : Option Uuid)
    (origin : OpportunityOrigin) (firstSignalAt now : Timestamp) : Opportunity where
  id
  orgId
  companyId := company.id
  thesisId
  origin
  title := some company.name
  firstSignalAt
  slaDeadlineAt := now + Timestamp.hours env.settings.decisionSlaHours
  dedupeKey := some (orgId, company.id)

/-- Send the counters of the session's copy of the channel. -/
def countChannel (channel : SourcingChannel) : Tx Unit :=
  Tx.stage (.countChannel channel.id channel.discoveredCount channel.advancedCount)

def SourcingChannel.advanced (channel : SourcingChannel) : SourcingChannel :=
  { channel with advancedCount := channel.advancedCount + 1 }

/-- Count a new opportunity on the channel, when there is one. -/
def advanceChannel (channel? : Option SourcingChannel) : Tx (Option SourcingChannel) :=
  match channel? with
  | none => return none
  | some channel => do
      countChannel channel.advanced
      return some channel.advanced

/-- The opportunity of a signal, whether it is new, and the session's copy of the channel.
`org_id` is nullable on signals and jobs and not on opportunities. -/
def resolveOpportunity (env : Env) (orgId : Option Uuid) (company : Company)
    (signal : NormalizedSignal) (channel? : Option SourcingChannel) (id : Uuid)
    (now : Timestamp) : Tx (Uuid × Bool × Option SourcingChannel) :=
  match orgId with
  | none => do
      let channel? ← advanceChannel channel?
      Tx.stage (.refused (.integrity "opportunities.org_id"))
      Tx.flush
      return (id, true, channel?)
  | some orgId => do
      let opportunity? ← Tx.query (liveOpportunity? orgId company.id)
      match opportunity? with
      | some opportunity => do
          Tx.flush
          return (opportunity.id, false, channel?)
      | none => do
          let channel? ← advanceChannel channel?
          Tx.stage (.insertOpportunity
            (newOpportunity env id orgId company none .outbound signal.observedAt now))
          Tx.flush
          return (id, true, channel?)

/-- Link the signal to its candidates. -/
def linkCandidates (env : Env) (person? : Option Person) (company : Company)
    (signal : NormalizedSignal) (ids : CandidateIds) (now : Timestamp) : Tx Unit := do
  Tx.stage (.assignSignal ids.signal company.id (person?.map Person.id))
  match person? with
  | none => pure ()
  | some person => do
      ensureAffiliation person.id company.id (65 / 100)
      recordFounderEvents env person.id ids.signal signal now

/-- What a signal was resolved into, with the session's copy of the channel. -/
structure ResolvedSignal where
  person : Option Person
  company : Company
  opportunityId : Uuid
  opportunityCreated : Bool
  channel : Option SourcingChannel

def resolveOutboundSignal (env : Env) (orgId : Option Uuid) (signal : NormalizedSignal)
    (sourceId : Uuid) (channel? : Option SourcingChannel) (ids : CandidateIds)
    (now : Timestamp) : Tx ResolvedSignal := do
  Tx.call (.evaluate "urlsplit")
  let company ← ensureCompany env signal ids.company
  let person? ← ensureSignalPerson env signal ids.signal ids.person
  linkCandidates env person? company signal ids now
  recordMemory env orgId signal sourceId person? company.id channel? ids
  let (opportunityId, opportunityCreated, channel) ←
    resolveOpportunity env orgId company signal channel? ids.opportunity now
  return { person := person?, company, opportunityId, opportunityCreated, channel }

end DolphinVC
