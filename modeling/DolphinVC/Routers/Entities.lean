import DolphinVC.Arithmetic.Binary64
import DolphinVC.Deps
import DolphinVC.Services.Ingestion

/-!
# Reading signals

The endpoints that answer with signals or with texts derived from them: the list of
signals, the search in the knowledge base and the export of a person's data. Each builds
its own query.
-/

namespace DolphinVC

open Transaction

/-- `or_(Row.org_id == org_id, Row.org_id.is_(None))` -/
def visibleTo (orgId : Uuid) (owner : Option Uuid) : Bool :=
  owner = some orgId ∨ owner = none

/-- An optional filter of a query: absent, it lets every row pass. -/
def matchesFilter {α : Type} [DecidableEq α] (wanted : Option α) (value : Option α) : Bool :=
  match wanted with
  | none => true
  | some w => value = some w

section Signals

variable (env : Env) (credentials : Option Credentials) (now : Timestamp)

structure SignalQuery where
  personId : Option Uuid := none
  companyId : Option Uuid := none
  kind : Option SignalKind := none
  limit : Nat := 25

def listSignals (orgId : Uuid) (q : SignalQuery) (db : Db) : List Signal :=
  (((db.signals.rows.filter fun s => visibleTo orgId s.orgId ∧ matchesFilter q.personId s.personId ∧
    matchesFilter q.companyId s.companyId ∧ matchesFilter q.kind (some s.kind)).mergeSort
      fun a b => b.observedAt ≤ a.observedAt)).take q.limit

structure KBSearchRequest where
  q : String
  companyId : Option Uuid := none
  personId : Option Uuid := none
  k : Nat := 8

structure ChunkOut where
  id : Uuid
  content : String
  source : Option Uuid
  url : Option String
  observedAt : Option Timestamp
  score : Rat
  documentId : Option Uuid
  page : Option Nat

/-- `re.findall(r"\w+", q.casefold())`, the words of more than two characters. -/
def searchTerms (q : String) : List (List Char) :=
  ((env.casefold q).toList.splitOnP fun c => !env.isWordChar c).filter fun w => 2 < w.length

/-- The share of the terms that the text contains, as a float. -/
def chunkScore (terms : List (List Char)) (content : String) : Rat :=
  Binary64.double ((terms.countP fun t => t <:+: (env.casefold content).toList : Nat) /
    (max 1 terms.length : Nat))

def chunkOut (score : Rat) (c : KBChunk) : ChunkOut where
  id := c.id
  content := c.content
  source := c.sourceId
  url := c.sourceUrl
  observedAt := c.observedAt
  score := Rounding.roundToEven 1000 score
  documentId := c.documentId
  page := c.pageNo

/-- The first 500 visible chunks, ranked by score. -/
def searchKb (orgId : Uuid) (body : KBSearchRequest) (db : Db) : List ChunkOut :=
  let rows := (db.kbChunks.rows.filter fun c => visibleTo orgId c.orgId ∧
    matchesFilter body.companyId c.companyId ∧ matchesFilter body.personId c.personId).take 500
  let terms := searchTerms env body.q
  let scored := (rows.map fun c => (chunkScore env terms c.content, c)).filter fun s => s.1 ≠ 0
  ((scored.mergeSort fun a b => b.1 ≤ a.1).take body.k).map fun s => chunkOut s.1 s.2

structure ExportedSignal where
  id : Uuid
  kind : SignalKind
  url : Option String
  observedAt : Timestamp

structure PersonExport where
  id : Uuid
  displayName : String
  headline : Option String
  bio : Option String
  links : PersonLinks
  signals : List ExportedSignal

def exportSignal (s : Signal) : ExportedSignal where
  id := s.id
  kind := s.kind
  url := s.url
  observedAt := s.observedAt

def signalsEndpoint (q : SignalQuery) : Tx (List Signal) := do
  let principal ← require .read env credentials now
  Tx.query (listSignals principal.orgId q)

def kbSearchEndpoint (body : KBSearchRequest) : Tx (List ChunkOut) := do
  let principal ← require .read env credentials now
  Tx.query (searchKb env principal.orgId body)

/-- The signals of the person, of whichever organization. -/
def gdprExportEndpoint (personId : Uuid) : Tx PersonExport := do
  let _ ← require .admin env credentials now
  let person? ← Tx.query fun db => db.persons.find? personId
  match person? with
  | none => throw (Exc.notFound "Founder")
  | some person => do
      let signals ← Tx.query fun db => db.signals.rows.filter fun s => s.personId = some personId
      return {
        id := person.id, displayName := person.displayName, headline := person.headline
        bio := person.bio, links := person.links, signals := signals.map exportSignal }

end Signals

inductive SignalRequest where
  | signals (q : SignalQuery)
  | searchKb (body : KBSearchRequest)
  | gdprExport (personId : Uuid)

inductive SignalAnswer where
  | signals (rows : List Signal)
  | chunks (items : List ChunkOut)
  | personExport (answer : PersonExport)

def SignalRequest.permission : SignalRequest → Permission
  | .signals _ | .searchKb _ => .read
  | .gdprExport _ => .admin

def SignalRequest.serve (env : Env) (credentials : Option Credentials) (now : Timestamp) :
    SignalRequest → Tx SignalAnswer
  | .signals q => do
      let rows ← signalsEndpoint env credentials now q
      return .signals rows
  | .searchKb body => do
      let items ← kbSearchEndpoint env credentials now body
      return .chunks items
  | .gdprExport personId => do
      let answer ← gdprExportEndpoint env credentials now personId
      return .personExport answer

end DolphinVC
