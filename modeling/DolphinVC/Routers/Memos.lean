import DolphinVC.Services.Utils
import DolphinVC.Routers.Deals

/-!
# The memo endpoints

The endpoints that read one version of a memo, that edit a memo and that export one. An edit is
an UPDATE of the row it is about: the sections are replaced and the version of that row is
raised. An export is a job that is stored as done and has no file.
-/

namespace DolphinVC

open Transaction

section Version

variable (env : Env)

/-- Digits, in groups that single underscores join. -/
def digitsValue (cs : List Char) : Option Nat :=
  let groups := cs.splitOnP (· = '_')
  if groups.any List.isEmpty then none
  else groups.flatten.foldl (fun n c => n.bind fun n =>
    if env.isDigit c then some (10 * n + env.digitValue c) else none) (some 0)

/-- `int(value)` -/
def parseInt (value : String) : Option Int :=
  match strip env value.toList with
  | '-' :: cs => (digitsValue env cs).map fun n => -n
  | '+' :: cs => (digitsValue env cs).map fun n => n
  | cs => (digitsValue env cs).map fun n => n

/-- The memo of an opportunity with a version. -/
def memoVersion (orgId opportunityId : Uuid) (version : Int) (db : Db) : Option Memo :=
  db.memos.rows.find? fun m =>
    m.opportunityId = opportunityId ∧ m.orgId = orgId ∧ (m.version : Int) = version

end Version

/-- The fund's memo of the opportunity with the highest version. -/
def newestMemo (orgId opportunityId : Uuid) (db : Db) : Option Memo :=
  (db.memos.rows.filter fun m => m.opportunityId = opportunityId ∧ m.orgId = orgId).foldl
    (fun best m => match best with
      | some b => if b.version < m.version then some m else some b
      | none => some m) none

/-- `{**section, "edited_by": …, "edited_at": …}` -/
def MemoSection.edited (section' : MemoSection) (userId : Option Uuid) (now : Timestamp) :
    MemoSection :=
  (section'.filter fun field => field.1 ∉ ["edited_by", "edited_at"]) ++
    [("edited_by", (userId.map Uuid.text).getD "None"), ("edited_at", isoformat now)]

section Endpoints

variable (env : Env) (credentials : Option Credentials) (now : Timestamp)

def getOpportunityMemoEndpoint (opportunityId : Uuid) (version : String) : Tx Memo := do
  let principal ← require .read env credentials now
  let _ ← getOpportunity principal.orgId opportunityId
  if version = "latest" then do
    let memo? ← Tx.query (newestMemo principal.orgId opportunityId)
    match memo? with
    | none => throw (Exc.notFound "Memo")
    | some memo => return memo
  else match parseInt env version with
    | none => throw (Exc.validation "version must be 'latest' or an integer")
    | some k => do
        let memo? ← Tx.query (memoVersion principal.orgId opportunityId k)
        match memo? with
        | none => throw (Exc.notFound "Memo")
        | some memo => return memo

/-- The sections of a request; the schema asks for one at least. -/
structure MemoPatch where
  sections : List MemoSection
  nonempty : sections ≠ []

def patchMemoEndpoint (memoId : Uuid) (body : MemoPatch) (ifMatch : Option String) : Tx Memo := do
  let principal ← require .screen env credentials now
  let memo ← getMemo principal.orgId memoId
  if ¬ matchesVersion ifMatch memo.version then
    throw (Exc.conflict "Memo version is stale or If-Match is missing." "STALE_VERSION")
  else do
    Tx.stage (.updateMemo memo.id
      (body.sections.map fun section' => section'.edited principal.userId now) (memo.version + 1))
    Tx.commit
    refreshRow fun db => db.memos.find? memo.id

end Endpoints

section Export

variable (env : Env) (credentials : Option Credentials) (d : DealDraws)

/-- The formats that the schema admits. -/
inductive ExportFormat where
  | pdf | md | docx
  deriving DecidableEq

def ExportFormat.value : ExportFormat → String
  | .pdf => "pdf"
  | .md => "md"
  | .docx => "docx"

def exportJob (orgId memoId : Uuid) (format : ExportFormat) (d : DealDraws) : Job where
  id := d.jobId
  orgId := some orgId
  kind := "memo.export"
  status := .succeeded
  targetType := some "memo"
  targetId := some memoId
  progress := 100
  input := { format := some format.value }
  result := .memoExport ["Binary memo export adapter is not configured."]
  startedAt := some d.now
  finishedAt := some d.now
  createdAt := d.now

def exportMemoEndpoint (memoId : Uuid) (format : ExportFormat) : Tx Uuid := do
  let principal ← require .screen env credentials d.now
  let memo ← getMemo principal.orgId memoId
  Tx.stage (.insertJob (exportJob principal.orgId memo.id format d))
  Tx.commit
  return d.jobId

end Export

end DolphinVC
