import DolphinVC.Deps
import DolphinVC.Routers.Deals

/-!
# The thesis endpoints

The endpoints that write investment theses. Only `update_thesis` looks at the version and
raises it; the others assign `is_default` and `deleted_at` and leave the version as it is.
Clearing the defaults of a fund is one bulk UPDATE over all its theses.
-/

namespace DolphinVC

open Transaction

/-- The bounds that the request schemas put on single fields. -/
def fieldBounds (name currency : Option String)
    (checkSizeMin checkSizeMax ownershipTargetPct riskAppetite : Option Rat) : Prop :=
  (∀ n ∈ name, 2 ≤ n.length ∧ n.length ≤ 160) ∧
  (∀ c ∈ currency, c.length = 3 ∧ ∀ x ∈ c.toList, x.isUpper) ∧
  (∀ m ∈ checkSizeMin, 0 ≤ m) ∧ (∀ m ∈ checkSizeMax, 0 ≤ m) ∧
  (∀ p ∈ ownershipTargetPct, 0 ≤ p ∧ p ≤ 100) ∧ ∀ r ∈ riskAppetite, 0 ≤ r ∧ r ≤ 1

/-- A new thesis, as the request's schema admits it. -/
structure ThesisCreate where
  name : String
  isDefault : Bool := false
  sectors : List String := []
  antiSectors : List String := []
  stages : List String := []
  geos : List String := []
  checkSizeMin : Option Rat := none
  checkSizeMax : Option Rat := none
  currency : String := "USD"
  ownershipTargetPct : Option Rat := none
  riskAppetite : Rat := 1 / 2
  weights : List (String × Rat) :=
    [("founder", 45 / 100), ("market", 30 / 100), ("idea_vs_market", 25 / 100)]
  mustHaves : List String := []
  dealBreakers : List String := []
  notes : Option String := none
  bounds : fieldBounds (some name) (some currency) checkSizeMin checkSizeMax ownershipTargetPct
    (some riskAppetite)
  checkSizes : ∀ lo ∈ checkSizeMin, ∀ hi ∈ checkSizeMax, lo ≤ hi
  sectorsApart : ∀ s ∈ sectors, s ∉ antiSectors
  weightKeys : ∀ k, k ∈ weights.map Prod.fst ↔ k ∈ ["founder", "market", "idea_vs_market"]

/-- The check sizes are NUMERIC(18, 2). -/
def sizeOverflow (size : Option Rat) : List Exc :=
  if size.any fun s => 10 ^ 16 ≤ numeric 2 s then
    [.raised "DBAPIError" "numeric field overflow"]
  else []

/-- Why the store refuses the row, apart from its keys. -/
def ThesisCreate.refusals (body : ThesisCreate) : List Exc :=
  sizeOverflow body.checkSizeMin ++ sizeOverflow body.checkSizeMax

def ThesisCreate.row (body : ThesisCreate) (id orgId : Uuid) : Thesis where
  id
  orgId
  name := body.name
  isDefault := body.isDefault
  sectors := some body.sectors
  antiSectors := some body.antiSectors
  stages := some body.stages
  geos := some body.geos
  checkSizeMin := body.checkSizeMin.map (numeric 2)
  checkSizeMax := body.checkSizeMax.map (numeric 2)
  currency := body.currency
  ownershipTargetPct := body.ownershipTargetPct.map (numeric 2)
  riskAppetite := numeric 2 body.riskAppetite
  weights := some body.weights
  mustHaves := some body.mustHaves
  dealBreakers := some body.dealBreakers
  notes := body.notes

/-- The fields that were set; the inner `none` is an explicit null. -/
structure ThesisUpdate where
  name : Option (Option String) := none
  sectors : Option (Json (List String)) := none
  antiSectors : Option (Json (List String)) := none
  stages : Option (Json (List String)) := none
  geos : Option (Json (List String)) := none
  checkSizeMin : Option (Option Rat) := none
  checkSizeMax : Option (Option Rat) := none
  currency : Option (Option String) := none
  ownershipTargetPct : Option (Option Rat) := none
  riskAppetite : Option (Option Rat) := none
  weights : Option (Json (List (String × Rat))) := none
  mustHaves : Option (Json (List String)) := none
  dealBreakers : Option (Json (List String)) := none
  notes : Option (Option String) := none
  bounds : fieldBounds name.join currency.join checkSizeMin.join checkSizeMax.join
    ownershipTargetPct.join riskAppetite.join

/-- The NOT NULL columns that the request sets to null. -/
def ThesisUpdate.nulls (body : ThesisUpdate) : List String :=
  (if body.name = some none then ["theses.name"] else []) ++
    (if body.currency = some none then ["theses.currency"] else []) ++
    if body.riskAppetite = some none then ["theses.risk_appetite"] else []

/-- The sizes that the update sets, as their columns store them. -/
def ThesisUpdate.storedMin (body : ThesisUpdate) : Option (Option Rat) :=
  body.checkSizeMin.map (Option.map (numeric 2))

def ThesisUpdate.storedMax (body : ThesisUpdate) : Option (Option Rat) :=
  body.checkSizeMax.map (Option.map (numeric 2))

/-- Why the store refuses the UPDATE. -/
def ThesisUpdate.refusals (body : ThesisUpdate) : List Exc :=
  body.nulls.map Exc.integrity ++ sizeOverflow body.checkSizeMin.join ++
    sizeOverflow body.checkSizeMax.join

/-- A value that its column cannot hold is left to the statement that is refused for it. -/
def ThesisUpdate.assign (body : ThesisUpdate) (t : Thesis) : Thesis :=
  { t with
    name := body.name.join.getD t.name
    sectors := body.sectors.getD t.sectors
    antiSectors := body.antiSectors.getD t.antiSectors
    stages := body.stages.getD t.stages
    geos := body.geos.getD t.geos
    checkSizeMin := body.storedMin.getD t.checkSizeMin
    checkSizeMax := body.storedMax.getD t.checkSizeMax
    currency := body.currency.join.getD t.currency
    ownershipTargetPct :=
      (body.ownershipTargetPct.map (Option.map (numeric 2))).getD t.ownershipTargetPct
    riskAppetite := (body.riskAppetite.join.map (numeric 2)).getD t.riskAppetite
    weights := body.weights.getD t.weights
    mustHaves := body.mustHaves.getD t.mustHaves
    dealBreakers := body.dealBreakers.getD t.dealBreakers
    notes := body.notes.getD t.notes
    version := t.version + 1 }

/-- `ThesisOut.model_validate`, which refuses a JSON null. -/
def thesisOut (thesis : Thesis) : Tx Thesis :=
  if thesis.sectors.isSome ∧ thesis.antiSectors.isSome ∧ thesis.stages.isSome ∧
      thesis.geos.isSome ∧ thesis.weights.isSome ∧ thesis.mustHaves.isSome ∧
      thesis.dealBreakers.isSome then return thesis
  else throw (Exc.raised "ValidationError" "ThesisOut")

section Endpoints

variable (env : Env) (credentials : Option Credentials) (now : Timestamp)

/-- The fund's thesis, as `_get` finds it. -/
def getThesis (orgId thesisId : Uuid) : Tx Thesis := do
  let thesis? ← Tx.query fun db => db.theses.rows.find? fun t => t.id = thesisId ∧ t.orgId = orgId
  match thesis? with
  | none => throw (Exc.notFound "Thesis")
  | some thesis => return thesis

/-- `update(Thesis).where(Thesis.org_id == org_id).values(is_default=False)` -/
def clearFundDefaults (orgId : Uuid) : Tx Unit := do
  let ids ← Tx.query fun db => (db.theses.rows.filter fun t => t.orgId = orgId).map Thesis.id
  execute (.clearDefaults ids)

def createThesisEndpoint (id : Uuid) (body : ThesisCreate) : Tx Thesis := do
  let principal ← require .thesisWrite env credentials now
  if body.isDefault then clearFundDefaults principal.orgId else pure ()
  Tx.stage (.insertThesis (body.row id principal.orgId))
  body.refusals.forM fun e => Tx.stage (.refused e)
  Tx.commit
  let thesis ← refreshRow fun db => db.theses.find? id
  thesisOut thesis

def updateThesisEndpoint (thesisId : Uuid) (body : ThesisUpdate) (ifMatch : Option String) :
    Tx Thesis := do
  let principal ← require .thesisWrite env credentials now
  let thesis ← getThesis principal.orgId thesisId
  if ¬ matchesVersion ifMatch thesis.version then
    throw (Exc.conflict "Thesis version is stale or If-Match is missing." "STALE_VERSION")
  else do
    Tx.stage (.updateThesis thesis.id (thesis.changes (body.assign thesis)))
    body.refusals.forM fun e => Tx.stage (.refused e)
    Tx.commit
    let thesis ← refreshRow fun db => db.theses.find? thesis.id
    thesisOut thesis

def deleteThesisEndpoint (thesisId : Uuid) : Tx Unit := do
  let principal ← require .thesisWrite env credentials now
  let thesis ← getThesis principal.orgId thesisId
  Tx.stage (.updateThesis thesis.id
    (thesis.changes { thesis with deletedAt := some now, isDefault := false }))
  Tx.commit

/-- The bulk UPDATE also clears the flag of the row in the session. -/
def setDefaultEndpoint (thesisId : Uuid) : Tx Thesis := do
  let principal ← require .thesisWrite env credentials now
  let thesis ← getThesis principal.orgId thesisId
  clearFundDefaults principal.orgId
  let cleared := { thesis with isDefault := false }
  Tx.stage (.updateThesis thesis.id (cleared.changes { cleared with isDefault := true }))
  Tx.commit
  let thesis ← refreshRow fun db => db.theses.find? thesis.id
  thesisOut thesis

end Endpoints

inductive ThesisRequest where
  | create (id : Uuid) (body : ThesisCreate)
  | update (thesisId : Uuid) (body : ThesisUpdate) (ifMatch : Option String)
  | delete (thesisId : Uuid)
  | setDefault (thesisId : Uuid)

def ThesisRequest.serve (env : Env) (credentials : Option Credentials) (now : Timestamp) :
    ThesisRequest → Tx Unit
  | .create id body => Tx.void (createThesisEndpoint env credentials now id body)
  | .update thesisId body ifMatch =>
      Tx.void (updateThesisEndpoint env credentials now thesisId body ifMatch)
  | .delete thesisId => deleteThesisEndpoint env credentials now thesisId
  | .setDefault thesisId => Tx.void (setDefaultEndpoint env credentials now thesisId)

end DolphinVC
