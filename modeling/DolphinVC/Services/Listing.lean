import Mathlib.Data.List.Sort
import DolphinVC.Services.Score
import DolphinVC.Services.Opportunities
import DolphinVC.Services.Utils

/-!
# Listing opportunities

A page holds the matching opportunities beyond the cursor in descending order of `updated_at`
and `id`. One row more than the limit is read to see whether there is another page; its cursor
is made of the last row that is kept.
-/

namespace DolphinVC

open Transaction

structure SLA where
  deadlineAt : Timestamp
  hoursRemaining : Rat
  atRisk : Bool
  breached : Bool

/-- `_sla` -/
def sla (opportunity : Opportunity) (now : Timestamp) : SLA :=
  let hours := hoursUntil opportunity.slaDeadlineAt now
  { deadlineAt := opportunity.slaDeadlineAt
    hoursRemaining := round2 hours
    atRisk := opportunity.decidedAt = none ∧ 0 < hours ∧ hours < 4
    breached := opportunity.decidedAt = none ∧ hours ≤ 0 }

/-- What a card shows of an opportunity. -/
structure OpportunityCard where
  opportunity : Opportunity
  company : Company
  founders : List (Person × Option FounderScore)
  axes : AxisKind → Option OpportunityScore
  trustSummary : ClaimStatus → Nat
  sla : SLA

/-- `_founders` -/
def founders (companyId : Uuid) (db : Db) : List (Person × Option FounderScore) :=
  (db.affiliations.rows.filter fun a => a.companyId = companyId ∧ a.isFounder).filterMap fun a =>
    (db.persons.find? a.personId).map fun person => (person, db.founderScores.find? person.id)

/-- `_trust_summary` -/
def trustSummary (opportunityId : Uuid) (db : Db) (status : ClaimStatus) : Nat :=
  db.claims.rows.countP fun c => c.opportunityId = some opportunityId ∧ c.status = status

def cardOf (opportunity : Opportunity) (company : Company) (now : Timestamp) (db : Db) :
    OpportunityCard where
  opportunity
  company
  founders := founders company.id db
  axes := axes opportunity.id db
  trustSummary := trustSummary opportunity.id db
  sla := sla opportunity now

def buildCard (opportunity : Opportunity) (now : Timestamp) : Tx OpportunityCard := do
  let company? ← Tx.query fun db => db.companies.find? opportunity.companyId
  match company? with
  | none => throw (Exc.notFound "Company")
  | some company => Tx.query (cardOf opportunity company now)

def buildCards (now : Timestamp) : List Opportunity → Tx (List OpportunityCard)
  | [] => return []
  | opportunity :: rest => do
      let card ← buildCard opportunity now
      let cards ← buildCards now rest
      return card :: cards

structure OpportunityFilter where
  stage : Option OpportunityStage := none
  origin : Option OpportunityOrigin := none
  q : Option String := none
  slaRisk : Bool := false

/-- `LIKE '%…%'` on the lower-cased text; a normalized name holds no wildcard. -/
def nameMatches (env : Env) (q : String) (text : String) : Bool :=
  (normalizeName env q).toList <:+: (env.lower text).toList

/-- The WHERE clause up to the cursor; the join leaves out what has no company. -/
def OpportunityFilter.admits (env : Env) (orgId : Uuid) (now : Timestamp) (db : Db)
    (filter : OpportunityFilter) (o : Opportunity) : Bool :=
  o.orgId = orgId ∧ (db.companies.find? o.companyId).any fun company =>
    filter.stage.all (fun stage => o.stage = stage) ∧
      filter.origin.all (fun origin => o.origin = origin) ∧
      (filter.q.filter (· ≠ "")).all (fun q =>
        nameMatches env q company.name ∨ company.description.any (nameMatches env q)) ∧
      (filter.slaRisk → o.decidedAt = none ∧ now < o.slaDeadlineAt ∧
        o.slaDeadlineAt < now + Timestamp.hours 4)

/-- The position a cursor names. -/
abbrev Position := Timestamp × Uuid

def beyond (position : Option Position) (o : Opportunity) : Bool :=
  position.all fun p => o.updatedAt < p.1 ∨ o.updatedAt = p.1 ∧ o.id < p.2

/-- `ORDER BY updated_at DESC, id DESC` -/
def newestFirst (rows : List Opportunity) : List Opportunity :=
  rows.insertionSort fun a b => b.updatedAt < a.updatedAt ∨ b.updatedAt = a.updatedAt ∧ b.id ≤ a.id

/-- The rows beyond a position, at most `count`. -/
def pageRows (env : Env) (orgId : Uuid) (now : Timestamp) (filter : OpportunityFilter)
    (position : Option Position) (count : Nat) (db : Db) : List Opportunity :=
  (newestFirst (db.opportunities.rows.filter fun o =>
    filter.admits env orgId now db o ∧ beyond position o)).take count

/-- `Counter` -/
def counter {κ : Type} [DecidableEq κ] (keys : List κ) : List (κ × Nat) :=
  keys.dedup.map fun k => (k, keys.count k)

structure OpportunityList where
  items : List OpportunityCard
  nextCursor : Option String
  totalEstimate : Nat
  stages : List (OpportunityStage × Nat)
  origins : List (OpportunityOrigin × Nat)
  decisions : List (Option DecisionKind × Nat)

def parsePosition (cursor : String) : Option Position :=
  (decodeCursor cursor).bind fun (t, rowId) => (parseUuid rowId).map fun id => (t, id)

def readPosition (cursor : Option String) : Tx (Option Position) :=
  match cursor.filter (· ≠ "") with
  | none => return none
  | some cursor => match parsePosition cursor with
      | none => throw (Exc.validation "Invalid pagination cursor.")
      | some position => return some position

/-- The cursor of the last row that is kept, when there is another page. -/
def nextCursor (hasMore : Bool) (kept : List Opportunity) : Tx (Option String) :=
  match (if hasMore then kept.getLast? else none) with
  | none => return none
  | some row =>
      match encodeCursor { clock := row.updatedAt, offset := some 0 } (Uuid.text row.id) with
      | none => throw (Exc.raised "OverflowError" "date value out of range")
      | some cursor => return some cursor

def listOpportunities (env : Env) (orgId : Uuid) (filter : OpportunityFilter)
    (cursor : Option String) (limit : Nat) (now : Timestamp) : Tx OpportunityList := do
  let position ← readPosition cursor
  let rows ← Tx.query (pageRows env orgId now filter position (limit + 1))
  let hasMore := limit < rows.length
  let kept := rows.take limit
  let cards ← buildCards now kept
  let next ← nextCursor hasMore kept
  let total ← Tx.query fun db => db.opportunities.rows.countP fun o => o.orgId = orgId
  return {
    items := cards, nextCursor := next, totalEstimate := total
    stages := counter (kept.map Opportunity.stage)
    origins := counter (kept.map Opportunity.origin)
    decisions := counter (kept.map Opportunity.decision) }

end DolphinVC
