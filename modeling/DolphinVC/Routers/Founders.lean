import DolphinVC.Deps
import DolphinVC.Relational.Page
import DolphinVC.Services.Applications

/-!
# Founders

The list of founders and the profile of one, for whoever may read. Whoever may screen has a live
founder's score computed again; a job that is stored as done records it. An administrator merges
one live founder into another or erases a person. A merge sets the pointer of the loser and
nothing else, and the list does not look at it.
-/

namespace DolphinVC

open Relational Transaction

section Answers

/-- Nothing sets the percentile. -/
structure FounderScoreOut where
  score : Int
  ci : Int × Int
  confidence : Rat
  components : List (Component × ComponentScore Rat)
  coldStart : Bool
  trend30d : Int
  trend : TrendKind
  version : Nat
  computedAt : Timestamp

def scoreOut (score : FounderScore) : FounderScoreOut where
  score := score.score
  ci := (score.ciLow, score.ciHigh)
  confidence := score.confidence
  components := score.components
  coldStart := score.coldStart
  trend30d := score.trend30d
  trend := score.trend
  version := score.version
  computedAt := score.computedAt

structure FounderCard where
  id : Uuid
  displayName : String
  headline : Option String
  countryCode : Option String
  city : Option String
  skills : List String
  score : Option FounderScoreOut

structure FounderProfile extends FounderCard where
  bio : Option String
  locationText : Option String
  links : PersonLinks
  education : List JsonValue
  employment : List JsonValue
  signalCount : Nat
  sourceCount : Nat
  isStub : Bool
  firstSeenAt : Timestamp
  lastSignalAt : Option Timestamp

def founderCard (person : Person) (score? : Option FounderScore) : FounderCard where
  id := person.id
  displayName := person.displayName
  headline := person.headline
  countryCode := person.countryCode
  city := person.city
  skills := person.skills
  score := score?.map scoreOut

def profileOf (person : Person) (score? : Option FounderScore) : FounderProfile where
  toFounderCard := founderCard person score?
  bio := person.bio
  locationText := person.locationText
  links := person.links
  education := person.education
  employment := person.employment
  signalCount := person.signalCount
  sourceCount := person.sourceCount
  isStub := person.isStub
  firstSeenAt := person.firstSeenAt
  lastSignalAt := person.lastSignalAt

end Answers

section List

structure FounderQuery where
  q : Option String := none
  minScore : Option Int := none
  maxScore : Option Int := none
  coldStart : Option Bool := none
  country : Option String := none
  limit : Nat := 25
  scores : ∀ n ∈ minScore.toList ++ maxScore.toList, 300 ≤ n ∧ n ≤ 900 := by decide
  limited : 1 ≤ limit ∧ limit ≤ 100 := by decide

/-- A row of the outer join. -/
def withScore (db : Db) (person : Person) : Person × Option FounderScore :=
  (person, db.founderScores.find? person.id)

/-- The filters. A comparison with the NULL of an absent score is not true; normalized names
have no wildcards. -/
def FounderQuery.accepts (env : Env) (query : FounderQuery) (row : Person × Option FounderScore) :
    Bool :=
  ((query.q.filter (· ≠ "")).all fun q =>
    (normalizeName env q).toList <:+: row.1.normalizedName.toList) &&
  (query.minScore.all fun low => row.2.any fun score => low ≤ score.score) &&
  (query.maxScore.all fun high => row.2.any fun score => score.score ≤ high) &&
  (query.coldStart.all fun cold => row.2.any fun score => score.coldStart = cold) &&
  ((query.country.filter (· ≠ "")).all fun country => row.1.countryCode = some (env.upper country))

/-- `FounderScore.score.desc().nullslast()` -/
def bestFirst (a b : Person × Option FounderScore) : Bool :=
  match a.2, b.2 with
  | some a, some b => b.score ≤ a.score
  | some _, none => true
  | none, some _ => false
  | none, none => true

def listFounders (env : Env) (query : FounderQuery) (db : Db) : List FounderCard :=
  (page (query.accepts env) bestFirst query.limit (db.persons.rows.map (withScore db))).map
    fun row => founderCard row.1 row.2

def foundersEndpoint (env : Env) (credentials : Option Credentials) (now : Timestamp)
    (query : FounderQuery) : Tx (List FounderCard) := do
  let _ ← require .read env credentials now
  Tx.query (listFounders env query)

end List

/-- `_person`: the live row, or 404. -/
def livePerson (personId : Uuid) : Tx Person := do
  let person? ← Tx.query fun db => db.persons.rows.find? fun person =>
    person.id = personId ∧ person.mergedIntoId = none
  match person? with
  | none => throw (Exc.notFound "Founder")
  | some person => return person

theorem reads_livePerson (personId : Uuid) : Tx.Reads (livePerson personId) := by
  refine Tx.Reads.bind (Tx.Reads.query _) fun person? => ?_
  cases person? with
  | none => exact Tx.Reads.throw _
  | some person => exact Tx.Reads.pure _

def founderProfileEndpoint (env : Env) (credentials : Option Credentials) (now : Timestamp)
    (personId : Uuid) : Tx FounderProfile := do
  let _ ← require .read env credentials now
  let person ← livePerson personId
  let score? ← Tx.query fun db => db.founderScores.find? person.id
  return profileOf person score?

def rescoreJob (orgId personId : Uuid) (score : FounderScore) (d : DealDraws) : Job where
  id := d.jobId
  orgId := some orgId
  kind := "score.founder"
  status := .succeeded
  targetType := some "person"
  targetId := some personId
  progress := 100
  result := .founderScore personId score.score
  startedAt := some d.now
  finishedAt := some d.now
  createdAt := d.now

/-- The score is the row as the session has it. -/
def rescoreFounderEndpoint (env : Env) (credentials : Option Credentials) (d : DealDraws)
    (personId : Uuid) : Tx Uuid := do
  let principal ← require .screen env credentials d.now
  let _ ← livePerson personId
  recomputeFounderScore env personId d.now
  let score ← refreshRow fun db => db.founderScores.find? personId
  Tx.stage (.insertJob (rescoreJob principal.orgId personId score d))
  Tx.commit
  return d.jobId

def mergeFounderEndpoint (env : Env) (credentials : Option Credentials) (now : Timestamp)
    (personId loserId : Uuid) : Tx (Uuid × Uuid) := do
  let _ ← require .admin env credentials now
  let winner ← livePerson personId
  let loser ← livePerson loserId
  Tx.stage (.mergePerson loser.id winner.id)
  Tx.commit
  return (winner.id, loser.id)

def gdprEraseEndpoint (env : Env) (credentials : Option Credentials) (now : Timestamp)
    (personId : Uuid) : Tx Uuid := do
  let _ ← require .admin env credentials now
  let person? ← Tx.query fun db => db.persons.find? personId
  match person? with
  | none => throw (Exc.notFound "Founder")
  | some person => do
      Tx.stage (.erasePerson person.id)
      Tx.commit
      return person.id

end DolphinVC
