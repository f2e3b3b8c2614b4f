import DolphinVC.Services.Ingestion
import Mathlib.Data.List.Sort

/-!
# Connectors

Each connector turns the items of its upstream's response into signals. The time at
which an item was observed is read off the item, and is the present where the item
carries none; `datetime.fromisoformat` is the parameter `fromIsoformat`, which may raise.

Of a response the model has the fields that `normalize` reads. The strength of a signal
is left out: no modelled function reads it.
-/

namespace DolphinVC

section StableHash

/-- The JSON values that payloads are made of; a float is given as Python prints it. -/
inductive PayloadValue where
  | null
  | int (n : Int)
  | float (repr : String)
  | string (s : String)
  | strings (items : List String)

def PayloadValue.ofOption : Option String → PayloadValue
  | none => .null
  | some s => .string s

def hexDigits (n : Nat) : List Char :=
  let digits := Nat.toDigits 16 n
  List.replicate (4 - digits.length) '0' ++ digits

def unicodeEscape (n : Nat) : List Char := '\\' :: 'u' :: hexDigits n

/-- A character as `json.dumps` writes it: ASCII only, with surrogate pairs beyond the
basic plane. -/
def escapeChar (c : Char) : List Char :=
  if c.toNat = 0x22 ∨ c.toNat = 0x5C then ['\\', c]
  else if c.toNat = 0x08 then ['\\', 'b']
  else if c.toNat = 0x09 then ['\\', 't']
  else if c.toNat = 0x0A then ['\\', 'n']
  else if c.toNat = 0x0C then ['\\', 'f']
  else if c.toNat = 0x0D then ['\\', 'r']
  else if 0x20 ≤ c.toNat ∧ c.toNat < 0x7F then [c]
  else if c.toNat < 0x10000 then unicodeEscape c.toNat
  else
    unicodeEscape (0xD800 + (c.toNat - 0x10000) / 0x400) ++
      unicodeEscape (0xDC00 + (c.toNat - 0x10000) % 0x400)

def dumpString (s : String) : String :=
  let quote := Char.ofNat 0x22
  String.ofList (quote :: s.toList.flatMap escapeChar ++ [quote])

def PayloadValue.dumps : PayloadValue → String
  | .null => "null"
  | .int n => toString n
  | .float repr => repr
  | .string s => dumpString s
  | .strings items => "[" ++ ",".intercalate (items.map dumpString) ++ "]"

/-- `json.dumps(..., sort_keys=True, separators=(",", ":"))` of a dictionary. -/
def dumpObject (fields : List (String × String)) : String :=
  let sorted := fields.insertionSort fun f g => f.1 ≤ g.1
  "\x7b" ++ ",".intercalate (sorted.map fun f => dumpString f.1 ++ ":" ++ f.2) ++ "\x7d"

def SignalKind.value : SignalKind → String
  | .repoActivity => "repo_activity"
  | .release => "release"
  | .packagePublish => "package_publish"
  | .paper => "paper"
  | .patent => "patent"
  | .hackathonResult => "hackathon_result"
  | .acceleratorCohort => "accelerator_cohort"
  | .launchPost => "launch_post"
  | .forumPost => "forum_post"
  | .socialPost => "social_post"
  | .press => "press"
  | .jobPost => "job_post"
  | .fundingFiling => "funding_filing"
  | .companyRegistry => "company_registry"
  | .domainRegistration => "domain_registration"
  | .tlsCertificate => "tls_certificate"
  | .websiteChange => "website_change"
  | .deckSlide => "deck_slide"
  | .interview => "interview"
  | .appRelease => "app_release"
  | .datasetModelPublish => "dataset_model_publish"
  | .other => "other"

/-- `NormalizedSignal.content_hash` -/
def contentHash (sha256 : String → String) (kind : SignalKind) (url title body : Option String)
    (payload : List (String × PayloadValue)) : String :=
  sha256 (dumpObject
    [("kind", dumpString kind.value), ("url", (PayloadValue.ofOption url).dumps),
      ("title", (PayloadValue.ofOption title).dumps), ("body", (PayloadValue.ofOption body).dumps),
      ("payload", dumpObject (payload.map fun f => (f.1, f.2.dumps)))])

end StableHash

section Normalize

variable (sha256 : String → String) (fromIsoformat : String → Except Exc Timestamp)

/-- The string as a condition: the empty one counts as absent. -/
def truthy (s : Option String) : Option String := s.filter (· ≠ "")

/-- `a or b` -/
def orElse (a b : Option String) : Option String := (truthy a).or b

def replaceZulu (timestamp : String) : String :=
  String.ofList (timestamp.toList.flatMap fun c => if c = 'Z' then "+00:00".toList else [c])

/-- When the item was observed: its timestamp, or else now. -/
def observedAt (timestamp : Option String) (now : Timestamp) : Except Exc Timestamp :=
  match truthy timestamp with
  | some timestamp => fromIsoformat (replaceZulu timestamp)
  | none => .ok now

structure GitHubItem where
  id : Option String
  htmlUrl : Option String
  fullName : Option String
  name : Option String
  description : Option String
  language : Option String
  topics : List String := []
  stargazersCount : Option Int := none
  forksCount : Option Int := none
  ownerLogin : Option String
  pushedAt : Option String
  updatedAt : Option String

def GitHubItem.timestamp (raw : GitHubItem) : Option String := orElse raw.pushedAt raw.updatedAt

def GitHubItem.payload (raw : GitHubItem) : List (String × PayloadValue) :=
  [("stars", .int (raw.stargazersCount.getD 0)), ("forks", .int (raw.forksCount.getD 0)),
    ("language", .ofOption raw.language), ("topics", .strings raw.topics),
    ("owner", .ofOption raw.ownerLogin)]

/-- `GitHubConnector.normalize` -/
def GitHubItem.normalize (raw : GitHubItem) (now : Timestamp) : Except Exc NormalizedSignal := do
  let observed ← observedAt fromIsoformat raw.timestamp now
  return {
    kind := .repoActivity
    externalId := raw.id
    url := raw.htmlUrl
    title := orElse raw.fullName raw.name
    body := raw.description
    stars := raw.stargazersCount.getD 0
    contentHash := contentHash sha256 .repoActivity raw.htmlUrl (orElse raw.fullName raw.name)
      raw.description raw.payload
    observedAt := observed
    identities := (truthy raw.ownerLogin).toList.map fun login => ⟨"github", login, 1⟩ }

structure HackerNewsItem where
  objectId : Option String
  url : Option String
  title : Option String
  storyTitle : Option String
  storyText : Option String
  commentText : Option String
  points : Option Int := none
  numComments : Option Int := none
  author : Option String
  createdAt : Option String

def HackerNewsItem.link (raw : HackerNewsItem) : Option String :=
  orElse raw.url ((truthy raw.objectId).map ("https://news.ycombinator.com/item?id=" ++ ·))

def HackerNewsItem.payload (raw : HackerNewsItem) : List (String × PayloadValue) :=
  [("points", .int (raw.points.getD 0)), ("comments", .int (raw.numComments.getD 0)),
    ("author", .ofOption raw.author)]

/-- `HackerNewsConnector.normalize` -/
def HackerNewsItem.normalize (raw : HackerNewsItem) (now : Timestamp) :
    Except Exc NormalizedSignal := do
  let observed ← observedAt fromIsoformat raw.createdAt now
  return {
    kind := .launchPost
    externalId := truthy raw.objectId
    url := raw.link
    title := orElse raw.title raw.storyTitle
    body := orElse raw.storyText raw.commentText
    contentHash := contentHash sha256 .launchPost raw.link (orElse raw.title raw.storyTitle)
      (orElse raw.storyText raw.commentText) raw.payload
    observedAt := observed
    identities := (truthy raw.author).toList.map fun author => ⟨"hackernews", author, 9 / 10⟩ }

structure ArxivItem where
  id : Option String
  url : Option String
  title : Option String
  summary : Option String
  authors : List String := []
  categories : List String := []
  published : Option String

def ArxivItem.payload (raw : ArxivItem) : List (String × PayloadValue) :=
  [("authors", .strings raw.authors), ("categories", .strings raw.categories)]

/-- `ArxivConnector.normalize` -/
def ArxivItem.normalize (raw : ArxivItem) (now : Timestamp) : Except Exc NormalizedSignal := do
  let observed ← observedAt fromIsoformat raw.published now
  return {
    kind := .paper
    externalId := raw.id
    url := raw.url
    title := raw.title
    body := raw.summary
    contentHash := contentHash sha256 .paper raw.url raw.title raw.summary raw.payload
    observedAt := observed
    identities := raw.authors.map fun author => ⟨"author_name", author, 45 / 100⟩ }

structure TavilyItem where
  url : Option String
  title : Option String
  content : Option String
  score : PayloadValue := .null

/-- `TavilyConnector.normalize` -/
def TavilyItem.normalize (raw : TavilyItem) (now : Timestamp) : Except Exc NormalizedSignal :=
  return {
    kind := .press
    url := raw.url
    title := raw.title
    body := raw.content
    contentHash := contentHash sha256 .press raw.url raw.title raw.content [("score", raw.score)]
    observedAt := now }

inductive RawItem where
  | github (raw : GitHubItem)
  | hackernews (raw : HackerNewsItem)
  | arxiv (raw : ArxivItem)
  | tavily (raw : TavilyItem)

def RawItem.normalize (now : Timestamp) : RawItem → Except Exc NormalizedSignal
  | .github raw => raw.normalize sha256 fromIsoformat now
  | .hackernews raw => raw.normalize sha256 fromIsoformat now
  | .arxiv raw => raw.normalize sha256 fromIsoformat now
  | .tavily raw => raw.normalize sha256 now

/-- What `harvest` makes of a response. -/
def normalizeAll (now : Timestamp) : List RawItem → Except Exc (List NormalizedSignal)
  | [] => return []
  | raw :: rest => do
      let item ← raw.normalize sha256 fromIsoformat now
      let items ← normalizeAll now rest
      return item :: items

/-- The item's own timestamp, where its connector reads one. -/
def RawItem.timestamp : RawItem → Option String
  | .github raw => truthy raw.timestamp
  | .hackernews raw => truthy raw.createdAt
  | .arxiv raw => truthy raw.published
  | .tavily _ => none

variable {sha256 fromIsoformat} {now now' : Timestamp} {raw : RawItem} {raws : List RawItem}

/-- The time of a dated item is its own. -/
theorem normalize_of_dated (h : raw.timestamp ≠ none) :
    raw.normalize sha256 fromIsoformat now = raw.normalize sha256 fromIsoformat now' := by
  have dated {timestamp : Option String} (h : truthy timestamp ≠ none) :
      observedAt fromIsoformat timestamp now = observedAt fromIsoformat timestamp now' := by
    unfold observedAt
    cases htruthy : truthy timestamp with
    | none => exact absurd htruthy h
    | some timestamp => rfl
  cases raw with
  | github raw => simp only [RawItem.normalize, GitHubItem.normalize, dated h]
  | hackernews raw => simp only [RawItem.normalize, HackerNewsItem.normalize, dated h]
  | arxiv raw => simp only [RawItem.normalize, ArxivItem.normalize, dated h]
  | tavily raw => exact absurd rfl h

/-- The time of any other item is the present. -/
theorem normalize_of_undated (h : raw.timestamp = none) :
    ∃ item, raw.normalize sha256 fromIsoformat now = .ok item ∧ item.observedAt = now := by
  have undated {timestamp : Option String} (h : truthy timestamp = none) :
      observedAt fromIsoformat timestamp now = .ok now := by
    unfold observedAt
    rw [h]
  cases raw with
  | github raw =>
      simp only [RawItem.normalize, GitHubItem.normalize, undated h]
      exact ⟨_, rfl, rfl⟩
  | hackernews raw =>
      simp only [RawItem.normalize, HackerNewsItem.normalize, undated h]
      exact ⟨_, rfl, rfl⟩
  | arxiv raw =>
      simp only [RawItem.normalize, ArxivItem.normalize, undated h]
      exact ⟨_, rfl, rfl⟩
  | tavily raw => exact ⟨_, rfl, rfl⟩

theorem normalizeAll_cons_eq_ok {items : List NormalizedSignal} :
    normalizeAll sha256 fromIsoformat now (raw :: raws) = .ok items ↔
      ∃ item rest, raw.normalize sha256 fromIsoformat now = .ok item ∧
        normalizeAll sha256 fromIsoformat now raws = .ok rest ∧ items = item :: rest := by
  simp only [normalizeAll]
  cases raw.normalize sha256 fromIsoformat now with
  | error e => simp [bind, Except.bind]
  | ok item =>
      cases normalizeAll sha256 fromIsoformat now raws with
      | error e => simp [bind, Except.bind]
      | ok rest => simp [bind, Except.bind, pure, Except.pure, eq_comm]

/-- The items of a harvest are those of its response. -/
theorem mem_of_normalizeAll {items : List NormalizedSignal} {item : NormalizedSignal}
    (h : normalizeAll sha256 fromIsoformat now raws = .ok items) :
    item ∈ items ↔ ∃ raw ∈ raws, raw.normalize sha256 fromIsoformat now = .ok item := by
  induction raws generalizing items with
  | nil =>
      cases h
      simp
  | cons raw raws ih =>
      obtain ⟨item', rest, hitem, hrest, rfl⟩ := normalizeAll_cons_eq_ok.mp h
      simp only [List.mem_cons, ih hrest, exists_eq_or_imp, hitem, Except.ok.injEq]
      exact or_congr_left eq_comm

/-- Each item of the response was normalized. -/
theorem exists_of_normalizeAll {items : List NormalizedSignal}
    (h : normalizeAll sha256 fromIsoformat now raws = .ok items) (hraw : raw ∈ raws) :
    ∃ item, raw.normalize sha256 fromIsoformat now = .ok item := by
  induction raws generalizing items with
  | nil => cases hraw
  | cons raw' raws ih =>
      obtain ⟨item, rest, hitem, hrest, -⟩ := normalizeAll_cons_eq_ok.mp h
      obtain rfl | hraw := List.mem_cons.mp hraw
      · exact ⟨item, hitem⟩
      · exact ih hrest hraw

end Normalize

end DolphinVC
