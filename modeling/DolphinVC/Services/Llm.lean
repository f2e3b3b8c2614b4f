import DolphinVC.Config
import DolphinVC.Text.Json

/-!
# The gateway to the language models

`complete` asks the configured providers one after the other. What a provider answers is a
JSON value of any shape, so the operations that Python applies to it (subscripts, `.get`,
`int`, `or`) are functions that can raise, each with the class that Python raises there.

A gateway comes with the answers of its providers, with `json.loads` and `int` on texts, with
the integers that a column of the database holds and with the measured latencies.
-/

namespace DolphinVC

/-- The classes that tell where an exception is caught. -/
inductive LlmExc where
  | httpError (className : String)
  | valueError (className : String)
  | validationError
  | keyError
  | indexError
  | typeError
  | attributeError
  | overflowError
  | other (className : String)
  | app (error : AppError) (details : List (String × List String))

/-- `type(exc).__name__` -/
def LlmExc.className : LlmExc → String
  | .httpError className => className
  | .valueError className => className
  | .validationError => "ValidationError"
  | .keyError => "KeyError"
  | .indexError => "IndexError"
  | .typeError => "TypeError"
  | .attributeError => "AttributeError"
  | .overflowError => "OverflowError"
  | .other className => className
  | .app _ _ => "AppError"

/-- `except (httpx.HTTPError, KeyError, ValueError, ValidationError)` -/
def LlmExc.isCaught : LlmExc → Bool
  | .httpError _ => true
  | .valueError _ => true
  | .validationError => true
  | .keyError => true
  | _ => false

end DolphinVC

namespace JsonValue

open DolphinVC

def truthy : JsonValue → Bool
  | .null => false
  | .bool b => b
  | .int n => n ≠ 0
  | .float (.finite q) => q ≠ 0
  | .float _ => true
  | .string s => s ≠ ""
  | .list items => ¬items.isEmpty
  | .dict fields => ¬fields.isEmpty

/-- `x or default` -/
def orElse (x default : JsonValue) : JsonValue := if x.truthy then x else default

/-- `x[key]` for a text. -/
def item (key : String) : JsonValue → Except LlmExc JsonValue
  | .dict fields => (lookup key fields).elim (.error .keyError) .ok
  | _ => .error .typeError

/-- `x[0]`; the keys of an object are texts. -/
def first : JsonValue → Except LlmExc JsonValue
  | .list (x :: _) => .ok x
  | .list [] => .error .indexError
  | .string s => s.toList.head?.elim (.error .indexError) fun c => .ok (.string c.toString)
  | .dict _ => .error .keyError
  | _ => .error .typeError

/-- `x.get(key)` -/
def get (key : String) : JsonValue → Except LlmExc JsonValue
  | .dict fields => .ok ((lookup key fields).getD .null)
  | _ => .error .attributeError

/-- `int(x)` -/
def toInt (intOfText : String → Option Int) : JsonValue → Except LlmExc Int
  | .int n => .ok n
  | .bool b => .ok (if b then 1 else 0)
  | .float (.finite q) => .ok (q.num.tdiv q.den)
  | .float .infinite => .error .overflowError
  | .float .nan => .error (.valueError "ValueError")
  | .string s => (intOfText s).elim (.error (.valueError "ValueError")) .ok
  | _ => .error .typeError

end JsonValue

namespace DolphinVC

inductive Purpose where
  | extract | axis | memo | search | validate

structure Provider where
  name : String
  baseUrl : String
  apiKey : String
  model : String

structure LlmSettings where
  openaiApiKey : String := ""
  openaiBaseUrl : String := "https://api.openai.com/v1"
  openaiModelFast : String := "gpt-4.1-mini"
  nvidiaNimApiKey : String := ""
  nvidiaNimBaseUrl : String := "https://integrate.api.nvidia.com/v1"
  nvidiaModelReasoning : String := "meta/llama-3.3-70b-instruct"

def configuredProviders (settings : LlmSettings) : List Provider :=
  (if settings.openaiApiKey = "" then []
    else [⟨"openai", settings.openaiBaseUrl, settings.openaiApiKey, settings.openaiModelFast⟩]) ++
  (if settings.nvidiaNimApiKey = "" then []
    else [⟨"nvidia_nim", settings.nvidiaNimBaseUrl, settings.nvidiaNimApiKey,
      settings.nvidiaModelReasoning⟩])

/-- One POST with its status check and the decoding of its body. -/
inductive Post where
  /-- `httpx.TimeoutException` or `httpx.NetworkError` -/
  | unreachable (className : String)
  /-- Any other `httpx.HTTPError`, the status errors among them -/
  | refused (className : String)
  | undecodable (className : String)
  | body (value : JsonValue)

def Post.isRetried : Post → Bool
  | .unreachable _ => true
  | _ => false

def Post.answer : Post → Except LlmExc JsonValue
  | .unreachable className => .error (.httpError className)
  | .refused className => .error (.httpError className)
  | .undecodable className => .error (.valueError className)
  | .body value => .ok value

/-- `json.loads` of a text -/
inductive Loaded where
  | value (v : JsonValue)
  /-- A `ValueError` -/
  | invalid (className : String)
  /-- Whatever else it raises -/
  | failed (className : String)

def Loaded.result : Loaded → Except LlmExc JsonValue
  | .value v => .ok v
  | .invalid className => .error (.valueError className)
  | .failed className => .error (.other className)

structure LLMCall where
  orgId : Option Uuid
  jobId : Option Uuid
  provider : String
  model : String
  purpose : Purpose
  status : String
  promptTokens : Int
  completionTokens : Int
  costUsd : Rat := 0
  latencyMs : Int
  cached : Bool := false
  error : Option String

structure Gateway where
  hasSession : Bool
  /-- The answers of a provider to the attempts at one request -/
  posts : Provider → Nat → Post
  loads : String → Loaded
  intOfText : String → Option Int
  /-- An INTEGER column holds the number. -/
  fits : Int → Bool
  latencyMs : Provider → Int

/-- `Model` is the type of the schema's instances, `none` a `ValidationError`. -/
structure Completion (Model : Type) where
  purpose : Purpose
  schema : Option (JsonValue → Option Model)
  orgId : Option Uuid := none
  jobId : Option Uuid := none

structure LLMResult (Model : Type) where
  content : JsonValue
  parsed : Option Model
  provider : String
  model : String
  cached : Bool := false
  costUsd : Rat := 0

section Gateway

variable {Model : Type} (gateway : Gateway) (request : Completion Model) (provider : Provider)

/-- The rows added to the session, and how the call ended. -/
abbrev WithCalls (α : Type) := List LLMCall × Except LlmExc α

/-- Up to three attempts; the last exception is the one raised. -/
def openaiCompatible : Except LlmExc JsonValue :=
  let post := gateway.posts provider
  if (post 0).isRetried then
    if (post 1).isRetried then (post 2).answer else (post 1).answer
  else (post 0).answer

/-- `int(usage.get(key) or 0)` -/
def tokenCount (usage : JsonValue) (key : String) : Except LlmExc Int := do
  let count ← usage.get key
  (count.orElse (.int 0)).toInt gateway.intOfText

/-- `_record`; a number that does not fit its column makes the flush raise. -/
def recordCall (status : String) (usage : JsonValue) (error : Option String) : WithCalls Unit :=
  if ¬gateway.hasSession then ([], .ok ())
  else
    let usage := usage.orElse (.dict [])
    match tokenCount gateway usage "prompt_tokens",
      tokenCount gateway usage "completion_tokens" with
    | .error e, _ => ([], .error e)
    | .ok _, .error e => ([], .error e)
    | .ok promptTokens, .ok completionTokens =>
        ([{ orgId := request.orgId, jobId := request.jobId, provider := provider.name
            model := provider.model, purpose := request.purpose, status
            promptTokens, completionTokens, latencyMs := gateway.latencyMs provider, error }],
          if gateway.fits promptTokens ∧ gateway.fits completionTokens then .ok ()
          else .error (.other "DBAPIError"))

/-- `payload["choices"][0]["message"]["content"]` -/
def messageContent (payload : JsonValue) : Except LlmExc JsonValue := do
  let choices ← payload.item "choices"
  let choice ← choices.first
  let message ← choice.item "message"
  message.item "content"

/-- `schema.model_validate(json.loads(content)) if schema else None` -/
def parseContent (content : JsonValue) : Except LlmExc (Option Model) :=
  match request.schema with
  | none => .ok none
  | some validate =>
      match content with
      | .string s => do
          let value ← (gateway.loads s).result
          match validate value with
          | some model => .ok (some model)
          | none => .error .validationError
      | _ => .error .typeError

/-- The `try` body up to the record. -/
def readAnswer : Except LlmExc (JsonValue × JsonValue × Option Model) := do
  let payload ← openaiCompatible gateway provider
  let content ← messageContent payload
  let parsed ← parseContent gateway request content
  let usage ← payload.get "usage"
  return (usage, content, parsed)

/-- The `try` body. -/
def tryProvider : WithCalls (LLMResult Model) :=
  match readAnswer gateway request provider with
  | .error e => ([], .error e)
  | .ok (usage, content, parsed) =>
      let (rows, recorded) := recordCall gateway request provider "ok" usage none
      (rows, recorded.map fun _ =>
        { content, parsed, provider := provider.name, model := provider.model })

/-- The loop over the providers, with the errors so far. -/
def completeFrom : List Provider → List String → WithCalls (LLMResult Model)
  | [], errors =>
      ([], .error (.app
        { code := "UPSTREAM_ERROR", message := "Every configured LLM provider failed."
          statusCode := 502, retryable := true } [("providers", errors)]))
  | provider :: rest, errors =>
      match tryProvider gateway request provider with
      | (rows, .ok result) => (rows, .ok result)
      | (rows, .error e) =>
          if e.isCaught then
            match recordCall gateway request provider "failed" .null (some e.className) with
            | (failed, .error e') => (rows ++ failed, .error e')
            | (failed, .ok ()) =>
                let (later, ended) :=
                  completeFrom rest (errors ++ [provider.name ++ ": " ++ e.className])
                (rows ++ failed ++ later, ended)
          else (rows, .error e)

/-- `complete`, for the list of providers it makes of its settings. -/
def complete (providers : List Provider) : WithCalls (LLMResult Model) :=
  if providers.isEmpty then
    ([], .error (.app
      { code := "SOURCE_UNAVAILABLE"
        message := "No LLM provider is configured; deterministic analysis remains available."
        statusCode := 503 } []))
  else completeFrom gateway request providers []

end Gateway
end DolphinVC
