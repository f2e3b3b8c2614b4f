import DolphinVC.Arithmetic.Binary64
import DolphinVC.Config
import DolphinVC.Transition.SlidingLog
import Mathlib.Data.Rat.Floor
import Mathlib.Logic.Function.Basic

/-!
# The rate limiter

`RateLimitMiddleware` keeps for each client, method and path the times at which it let a
request pass. The lock makes the check and the append one step, `dispatch`. Times are those
of the monotonic clock, in seconds. A time minus the window is exact or negative, the wait is the
float of two subtractions.

A `Limiter` adds to the process's `events` what was answered so far. It is never read back.
-/

namespace DolphinVC

open Binary64

/-- What the limiter reads of a request. The fields say what the server guarantees: a peer
address has no slash, a method is a token, and the path of a URL is empty or rooted. -/
structure Request where
  client : Option String
  method : String
  path : String
  host_plain : ∀ host ∈ client, '/' ∉ host.toList
  method_token : '/' ∉ method.toList ∧ ':' ∉ method.toList
  path_rooted : ∀ c ∈ path.toList.head?, c = '/'

/-- The limit and the window in seconds. -/
def rule (request : Request) : Nat × Nat :=
  let path := request.path.toList
  if "/healthz".toList <:+ path ∨ "/readyz".toList <:+ path ∨ "/metrics".toList <:+ path then
    (600, 60)
  else if "/auth/login".toList <:+: path ∨ "/auth/password/".toList <:+: path then (10, 900)
  else if "/public/apply".toList <:+: path ∧ request.method = "POST" then (5, 3600)
  else if "/search/".toList <:+: path then (60, 60)
  else if request.method ∈ ["POST", "PUT", "PATCH", "DELETE"] then (60, 60)
  else (300, 60)

/-- The limit that counts: ten times the rule's outside production. -/
def requestLimit (settings : Settings) (request : Request) : Nat :=
  if settings.env ∈ ["dev", "test", "demo"] then (rule request).1 * 10 else (rule request).1

def requestWindow (request : Request) : Rat := (rule request).2

def Request.key (request : Request) : String :=
  request.client.getD "unknown" ++ ":" ++ request.method ++ ":" ++ request.path

/-- The `X-RateLimit` headers. -/
structure RateHeaders where
  limit : Nat
  remaining : Int
  reset : Nat

inductive RateReply where
  | rejected (error : AppError) (headers : RateHeaders)
  | passed (headers : RateHeaders)

def RateReply.isPassed : RateReply → Bool
  | .rejected _ _ => false
  | .passed _ => true

def RateReply.headers : RateReply → RateHeaders
  | .rejected _ headers => headers
  | .passed headers => headers

/-- The `Retry-After` of a rejection. -/
def RateReply.retryAfter : RateReply → Option Nat
  | .rejected error _ => error.retryAfterS
  | .passed _ => none

def rateLimitExceeded (retryAfter : Nat) : AppError where
  code := "RATE_LIMITED"
  message := "Rate limit exceeded."
  statusCode := 429
  retryable := true
  retryAfterS := some retryAfter

/-- The seconds a rejected client is told to wait, at least one. -/
def retryAfter (window now oldest : Rat) : Nat :=
  (max 1 (Rounding.roundHalfEven (double (window - double (now - oldest))))).toNat

abbrev RequestTimes := String → List Rat

/-- A rejected request leaves its key without the times that are a window old. -/
def dispatch (settings : Settings) (request : Request) (now : Rat) (events : RequestTimes) :
    RateReply × RequestTimes :=
  let limit := requestLimit settings request
  let window := requestWindow request
  let bucket := SlidingLog.current window now (events request.key)
  if limit ≤ bucket.length then
    -- no limit is zero, so a full bucket has an oldest time
    let wait := retryAfter window now (bucket.headD now)
    (.rejected (rateLimitExceeded wait) ⟨limit, 0, wait⟩, Function.update events request.key bucket)
  else
    let bucket := bucket ++ [now]
    (.passed ⟨limit, limit - bucket.length, (rule request).2⟩,
      Function.update events request.key bucket)

structure Arrival where
  request : Request
  now : Rat

structure Served extends Arrival where
  reply : RateReply

structure Limiter where
  events : RequestTimes := fun _ => []
  served : List Served := []

def Limiter.reply (settings : Settings) (l : Limiter) (a : Arrival) : RateReply :=
  (dispatch settings a.request a.now l.events).1

def Limiter.step (settings : Settings) (l : Limiter) (a : Arrival) : Limiter where
  events := (dispatch settings a.request a.now l.events).2
  served := l.served ++ [{ a with reply := l.reply settings a }]

def Limiter.run (settings : Settings) (arrivals : List Arrival) : Limiter :=
  arrivals.foldl (Limiter.step settings) {}

/-- When requests of the key were let pass. -/
def admittedTimes (key : String) (served : List Served) : List Rat :=
  (served.filter fun s => s.request.key = key ∧ s.reply.isPassed).map fun s => s.now

end DolphinVC
