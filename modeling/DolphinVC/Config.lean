import DolphinVC.Db.Session

/-!
# Configuration and the libraries outside the repository

`Settings` keeps the settings the modelled functions read. `Env` adds the functions
of the standard library and of third-party packages that they call on strings:
SHA-256, Argon2, case folding, Unicode decomposition, URL parsing and PyJWT, and the
functions of `math`. Nothing is assumed about them here. An access token is represented by
the claims it signs.
-/

namespace DolphinVC

structure Settings where
  env : String := "dev"
  serviceToken : String := ""
  jwtAccessTtlMin : Nat := 15
  jwtRefreshTtlDays : Nat := 14
  decisionSlaHours : Nat := 24
  queueEager : Bool := false
  demoMode : Bool := false

structure AccessToken where
  sub : Uuid
  org : Uuid
  role : UserRole
  scopes : List String
  iat : Timestamp
  exp : Timestamp

structure Env where
  settings : Settings := {}
  /-- `hashlib.sha256(token.encode()).hexdigest()` -/
  sha256 : String → String
  hashPassword : String → String
  verifyPassword : String → String → Bool
  casefold : String → String
  /-- NFKD decomposition without combining characters, case folded -/
  foldName : String → List Char
  /-- The database's `lower` -/
  lower : String → String := String.toLower
  /-- `str.upper` -/
  upper : String → String := String.toUpper
  /-- `urlsplit(url).hostname` -/
  hostname : String → Option String
  /-- The characters `str.split()` and `str.strip()` take for white space. -/
  isSpace : Char → Bool := Char.isWhitespace
  /-- The characters that `\w` matches. -/
  isWordChar : Char → Bool := fun c => c.isAlphanum ∨ c = '_'
  /-- The characters that `\d` matches, with their values. -/
  isDigit : Char → Bool := Char.isDigit
  digitValue : Char → Nat := fun c => c.toNat - 48
  /-- The letter of a pattern matches the character under `re.I`. -/
  sameLetter : Char → Char → Bool := fun x c => x.toLower = c.toLower
  /-- The functions of `math` on floating-point numbers -/
  maths : ScoreMaths Rat := ⟨fun _ => 1, fun _ => 1, fun _ => 1 / 2⟩
  /-- `decode_access_token` at a time, with `sub` and `org` read as UUIDs -/
  decodeAccessToken : String → Timestamp → Except Exc AccessToken

/-- Libraries that leave strings as they are, for concrete runs. -/
def plainEnv : Env where
  sha256 := id
  hashPassword := id
  verifyPassword h p := h = p
  casefold := id
  foldName := String.toList
  hostname := fun _ => none
  decodeAccessToken := fun _ _ => .error (Exc.unauthenticated)

/-- Libraries that know the letters and digits of ASCII, for concrete runs. -/
def asciiEnv : Env :=
  { plainEnv with casefold := fun s => String.ofList (s.toList.map Char.toLower) }

/-- A non-empty string, or nothing. -/
def given (value : Option String) : Option String := value.filter (· ≠ "")

/-- `re.sub(r"[^a-z0-9]+", " ", folded).strip()` on the folded name. -/
def normalizeName (env : Env) (value : String) : String :=
  let isWord (c : Char) : Bool := ('a' ≤ c ∧ c ≤ 'z') ∨ ('0' ≤ c ∧ c ≤ '9')
  let words := ((env.foldName value).splitOnP fun c => !isWord c).filter fun w => !w.isEmpty
  String.ofList (words.intersperse [' ']).flatten

def slugify (env : Env) (value : String) : String :=
  let slug := ((normalizeName env value).toList.map fun c => if c = ' ' then '-' else c).take 80
  if slug.isEmpty then "organization" else String.ofList slug

end DolphinVC
