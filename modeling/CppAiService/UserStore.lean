import CppAiService.HttpCodec

namespace CppAiService

open Bytes HttpCodec

structure StoredUser where
  username : Bytes
  role : Bytes
  salt : Bytes
  passwordHash : Bytes
  deriving DecidableEq

structure UserProfile where
  username : Bytes
  role : Bytes
  deriving DecidableEq

/-- Time points and durations are counted in nanoseconds. -/
structure SessionInfo where
  token : Bytes
  user : UserProfile
  expiresAt : ℤ
  deriving DecidableEq

structure AuthResult where
  ok : Bool
  error : Bytes
  user : UserProfile
  session : SessionInfo
  deriving DecidableEq

def AuthResult.initial : AuthResult := ⟨false, [], ⟨[], []⟩, ⟨[], ⟨[], []⟩, 0⟩⟩

def AuthResult.refused (error : Bytes) : AuthResult := { AuthResult.initial with error := error }

/-- The members of the store; the file behind `path_` is passed along separately. -/
structure UserStore where
  inviteCode_ : Bytes
  sessionTtlSeconds_ : ℕ
  registrationLimitPerMinute_ : ℕ
  users_ : Map Bytes StoredUser
  sessions_ : Map Bytes SessionInfo
  registrationAttempts_ : Map Bytes (List ℤ)

/-- How the file system answers one append. A failing write may leave a prefix of
the record behind. -/
inductive AppendOutcome
  | noDirectory
  | openFails
  | writeFails (written : ℕ)
  | written

namespace UserStore

def seconds (n : ℕ) : ℤ := n * 10 ^ 9

def create (inviteCode : Bytes) (sessionTtlSeconds registrationLimitPerMinute : ℕ) : UserStore where
  inviteCode_ := inviteCode
  sessionTtlSeconds_ := sessionTtlSeconds
  registrationLimitPerMinute_ := registrationLimitPerMinute
  users_ := ∅
  sessions_ := ∅
  registrationAttempts_ := ∅

def validateUsername (username : Bytes) : Option Bytes :=
  if username.length < 3 ∨ 32 < username.length then
    some (lit "username must be 3 to 32 characters")
  else if username.any fun ch ↦ !isalnum ch && ch != ascii '_' && ch != ascii '-' then
    some (lit "username can only contain letters, numbers, underscores, and hyphens")
  else none

def validatePassword (password : Bytes) : Option Bytes :=
  if password.length < 8 ∨ 128 < password.length then
    some (lit "password must be 8 to 128 characters")
  else none

def toHex (value : UInt64) : Bytes := hexFilled 16 value.toNat

/-- The random device is read once for each byte. -/
def randomHex (device : ℕ → UInt32) (bytes : ℕ) : Bytes :=
  (List.range bytes).flatMap fun i ↦ hexFilled 2 (device i &&& 0xff).toNat

def absorb (hash : UInt64) (ch : Byte) : UInt64 := (hash ^^^ ch.toUInt64) * 1099511628211

def stretch (salt : Bytes) (hash : UInt64) (round : ℕ) : UInt64 :=
  salt.foldl absorb ((hash ^^^ UInt64.ofNat round) * 1099511628211)

def demoHashPassword (salt password : Bytes) : Bytes :=
  let hash := (salt ++ lit ":" ++ password).foldl absorb 1469598103934665603
  toHex ((List.range 4096).foldl (stretch salt) hash)

def recordLine (user : StoredUser) : Bytes :=
  lit "\x7b" ++
    lit "\"username\":\"" ++ jsonEscape user.username ++ lit "\"," ++
    lit "\"role\":\"" ++ jsonEscape user.role ++ lit "\"," ++
    lit "\"salt\":\"" ++ jsonEscape user.salt ++ lit "\"," ++
    lit "\"password_hash\":\"" ++ jsonEscape user.passwordHash ++ lit "\"" ++
    lit "\x7d\n"

/-- The error, if any, and the file afterwards. -/
def appendUserLocked (user : StoredUser) (file : Option Bytes) :
    AppendOutcome → Option Bytes × Option Bytes
  | .noDirectory => (some (lit "failed to create user data directory"), file)
  | .openFails => (some (lit "failed to open user data file"), file)
  | .writeFails written =>
    (some (lit "failed to write user data file"),
      some (file.getD [] ++ (recordLine user).take written))
  | .written => (none, some (file.getD [] ++ recordLine user))

def isRegistrationLimitedLocked (s : UserStore) (clientId : Bytes) (now : ℤ) : Bool × UserStore :=
  let windowStart := now - seconds 60
  let attempts := (s.registrationAttempts_.lookup clientId).getD []
  let kept := attempts.filter fun attempt ↦ windowStart ≤ attempt
  if s.registrationLimitPerMinute_ ≤ kept.length then
    (true, { s with registrationAttempts_ := s.registrationAttempts_.insert clientId kept })
  else
    (false,
      { s with registrationAttempts_ := s.registrationAttempts_.insert clientId (kept ++ [now]) })

def newUser (username password : Bytes) (device : ℕ → UInt32) : StoredUser :=
  let salt := randomHex device 16
  { username, role := lit "user", salt, passwordHash := demoHashPassword salt password }

def registerUser (s : UserStore) (file : Option Bytes)
    (username password inviteCode clientId : Bytes)
    (now : ℤ) (device : ℕ → UInt32) (outcome : AppendOutcome) :
    AuthResult × UserStore × Option Bytes :=
  match (validateUsername username).orElse fun _ ↦ validatePassword password with
  | some error => (.refused error, s, file)
  | none =>
    let (limited, s) := s.isRegistrationLimitedLocked clientId now
    if limited then (.refused (lit "too many registration attempts"), s, file)
    else if s.inviteCode_ ≠ [] ∧ inviteCode ≠ s.inviteCode_ then
      (.refused (lit "invalid invite code"), s, file)
    else if (s.users_.lookup username).isSome then
      (.refused (lit "username already exists"), s, file)
    else
      let user := newUser username password device
      match appendUserLocked user file outcome with
      | (some error, file) => (.refused error, s, file)
      | (none, file) =>
        ({ AuthResult.initial with ok := true, user := ⟨user.username, user.role⟩ },
          { s with users_ := s.users_.insert user.username user }, file)

def createSessionLocked (s : UserStore) (user : StoredUser) (now : ℤ) (device : ℕ → UInt32) :
    SessionInfo × UserStore :=
  let session : SessionInfo :=
    { token := randomHex device 32
      user := ⟨user.username, user.role⟩
      expiresAt := now + seconds s.sessionTtlSeconds_ }
  (session, { s with sessions_ := s.sessions_.insert session.token session })

def login (s : UserStore) (username password : Bytes) (now : ℤ) (device : ℕ → UInt32) :
    AuthResult × UserStore :=
  match s.users_.lookup username with
  | none => (.refused (lit "invalid username or password"), s)
  | some found =>
    if demoHashPassword found.salt password ≠ found.passwordHash then
      (.refused (lit "invalid username or password"), s)
    else
      let (session, s) := s.createSessionLocked found now device
      ({ AuthResult.initial with
          ok := true, user := ⟨found.username, found.role⟩, session := session }, s)

def authenticateBearerToken (s : UserStore) (authorizationHeader : Bytes) (now : ℤ) :
    AuthResult × UserStore :=
  let prefixText := lit "Bearer "
  if authorizationHeader.take prefixText.length ≠ prefixText then
    (.refused (lit "missing bearer token"), s)
  else
    let token := trim (authorizationHeader.drop prefixText.length)
    if token = [] then (.refused (lit "missing bearer token"), s)
    else
      match s.sessions_.lookup token with
      | none => (.refused (lit "invalid session token"), s)
      | some found =>
        if found.expiresAt ≤ now then
          (.refused (lit "session token expired"), { s with sessions_ := s.sessions_.erase token })
        else
          ({ AuthResult.initial with ok := true, user := found.user, session := found }, s)

def configJson (s : UserStore) : Bytes :=
  lit "\x7b" ++
    lit "\"user_count\":" ++ decimal s.users_.keys.length ++ lit "," ++
    lit "\"session_count\":" ++ decimal s.sessions_.keys.length ++ lit "," ++
    lit "\"invite_required\":" ++ lit (if s.inviteCode_ = [] then "false" else "true") ++ lit "," ++
    lit "\"session_ttl_seconds\":" ++ decimal s.sessionTtlSeconds_ ++ lit "," ++
    lit "\"registration_limit_per_minute\":" ++ decimal s.registrationLimitPerMinute_ ++ lit "," ++
    lit "\"password_hash\":\"demo_only_fnv1a\"" ++
    lit "\x7d"

/-- The lines that repeated `std::getline` calls deliver, given the line read so far. -/
def getlines (line : Bytes) : Bytes → List Bytes
  | [] => if line = [] then [] else [line]
  | ch :: rest => if ch = ascii '\n' then line :: getlines [] rest else getlines (line ++ [ch]) rest

def parseRecord (line : Bytes) : Option StoredUser := do
  let username ← extractJsonStringField line (lit "username")
  let role ← extractJsonStringField line (lit "role")
  let salt ← extractJsonStringField line (lit "salt")
  let passwordHash ← extractJsonStringField line (lit "password_hash")
  return { username, role, salt, passwordHash }

/-- The loop of `load`. The table is filled as the lines go, also when a later line
does not parse. -/
def loadLines : List Bytes → Map Bytes StoredUser → Bool × Map Bytes StoredUser
  | [], users => (true, users)
  | line :: lines, users =>
    if trim line = [] then loadLines lines users
    else
      match parseRecord line with
      | none => (false, users)
      | some user => loadLines lines (users.insert user.username user)

/-- The returned flag, the error text and the store; `file` is `none` when the file
cannot be opened. -/
def load (s : UserStore) (directoryOk : Bool) (file : Option Bytes) : Bool × Bytes × UserStore :=
  if !directoryOk then (false, lit "failed to create user data directory", s)
  else
    match file with
    | none => (true, [], s)
    | some contents =>
      let (ok, users) := loadLines (getlines [] contents) s.users_
      (ok, if ok then [] else lit "failed to parse user data file", { s with users_ := users })

@[simp] theorem isRegistrationLimitedLocked_users (s : UserStore) (clientId : Bytes) (now : ℤ) :
    (s.isRegistrationLimitedLocked clientId now).2.users_ = s.users_ := by
  unfold isRegistrationLimitedLocked
  dsimp only
  split_ifs <;> rfl

/-- What a registration can do to the table and the file: a refusal changes neither,
except that a failing write may leave a prefix of the record behind; a success adds
the record to both. -/
theorem registerUser_cases (s : UserStore) (file : Option Bytes)
    (username password inviteCode clientId : Bytes) (now : ℤ) (device : ℕ → UInt32)
    (outcome : AppendOutcome) (result : AuthResult) (s' : UserStore) (file' : Option Bytes)
    (h : s.registerUser file username password inviteCode clientId now device outcome =
      (result, s', file')) :
    (result.ok = false ∧ s'.users_ = s.users_ ∧
      (file' = file ∨ ∃ written, outcome = .writeFails written ∧
        file' = some (file.getD [] ++
          (recordLine (newUser username password device)).take written))) ∨
    (result.ok = true ∧ outcome = .written ∧
      validateUsername username = none ∧ validatePassword password = none ∧
      s.users_.lookup username = none ∧
      s'.users_ = s.users_.insert username (newUser username password device) ∧
      file' = some (file.getD [] ++ recordLine (newUser username password device))) := by
  have hl := isRegistrationLimitedLocked_users s clientId now
  revert h hl
  unfold registerUser
  cases hu : validateUsername username with
  | some error =>
    intro h _
    cases h
    exact .inl ⟨rfl, rfl, .inl rfl⟩
  | none =>
    cases hp : validatePassword password with
    | some error =>
      intro h _
      cases h
      exact .inl ⟨rfl, rfl, .inl rfl⟩
    | none =>
      obtain ⟨limited, s₁⟩ := s.isRegistrationLimitedLocked clientId now
      dsimp only [Option.orElse_none]
      intro h hl
      split_ifs at h with hlim hinv hdup
      · cases h
        exact .inl ⟨rfl, hl, .inl rfl⟩
      · cases h
        exact .inl ⟨rfl, hl, .inl rfl⟩
      · cases h
        exact .inl ⟨rfl, hl, .inl rfl⟩
      · have hfree : s.users_.lookup username = none := by
          rw [← hl]
          exact Option.not_isSome_iff_eq_none.mp hdup
        cases outcome with
        | noDirectory =>
          cases h
          exact .inl ⟨rfl, hl, .inl rfl⟩
        | openFails =>
          cases h
          exact .inl ⟨rfl, hl, .inl rfl⟩
        | writeFails written =>
          cases h
          exact .inl ⟨rfl, hl, .inr ⟨written, rfl, rfl⟩⟩
        | written =>
          cases h
          exact .inr ⟨rfl, rfl, rfl, rfl, hfree, by simp only [hl, newUser], rfl⟩

theorem isalnum_of_mem_randomHex {device : ℕ → UInt32} {n : ℕ} {ch : Byte}
    (h : ch ∈ randomHex device n) : isalnum ch = true := by
  obtain ⟨i, -, hi⟩ := List.mem_flatMap.mp h
  obtain ⟨d, hd, rfl⟩ := mem_hexFilled hi
  exact isalnum_hexDigit hd

theorem length_randomHex (device : ℕ → UInt32) (n : ℕ) : (randomHex device n).length = 2 * n := by
  simp [randomHex, List.length_flatMap, length_hexFilled, Nat.mul_comm]

theorem isalnum_of_mem_toHex {value : UInt64} {ch : Byte} (h : ch ∈ toHex value) :
    isalnum ch = true := by
  obtain ⟨d, hd, rfl⟩ := mem_hexFilled h
  exact isalnum_hexDigit hd

theorem login_ok_of_lookup {s : UserStore} {username password : Bytes} {user : StoredUser}
    (h : s.users_.lookup username = some user)
    (hp : demoHashPassword user.salt password = user.passwordHash) (now : ℤ)
    (device : ℕ → UInt32) : (s.login username password now device).1.ok = true := by
  simp only [login, h, hp, ne_eq, not_true_eq_false, ↓reduceIte]

theorem newUser_opens (username password : Bytes) (device : ℕ → UInt32) :
    demoHashPassword (newUser username password device).salt password =
      (newUser username password device).passwordHash := rfl

end UserStore

end CppAiService
