import CppAiService.Foundation.Log
import CppAiService.UserStore

namespace CppAiService.UserStore

open Bytes HttpCodec

/-- The calls that change the store, with what they meet outside the process. -/
inductive Call
  | registerUser (username password inviteCode clientId : Bytes) (now : ℤ) (device : ℕ → UInt32)
      (outcome : AppendOutcome)
  | login (username password : Bytes) (now : ℤ) (device : ℕ → UInt32)
  | authenticateBearerToken (authorizationHeader : Bytes) (now : ℤ)

abbrev Stored := UserStore × Option Bytes

abbrev History := List (Call × AuthResult)

def call (s : Stored) : Call → Option (AuthResult × Stored)
  | .registerUser username password inviteCode clientId now device outcome =>
    some (s.1.registerUser s.2 username password inviteCode clientId now device outcome)
  | .login username password now device =>
    let (result, store) := s.1.login username password now device
    some (result, store, s.2)
  | .authenticateBearerToken authorizationHeader now =>
    let (result, store) := s.1.authenticateBearerToken authorizationHeader now
    some (result, store, s.2)

/-- A new process. It goes on when its file cannot be loaded. -/
def start (inviteCode : Bytes) (sessionTtlSeconds registrationLimitPerMinute : ℕ)
    (directoryOk : Bool) (file : Option Bytes) : Stored :=
  (((create inviteCode sessionTtlSeconds registrationLimitPerMinute).load directoryOk file).2.2,
    file)

variable {s : UserStore} {file : Option Bytes} {username password inviteCode clientId : Bytes}
  {now : ℤ} {device : ℕ → UInt32} {outcome : AppendOutcome}

theorem call_possible (s : Stored) (c : Call) : ∃ result t, call s c = some (result, t) := by
  cases c <;> exact ⟨_, _, rfl⟩

theorem call_login (s : Stored) (username password : Bytes) (now : ℤ) (device : ℕ → UInt32) :
    call s (.login username password now device) =
      some ((s.1.login username password now device).1,
        (s.1.login username password now device).2, s.2) := rfl

theorem call_authenticate (s : Stored) (authorizationHeader : Bytes) (now : ℤ) :
    call s (.authenticateBearerToken authorizationHeader now) =
      some ((s.1.authenticateBearerToken authorizationHeader now).1,
        (s.1.authenticateBearerToken authorizationHeader now).2, s.2) := rfl

theorem isRegistrationLimitedLocked_frame (s : UserStore) (clientId : Bytes) (now : ℤ) :
    ∃ attempts, (s.isRegistrationLimitedLocked clientId now).2 =
      { s with registrationAttempts_ := attempts } := by
  unfold isRegistrationLimitedLocked
  dsimp only
  split_ifs <;> exact ⟨_, rfl⟩

/-- A registration leaves the sessions and the settings alone. -/
theorem registerUser_frame (s : UserStore) (file : Option Bytes)
    (username password inviteCode clientId : Bytes) (now : ℤ) (device : ℕ → UInt32)
    (outcome : AppendOutcome) :
    ∃ users attempts, (s.registerUser file username password inviteCode clientId now device
      outcome).2.1 = { s with users_ := users, registrationAttempts_ := attempts } := by
  obtain ⟨attempts, hlimited⟩ := isRegistrationLimitedLocked_frame s clientId now
  unfold registerUser
  cases (validateUsername username).orElse fun _ ↦ validatePassword password with
  | some error => exact ⟨s.users_, s.registrationAttempts_, rfl⟩
  | none =>
    generalize s.isRegistrationLimitedLocked clientId now = r at hlimited ⊢
    obtain ⟨limited, t⟩ := r
    obtain rfl : t = _ := hlimited
    dsimp only
    split_ifs
    · exact ⟨s.users_, attempts, rfl⟩
    · exact ⟨s.users_, attempts, rfl⟩
    · exact ⟨s.users_, attempts, rfl⟩
    · cases outcome <;> exact ⟨_, attempts, rfl⟩

/-- A login is refused and changes nothing, or opens a session for a known account. -/
theorem login_cases (s : UserStore) (username password : Bytes) (now : ℤ)
    (device : ℕ → UInt32) :
    (((s.login username password now device).1.ok = false ∧
      (s.login username password now device).2 = s) ∨
    ∃ found session, s.users_.lookup username = some found ∧
      session = (⟨randomHex device 32, ⟨found.username, found.role⟩,
        now + seconds s.sessionTtlSeconds_⟩ : SessionInfo) ∧
      s.login username password now device =
        ({ AuthResult.initial with ok := true, user := session.user, session := session },
          { s with sessions_ := s.sessions_.insert session.token session })) := by
  unfold login
  cases hfound : s.users_.lookup username with
  | none => exact .inl ⟨rfl, rfl⟩
  | some found =>
    dsimp only
    split_ifs
    · exact .inl ⟨rfl, rfl⟩
    · exact .inr ⟨found, _, rfl, rfl, rfl⟩

/-- An authentication changes at most the session of its own token, and that one only when it
has expired. -/
theorem authenticateBearerToken_cases (s : UserStore) (authorizationHeader : Bytes) (now : ℤ) :
    (s.authenticateBearerToken authorizationHeader now).2 = s ∨
    ∃ found, s.sessions_.lookup (trim (authorizationHeader.drop 7)) = some found ∧
      found.expiresAt ≤ now ∧ (s.authenticateBearerToken authorizationHeader now).2 =
        { s with sessions_ := s.sessions_.erase (trim (authorizationHeader.drop 7)) } := by
  have hlength : (lit "Bearer ").length = 7 := by decide
  unfold authenticateBearerToken
  dsimp only
  rw [hlength]
  split_ifs
  · exact .inl rfl
  · exact .inl rfl
  · cases hfound : s.sessions_.lookup (trim (authorizationHeader.drop 7)) with
    | none => exact .inl rfl
    | some found =>
      dsimp only
      split_ifs with hexpired
      · exact .inr ⟨found, rfl, hexpired, rfl⟩
      · exact .inl rfl

theorem call_login_frame {s t : Stored} {result : AuthResult}
    (h : call s (.login username password now device) = some (result, t)) :
    ∃ sessions, t = ({ s.1 with sessions_ := sessions }, s.2) := by
  rw [call_login, Option.some.injEq, Prod.mk.injEq] at h
  obtain ⟨-, rfl⟩ := h
  obtain ⟨-, hsame⟩ | ⟨found, session, -, -, hlogin⟩ :=
    login_cases s.1 username password now device
  · exact ⟨s.1.sessions_, by rw [hsame]⟩
  · exact ⟨s.1.sessions_.insert session.token session, by rw [hlogin]⟩

theorem call_authenticate_frame {s t : Stored} {result : AuthResult} {header : Bytes}
    (h : call s (.authenticateBearerToken header now) = some (result, t)) :
    ∃ sessions, t = ({ s.1 with sessions_ := sessions }, s.2) := by
  rw [call_authenticate, Option.some.injEq, Prod.mk.injEq] at h
  obtain ⟨-, rfl⟩ := h
  obtain hsame | ⟨found, -, -, herase⟩ := authenticateBearerToken_cases s.1 header now
  · exact ⟨s.1.sessions_, by rw [hsame]⟩
  · exact ⟨s.1.sessions_.erase (trim (header.drop 7)), by rw [herase]⟩

/-- The answer to a bearer token. -/
theorem authenticate_bearer (s : UserStore) (w : Bytes) (now : ℤ) :
    ((s.authenticateBearerToken (lit "Bearer " ++ w) now).1.ok = true ↔ trim w ≠ [] ∧
      ∃ session, s.sessions_.lookup (trim w) = some session ∧ now < session.expiresAt) ∧
    ∀ session, s.sessions_.lookup (trim w) = some session →
      (s.authenticateBearerToken (lit "Bearer " ++ w) now).1.ok = true →
        (s.authenticateBearerToken (lit "Bearer " ++ w) now).1.user = session.user := by
  have htake : (lit "Bearer " ++ w).take (lit "Bearer ").length = lit "Bearer " :=
    List.take_left' rfl
  have hdrop : (lit "Bearer " ++ w).drop (lit "Bearer ").length = w := List.drop_left' rfl
  unfold authenticateBearerToken
  dsimp only
  rw [htake, hdrop, if_neg (not_not_intro rfl)]
  by_cases hempty : trim w = []
  · simp [hempty, AuthResult.refused, AuthResult.initial]
  · rw [if_neg hempty]
    cases hfound : s.sessions_.lookup (trim w) with
    | none => simp [AuthResult.refused, AuthResult.initial]
    | some found =>
      dsimp only
      split_ifs with hexpired
      · simp [AuthResult.refused, AuthResult.initial, hexpired]
      · simpa [hempty] using hexpired

end CppAiService.UserStore
