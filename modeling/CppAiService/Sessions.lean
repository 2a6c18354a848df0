import CppAiService.UserCalls
import CppAiService.UserFile

namespace CppAiService.Sessions

open Bytes HttpCodec UserStore Foundation.Run Foundation.Log

structure Login where
  username : Bytes
  token : Bytes
  user : UserProfile
  now : ℤ

def issued : Call × AuthResult → Option Login
  | (.login username _ now _, result) =>
    if result.ok then some ⟨username, result.session.token, result.user, now⟩ else none
  | _ => none

def logins (log : History) : List Login := log.filterMap issued

/-- The system clock as a call reads it; registration reads another clock. -/
def reading : Call → Option ℤ
  | .registerUser .. => none
  | .login _ _ now _ => some now
  | .authenticateBearerToken _ now => some now

def Valid (s : UserStore) (w : Bytes) (now : ℤ) : Prop :=
  (s.authenticateBearerToken (lit "Bearer " ++ w) now).1.ok = true

def Login.session (login : Login) (ttl : ℕ) : SessionInfo :=
  ⟨login.token, login.user, login.now + seconds ttl⟩

/-- The sessions are those of the logins in the log. One that is gone has been replaced by a
later login, or has been found to be over. -/
structure Tracked (ttl : ℕ) (s : Stored) (log : History) : Prop where
  lifetime : s.1.sessionTtlSeconds_ = ttl
  named : ∀ name user, s.1.users_.lookup name = some user → user.username = name
  account : ∀ login ∈ logins log, ∃ user, s.1.users_.lookup login.username = some user ∧
    login.user = ⟨login.username, user.role⟩
  token_ne : ∀ login ∈ logins log, login.token ≠ []
  sound : ∀ token session, s.1.sessions_.lookup token = some session →
    ∃ login ∈ logins log, login.token = token ∧ session = login.session ttl
  complete : ∀ login, Last (· = login) (·.token ≠ login.token) (logins log) →
    s.1.sessions_.lookup login.token = some (login.session ttl) ∨
      ∃ e ∈ log, ∃ r ∈ reading e.1, login.now + seconds ttl ≤ r

variable {ttl : ℕ} {s t : Stored} {log : History} {c : Call} {result : AuthResult}

theorem logins_append_of_none (h : issued (c, result) = none) :
    logins (log ++ [(c, result)]) = logins log := filterMap_append_of_none h

theorem logins_append_of_some {login : Login} (h : issued (c, result) = some login) :
    logins (log ++ [(c, result)]) = logins log ++ [login] := filterMap_append_of_some h

/-- A call that issues no session and changes none. -/
theorem Tracked.quiet (h : Tracked ttl s log) (hissued : issued (c, result) = none)
    (httl : t.1.sessionTtlSeconds_ = s.1.sessionTtlSeconds_)
    (hsessions : t.1.sessions_ = s.1.sessions_)
    (hnamed : ∀ name user, t.1.users_.lookup name = some user → user.username = name)
    (husers : ∀ name user, s.1.users_.lookup name = some user →
      t.1.users_.lookup name = some user) : Tracked ttl t (log ++ [(c, result)]) where
  lifetime := httl.trans h.lifetime
  named := hnamed
  account := by
    rw [logins_append_of_none hissued]
    intro login hlogin
    obtain ⟨user, hlookup, huser⟩ := h.account login hlogin
    exact ⟨user, husers _ _ hlookup, huser⟩
  token_ne := by
    rw [logins_append_of_none hissued]
    exact h.token_ne
  sound := by
    rw [logins_append_of_none hissued, hsessions]
    exact h.sound
  complete := by
    rw [logins_append_of_none hissued, hsessions]
    intro login hlast
    obtain hlookup | ⟨e, he, hover⟩ := h.complete login hlast
    · exact .inl hlookup
    · exact .inr ⟨e, List.mem_append_left _ he, hover⟩

theorem Tracked.login (h : Tracked ttl s log) {new : Login}
    (hissued : issued (c, result) = some new) (hne : new.token ≠ [])
    (haccount : ∃ user, s.1.users_.lookup new.username = some user ∧
      new.user = ⟨new.username, user.role⟩)
    (ht : t.1 = { s.1 with sessions_ := s.1.sessions_.insert new.token (new.session ttl) }) :
    Tracked ttl t (log ++ [(c, result)]) where
  lifetime := by rw [ht, ← h.lifetime]
  named := by
    rw [ht]
    exact h.named
  account := by
    rw [logins_append_of_some hissued, ht]
    intro login hlogin
    obtain hlogin | hlogin := List.mem_append.1 hlogin
    · exact h.account login hlogin
    · obtain rfl := List.mem_singleton.1 hlogin
      exact haccount
  token_ne := by
    rw [logins_append_of_some hissued]
    intro login hlogin
    obtain hlogin | hlogin := List.mem_append.1 hlogin
    · exact h.token_ne login hlogin
    · exact List.mem_singleton.1 hlogin ▸ hne
  sound := by
    rw [logins_append_of_some hissued, ht]
    intro token session hlookup
    by_cases htoken : token = new.token
    · subst htoken
      rw [AList.lookup_insert, Option.some.injEq] at hlookup
      exact ⟨new, List.mem_append_right _ (List.mem_singleton_self _), rfl, hlookup.symm⟩
    · rw [AList.lookup_insert_ne htoken] at hlookup
      obtain ⟨login, hlogin, hrest⟩ := h.sound token session hlookup
      exact ⟨login, List.mem_append_left _ hlogin, hrest⟩
  complete := by
    rw [logins_append_of_some hissued, ht]
    intro login hlast
    obtain rfl | ⟨hlast, hother⟩ := hlast.of_append
    · exact .inl (AList.lookup_insert _)
    · obtain hlookup | ⟨e, he, hover⟩ := h.complete login hlast
      · exact .inl ((AList.lookup_insert_ne (Ne.symm hother)).trans hlookup)
      · exact .inr ⟨e, List.mem_append_left _ he, hover⟩

/-- An expired session goes, and the call that found it out is in the log. -/
theorem Tracked.expire (h : Tracked ttl s log) (hissued : issued (c, result) = none) {now : ℤ}
    (hreading : reading c = some now) {token : Bytes} {found : SessionInfo}
    (hfound : s.1.sessions_.lookup token = some found) (hover : found.expiresAt ≤ now)
    (ht : t.1 = { s.1 with sessions_ := s.1.sessions_.erase token }) :
    Tracked ttl t (log ++ [(c, result)]) where
  lifetime := by rw [ht, ← h.lifetime]
  named := by
    rw [ht]
    exact h.named
  account := by
    rw [logins_append_of_none hissued, ht]
    exact h.account
  token_ne := by
    rw [logins_append_of_none hissued]
    exact h.token_ne
  sound := by
    rw [logins_append_of_none hissued, ht]
    intro token' session hlookup
    by_cases htoken : token' = token
    · subst htoken
      rw [AList.lookup_erase] at hlookup
      cases hlookup
    · rw [AList.lookup_erase_ne htoken] at hlookup
      exact h.sound token' session hlookup
  complete := by
    rw [logins_append_of_none hissued, ht]
    intro login hlast
    obtain hlookup | ⟨e, he, hgone⟩ := h.complete login hlast
    · by_cases htoken : login.token = token
      · subst htoken
        obtain rfl := Option.some.inj (hfound.symm.trans hlookup)
        exact .inr ⟨_, List.mem_append_right _ (List.mem_singleton_self _), now, hreading, hover⟩
      · exact .inl ((AList.lookup_erase_ne htoken).trans hlookup)
    · exact .inr ⟨e, List.mem_append_left _ he, hgone⟩

theorem named_insert {users : Map Bytes StoredUser}
    (h : ∀ name user, users.lookup name = some user → user.username = name) (new : StoredUser)
    (name : Bytes) (user : StoredUser)
    (hlookup : (users.insert new.username new).lookup name = some user) : user.username = name := by
  by_cases hname : name = new.username
  · subst hname
    rw [AList.lookup_insert, Option.some.injEq] at hlookup
    exact hlookup ▸ rfl
  · rw [AList.lookup_insert_ne hname] at hlookup
    exact h name user hlookup

theorem Tracked.unchanged (h : Tracked ttl s log) (hissued : issued (c, result) = none)
    (hsame : t.1 = s.1) : Tracked ttl t (log ++ [(c, result)]) := by
  refine h.quiet hissued (by rw [hsame]) (by rw [hsame]) (by rw [hsame]; exact h.named) ?_
  intro _ _ hlookup
  rw [hsame]
  exact hlookup

theorem Tracked.registerUser (h : Tracked ttl s log) {username password inviteCode clientId : Bytes}
    {now : ℤ} {device : ℕ → UInt32} {outcome : AppendOutcome}
    (hcall : call s (.registerUser username password inviteCode clientId now device outcome) =
      some (result, t)) :
    Tracked ttl t (log ++ [(.registerUser username password inviteCode clientId now device outcome,
      result)]) := by
  obtain hcall := Option.some.inj hcall
  have ht : (s.1.registerUser s.2 username password inviteCode clientId now device
      outcome).2.1 = t.1 := by rw [hcall]
  obtain ⟨users, attempts, hframe⟩ := registerUser_frame s.1 s.2 username password inviteCode
    clientId now device outcome
  have hstore : t.1 = { s.1 with users_ := users, registrationAttempts_ := attempts } :=
    ht.symm.trans hframe
  obtain ⟨-, husers, -⟩ | ⟨-, -, -, -, hfree, husers, -⟩ := registerUser_cases _ _ _ _ _ _ _ _ _
    result t.1 t.2 hcall
  · refine h.quiet rfl (by rw [hstore]) (by rw [hstore]) ?_ fun _ _ hlookup ↦ husers ▸ hlookup
    rw [husers]
    exact h.named
  · refine h.quiet rfl (by rw [hstore]) (by rw [hstore]) ?_ ?_
    · rw [husers]
      exact named_insert h.named (newUser username password device)
    · intro name user hlookup
      have hname : name ≠ username := by
        intro heq
        subst heq
        cases hfree.symm.trans hlookup
      rw [husers, AList.lookup_insert_ne hname]
      exact hlookup

theorem Tracked.loginCall (h : Tracked ttl s log) (username password : Bytes) (now : ℤ)
    (device : ℕ → UInt32) (ht : t.1 = (s.1.login username password now device).2) :
    Tracked ttl t (log ++ [(.login username password now device,
      (s.1.login username password now device).1)]) := by
  obtain ⟨hno, hsame⟩ | ⟨found, session, hfound, hsession, hlogin⟩ :=
    login_cases s.1 username password now device
  · exact h.unchanged (if_neg (by simp [hno])) (ht.trans hsame)
  · have hname := h.named username found hfound
    have hissued : issued (.login username password now device,
        (s.1.login username password now device).1) =
        some ⟨username, session.token, session.user, now⟩ := by rw [hlogin]; rfl
    have htoken : session.token.length = 64 := by rw [hsession, length_randomHex]
    have hnew : session = Login.session ⟨username, session.token, session.user, now⟩ ttl := by
      rw [hsession, h.lifetime]
      rfl
    apply h.login hissued
    · intro hnil
      change session.token = [] at hnil
      rw [hnil] at htoken
      cases htoken
    · exact ⟨found, hfound, by rw [hsession, hname]⟩
    · rw [ht, hlogin, ← hnew]

theorem Tracked.step (h : Tracked ttl s log) (hcall : call s c = some (result, t)) :
    Tracked ttl t (log ++ [(c, result)]) := by
  cases c with
  | registerUser => exact h.registerUser hcall
  | login username password now device =>
    rw [call_login, Option.some.injEq, Prod.mk.injEq] at hcall
    obtain ⟨rfl, rfl⟩ := hcall
    exact h.loginCall username password now device rfl
  | authenticateBearerToken authorizationHeader now =>
    rw [call_authenticate, Option.some.injEq, Prod.mk.injEq] at hcall
    obtain ⟨rfl, rfl⟩ := hcall
    obtain hsame | ⟨found, hfound, hover, herase⟩ :=
      authenticateBearerToken_cases s.1 authorizationHeader now
    · exact h.unchanged rfl hsame
    · exact h.expire rfl rfl hfound hover herase

theorem loadLines_named {lines : List Bytes} {users : Map Bytes StoredUser}
    (h : ∀ name user, users.lookup name = some user → user.username = name) :
    ∀ name user, (loadLines lines users).2.lookup name = some user → user.username = name := by
  induction lines generalizing users with
  | nil => exact h
  | cons line lines ih =>
    rw [loadLines]
    split_ifs
    · exact ih h
    · cases parseRecord line with
      | none => exact h
      | some new => exact ih (named_insert h new)

theorem tracked_start (inviteCode : Bytes) (ttl limit : ℕ) (directoryOk : Bool)
    (file : Option Bytes) : Tracked ttl (start inviteCode ttl limit directoryOk file) [] := by
  have hempty : ∀ name user, (create inviteCode ttl limit).users_.lookup name = some user →
      user.username = name := fun _ _ h ↦ by cases h
  have hstart : ∃ users : Map Bytes StoredUser,
      (start inviteCode ttl limit directoryOk file).1 =
        { create inviteCode ttl limit with users_ := users } ∧
      ∀ name user, users.lookup name = some user → user.username = name := by
    cases directoryOk with
    | false => exact ⟨_, rfl, hempty⟩
    | true =>
      cases file with
      | none => exact ⟨_, rfl, hempty⟩
      | some contents => exact ⟨_, rfl, loadLines_named hempty⟩
  obtain ⟨users, hstart, hnamed⟩ := hstart
  refine ⟨?_, ?_, fun _ h ↦ absurd h List.not_mem_nil, fun _ h ↦ absurd h List.not_mem_nil, ?_, ?_⟩
  · rw [hstart]
    rfl
  · rw [hstart]
    exact hnamed
  · intro token session hlookup
    rw [hstart] at hlookup
    cases hlookup
  · intro login hlast
    obtain ⟨before, entry, between, heq, -⟩ := hlast
    simp [logins] at heq

theorem Tracked.run {more : List Call} {u : Stored} {later : History} (h : Tracked ttl s log)
    (hrun : run (logged call) (s, log) more = some (u, later)) : Tracked ttl u later :=
  logged_inv (fun _ _ _ _ _ h hcall ↦ h.step hcall) h hrun

/-- Of distinct tokens each is the last of its kind. -/
theorem last_of_nodup {log : List Login} (h : (log.map Login.token).Nodup) {login : Login}
    (hlogin : login ∈ log) : Last (· = login) (·.token ≠ login.token) log := by
  obtain ⟨before, between, rfl⟩ := List.append_of_mem hlogin
  refine ⟨before, login, between, rfl, rfl, fun other hother htoken ↦ ?_⟩
  rw [List.map_append, List.map_cons] at h
  have hnotin := (List.nodup_cons.1 (List.nodup_append.1 h).2.1).1
  exact hnotin (htoken ▸ List.mem_map_of_mem hother)

theorem Tracked.sound_valid (h : Tracked ttl s log) {w : Bytes} {now : ℤ}
    (hvalid : Valid s.1 w now) : ∃ login ∈ logins log, login.token = trim w ∧
      now < login.now + seconds ttl ∧
      (s.1.authenticateBearerToken (lit "Bearer " ++ w) now).1.user = login.user := by
  obtain ⟨hiff, huser⟩ := authenticate_bearer s.1 w now
  obtain ⟨-, session, hlookup, hbefore⟩ := hiff.1 hvalid
  obtain ⟨login, hlogin, htoken, rfl⟩ := h.sound _ _ hlookup
  exact ⟨login, hlogin, htoken, hbefore, huser _ hlookup hvalid⟩

theorem Tracked.complete_valid (h : Tracked ttl s log)
    (htokens : ((logins log).map Login.token).Nodup) {w : Bytes} {now : ℤ}
    (hclock : ∀ e ∈ log, ∀ r ∈ reading e.1, r ≤ now) {login : Login} (hlogin : login ∈ logins log)
    (htoken : login.token = trim w) (hbefore : now < login.now + seconds ttl) :
    Valid s.1 w now := by
  apply (authenticate_bearer s.1 w now).1.2
  rw [← htoken]
  obtain hlookup | ⟨e, he, r, hr, hover⟩ := h.complete login (last_of_nodup htokens hlogin)
  · exact ⟨h.token_ne login hlogin, _, hlookup, hbefore⟩
  · have hclock := hclock e he r hr
    omega

theorem refused_login_eq {username password : Bytes} {now : ℤ} {device : ℕ → UInt32}
    {store : UserStore} (hno : (store.login username password now device).1.ok = false) :
    (store.login username password now device).2 = store := by
  obtain ⟨-, hsame⟩ | ⟨found, session, -, -, hlogin⟩ :=
    login_cases store username password now device
  · exact hsame
  · rw [hlogin] at hno
    cases hno

theorem valid_other_token_iff {header w : Bytes} {now t : ℤ} {store : UserStore}
    (hother : trim (header.drop 7) ≠ trim w) :
    Valid (store.authenticateBearerToken header now).2 w t ↔ Valid store w t := by
  obtain hsame | ⟨found, -, -, herase⟩ := authenticateBearerToken_cases store header now
  · rw [hsame]
  · rw [Valid, Valid, (authenticate_bearer _ w t).1, (authenticate_bearer _ w t).1, herase,
      AList.lookup_erase_ne (Ne.symm hother)]

/-- Distinct tokens and a clock that has not gone back: the tokens that open a session are
those of the logins less than the time to live ago. -/
theorem sessions_exact (inviteCode : Bytes) (ttl limit : ℕ) (directoryOk : Bool)
    (file : Option Bytes) (calls : List Call) {s : Stored} {log : History}
    (hrun : run (logged call) (start inviteCode ttl limit directoryOk file, []) calls =
      some (s, log))
    (htokens : ((logins log).map Login.token).Nodup) :
    (∀ w t, (∀ c ∈ calls, ∀ r ∈ reading c, r ≤ t) →
      (Valid s.1 w t ↔
        ∃ login ∈ logins log, login.token = trim w ∧ t < login.now + seconds ttl) ∧
      (Valid s.1 w t → ∀ login ∈ logins log, login.token = trim w →
        (s.1.authenticateBearerToken (lit "Bearer " ++ w) t).1.user = login.user ∧
        ∃ account, s.1.users_.lookup login.username = some account ∧
          login.user = ⟨login.username, account.role⟩)) ∧
    (∀ more u later, run (logged call) (s, log) more = some (u, later) →
      ((logins later).map Login.token).Nodup → ∀ login ∈ logins log, ∀ w t t',
        login.token = trim w → login.now + seconds ttl ≤ t → t ≤ t' → ¬ Valid u.1 w t') ∧
    (∀ username password now device, (s.1.login username password now device).1.ok = false →
      ∀ w t, Valid (s.1.login username password now device).2 w t ↔ Valid s.1 w t) ∧
    (∀ header now, (s.1.authenticateBearerToken header now).1.ok = false →
      ∀ w t, trim (header.drop 7) ≠ trim w →
        (Valid (s.1.authenticateBearerToken header now).2 w t ↔ Valid s.1 w t)) := by
  have h := (tracked_start inviteCode ttl limit directoryOk file).run hrun
  refine ⟨fun w t hclock ↦ ⟨⟨?_, ?_⟩, ?_⟩, ?_, ?_, ?_⟩
  · intro hvalid
    obtain ⟨login, hlogin, htoken, hbefore, -⟩ := h.sound_valid hvalid
    exact ⟨login, hlogin, htoken, hbefore⟩
  · intro hlogin
    obtain ⟨login, hlogin, htoken, hbefore⟩ := hlogin
    refine h.complete_valid htokens (fun e he ↦ hclock e.1 ?_) hlogin htoken hbefore
    have hactions := logged_actions hrun
    rw [List.map_nil, List.nil_append] at hactions
    exact hactions ▸ List.mem_map_of_mem he
  · intro hvalid login hlogin htoken
    obtain ⟨other, hmem, hsame, -, huser⟩ := h.sound_valid hvalid
    obtain rfl := List.inj_on_of_nodup_map htokens hmem hlogin (hsame.trans htoken.symm)
    exact ⟨huser, h.account _ hlogin⟩
  · intro more u later hmore hlater login hlogin w t t' htoken hover hle hvalid
    obtain ⟨other, hmem, hsame, hbefore, -⟩ := (h.run hmore).sound_valid hvalid
    obtain ⟨new, hnew⟩ := logged_prefix hmore
    have hlogin : login ∈ logins later := by
      rw [show later = log ++ new from hnew, logins, List.filterMap_append]
      exact List.mem_append_left _ hlogin
    obtain rfl := List.inj_on_of_nodup_map hlater hmem hlogin (hsame.trans htoken.symm)
    omega
  · intro username password now device hno w t
    rw [refused_login_eq hno]
  · intro header now _ w t hother
    exact valid_other_token_iff hother

/-- Alice registers and logs in; her token opens the session for a day. -/
theorem alice_session_open :
    ∃ s log, run (logged call) (start [] 86400 5 true none, [])
      [.registerUser (lit "alice") (lit "password") [] (lit "127.0.0.1") 0 (fun _ ↦ 0) .written,
        .login (lit "alice") (lit "password") 0 fun _ ↦ 0] = some (s, log) ∧
      Valid s.1 (randomHex (fun _ ↦ 0) 32) (seconds 86399) := by
  cases hstore : (start [] 86400 5 true none).1.registerUser none (lit "alice") (lit "password") []
    (lit "127.0.0.1") 0 (fun _ ↦ 0) .written with | mk result stored =>
  obtain ⟨store, file⟩ := stored
  have hregistered : result.ok = true := by
    rw [show result = (_, _).1 from rfl, ← hstore]
    decide
  obtain ⟨hno, -⟩ | ⟨-, -, -, -, -, husers, -⟩ := registerUser_cases _ _ _ _ _ _ _ _ _ _ _ _ hstore
  · rw [hregistered] at hno
    cases hno
  have hlookup : store.users_.lookup (lit "alice") =
      some (newUser (lit "alice") (lit "password") fun _ ↦ 0) := by
    rw [husers, AList.lookup_insert]
  have hok := login_ok_of_lookup hlookup (newUser_opens _ _ _) 0 fun _ ↦ 0
  obtain ⟨hno, -⟩ | ⟨found, session, -, hsession, hlogin⟩ :=
    login_cases store (lit "alice") (lit "password") 0 fun _ ↦ 0
  · rw [hok] at hno
    cases hno
  have hrun : run (logged call) (start [] 86400 5 true none, [])
      [.registerUser (lit "alice") (lit "password") [] (lit "127.0.0.1") 0 (fun _ ↦ 0) .written,
        .login (lit "alice") (lit "password") 0 fun _ ↦ 0] =
      some (((store.login (lit "alice") (lit "password") 0 fun _ ↦ 0).2, file),
        [(.registerUser (lit "alice") (lit "password") [] (lit "127.0.0.1") 0 (fun _ ↦ 0) .written,
          result), (.login (lit "alice") (lit "password") 0 fun _ ↦ 0,
          (store.login (lit "alice") (lit "password") 0 fun _ ↦ 0).1)]) := by
    rw [run_cons, logged, call]
    erw [hstore]
    rfl
  refine ⟨_, _, hrun, ?_⟩
  have hlogins : logins [(.registerUser (lit "alice") (lit "password") [] (lit "127.0.0.1") 0
      (fun _ ↦ 0) .written, result), (.login (lit "alice") (lit "password") 0 fun _ ↦ 0,
      (store.login (lit "alice") (lit "password") 0 fun _ ↦ 0).1)] =
      [⟨lit "alice", session.token, session.user, 0⟩] := by
    rw [hlogin]
    rfl
  refine ((sessions_exact [] 86400 5 true none _ hrun ?_).1 _ _ ?_).1.2 ?_
  · rw [hlogins]
    exact List.nodup_singleton _
  · decide
  · rw [hlogins]
    refine ⟨_, List.mem_singleton_self _, ?_, ?_⟩
    · rw [hsession]
      change randomHex (fun _ ↦ 0) 32 = _
      decide +kernel
    · change seconds 86399 < 0 + seconds 86400
      decide

end CppAiService.Sessions
