import CppAiService.FlatObjects
import CppAiService.GatewayRuns
import CppAiService.MessageFraming
import CppAiService.Sessions

namespace CppAiService.HttpSessions

open Bytes HttpCodec Gateway GatewayRuns FieldExtraction FlatObjects UserStore
open Foundation.Run Foundation.Log Foundation.Search

variable {w x status : Bytes}

theorem skip_word (hw : ascii '"' ∉ w) (hx : ascii '"' ∉ x) (hne : x ≠ w) (r : Bytes) :
    afterFirst (quoted w) (ascii '"' :: (x ++ ascii '"' :: r)) =
      afterFirst (quoted w) (ascii '"' :: r) := by
  rw [quoted, afterFirst_delimited hw hx, if_neg hne]

/-- A client need not look for the end of the head: there is no quote in it. -/
theorem extract_jsonResponse (hstatus : ascii '"' ∉ status) (body field : Bytes) :
    extractJsonStringField (jsonResponse status body) field = extractJsonStringField body field := by
  have hlength : ascii '"' ∉ decimal body.length := by
    intro hmem
    exact absurd (MessageFraming.isdigit_of_mem_decimal hmem) (by decide)
  have hhead : ∃ head, jsonResponse status body = head ++ body ∧ ascii '"' ∉ head := by
    refine ⟨_, rfl, ?_⟩
    simp only [List.mem_append, not_or]
    exact ⟨⟨⟨⟨⟨⟨⟨⟨⟨⟨by decide, hstatus⟩, by decide⟩, by decide⟩, by decide⟩, by decide⟩,
      by decide⟩, hlength⟩, by decide⟩, by decide⟩, by decide⟩
  obtain ⟨head, heq, hhead⟩ := hhead
  rw [heq, extractJsonStringField_eq, extractJsonStringField_eq, afterFirst_skip hhead]

theorem extract_member (hw : Unquoted w) (value rest : Bytes) :
    ((afterFirst (quoted w) (member w value rest)).bind readAfter) = some value := by
  rw [afterFirst_name hw hw, if_pos rfl, Option.bind_some]
  exact readAfter_quoted List.not_mem_nil value rest

/-- The token can be read from the answer to a login. -/
theorem extract_token (auth : AuthResult) :
    extractJsonStringField (jsonResponse (lit "200 OK") (loginOkJson auth))
      (lit "session_token") = some auth.session.token := by
  obtain ⟨hw, hok, htrue⟩ : Unquoted (lit "session_token") ∧ lit "ok" ≠ lit "session_token" ∧
      lit ":true," ≠ lit "session_token" := by
    decide
  have hbody : loginOkJson auth = lit "\x7b" ++ ascii '"' :: (lit "ok" ++ ascii '"' ::
      (lit ":true," ++ member (lit "session_token") auth.session.token
        (lit ",\"user\":" ++ userJson auth.user ++ lit "\x7d"))) := by
    simp [loginOkJson, member, lit]
  have hbrace : ascii '"' ∉ lit "\x7b" := by decide
  rw [extract_jsonResponse (by decide), extractJsonStringField_eq, hbody, afterFirst_skip hbrace]
  change ((afterFirst (quoted (lit "session_token")) _).bind readAfter) = _
  rw [skip_word hw.1 (by decide) hok, member, skip_word hw.1 (by decide) htrue, ← member]
  exact extract_member hw _ _

/-- So can the name from the answer to a token. -/
theorem extract_username (user : UserProfile) :
    extractJsonStringField (jsonResponse (lit "200 OK") (authOkUserJson user))
      (lit "username") = some user.username := by
  obtain ⟨hw, hok, htrue, huser, hbetween⟩ : Unquoted (lit "username") ∧
      lit "ok" ≠ lit "username" ∧ lit ":true," ≠ lit "username" ∧ lit "user" ≠ lit "username" ∧
      lit ":\x7b" ≠ lit "username" := by
    decide
  have hbody : authOkUserJson user = lit "\x7b" ++ ascii '"' :: (lit "ok" ++ ascii '"' ::
      (lit ":true," ++ ascii '"' :: (lit "user" ++ ascii '"' :: (lit ":\x7b" ++
        member (lit "username") user.username
          (lit ",\"role\":\"" ++ jsonEscape user.role ++ lit "\"\x7d\x7d"))))) := by
    simp [authOkUserJson, userJson, member, lit]
  have hbrace : ascii '"' ∉ lit "\x7b" := by decide
  rw [extract_jsonResponse (by decide), extractJsonStringField_eq, hbody, afterFirst_skip hbrace]
  change ((afterFirst (quoted (lit "username")) _).bind readAfter) = _
  rw [skip_word hw.1 (by decide) hok, skip_word hw.1 (by decide) htrue,
    skip_word hw.1 (by decide) huser, member, skip_word hw.1 (by decide) hbetween, ← member]
  exact extract_member hw _ _

/-- What a client reads out of the answer to a login. -/
def tokenOf : Call × RouteResult → Option Bytes
  | (.login .., result) =>
    if result.status = lit "200 OK" then
      extractJsonStringField result.response (lit "session_token")
    else none
  | _ => none

def tokens (log : List Exchange) : List Bytes := (log.filterMap userResult).filterMap tokenOf

/-- The request was a login under this name, and its answer has this token. -/
def LoggedIn (e : Exchange) (username token : Bytes) (now : ℤ) : Prop :=
  ∃ password device, userResult e = some (.login username password now device, e.2) ∧
    tokenOf (.login username password now device, e.2) = some token

theorem status_ok_iff (ok : Bool) (accepted refused : Bytes) :
    (if ok then makeRouteResult accepted (lit "200 OK")
      else makeRouteResult refused (lit "401 Unauthorized")).status = lit "200 OK" ↔ ok = true := by
  have hne : lit "401 Unauthorized" ≠ lit "200 OK" := by decide
  cases ok with
  | false => exact iff_of_false hne nofun
  | true => exact iff_of_true rfl rfl

theorem status_login_iff (username password : Bytes) (now : ℤ) (device : ℕ → UInt32)
    (auth : AuthResult) : (userAnswer (.login username password now device) auth).status =
      lit "200 OK" ↔ auth.ok = true := status_ok_iff ..

theorem status_authenticate_iff (header : Bytes) (now : ℤ) (auth : AuthResult) :
    (userAnswer (.authenticateBearerToken header now) auth).status = lit "200 OK" ↔
      auth.ok = true := status_ok_iff ..

theorem tokenOf_userAnswer (c : Call) (auth : AuthResult) :
    tokenOf (c, userAnswer c auth) = (Sessions.issued (c, auth)).map Sessions.Login.token := by
  cases c with
  | login username password now device =>
    rw [tokenOf, Sessions.issued]
    cases hok : auth.ok with
    | false =>
      rw [if_neg (by rw [status_login_iff, hok]; decide)]
      rfl
    | true =>
      rw [if_pos ((status_login_iff ..).2 hok), userAnswer, hok]
      exact extract_token auth
  | registerUser => rfl
  | authenticateBearerToken => rfl

variable {log : List Exchange} {history : History}

theorem tokens_eq (hresults : log.filterMap userResult =
    history.map fun e ↦ (e.1, userAnswer e.1 e.2)) :
    tokens log = (Sessions.logins history).map Sessions.Login.token := by
  rw [tokens, hresults, List.filterMap_map, Sessions.logins, List.map_filterMap]
  refine List.filterMap_congr fun e _ ↦ ?_
  exact tokenOf_userAnswer e.1 e.2

theorem loggedIn_iff (hresults : log.filterMap userResult =
    history.map fun e ↦ (e.1, userAnswer e.1 e.2)) (username token : Bytes) (now : ℤ) :
    (∃ e ∈ log, LoggedIn e username token now) ↔ ∃ login ∈ Sessions.logins history,
      login.username = username ∧ login.token = token ∧ login.now = now := by
  constructor
  · rintro ⟨e, he, password, device, huser, htoken⟩
    have hmem := List.mem_filterMap.2 ⟨e, he, huser⟩
    rw [hresults] at hmem
    obtain ⟨⟨c, auth⟩, hentry, heq⟩ := List.mem_map.1 hmem
    obtain ⟨rfl, hanswer⟩ := Prod.mk.inj heq
    rw [← hanswer, tokenOf_userAnswer] at htoken
    obtain ⟨login, hissued, rfl⟩ := Option.map_eq_some_iff.1 htoken
    refine ⟨login, List.mem_filterMap.2 ⟨_, hentry, hissued⟩, ?_⟩
    rw [Sessions.issued] at hissued
    split_ifs at hissued
    obtain rfl := Option.some.inj hissued
    exact ⟨rfl, rfl, rfl⟩
  · rintro ⟨login, hlogin, rfl, rfl, rfl⟩
    obtain ⟨⟨c, auth⟩, hentry, hissued⟩ := List.mem_filterMap.1 hlogin
    have hmem : (c, userAnswer c auth) ∈ log.filterMap userResult :=
      hresults ▸ List.mem_map.2 ⟨_, hentry, rfl⟩
    obtain ⟨e, he, huser⟩ := List.mem_filterMap.1 hmem
    have hsecond : e.2 = userAnswer c auth := by
      obtain ⟨d, -, heq⟩ := Option.map_eq_some_iff.1 huser
      exact (Prod.mk.inj heq).2
    have htoken := tokenOf_userAnswer c auth
    rw [hissued] at htoken
    cases c with
    | login username password now device =>
      rw [Sessions.issued] at hissued
      split_ifs at hissued
      obtain rfl := Option.some.inj hissued
      exact ⟨e, he, password, device, hsecond ▸ huser, hsecond ▸ htoken⟩
    | registerUser => cases hissued
    | authenticateBearerToken => cases hissued

def aliceBody : Bytes := lit "\x7b\"username\":\"alice\",\"password\":\"password\"\x7d"

def registers : Request := ⟨lit "POST /auth/register HTTP/1.1\r\n\r\n" ++ aliceBody, quietEnv⟩

def logsIn : Request := ⟨lit "POST /auth/login HTTP/1.1\r\n\r\n" ++ aliceBody, quietEnv⟩

def asks (token : Bytes) : Request :=
  ⟨lit "GET /auth/me HTTP/1.1\r\nAuthorization: Bearer " ++ token ++ lit "\r\n\r\n", quietEnv⟩

theorem alice_calls_in (env : RequestEnv) :
    (⟨registers.raw, env⟩ : Request).userCall = some (.registerUser (lit "alice") (lit "password")
      [] env.clientId env.now env.device env.append) ∧
    (⟨logsIn.raw, env⟩ : Request).userCall =
      some (.login (lit "alice") (lit "password") env.now env.device) := by
  obtain ⟨hname, hpassword, hinvite, hlength⟩ :
      extractJsonStringField aliceBody (lit "username") = some (lit "alice") ∧
      extractJsonStringField aliceBody (lit "password") = some (lit "password") ∧
      fieldOrEmpty aliceBody (lit "invite_code") = [] ∧ aliceBody.length ≤ 8192 := by
    decide +kernel
  have hparsed : (parseHttpRequest registers.raw).map (fun q ↦ (route q.path, q.method, q.body)) =
        some (.register, lit "POST", aliceBody) ∧
      (parseHttpRequest logsIn.raw).map (fun q ↦ (route q.path, q.method, q.body)) =
        some (.login, lit "POST", aliceBody) := by
    decide
  obtain ⟨hregister, hlogin⟩ := hparsed
  constructor
  · obtain ⟨q, hq, heq⟩ := Option.map_eq_some_iff.1 hregister
    obtain ⟨hroute, hmethod, hbody⟩ : route q.path = .register ∧ q.method = lit "POST" ∧
      q.body = aliceBody := by simpa using heq
    rw [Request.userCall, hq, Option.bind_some, Gateway.userCall, hroute, hbody]
    dsimp only
    rw [if_pos ⟨hmethod, hlength⟩, hname, hpassword, hinvite]
  · obtain ⟨q, hq, heq⟩ := Option.map_eq_some_iff.1 hlogin
    obtain ⟨hroute, hmethod, hbody⟩ : route q.path = .login ∧ q.method = lit "POST" ∧
      q.body = aliceBody := by simpa using heq
    rw [Request.userCall, hq, Option.bind_some, Gateway.userCall, hroute, hbody]
    dsimp only
    rw [if_pos ⟨hmethod, hlength⟩, hname, hpassword]

theorem alice_calls :
    registers.userCall = some (.registerUser (lit "alice") (lit "password") [] (lit "127.0.0.1") 0
      (fun _ ↦ 0) .written) ∧
    logsIn.userCall = some (.login (lit "alice") (lit "password") 0 fun _ ↦ 0) :=
  alice_calls_in quietEnv

theorem asks_call : (asks (randomHex (fun _ ↦ 0) 32)).userCall =
    some (.authenticateBearerToken (lit "Bearer " ++ randomHex (fun _ ↦ 0) 32) 0) := by
  have hparse : (parseHttpRequest (asks (randomHex (fun _ ↦ 0) 32)).raw).map (fun q ↦
      (route q.path, q.method, q.headers.lookup (lit "authorization"))) =
      some (.me, lit "GET", some (lit "Bearer " ++ randomHex (fun _ ↦ 0) 32)) := by decide +kernel
  obtain ⟨q, hq, heq⟩ := Option.map_eq_some_iff.1 hparse
  obtain ⟨hroute, hmethod, hheader⟩ : route q.path = .me ∧ q.method = lit "GET" ∧
    q.headers.lookup (lit "authorization") = some (lit "Bearer " ++ randomHex (fun _ ↦ 0) 32) := by
    simpa using heq
  rw [Request.userCall, hq, Option.bind_some, Gateway.userCall, hroute]
  dsimp only
  rw [if_pos hmethod, hheader]
  rfl

theorem alice_logins {u : Stored} {history : History}
    (hrun : run (logged call) (UserStore.start [] 86400 5 true none, [])
      [.registerUser (lit "alice") (lit "password") [] (lit "127.0.0.1") 0 (fun _ ↦ 0) .written,
        .login (lit "alice") (lit "password") 0 fun _ ↦ 0] = some (u, history)) :
    ∃ user, Sessions.logins history = [⟨lit "alice", randomHex (fun _ ↦ 0) 32, user, 0⟩] := by
  cases hstore : (UserStore.start [] 86400 5 true none).1.registerUser none (lit "alice")
    (lit "password") [] (lit "127.0.0.1") 0 (fun _ ↦ 0) .written with | mk result stored =>
  obtain ⟨store, file⟩ := stored
  have hregistered : result.ok = true := by
    rw [show result = (_, _).1 from rfl, ← hstore]
    decide
  obtain ⟨hno, -⟩ | ⟨-, -, -, -, -, husers, -⟩ := registerUser_cases _ _ _ _ _ _ _ _ _ _ _ _ hstore
  · rw [hregistered] at hno
    cases hno
  have hlookup : store.users_.lookup (lit "alice") =
      some (newUser (lit "alice") (lit "password") fun _ ↦ 0) := by
    rw [husers, AList.lookup_insert]
  have hok := login_ok_of_lookup hlookup (newUser_opens _ _ _) 0 fun _ ↦ 0
  obtain ⟨hno, -⟩ | ⟨found, session, -, hsession, hlogin⟩ :=
    login_cases store (lit "alice") (lit "password") 0 fun _ ↦ 0
  · rw [hok] at hno
    cases hno
  have hregister : call (UserStore.start [] 86400 5 true none) (.registerUser (lit "alice")
      (lit "password") [] (lit "127.0.0.1") 0 (fun _ ↦ 0) .written) =
      some (result, store, file) := by
    rw [call]
    exact congrArg some hstore
  rw [run_cons, logged, hregister, Option.map_some, Option.bind_some, run_cons, logged,
    call_login, hlogin] at hrun
  obtain ⟨-, rfl⟩ := Prod.mk.inj (Option.some.inj hrun)
  refine ⟨session.user, ?_⟩
  rw [hsession]
  rfl

/-- Requests of any kind, the tokens in the answers being distinct and the clock not going back: a
token opens the session of the last user it was given to, for as long as a session lasts, and every
other token is refused. -/
theorem sessions_over_http (hash : Bytes → ℕ) (pages : WebPages) (config : AiClientConfig)
    (inviteCode : Bytes) (ttl limit : ℕ) (directoryOk : Bool) (file : Option Bytes)
    (requests : List Request) {s : GatewayState} {log : List Exchange}
    (hrun : run (logged (serve hash pages))
      (construct config (UserStore.start inviteCode ttl limit directoryOk file), []) requests =
        some (s, log))
    (htokens : (tokens log).Nodup) (r : Request) (w : Bytes) (t : ℤ)
    (hme : r.userCall = some (.authenticateBearerToken (lit "Bearer " ++ w) t))
    (hclock : ∀ earlier ∈ requests, ∀ c ∈ earlier.userCall, ∀ u ∈ Sessions.reading c, u ≤ t) :
    ∃ result s', serve hash pages s r = some (result, s') ∧
      (result.status = lit "200 OK" ↔ ∃ username now,
        (∃ e ∈ log, LoggedIn e username (trim w) now) ∧ t < now + seconds ttl) ∧
      (result.status = lit "200 OK" → ∀ username now, (∃ e ∈ log, LoggedIn e username (trim w) now) →
        extractJsonStringField result.response (lit "username") = some username) := by
  have hcomponents := (components_construct hash config _).keeps hrun
  obtain ⟨history, husers, hresults⟩ := hcomponents.users
  have htracked := (Sessions.tracked_start inviteCode ttl limit directoryOk file).run husers
  have hactions := logged_actions husers
  have hrequests := logged_actions hrun
  rw [List.map_nil, List.nil_append] at hactions hrequests
  obtain ⟨result, s', hserve⟩ := serve_possible hash pages hcomponents.renewed.serving r
  have hhandled := (handled_raw hserve).users
  rw [hme] at hhandled
  obtain ⟨auth, hcall, rfl⟩ := hhandled
  rw [call_authenticate, Option.some.injEq, Prod.mk.injEq] at hcall
  obtain ⟨rfl, -⟩ := hcall
  rw [tokens_eq hresults] at htokens
  refine ⟨_, s', hserve, ?_, fun hok username now hlogged ↦ ?_⟩
  · rw [status_authenticate_iff]
    constructor
    · intro hvalid
      obtain ⟨login, hlogin, htoken, hbefore, -⟩ := htracked.sound_valid hvalid
      exact ⟨login.username, login.now, (loggedIn_iff hresults ..).2 ⟨login, hlogin, rfl, htoken, rfl⟩,
        hbefore⟩
    · rintro ⟨username, now, hlogged, hbefore⟩
      obtain ⟨login, hlogin, -, htoken, rfl⟩ := (loggedIn_iff hresults ..).1 hlogged
      refine htracked.complete_valid htokens (fun e he u hu ↦ ?_) hlogin htoken hbefore
      have hmem := List.mem_map_of_mem (f := Prod.fst) he
      rw [hactions, hrequests] at hmem
      obtain ⟨earlier, hearlier, hcalled⟩ := List.mem_filterMap.1 hmem
      exact hclock earlier hearlier e.1 hcalled u hu
  · rw [status_authenticate_iff] at hok
    obtain ⟨login, hlogin, rfl, htoken, rfl⟩ := (loggedIn_iff hresults ..).1 hlogged
    obtain ⟨other, hother, hsame, -, huser⟩ := htracked.sound_valid hok
    obtain rfl := List.inj_on_of_nodup_map htokens hlogin hother (htoken.trans hsame.symm)
    obtain ⟨account, -, hprofile⟩ := htracked.account login hlogin
    rw [userAnswer, if_pos hok, makeRouteResult]
    dsimp only
    rw [extract_username, huser, hprofile]

/-- Alice registers, logs in and shows the token, over HTTP. -/
theorem alice_recognized : ∃ s log result s',
    run (logged (serve (fun _ ↦ 0) (.render [] [])))
      (construct ⟨lit "stub", [], [], [], false, 64, 20⟩ (UserStore.start [] 86400 5 true none), [])
      [registers, logsIn] = some (s, log) ∧
    serve (fun _ ↦ 0) (.render [] []) s (asks (randomHex (fun _ ↦ 0) 32)) = some (result, s') ∧
    result.status = lit "200 OK" ∧
    extractJsonStringField result.response (lit "username") = some (lit "alice") := by
  obtain ⟨hregister, hlogin⟩ := alice_calls
  obtain ⟨s, log, hrun, hlog, hcomponents⟩ := (components_construct (fun _ ↦ 0)
    ⟨lit "stub", [], [], [], false, 64, 20⟩ (UserStore.start [] 86400 5 true none)).goes_on
      (.render [] []) [registers, logsIn]
  obtain ⟨history, husers, hresults⟩ := hcomponents.users
  have hcalls : userCalls (log.map Prod.fst) =
      [.registerUser (lit "alice") (lit "password") [] (lit "127.0.0.1") 0 (fun _ ↦ 0) .written,
        .login (lit "alice") (lit "password") 0 fun _ ↦ 0] := by
    rw [hlog, List.map_nil, List.nil_append, userCalls, List.filterMap_cons_some hregister,
      List.filterMap_cons_some hlogin, List.filterMap_nil]
  rw [hcalls] at husers
  obtain ⟨user, hlogins⟩ := alice_logins husers
  have htoken : trim (randomHex (fun _ ↦ 0) 32) = randomHex (fun _ ↦ 0) 32 := by decide
  have hlogged : ∃ e ∈ log, LoggedIn e (lit "alice") (trim (randomHex (fun _ ↦ 0) 32)) 0 := by
    rw [htoken]
    refine (loggedIn_iff hresults ..).2 ⟨⟨lit "alice", randomHex (fun _ ↦ 0) 32, user, 0⟩, ?_, rfl,
      rfl, rfl⟩
    rw [hlogins]
    exact List.mem_singleton_self _
  have hclock : ∀ earlier ∈ [registers, logsIn], ∀ c ∈ earlier.userCall,
      ∀ u ∈ Sessions.reading c, u ≤ 0 := by
    intro earlier hearlier c hc u hu
    obtain rfl | hearlier := List.mem_cons.1 hearlier
    · obtain rfl := Option.some.inj (hregister.symm.trans hc)
      cases hu
    · obtain rfl := List.mem_singleton.1 hearlier
      obtain rfl := Option.some.inj (hlogin.symm.trans hc)
      obtain rfl := Option.some.inj hu
      exact le_rfl
  have htokens : (tokens log).Nodup := by
    rw [tokens_eq hresults, hlogins]
    exact List.nodup_singleton _
  obtain ⟨result, s', hserve, hiff, hname⟩ := sessions_over_http (fun _ ↦ 0) (.render [] []) _ []
    86400 5 true none [registers, logsIn] hrun htokens _ _ 0 asks_call hclock
  have hok := hiff.2 ⟨lit "alice", 0, hlogged, by decide⟩
  exact ⟨s, log, result, s', hrun, hserve, hok, hname hok _ 0 hlogged⟩

end CppAiService.HttpSessions
