import CppAiService.ChatCache
import CppAiService.Gateway
import CppAiService.UserCalls

namespace CppAiService.Gateway

open Bytes HttpCodec

inductive Route
  | register
  | login
  | me
  | chat
  | tools
  | health
  | mcpTools
  | mcpCall
  | ragIngest
  | direct
  | home
  | notFound
  deriving DecidableEq

def route (path : Bytes) : Route :=
  if path = lit "/auth/register" then .register
  else if path = lit "/auth/login" then .login
  else if path = lit "/auth/me" then .me
  else if path = lit "/chat" then .chat
  else if path = lit "/tools" then .tools
  else if path = lit "/health" then .health
  else if path = lit "/mcp/tools" then .mcpTools
  else if path = lit "/mcp/call" then .mcpCall
  else if path = lit "/rag/ingest" then .ragIngest
  else if path = lit "/direct" then .direct
  else if path = lit "/" then .home
  else .notFound

def userCall (request : HttpRequest) (env : RequestEnv) : Option UserStore.Call :=
  match route request.path with
  | .register =>
    if request.method = lit "POST" ∧ request.body.length ≤ 8192 then
      match extractJsonStringField request.body (lit "username"),
        extractJsonStringField request.body (lit "password") with
      | some username, some password =>
        some (.registerUser username password (fieldOrEmpty request.body (lit "invite_code"))
          env.clientId env.now env.device env.append)
      | _, _ => none
    else none
  | .login =>
    if request.method = lit "POST" ∧ request.body.length ≤ 8192 then
      match extractJsonStringField request.body (lit "username"),
        extractJsonStringField request.body (lit "password") with
      | some username, some password => some (.login username password env.now env.device)
      | _, _ => none
    else none
  | .me =>
    if request.method = lit "GET" then
      some (.authenticateBearerToken ((request.headers.lookup (lit "authorization")).getD [])
        env.now)
    else none
  | _ => none

def ingestedDocument (request : HttpRequest) : Option RagDocument :=
  match route request.path with
  | .ragIngest =>
    let id := fieldOrEmpty request.body (lit "id")
    let title := fieldOrEmpty request.body (lit "title")
    let content := fieldOrEmpty request.body (lit "content")
    if request.method = lit "POST" ∧ id ≠ [] ∧ title ≠ [] ∧ content ≠ [] then
      some ⟨id, title, content⟩
    else none
  | _ => none

def chatRequest (request : HttpRequest) : Option AiChatRequest :=
  match route request.path with
  | .chat =>
    let message := fieldOrEmpty request.body (lit "message")
    if request.method = lit "POST" ∧ message ≠ [] then
      some ⟨message, fieldOrEmpty request.body (lit "tool")⟩
    else none
  | _ => none

def loginOkJson (auth : AuthResult) : Bytes :=
  lit "\x7b" ++
    lit "\"ok\":true," ++
    lit "\"session_token\":\"" ++ jsonEscape auth.session.token ++ lit "\"," ++
    lit "\"user\":" ++ userJson auth.user ++
    lit "\x7d"

def userAnswer (call : UserStore.Call) (auth : AuthResult) : RouteResult :=
  match call with
  | .registerUser .. =>
    if auth.ok then
      makeRouteResult (jsonResponse (lit "200 OK") (authOkUserJson auth.user)) (lit "200 OK")
    else authBadRequest auth.error
  | .login .. =>
    if auth.ok then makeRouteResult (jsonResponse (lit "200 OK") (loginOkJson auth)) (lit "200 OK")
    else
      makeRouteResult (jsonResponse (lit "401 Unauthorized") (jsonError auth.error))
        (lit "401 Unauthorized")
  | .authenticateBearerToken .. =>
    if auth.ok then
      makeRouteResult (jsonResponse (lit "200 OK") (authOkUserJson auth.user)) (lit "200 OK")
    else
      makeRouteResult (jsonResponse (lit "401 Unauthorized") (jsonError auth.error))
        (lit "401 Unauthorized")

def chatAnswer (response : AiChatResponse) : RouteResult :=
  { makeRouteResult (jsonResponse response.status response.body) response.status with
    cacheHit := response.cacheHit
    toolUsed := response.toolUsed
    toolName := response.toolName
    upstreamLatencyMs := response.upstreamLatencyMs }

variable {hash : Bytes → ℕ} {pages : WebPages} {s t : GatewayState} {request : HttpRequest}
  {env : RequestEnv} {result : RouteResult}

def handleRoute (hash : Bytes → ℕ) (pages : WebPages) (s : GatewayState) (request : HttpRequest)
    (env : RequestEnv) : Route → Option (RouteResult × GatewayState)
  | .register =>
    let (result, users, file) := handleRegisterRequest request s.users_ s.userFile env
    some (result, { s with users_ := users, userFile := file })
  | .login =>
    let (result, users) := handleLoginRequest request s.users_ env
    some (result, { s with users_ := users })
  | .me =>
    let (result, users) := handleMeRequest request s.users_ env
    some (result, { s with users_ := users })
  | .chat =>
    (handleChatRequest hash request s.aiClient_ (env.chatEnv s.ragStore_)).map
      fun (result, aiClient) ↦ (result, { s with aiClient_ := aiClient })
  | .tools => some (handleToolsRequest request s.tools_, s)
  | .health => some (handleHealthRequest s.aiClient_ s.users_, s)
  | .mcpTools => some (handleMcpToolsRequest request s.tools_, s)
  | .mcpCall => some (handleMcpCallRequest request s.tools_ (env.toolContext s.ragStore_), s)
  | .ragIngest =>
    let (result, ragStore) := handleRagIngestRequest request s.ragStore_
    some (result, { s with ragStore_ := ragStore })
  | .direct => some (makeRouteResult pages.direct (lit "200 OK"), s)
  | .home => some (makeRouteResult pages.home (lit "200 OK"), s)
  | .notFound =>
    some (makeRouteResult (jsonResponse (lit "404 Not Found") (jsonError (lit "route not found")))
      (lit "404 Not Found"), s)

theorem handleRequest_eq : handleRequest hash pages s request env =
    handleRoute hash pages s request env (route request.path) := by
  rw [handleRequest, route]
  iterate 11 rw [apply_ite (handleRoute hash pages s request env)]
  rfl

section Credentials

/-- The user name and the password in a posted body that is not too large. -/
def credentials (request : HttpRequest) : Option (Bytes × Bytes) :=
  if request.method = lit "POST" ∧ request.body.length ≤ 8192 then
    match extractJsonStringField request.body (lit "username"),
      extractJsonStringField request.body (lit "password") with
    | some username, some password => some (username, password)
    | _, _ => none
  else none

def withoutCredentials (request : HttpRequest) (wrongMethod : Bytes) : RouteResult :=
  if request.method ≠ lit "POST" then
    makeRouteResult (jsonResponse (lit "405 Method Not Allowed") (jsonError wrongMethod))
      (lit "405 Method Not Allowed")
  else if 8192 < request.body.length then authBadRequest (lit "request body is too large")
  else authBadRequest (lit "request body must contain string fields username and password")

/-- The registration and the login handler look for the same fields in the same way. -/
theorem credentials_elim {α : Type} (request : HttpRequest) (wrongMethod tooLarge missing : α)
    (answer : Bytes × Bytes → α) :
    (if request.method ≠ lit "POST" then wrongMethod
      else if 8192 < request.body.length then tooLarge
      else
        match extractJsonStringField request.body (lit "username"),
          extractJsonStringField request.body (lit "password") with
        | some username, some password => answer (username, password)
        | _, _ => missing) =
      (credentials request).elim
        (if request.method ≠ lit "POST" then wrongMethod
          else if 8192 < request.body.length then tooLarge
          else missing) answer := by
  rw [credentials]
  by_cases hmethod : request.method = lit "POST"
  · rw [if_neg (not_not.2 hmethod), if_neg (not_not.2 hmethod)]
    by_cases hlarge : 8192 < request.body.length
    · rw [if_pos hlarge, if_pos hlarge, if_neg fun h ↦ absurd h.2 (Nat.not_le.2 hlarge)]
      rfl
    · rw [if_neg hlarge, if_neg hlarge, if_pos ⟨hmethod, Nat.not_lt.1 hlarge⟩]
      cases extractJsonStringField request.body (lit "username") with
      | none => rfl
      | some username => cases extractJsonStringField request.body (lit "password") <;> rfl
  · rw [if_pos hmethod, if_pos hmethod, if_neg fun h ↦ hmethod h.1]
    rfl

theorem handleRegisterRequest_elim (users : UserStore) (file : Option Bytes) (env : RequestEnv) :
    handleRegisterRequest request users file env = (credentials request).elim
      (withoutCredentials request (lit "/auth/register expects POST"), users, file) fun c ↦
        let call := .registerUser c.1 c.2 (fieldOrEmpty request.body (lit "invite_code"))
          env.clientId env.now env.device env.append
        let answer := users.registerUser file c.1 c.2
          (fieldOrEmpty request.body (lit "invite_code")) env.clientId env.now env.device env.append
        (userAnswer call answer.1, answer.2) := by
  refine (credentials_elim request _ _ _ fun c ↦
    let answer := users.registerUser file c.1 c.2
      (fieldOrEmpty request.body (lit "invite_code")) env.clientId env.now env.device env.append
    if answer.1.ok then
      (makeRouteResult (jsonResponse (lit "200 OK") (authOkUserJson answer.1.user)) (lit "200 OK"),
        answer.2)
    else (authBadRequest answer.1.error, answer.2)).trans ?_
  cases credentials request with
  | none =>
    rw [Option.elim_none, Option.elim_none, withoutCredentials]
    split_ifs <;> rfl
  | some c =>
    rw [Option.elim_some, Option.elim_some]
    dsimp only [userAnswer]
    split_ifs <;> rfl

theorem handleLoginRequest_elim (users : UserStore) (env : RequestEnv) :
    handleLoginRequest request users env = (credentials request).elim
      (withoutCredentials request (lit "/auth/login expects POST"), users) fun c ↦
        let answer := users.login c.1 c.2 env.now env.device
        (userAnswer (.login c.1 c.2 env.now env.device) answer.1, answer.2) := by
  refine (credentials_elim request _ _ _ fun c ↦
    let answer := users.login c.1 c.2 env.now env.device
    if answer.1.ok then
      (makeRouteResult (jsonResponse (lit "200 OK") (loginOkJson answer.1)) (lit "200 OK"),
        answer.2)
    else
      (makeRouteResult (jsonResponse (lit "401 Unauthorized") (jsonError answer.1.error))
        (lit "401 Unauthorized"), answer.2)).trans ?_
  cases credentials request with
  | none =>
    rw [Option.elim_none, Option.elim_none, withoutCredentials]
    split_ifs <;> rfl
  | some c =>
    rw [Option.elim_some, Option.elim_some]
    dsimp only [userAnswer]
    split_ifs <;> rfl

theorem userCall_register (hroute : route request.path = .register) (env : RequestEnv) :
    userCall request env = (credentials request).map fun c ↦
      .registerUser c.1 c.2 (fieldOrEmpty request.body (lit "invite_code")) env.clientId env.now
        env.device env.append := by
  rw [userCall, hroute, credentials]
  dsimp only
  split_ifs
  · cases extractJsonStringField request.body (lit "username") with
    | none => rfl
    | some username => cases extractJsonStringField request.body (lit "password") <;> rfl
  · rfl

theorem userCall_login (hroute : route request.path = .login) (env : RequestEnv) :
    userCall request env =
      (credentials request).map fun c ↦ .login c.1 c.2 env.now env.device := by
  rw [userCall, hroute, credentials]
  dsimp only
  split_ifs
  · cases extractJsonStringField request.body (lit "username") with
    | none => rfl
    | some username => cases extractJsonStringField request.body (lit "password") <;> rfl
  · rfl

/-- What the register handler does, through the call that it makes. -/
theorem handleRegisterRequest_eq (hroute : route request.path = .register) (users : UserStore)
    (file : Option Bytes) :
    match userCall request env with
    | none => (handleRegisterRequest request users file env).2 = (users, file)
    | some c => ∃ auth, UserStore.call (users, file) c =
        some (auth, (handleRegisterRequest request users file env).2) ∧
      (handleRegisterRequest request users file env).1 = userAnswer c auth := by
  rw [userCall_register hroute, handleRegisterRequest_elim]
  cases credentials request with
  | none => rfl
  | some c => exact ⟨_, rfl, rfl⟩

theorem handleLoginRequest_eq (hroute : route request.path = .login) (users : UserStore)
    (file : Option Bytes) (env : RequestEnv) :
    match userCall request env with
    | none => (handleLoginRequest request users env).2 = users
    | some c => ∃ auth, UserStore.call (users, file) c =
        some (auth, (handleLoginRequest request users env).2, file) ∧
      (handleLoginRequest request users env).1 = userAnswer c auth := by
  rw [userCall_login hroute, handleLoginRequest_elim]
  cases credentials request with
  | none => rfl
  | some c => exact ⟨_, rfl, rfl⟩

end Credentials

theorem handleMeRequest_eq (hroute : route request.path = .me) (users : UserStore)
    (file : Option Bytes) (env : RequestEnv) :
    match userCall request env with
    | none => (handleMeRequest request users env).2 = users
    | some c => ∃ auth, UserStore.call (users, file) c =
        some (auth, (handleMeRequest request users env).2, file) ∧
      (handleMeRequest request users env).1 = userAnswer c auth := by
  rw [userCall, hroute, handleMeRequest]
  dsimp only
  by_cases hmethod : request.method = lit "GET"
  · rw [if_neg (not_not.2 hmethod), if_pos hmethod]
    dsimp only
    cases hcall : users.authenticateBearerToken
      ((request.headers.lookup (lit "authorization")).getD []) env.now with
    | mk auth store =>
      refine ⟨auth, ?_, ?_⟩
      · rw [UserStore.call, hcall]
        dsimp only
        split <;> rfl
      · rw [userAnswer]
        dsimp only
        split <;> rfl
  · rw [if_pos hmethod, if_neg hmethod]

theorem handleRagIngestRequest_eq (hroute : route request.path = .ragIngest)
    (ragStore : InMemoryRagStore) : (handleRagIngestRequest request ragStore).2 =
      (ingestedDocument request).elim ragStore ragStore.upsert := by
  rw [ingestedDocument, hroute, handleRagIngestRequest]
  dsimp only
  by_cases hmethod : request.method = lit "POST"
  · rw [if_neg (not_not.2 hmethod)]
    by_cases hempty : fieldOrEmpty request.body (lit "id") = [] ∨
        fieldOrEmpty request.body (lit "title") = [] ∨
        fieldOrEmpty request.body (lit "content") = []
    · rw [if_pos hempty, if_neg (by tauto)]
      rfl
    · rw [if_neg hempty, if_pos (by tauto)]
      rfl
  · rw [if_pos hmethod, if_neg fun h ↦ hmethod h.1]
    rfl

theorem handleChatRequest_eq (hroute : route request.path = .chat) (hash : Bytes → ℕ)
    (aiClient : AiClient) (chatEnv : ChatEnv) :
    match chatRequest request with
    | none => ∃ result, handleChatRequest hash request aiClient chatEnv = some (result, aiClient)
    | some q => handleChatRequest hash request aiClient chatEnv =
        (aiClient.chat hash chatEnv q).map fun (response, aiClient) ↦
          (chatAnswer response, aiClient) := by
  rw [chatRequest, hroute, handleChatRequest]
  dsimp only
  by_cases hmethod : request.method = lit "POST"
  · rw [if_neg (not_not.2 hmethod)]
    by_cases hempty : fieldOrEmpty request.body (lit "message") = []
    · rw [if_pos hempty, if_neg fun h ↦ h.2 hempty]
      exact ⟨_, rfl⟩
    · rw [if_neg hempty, if_pos ⟨hmethod, hempty⟩]
      dsimp only
      rw [Option.map_eq_bind]
      rfl
  · rw [if_pos hmethod, if_neg fun h ↦ hmethod h.1]
    exact ⟨_, rfl⟩

/-- The call that a request makes of each part of the server is made of that part, and of no other
parts anything changes. -/
structure Handled (hash : Bytes → ℕ) (s : GatewayState) (calls : Option UserStore.Call)
    (document : Option RagDocument) (chats : Option (AiChatRequest × ChatEnv))
    (result : RouteResult) (t : GatewayState) : Prop where
  tools : t.tools_ = s.tools_
  users : match calls with
    | none => (t.users_, t.userFile) = (s.users_, s.userFile)
    | some c => ∃ auth, UserStore.call (s.users_, s.userFile) c =
        some (auth, t.users_, t.userFile) ∧ result = userAnswer c auth
  documents : t.ragStore_ = document.elim s.ragStore_ s.ragStore_.upsert
  client : match chats with
    | none => t.aiClient_ = s.aiClient_
    | some (q, chatEnv) => ∃ response, s.aiClient_.chat hash chatEnv q =
        some (response, t.aiClient_) ∧ result = chatAnswer response

def HandledRequest (hash : Bytes → ℕ) (s : GatewayState) (request : HttpRequest) (env : RequestEnv)
    (result : RouteResult) (t : GatewayState) : Prop :=
  Handled hash s (userCall request env) (ingestedDocument request)
    ((chatRequest request).map fun q ↦ (q, env.chatEnv s.ragStore_)) result t

theorem HandledRequest.same (hu : userCall request env = none)
    (hd : ingestedDocument request = none) (hc : chatRequest request = none) :
    HandledRequest hash s request env result s := by
  rw [HandledRequest, hu, hd, hc]
  exact ⟨rfl, rfl, rfl, rfl⟩

theorem handled (h : handleRequest hash pages s request env = some (result, t)) :
    HandledRequest hash s request env result t := by
  rw [handleRequest_eq] at h
  have hu : ∀ r, route request.path = r → r ≠ .register → r ≠ .login → r ≠ .me →
      userCall request env = none := by
    rintro r rfl hregister hlogin hme
    rw [userCall]
    split <;> first | rfl | contradiction
  have hd : ∀ r, route request.path = r → r ≠ .ragIngest → ingestedDocument request = none := by
    rintro r rfl hne
    rw [ingestedDocument]
    split <;> first | rfl | contradiction
  have hc : ∀ r, route request.path = r → r ≠ .chat → chatRequest request = none := by
    rintro r rfl hne
    rw [chatRequest]
    split <;> first | rfl | contradiction
  cases hroute : route request.path with
  | register =>
    rw [hroute] at h
    obtain ⟨rfl, rfl⟩ := Prod.mk.inj (Option.some.inj h)
    rw [HandledRequest, hd _ hroute nofun, hc _ hroute nofun]
    exact ⟨rfl, handleRegisterRequest_eq hroute s.users_ s.userFile, rfl, rfl⟩
  | login =>
    rw [hroute] at h
    obtain ⟨rfl, rfl⟩ := Prod.mk.inj (Option.some.inj h)
    rw [HandledRequest, hd _ hroute nofun, hc _ hroute nofun]
    refine ⟨rfl, ?_, rfl, rfl⟩
    have hlogin := handleLoginRequest_eq hroute s.users_ s.userFile env
    cases hcall : userCall request env with
    | none =>
      rw [hcall] at hlogin
      exact congrArg (·, s.userFile) hlogin
    | some c =>
      rw [hcall] at hlogin
      exact hlogin
  | me =>
    rw [hroute] at h
    obtain ⟨rfl, rfl⟩ := Prod.mk.inj (Option.some.inj h)
    rw [HandledRequest, hd _ hroute nofun, hc _ hroute nofun]
    refine ⟨rfl, ?_, rfl, rfl⟩
    have hme := handleMeRequest_eq hroute s.users_ s.userFile env
    cases hcall : userCall request env with
    | none =>
      rw [hcall] at hme
      exact congrArg (·, s.userFile) hme
    | some c =>
      rw [hcall] at hme
      exact hme
  | chat =>
    rw [hroute] at h
    obtain ⟨⟨answer, aiClient⟩, hchat, heq⟩ := Option.map_eq_some_iff.1 h
    obtain ⟨rfl, rfl⟩ := Prod.mk.inj heq
    rw [HandledRequest, hu _ hroute nofun nofun nofun, hd _ hroute nofun]
    refine ⟨rfl, rfl, rfl, ?_⟩
    have hspec := handleChatRequest_eq hroute hash s.aiClient_ (env.chatEnv s.ragStore_)
    cases hq : chatRequest request with
    | none =>
      rw [hq] at hspec
      obtain ⟨refused, hspec⟩ := hspec
      exact (Prod.mk.inj (Option.some.inj (hspec.symm.trans hchat))).2.symm
    | some q =>
      rw [hq] at hspec
      obtain ⟨⟨response, client⟩, hclient, heq⟩ := Option.map_eq_some_iff.1 (hspec.symm.trans hchat)
      obtain ⟨rfl, rfl⟩ := Prod.mk.inj heq
      exact ⟨response, hclient, rfl⟩
  | ragIngest =>
    rw [hroute] at h
    obtain ⟨rfl, rfl⟩ := Prod.mk.inj (Option.some.inj h)
    rw [HandledRequest, hu _ hroute nofun nofun nofun, hc _ hroute nofun]
    exact ⟨rfl, rfl, handleRagIngestRequest_eq hroute s.ragStore_, rfl⟩
  | _ =>
    rw [hroute] at h
    obtain ⟨rfl, rfl⟩ := Prod.mk.inj (Option.some.inj h)
    exact .same (hu _ hroute nofun nofun nofun) (hd _ hroute nofun) (hc _ hroute nofun)

end CppAiService.Gateway

namespace CppAiService.AiClient

theorem chat_of_tool {request : AiChatRequest} (htool : request.tool ≠ []) (hash : Bytes → ℕ)
    (client : AiClient) (env : ChatEnv) :
    client.chat hash env request = some (client.chatTool env request, client) := by
  simp only [chat, htool, ne_eq, not_false_eq_true, if_true]
  rfl

/-- While the cache serves, every chat is answered, and the settings stay. -/
theorem chat_possible (hash : Bytes → ℕ) {client : AiClient}
    (hc : client.responseCache_.Serving) (env : ChatEnv) (request : AiChatRequest) :
    ∃ response client', client.chat hash env request = some (response, client') ∧
      Renewed client client' := by
  by_cases htool : request.tool = []
  · cases hcached : client.cached hash request.message with
    | some reply =>
      obtain ⟨client', hchat, hrenewed, -⟩ := chat_of_cached env hc htool hcached
      exact ⟨_, client', hchat, hrenewed⟩
    | none =>
      cases hnet : shouldUseNetworkProvider client.config_ with
      | true =>
        obtain ⟨response, client', hchat, hrenewed, -⟩ :=
          chat_of_network env hc htool hcached hnet
        exact ⟨response, client', hchat, hrenewed⟩
      | false =>
        obtain ⟨client', hchat, hrenewed, -⟩ := chat_of_stub env hc htool hcached hnet
        exact ⟨_, client', hchat, hrenewed⟩
  · exact ⟨_, client, chat_of_tool htool hash client env, rfl, rfl, hc⟩

end CppAiService.AiClient
