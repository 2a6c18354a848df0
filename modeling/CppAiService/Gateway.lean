import CppAiService.AiClient
import CppAiService.UserStore

namespace CppAiService

open Bytes HttpCodec

structure RouteResult where
  response : Bytes
  status : Bytes
  cacheHit : Bool
  toolUsed : Bool
  toolName : Bytes
  upstreamLatencyMs : ℤ
  deriving DecidableEq

structure WebPages where
  home : Bytes
  direct : Bytes

def WebPages.render (homeBody directBody : Bytes) : WebPages where
  home := httpResponse (lit "200 OK") (lit "text/html; charset=utf-8") homeBody
  direct := httpResponse (lit "200 OK") (lit "text/html; charset=utf-8") directBody

structure GatewayState where
  ragStore_ : InMemoryRagStore
  tools_ : ToolRegistry
  aiClient_ : AiClient
  users_ : UserStore
  userFile : Option Bytes

/-- What one request meets outside the process: its client, the clock, the random device,
the file system, the orders that the library leaves open, and the provider. -/
structure RequestEnv where
  clientId : Bytes
  now : ℤ
  serverTime : Bytes
  device : ℕ → UInt32
  append : AppendOutcome
  sort : RagStore.SortOrder
  getOrder : IterationOrder
  putOrder : IterationOrder
  curl : CurlRequest → CurlOutcome

def RequestEnv.toolContext (env : RequestEnv) (ragStore : InMemoryRagStore) : ToolContext :=
  ⟨some ragStore, env.serverTime, env.sort⟩

def RequestEnv.chatEnv (env : RequestEnv) (ragStore : InMemoryRagStore) : ChatEnv :=
  ⟨env.getOrder, env.putOrder, env.curl, env.toolContext ragStore⟩

namespace Gateway

def makeRouteResult (response status : Bytes) : RouteResult := ⟨response, status, false, false, [], 0⟩

def userJson (user : UserProfile) : Bytes :=
  lit "\x7b\"username\":\"" ++ jsonEscape user.username ++ lit "\",\"role\":\"" ++
    jsonEscape user.role ++ lit "\"\x7d"

def authOkUserJson (user : UserProfile) : Bytes :=
  lit "\x7b\"ok\":true,\"user\":" ++ userJson user ++ lit "\x7d"

def authBadRequest (message : Bytes) : RouteResult :=
  makeRouteResult (jsonResponse (lit "400 Bad Request") (jsonError message))
    (lit "400 Bad Request")

def fieldOrEmpty (body field : Bytes) : Bytes := (extractJsonStringField body field).getD []

def handleChatRequest (hash : Bytes → ℕ) (request : HttpRequest) (aiClient : AiClient)
    (env : ChatEnv) : Option (RouteResult × AiClient) := do
  if request.method ≠ lit "POST" then
    return (makeRouteResult
      (jsonResponse (lit "405 Method Not Allowed") (jsonError (lit "/chat expects POST")))
      (lit "405 Method Not Allowed"), aiClient)
  let message := fieldOrEmpty request.body (lit "message")
  if message = [] then
    return (makeRouteResult
      (jsonResponse (lit "400 Bad Request")
        (jsonError (lit "request body must contain a non-empty string field named message")))
      (lit "400 Bad Request"), aiClient)
  let tool := fieldOrEmpty request.body (lit "tool")
  let (chatResponse, aiClient) ← aiClient.chat hash env ⟨message, tool⟩
  return ({ makeRouteResult (jsonResponse chatResponse.status chatResponse.body)
      chatResponse.status with
    cacheHit := chatResponse.cacheHit
    toolUsed := chatResponse.toolUsed
    toolName := chatResponse.toolName
    upstreamLatencyMs := chatResponse.upstreamLatencyMs }, aiClient)

def handleRegisterRequest (request : HttpRequest) (users : UserStore) (file : Option Bytes)
    (env : RequestEnv) : RouteResult × UserStore × Option Bytes :=
  if request.method ≠ lit "POST" then
    (makeRouteResult
      (jsonResponse (lit "405 Method Not Allowed") (jsonError (lit "/auth/register expects POST")))
      (lit "405 Method Not Allowed"), users, file)
  else if 8192 < request.body.length then
    (authBadRequest (lit "request body is too large"), users, file)
  else
    match extractJsonStringField request.body (lit "username"),
      extractJsonStringField request.body (lit "password") with
    | some username, some password =>
      let inviteCode := fieldOrEmpty request.body (lit "invite_code")
      let (auth, users, file) := users.registerUser file username password inviteCode env.clientId
        env.now env.device env.append
      if auth.ok then
        (makeRouteResult (jsonResponse (lit "200 OK") (authOkUserJson auth.user)) (lit "200 OK"),
          users, file)
      else (authBadRequest auth.error, users, file)
    | _, _ =>
      (authBadRequest (lit "request body must contain string fields username and password"),
        users, file)

def handleLoginRequest (request : HttpRequest) (users : UserStore) (env : RequestEnv) :
    RouteResult × UserStore :=
  if request.method ≠ lit "POST" then
    (makeRouteResult
      (jsonResponse (lit "405 Method Not Allowed") (jsonError (lit "/auth/login expects POST")))
      (lit "405 Method Not Allowed"), users)
  else if 8192 < request.body.length then
    (authBadRequest (lit "request body is too large"), users)
  else
    match extractJsonStringField request.body (lit "username"),
      extractJsonStringField request.body (lit "password") with
    | some username, some password =>
      let (auth, users) := users.login username password env.now env.device
      if auth.ok then
        (makeRouteResult
          (jsonResponse (lit "200 OK")
            (lit "\x7b" ++
              lit "\"ok\":true," ++
              lit "\"session_token\":\"" ++ jsonEscape auth.session.token ++ lit "\"," ++
              lit "\"user\":" ++ userJson auth.user ++
              lit "\x7d"))
          (lit "200 OK"), users)
      else
        (makeRouteResult (jsonResponse (lit "401 Unauthorized") (jsonError auth.error))
          (lit "401 Unauthorized"), users)
    | _, _ =>
      (authBadRequest (lit "request body must contain string fields username and password"), users)

def handleMeRequest (request : HttpRequest) (users : UserStore) (env : RequestEnv) :
    RouteResult × UserStore :=
  if request.method ≠ lit "GET" then
    (makeRouteResult
      (jsonResponse (lit "405 Method Not Allowed") (jsonError (lit "/auth/me expects GET")))
      (lit "405 Method Not Allowed"), users)
  else
    let authorization := (request.headers.lookup (lit "authorization")).getD []
    let (auth, users) := users.authenticateBearerToken authorization env.now
    if auth.ok then
      (makeRouteResult (jsonResponse (lit "200 OK") (authOkUserJson auth.user)) (lit "200 OK"),
        users)
    else
      (makeRouteResult (jsonResponse (lit "401 Unauthorized") (jsonError auth.error))
        (lit "401 Unauthorized"), users)

def handleToolsRequest (request : HttpRequest) (tools : ToolRegistry) : RouteResult :=
  if request.method ≠ lit "GET" then
    makeRouteResult
      (jsonResponse (lit "405 Method Not Allowed") (jsonError (lit "/tools expects GET")))
      (lit "405 Method Not Allowed")
  else makeRouteResult (jsonResponse (lit "200 OK") tools.listToolsJson) (lit "200 OK")

def handleMcpToolsRequest (request : HttpRequest) (tools : ToolRegistry) : RouteResult :=
  if request.method ≠ lit "GET" then
    makeRouteResult
      (jsonResponse (lit "405 Method Not Allowed") (jsonError (lit "/mcp/tools expects GET")))
      (lit "405 Method Not Allowed")
  else makeRouteResult (jsonResponse (lit "200 OK") tools.listMcpToolsJson) (lit "200 OK")

def handleMcpCallRequest (request : HttpRequest) (tools : ToolRegistry) (context : ToolContext) :
    RouteResult :=
  if request.method ≠ lit "POST" then
    makeRouteResult
      (jsonResponse (lit "405 Method Not Allowed") (jsonError (lit "/mcp/call expects POST")))
      (lit "405 Method Not Allowed")
  else
    let tool := fieldOrEmpty request.body (lit "tool")
    if tool = [] then
      makeRouteResult
        (jsonResponse (lit "400 Bad Request")
          (jsonError (lit "request body must contain a non-empty string field named tool")))
        (lit "400 Bad Request")
    else
      let input := match extractJsonStringField request.body (lit "query") with
        | some query => query
        | none => fieldOrEmpty request.body (lit "message")
      let toolResult := tools.execute context tool input
      if toolResult.ok then
        { makeRouteResult
            (jsonResponse (lit "200 OK")
              (lit "\x7b" ++
                lit "\"ok\":true," ++
                lit "\"protocol\":\"mcp-like\"," ++
                lit "\"tool\":\"" ++ jsonEscape tool ++ lit "\"," ++
                lit "\"result\":" ++ toolResult.json ++
                lit "\x7d"))
            (lit "200 OK") with
          toolUsed := true, toolName := tool }
      else
        makeRouteResult (jsonResponse (lit "400 Bad Request") (jsonError toolResult.error))
          (lit "400 Bad Request")

def handleRagIngestRequest (request : HttpRequest) (ragStore : InMemoryRagStore) :
    RouteResult × InMemoryRagStore :=
  if request.method ≠ lit "POST" then
    (makeRouteResult
      (jsonResponse (lit "405 Method Not Allowed") (jsonError (lit "/rag/ingest expects POST")))
      (lit "405 Method Not Allowed"), ragStore)
  else
    let id := fieldOrEmpty request.body (lit "id")
    let title := fieldOrEmpty request.body (lit "title")
    let content := fieldOrEmpty request.body (lit "content")
    if id = [] ∨ title = [] ∨ content = [] then
      (makeRouteResult
        (jsonResponse (lit "400 Bad Request") (jsonError
          (lit "request body must contain non-empty string fields id, title, and content")))
        (lit "400 Bad Request"), ragStore)
    else
      (makeRouteResult
        (jsonResponse (lit "200 OK")
          (lit "\x7b" ++
            lit "\"ok\":true," ++
            lit "\"id\":\"" ++ jsonEscape id ++ lit "\"," ++
            lit "\"title\":\"" ++ jsonEscape title ++ lit "\"" ++
            lit "\x7d"))
        (lit "200 OK"), ragStore.upsert ⟨id, title, content⟩)

def handleHealthRequest (aiClient : AiClient) (users : UserStore) : RouteResult :=
  makeRouteResult
    (jsonResponse (lit "200 OK")
      (lit "\x7b\"ok\":true,\"ai\":" ++ aiClient.configJson ++ lit ",\"auth\":" ++
        users.configJson ++ lit "\x7d"))
    (lit "200 OK")

variable (hash : Bytes → ℕ) (pages : WebPages)

def handleRequest (s : GatewayState) (request : HttpRequest) (env : RequestEnv) :
    Option (RouteResult × GatewayState) :=
  if request.path = lit "/auth/register" then
    let (result, users, file) := handleRegisterRequest request s.users_ s.userFile env
    some (result, { s with users_ := users, userFile := file })
  else if request.path = lit "/auth/login" then
    let (result, users) := handleLoginRequest request s.users_ env
    some (result, { s with users_ := users })
  else if request.path = lit "/auth/me" then
    let (result, users) := handleMeRequest request s.users_ env
    some (result, { s with users_ := users })
  else if request.path = lit "/chat" then
    (handleChatRequest hash request s.aiClient_ (env.chatEnv s.ragStore_)).map
      fun (result, aiClient) ↦ (result, { s with aiClient_ := aiClient })
  else if request.path = lit "/tools" then some (handleToolsRequest request s.tools_, s)
  else if request.path = lit "/health" then some (handleHealthRequest s.aiClient_ s.users_, s)
  else if request.path = lit "/mcp/tools" then some (handleMcpToolsRequest request s.tools_, s)
  else if request.path = lit "/mcp/call" then
    some (handleMcpCallRequest request s.tools_ (env.toolContext s.ragStore_), s)
  else if request.path = lit "/rag/ingest" then
    let (result, ragStore) := handleRagIngestRequest request s.ragStore_
    some (result, { s with ragStore_ := ragStore })
  else if request.path = lit "/direct" then some (makeRouteResult pages.direct (lit "200 OK"), s)
  else if request.path = lit "/" then some (makeRouteResult pages.home (lit "200 OK"), s)
  else
    some (makeRouteResult (jsonResponse (lit "404 Not Found") (jsonError (lit "route not found")))
      (lit "404 Not Found"), s)

/-- `none` is a crash inside the response cache. -/
def handleRawRequest (s : GatewayState) (raw : Bytes) (env : RequestEnv) :
    Option (RouteResult × GatewayState) :=
  match parseHttpRequest raw with
  | none =>
    some (makeRouteResult
      (jsonResponse (lit "400 Bad Request") (jsonError (lit "malformed HTTP request")))
      (lit "400 Bad Request"), s)
  | some request => handleRequest hash pages s request env

end Gateway

end CppAiService
