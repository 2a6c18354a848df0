import CppAiService.EchoServer
import CppAiService.GatewaySteps
import CppAiService.MessageFraming

namespace CppAiService.ResponseFraming

open Bytes HttpCodec Foundation.Lines Foundation.Search MessageFraming

def statusTexts : List Bytes :=
  ["200 OK", "400 Bad Request", "401 Unauthorized", "404 Not Found", "405 Method Not Allowed",
    "500 Internal Server Error", "502 Bad Gateway"].map lit

def contentTypes : List Bytes :=
  ["application/json; charset=utf-8", "text/html; charset=utf-8"].map lit

theorem startLine_of_status {status : Bytes} (h : status ∈ statusTexts) :
    ∃ path version, StartLine (lit "HTTP/1.1 " ++ status) (lit "HTTP/1.1") path version := by
  have hall : ∀ status ∈ statusTexts, cr ∉ lit "HTTP/1.1 " ++ status ∧
      (readWords (lit "HTTP/1.1 " ++ status)).map Prod.fst = some (lit "HTTP/1.1") := by
    decide +kernel
  obtain ⟨hplain, hwords⟩ := hall status h
  obtain ⟨⟨_, path, version⟩, hread, rfl⟩ := Option.map_eq_some_iff.1 hwords
  exact ⟨path, version, hplain, hread⟩

/-- The answer is framed, and its status line is the one that is logged. -/
structure Framed (result : RouteResult) (contentType body : Bytes) : Prop where
  response : result.response = httpResponse result.status contentType body
  status : result.status ∈ statusTexts
  contentType : contentType ∈ contentTypes

structure ReadBack (result : RouteResult) (body : Bytes) : Prop where
  statusLine : ∃ lineEnd, find result.response (lit "\r\n") 0 = some lineEnd ∧
    result.response.take lineEnd = lit "HTTP/1.1 " ++ result.status
  parsed : ∃ parsed, parseHttpRequest result.response = some parsed ∧
    parsed.method = lit "HTTP/1.1" ∧
    parsed.headers.lookup (lit "content-length") = some (decimal body.length) ∧
    parsed.body = body

theorem Framed.readBack {result : RouteResult} {contentType body : Bytes}
    (h : Framed result contentType body) (hlength : result.response.length < 2 ^ 64) :
    ReadBack result body := by
  obtain ⟨path, version, hstart⟩ := startLine_of_status h.status
  have htype : cr ∉ contentType := by
    have hall : ∀ contentType ∈ contentTypes, cr ∉ contentType := by decide +kernel
    exact hall contentType h.contentType
  have hresponse := h.response.trans (httpResponse_eq result.status contentType body)
  have hlines := headerLines_responseLines htype body
  obtain ⟨r, hr⟩ := broken_append_starts cr lf (responseLines contentType body)
    (cr :: lf :: body)
  constructor
  · refine ⟨(lit "HTTP/1.1 " ++ result.status).length, ?_, ?_⟩
    · rw [hresponse, find_zero, message, hr, lit_crlf,
        indexOf_break (whole_of_not_mem hstart.plain) (by decide)]
    · rw [hresponse, message, List.take_left]
  · have hbody : body.length < 2 ^ 64 := by
      rw [hresponse, message] at hlength
      simp only [List.length_append, List.length_cons] at hlength
      omega
    refine ⟨_, hresponse ▸ parseHttpRequest_message hstart hlines body, rfl,
      lookup_responseLines contentType body, ?_⟩
    simp only [declaredBody, lookup_responseLines, strtoul_decimal hbody, List.take_length]

theorem ok_mem : lit "200 OK" ∈ statusTexts := List.mem_of_getElem? (i := 0) rfl

theorem badRequest_mem : lit "400 Bad Request" ∈ statusTexts := List.mem_of_getElem? (i := 1) rfl

theorem unauthorized_mem : lit "401 Unauthorized" ∈ statusTexts := List.mem_of_getElem? (i := 2) rfl

theorem notFound_mem : lit "404 Not Found" ∈ statusTexts := List.mem_of_getElem? (i := 3) rfl

theorem notAllowed_mem : lit "405 Method Not Allowed" ∈ statusTexts :=
  List.mem_of_getElem? (i := 4) rfl

theorem serverError_mem : lit "500 Internal Server Error" ∈ statusTexts :=
  List.mem_of_getElem? (i := 5) rfl

theorem badGateway_mem : lit "502 Bad Gateway" ∈ statusTexts := List.mem_of_getElem? (i := 6) rfl

section Routes

open Gateway AiClient

variable (request : HttpRequest)

/-- The body that a handler makes its answer of. -/
def registerBody (users : UserStore) (file : Option Bytes) (env : RequestEnv) : Bytes :=
  if request.method ≠ lit "POST" then jsonError (lit "/auth/register expects POST")
  else if 8192 < request.body.length then jsonError (lit "request body is too large")
  else
    match HttpCodec.extractJsonStringField request.body (lit "username"),
      HttpCodec.extractJsonStringField request.body (lit "password") with
    | some username, some password =>
      let auth := (users.registerUser file username password
        (fieldOrEmpty request.body (lit "invite_code")) env.clientId env.now env.device
        env.append).1
      if auth.ok then authOkUserJson auth.user else jsonError auth.error
    | _, _ => jsonError (lit "request body must contain string fields username and password")

def loginBody (users : UserStore) (env : RequestEnv) : Bytes :=
  if request.method ≠ lit "POST" then jsonError (lit "/auth/login expects POST")
  else if 8192 < request.body.length then jsonError (lit "request body is too large")
  else
    match HttpCodec.extractJsonStringField request.body (lit "username"),
      HttpCodec.extractJsonStringField request.body (lit "password") with
    | some username, some password =>
      let auth := (users.login username password env.now env.device).1
      if auth.ok then loginOkJson auth else jsonError auth.error
    | _, _ => jsonError (lit "request body must contain string fields username and password")

def meBody (users : UserStore) (env : RequestEnv) : Bytes :=
  if request.method ≠ lit "GET" then jsonError (lit "/auth/me expects GET")
  else
    let auth := (users.authenticateBearerToken
      ((request.headers.lookup (lit "authorization")).getD []) env.now).1
    if auth.ok then authOkUserJson auth.user else jsonError auth.error

def chatBody (hash : Bytes → ℕ) (client : AiClient) (env : ChatEnv) : Option Bytes :=
  if request.method ≠ lit "POST" then some (jsonError (lit "/chat expects POST"))
  else
    let message := fieldOrEmpty request.body (lit "message")
    if message = [] then
      some (jsonError (lit "request body must contain a non-empty string field named message"))
    else
      (client.chat hash env ⟨message, fieldOrEmpty request.body (lit "tool")⟩).map (·.1.body)

def toolsBody (tools : ToolRegistry) : Bytes :=
  if request.method ≠ lit "GET" then jsonError (lit "/tools expects GET") else tools.listToolsJson

def mcpToolsBody (tools : ToolRegistry) : Bytes :=
  if request.method ≠ lit "GET" then jsonError (lit "/mcp/tools expects GET")
  else tools.listMcpToolsJson

def mcpCallBody (tools : ToolRegistry) (context : ToolContext) : Bytes :=
  let tool := fieldOrEmpty request.body (lit "tool")
  let toolResult := tools.execute context tool
    ((HttpCodec.extractJsonStringField request.body (lit "query")).getD
      (fieldOrEmpty request.body (lit "message")))
  if request.method ≠ lit "POST" then jsonError (lit "/mcp/call expects POST")
  else if tool = [] then
    jsonError (lit "request body must contain a non-empty string field named tool")
  else if toolResult.ok then
    lit "\x7b" ++
      lit "\"ok\":true," ++
      lit "\"protocol\":\"mcp-like\"," ++
      lit "\"tool\":\"" ++ jsonEscape tool ++ lit "\"," ++
      lit "\"result\":" ++ toolResult.json ++
      lit "\x7d"
  else jsonError toolResult.error

def ragIngestBody : Bytes :=
  let id := fieldOrEmpty request.body (lit "id")
  let title := fieldOrEmpty request.body (lit "title")
  if request.method ≠ lit "POST" then jsonError (lit "/rag/ingest expects POST")
  else if id = [] ∨ title = [] ∨ fieldOrEmpty request.body (lit "content") = [] then
    jsonError (lit "request body must contain non-empty string fields id, title, and content")
  else
    lit "\x7b" ++
      lit "\"ok\":true," ++
      lit "\"id\":\"" ++ jsonEscape id ++ lit "\"," ++
      lit "\"title\":\"" ++ jsonEscape title ++ lit "\"" ++
      lit "\x7d"

def healthBody (client : AiClient) (users : UserStore) : Bytes :=
  lit "\x7b\"ok\":true,\"ai\":" ++ client.configJson ++ lit ",\"auth\":" ++ users.configJson ++
    lit "\x7d"

variable (hash : Bytes → ℕ) (homeBody directBody : Bytes) (s : GatewayState)

def handledBody (env : RequestEnv) : Route → Option Bytes
  | .register => some (registerBody request s.users_ s.userFile env)
  | .login => some (loginBody request s.users_ env)
  | .me => some (meBody request s.users_ env)
  | .chat => chatBody request hash s.aiClient_ (env.chatEnv s.ragStore_)
  | .tools => some (toolsBody request s.tools_)
  | .health => some (healthBody s.aiClient_ s.users_)
  | .mcpTools => some (mcpToolsBody request s.tools_)
  | .mcpCall => some (mcpCallBody request s.tools_ (env.toolContext s.ragStore_))
  | .ragIngest => some (ragIngestBody request)
  | .direct => some directBody
  | .home => some homeBody
  | .notFound => some (jsonError (lit "route not found"))

/-- The body that is made for what arrives, `none` for a crash inside the response cache. -/
def producedBody (raw : Bytes) (env : RequestEnv) : Option Bytes :=
  match parseHttpRequest raw with
  | none => some (jsonError (lit "malformed HTTP request"))
  | some request => handledBody request hash homeBody directBody s env (route request.path)

def Frames (result : RouteResult) (body : Bytes) : Prop :=
  ∃ contentType, Framed result contentType body

variable {request hash homeBody directBody s}

theorem frames_json {result : RouteResult} {body : Bytes}
    (hresponse : result.response = jsonResponse result.status body)
    (hstatus : result.status ∈ statusTexts) : Frames result body :=
  ⟨_, hresponse, hstatus, List.mem_of_getElem? (i := 0) rfl⟩

theorem frames_page (body : Bytes) :
    Frames (makeRouteResult
      (httpResponse (lit "200 OK") (lit "text/html; charset=utf-8") body) (lit "200 OK")) body :=
  ⟨_, rfl, ok_mem, List.mem_of_getElem? (i := 1) rfl⟩

theorem frames_register (users : UserStore) (file : Option Bytes) (env : RequestEnv) :
    Frames (handleRegisterRequest request users file env).1
      (registerBody request users file env) := by
  unfold handleRegisterRequest registerBody
  split_ifs
  · exact frames_json rfl notAllowed_mem
  · exact frames_json rfl badRequest_mem
  · cases HttpCodec.extractJsonStringField request.body (lit "username") with
    | none => exact frames_json rfl badRequest_mem
    | some username =>
      cases HttpCodec.extractJsonStringField request.body (lit "password") with
      | none => exact frames_json rfl badRequest_mem
      | some password =>
        dsimp only
        split_ifs
        · exact frames_json rfl ok_mem
        · exact frames_json rfl badRequest_mem

theorem frames_login (users : UserStore) (env : RequestEnv) :
    Frames (handleLoginRequest request users env).1 (loginBody request users env) := by
  unfold handleLoginRequest loginBody
  split_ifs
  · exact frames_json rfl notAllowed_mem
  · exact frames_json rfl badRequest_mem
  · cases HttpCodec.extractJsonStringField request.body (lit "username") with
    | none => exact frames_json rfl badRequest_mem
    | some username =>
      cases HttpCodec.extractJsonStringField request.body (lit "password") with
      | none => exact frames_json rfl badRequest_mem
      | some password =>
        dsimp only
        split_ifs
        · exact frames_json rfl ok_mem
        · exact frames_json rfl unauthorized_mem

theorem frames_me (users : UserStore) (env : RequestEnv) :
    Frames (handleMeRequest request users env).1 (meBody request users env) := by
  unfold handleMeRequest meBody
  split_ifs
  · exact frames_json rfl notAllowed_mem
  · dsimp only
    split_ifs
    · exact frames_json rfl ok_mem
    · exact frames_json rfl unauthorized_mem

theorem frames_tools (tools : ToolRegistry) :
    Frames (handleToolsRequest request tools) (toolsBody request tools) := by
  unfold handleToolsRequest toolsBody
  split_ifs
  · exact frames_json rfl notAllowed_mem
  · exact frames_json rfl ok_mem

theorem frames_mcpTools (tools : ToolRegistry) :
    Frames (handleMcpToolsRequest request tools) (mcpToolsBody request tools) := by
  unfold handleMcpToolsRequest mcpToolsBody
  split_ifs
  · exact frames_json rfl notAllowed_mem
  · exact frames_json rfl ok_mem

theorem frames_mcpCall (tools : ToolRegistry) (context : ToolContext) :
    Frames (handleMcpCallRequest request tools context) (mcpCallBody request tools context) := by
  unfold handleMcpCallRequest mcpCallBody
  cases HttpCodec.extractJsonStringField request.body (lit "query")
  all_goals
    dsimp only [Option.getD_some, Option.getD_none]
    split_ifs
    · exact frames_json rfl notAllowed_mem
    · exact frames_json rfl badRequest_mem
    · exact frames_json rfl ok_mem
    · exact frames_json rfl badRequest_mem

theorem frames_ragIngest (ragStore : InMemoryRagStore) :
    Frames (handleRagIngestRequest request ragStore).1 (ragIngestBody request) := by
  unfold handleRagIngestRequest ragIngestBody
  dsimp only
  split_ifs
  · exact frames_json rfl notAllowed_mem
  · exact frames_json rfl badRequest_mem
  · exact frames_json rfl ok_mem

theorem status_callOpenAiCompatible (config : AiClientConfig) (request : AiChatRequest)
    (curl : CurlRequest → CurlOutcome) :
    (callOpenAiCompatible config request curl).status ∈ statusTexts := by
  unfold callOpenAiCompatible
  split_ifs
  · exact serverError_mem
  · split
    · exact serverError_mem
    · exact badGateway_mem
    · split_ifs
      · exact badGateway_mem
      · split
        · exact badGateway_mem
        · exact ok_mem

theorem status_chatTool (client : AiClient) (env : ChatEnv) (request : AiChatRequest) :
    (client.chatTool env request).status ∈ statusTexts := by
  unfold chatTool
  split
  · exact serverError_mem
  · dsimp only
    split_ifs
    · exact badRequest_mem
    · exact ok_mem

theorem status_chat {hash : Bytes → ℕ} {client client' : AiClient} {env : ChatEnv}
    {request : AiChatRequest} {response : AiChatResponse}
    (h : client.chat hash env request = some (response, client')) :
    response.status ∈ statusTexts := by
  unfold chat at h
  split_ifs at h with htool
  · obtain ⟨rfl, -⟩ := Prod.mk.inj (Option.some.inj h)
    exact status_chatTool client env request
  · obtain ⟨⟨cachedReply, cache⟩, -, h⟩ := Option.bind_eq_some_iff.1 h
    cases cachedReply with
    | some reply =>
      obtain ⟨rfl, -⟩ := Prod.mk.inj (Option.some.inj h)
      exact ok_mem
    | none =>
      dsimp only at h
      split_ifs at h with hnet hok
      · split at h
        · obtain ⟨cache', -, h⟩ := Option.bind_eq_some_iff.1 h
          obtain ⟨rfl, -⟩ := Prod.mk.inj (Option.some.inj h)
          exact status_callOpenAiCompatible client.config_ request env.curl
        · obtain ⟨rfl, -⟩ := Prod.mk.inj (Option.some.inj h)
          exact status_callOpenAiCompatible client.config_ request env.curl
      · obtain ⟨rfl, -⟩ := Prod.mk.inj (Option.some.inj h)
        exact status_callOpenAiCompatible client.config_ request env.curl
      · obtain ⟨cache', -, h⟩ := Option.bind_eq_some_iff.1 h
        obtain ⟨rfl, -⟩ := Prod.mk.inj (Option.some.inj h)
        exact ok_mem

def Made (x : Option (RouteResult × GatewayState)) (body : Option Bytes) : Prop :=
  ∀ answer ∈ x, ∃ b, body = some b ∧ Frames answer.1 b

theorem made_some {result : RouteResult} {s : GatewayState} {body : Bytes}
    (h : Frames result body) : Made (some (result, s)) (some body) := by
  intro answer hanswer
  obtain rfl := Option.mem_some_iff.1 hanswer
  exact ⟨body, rfl, h⟩

theorem frames_chat {client client' : AiClient} {env : ChatEnv} {result : RouteResult}
    (h : handleChatRequest hash request client env = some (result, client')) :
    ∃ body, chatBody request hash client env = some body ∧ Frames result body := by
  unfold handleChatRequest at h
  unfold chatBody
  dsimp only at h ⊢
  split_ifs at h ⊢
  · obtain ⟨rfl, -⟩ := Prod.mk.inj (Option.some.inj h)
    exact ⟨_, rfl, frames_json rfl notAllowed_mem⟩
  · obtain ⟨rfl, -⟩ := Prod.mk.inj (Option.some.inj h)
    exact ⟨_, rfl, frames_json rfl badRequest_mem⟩
  · obtain ⟨⟨response, client'⟩, hchat, h⟩ := Option.bind_eq_some_iff.1 h
    obtain ⟨rfl, -⟩ := Prod.mk.inj (Option.some.inj h)
    exact ⟨response.body, by rw [hchat, Option.map_some], frames_json rfl (status_chat hchat)⟩

theorem handleChatRequest_isSome (request : HttpRequest) (hash : Bytes → ℕ) {client : AiClient}
    (hc : client.responseCache_.Serving) (env : ChatEnv) :
    (handleChatRequest hash request client env).isSome = true := by
  unfold handleChatRequest
  dsimp only
  split_ifs
  · rfl
  · rfl
  · obtain ⟨response, client', hchat, -⟩ := chat_possible hash hc env
      ⟨fieldOrEmpty request.body (lit "message"), fieldOrEmpty request.body (lit "tool")⟩
    rw [hchat]
    rfl

/-- What holds of the result of either branch holds of the result. -/
theorem of_ite {α : Type} {P : α → Prop} {c : Prop} [Decidable c] {x y : α} (hx : P x)
    (hy : P y) : P (if c then x else y) := by
  split
  · exact hx
  · exact hy

theorem handleRequest_isSome (request : HttpRequest) (hash : Bytes → ℕ) (pages : WebPages)
    {s : GatewayState} (hs : s.aiClient_.responseCache_.Serving) (env : RequestEnv) :
    (handleRequest hash pages s request env).isSome = true := by
  have hchat := handleChatRequest_isSome request hash hs (env.chatEnv s.ragStore_)
  unfold handleRequest
  -- the chat route is the only one that can crash
  iterate 3 refine of_ite (P := (Option.isSome · = true)) rfl ?_
  refine of_ite (P := (Option.isSome · = true)) ?_ ?_
  · rw [Option.isSome_map, hchat]
  iterate 7 refine of_ite (P := (Option.isSome · = true)) rfl ?_
  rfl

theorem made_request (env : RequestEnv) :
    Made (handleRequest hash (.render homeBody directBody) s request env)
      (handledBody request hash homeBody directBody s env (route request.path)) := by
  rw [handleRequest_eq]
  cases route request.path with
  | register => exact made_some (frames_register s.users_ s.userFile env)
  | login => exact made_some (frames_login s.users_ env)
  | me => exact made_some (frames_me s.users_ env)
  | chat =>
    intro answer hanswer
    obtain ⟨⟨result, client'⟩, hchat, rfl⟩ := Option.map_eq_some_iff.1 hanswer
    exact frames_chat hchat
  | tools => exact made_some (frames_tools s.tools_)
  | health => exact made_some (frames_json rfl ok_mem)
  | mcpTools => exact made_some (frames_mcpTools s.tools_)
  | mcpCall => exact made_some (frames_mcpCall s.tools_ (env.toolContext s.ragStore_))
  | ragIngest => exact made_some (frames_ragIngest s.ragStore_)
  | direct => exact made_some (frames_page directBody)
  | home => exact made_some (frames_page homeBody)
  | notFound => exact made_some (frames_json rfl notFound_mem)

theorem made_raw (raw : Bytes) (env : RequestEnv) :
    Made (handleRawRequest hash (.render homeBody directBody) s raw env)
      (producedBody hash homeBody directBody s raw env) := by
  unfold handleRawRequest producedBody
  cases parseHttpRequest raw with
  | none => exact made_some (frames_json rfl badRequest_mem)
  | some request => exact made_request env

end Routes

/-- Whatever arrives is answered, and the codec reads the answer back: its status line is the one
that is logged, the declared length is that of the body, and the body is the one that was made for
the request. No string has `2 ^ 64` bytes. -/
theorem responses_well_framed (hash : Bytes → ℕ) (homeBody directBody : Bytes) (s : GatewayState)
    (raw : Bytes) (env : RequestEnv) :
    (s.aiClient_.responseCache_.Serving →
      (Gateway.handleRawRequest hash (.render homeBody directBody) s raw env).isSome = true) ∧
    ∀ answer ∈ Gateway.handleRawRequest hash (.render homeBody directBody) s raw env,
      answer.1.response.length < 2 ^ 64 →
        ∃ contentType body, producedBody hash homeBody directBody s raw env = some body ∧
          Framed answer.1 contentType body ∧ ReadBack answer.1 body := by
  constructor
  · intro hs
    unfold Gateway.handleRawRequest
    cases parseHttpRequest raw with
    | none => rfl
    | some request => exact handleRequest_isSome request hash _ hs env
  · intro answer hanswer hlength
    obtain ⟨body, hbody, contentType, hframed⟩ := made_raw raw env answer hanswer
    exact ⟨contentType, body, hbody, hframed, hframed.readBack hlength⟩

theorem ingest_answer_framed :
    let segment := EchoServer.quietSegment (EchoServer.ingestHead ++ EchoServer.ingestBody)
      (by decide)
    ∃ answer, Gateway.handleRawRequest (fun _ ↦ 0) (.render [] []) EchoServer.emptyGateway
        segment.bytes segment.env = some answer ∧
      ∃ contentType body, producedBody (fun _ ↦ 0) [] [] EchoServer.emptyGateway segment.bytes
          segment.env = some body ∧
        Framed answer.1 contentType body ∧ ReadBack answer.1 body := by
  intro segment
  obtain ⟨hpossible, hframed⟩ := responses_well_framed (fun _ ↦ 0) [] [] EchoServer.emptyGateway
    segment.bytes segment.env
  obtain ⟨answer, hanswer⟩ := Option.isSome_iff_exists.1
    (hpossible (KHashLfuCache.create_serving _ (by decide) _ _))
  have hshort : ∀ length ∈ (Gateway.handleRawRequest (fun _ ↦ 0) (.render [] [])
      EchoServer.emptyGateway segment.bytes segment.env).map (·.1.response.length),
      length < 2 ^ 64 := by decide +kernel
  refine ⟨answer, hanswer, hframed answer hanswer (hshort _ ?_)⟩
  rw [hanswer]
  rfl

end CppAiService.ResponseFraming
