import CppAiService.JsonBodies
import CppAiService.ResponseFraming

namespace CppAiService.JsonAnswers

open Bytes HttpCodec AiClient Gateway JsonBodies ResponseFraming Foundation.Json

/-- The gateway works with the default tools, as its constructor sets it up. -/
def Served (s : GatewayState) : Prop :=
  s.tools_ = .createDefault ∧ s.aiClient_.tools_ = some .createDefault

def Glued (result : RouteResult) : Prop :=
  (∃ body, result.response =
      httpResponse (lit "200 OK") (lit "text/html; charset=utf-8") body) ∨
    ∃ answer : Answer,
      result.response = jsonResponse result.status (jsonEscaping.render answer.value)

theorem glued_error {result : RouteResult} {message : Bytes}
    (h : result.response = jsonResponse result.status (jsonError message)) : Glued result :=
  .inr ⟨.error message, by rw [h, jsonError_eq]⟩

theorem authOkUserJson_eq (user : UserProfile) :
    authOkUserJson user = jsonEscaping.render (Answer.user user).value := by
  unfold authOkUserJson
  simp only [userJson_eq, Answer.value, objectOf, membersOf, Escaping.render, Escaping.quote,
    List.append_assoc, List.cons_append, List.nil_append]
  rfl

variable (request : HttpRequest)

theorem glued_register (users : UserStore) (file : Option Bytes) (env : RequestEnv) :
    Glued (handleRegisterRequest request users file env).1 := by
  unfold handleRegisterRequest
  split_ifs
  · exact glued_error rfl
  · exact glued_error rfl
  · split
    · dsimp only
      split_ifs
      · exact .inr ⟨.user _, by rw [← authOkUserJson_eq]; rfl⟩
      · exact glued_error rfl
    · exact glued_error rfl

theorem glued_login (users : UserStore) (env : RequestEnv) :
    Glued (handleLoginRequest request users env).1 := by
  have hsession (token : Bytes) (user : UserProfile) :
      lit "\x7b" ++ lit "\"ok\":true," ++ lit "\"session_token\":\"" ++ jsonEscape token ++
          lit "\"," ++ lit "\"user\":" ++ userJson user ++ lit "\x7d" =
        jsonEscaping.render (Answer.session token user).value := by
    simp only [userJson_eq, Answer.value, objectOf, membersOf, Escaping.render, Escaping.quote,
      List.append_assoc, List.cons_append, List.nil_append]
    rfl
  unfold handleLoginRequest
  split_ifs
  · exact glued_error rfl
  · exact glued_error rfl
  · split
    · dsimp only
      split_ifs
      · rw [hsession]
        exact .inr ⟨_, rfl⟩
      · exact glued_error rfl
    · exact glued_error rfl

theorem glued_me (users : UserStore) (env : RequestEnv) :
    Glued (handleMeRequest request users env).1 := by
  unfold handleMeRequest
  split_ifs
  · exact glued_error rfl
  · dsimp only
    split_ifs
    · exact .inr ⟨.user _, by rw [← authOkUserJson_eq]; rfl⟩
    · exact glued_error rfl

theorem glued_tools : Glued (handleToolsRequest request .createDefault) := by
  unfold handleToolsRequest
  split_ifs
  · exact glued_error rfl
  · exact .inr ⟨.tools, by rw [← listToolsJson_eq]; rfl⟩

theorem glued_mcpTools : Glued (handleMcpToolsRequest request .createDefault) := by
  unfold handleMcpToolsRequest
  split_ifs
  · exact glued_error rfl
  · exact .inr ⟨.mcpTools, by rw [← listMcpToolsJson_eq]; rfl⟩

theorem glued_mcpCall (context : ToolContext) :
    Glued (handleMcpCallRequest request .createDefault context) := by
  have hcall (tool : Bytes) {json : Bytes} {answer : ToolAnswer}
      (h : json = jsonEscaping.render answer.value) :
      lit "\x7b" ++ lit "\"ok\":true," ++ lit "\"protocol\":\"mcp-like\"," ++
          lit "\"tool\":\"" ++ jsonEscape tool ++ lit "\"," ++ lit "\"result\":" ++ json ++
          lit "\x7d" = jsonEscaping.render (Answer.mcpCall tool answer).value := by
    simp only [h, Answer.value, objectOf, membersOf, Escaping.render, Escaping.quote,
      List.append_assoc, List.cons_append, List.nil_append]
    rfl
  unfold handleMcpCallRequest
  dsimp only
  split_ifs with _ _ hok
  · exact glued_error rfl
  · exact glued_error rfl
  · obtain ⟨answer, hanswer⟩ := execute_ok hok
    rw [hcall _ hanswer]
    exact .inr ⟨_, rfl⟩
  · exact glued_error rfl

theorem glued_ragIngest (ragStore : InMemoryRagStore) :
    Glued (handleRagIngestRequest request ragStore).1 := by
  have hingested (id title : Bytes) :
      lit "\x7b" ++ lit "\"ok\":true," ++ lit "\"id\":\"" ++ jsonEscape id ++ lit "\"," ++
          lit "\"title\":\"" ++ jsonEscape title ++ lit "\"" ++ lit "\x7d" =
        jsonEscaping.render (Answer.ingested id title).value := by
    simp only [Answer.value, objectOf, membersOf, Escaping.render, Escaping.quote,
      List.append_assoc, List.cons_append, List.nil_append]
    rfl
  unfold handleRagIngestRequest
  dsimp only
  split_ifs
  · exact glued_error rfl
  · exact glued_error rfl
  · rw [hingested]
    exact .inr ⟨_, rfl⟩

theorem glued_health (client : AiClient) (users : UserStore) :
    Glued (handleHealthRequest client users) := by
  have hhealth : lit "\x7b\"ok\":true,\"ai\":" ++ client.configJson ++ lit ",\"auth\":" ++
      users.configJson ++ lit "\x7d" = jsonEscaping.render (Answer.health client users).value := by
    simp only [configJson_eq, usersJson_eq, Answer.value, objectOf, membersOf, Escaping.render,
      Escaping.quote, List.append_assoc, List.cons_append, List.nil_append]
    rfl
  rw [handleHealthRequest, hhealth]
  exact .inr ⟨_, rfl⟩

def GluedBody (response : AiChatResponse) : Prop :=
  ∃ answer : Answer, response.body = jsonEscaping.render answer.value

theorem gluedBody_error (message : Bytes) {response : AiChatResponse}
    (h : response.body = jsonError message) : GluedBody response :=
  ⟨.error message, h.trans (jsonError_eq message)⟩

theorem glued_callOpenAiCompatible (config : AiClientConfig) (request : AiChatRequest)
    (curl : CurlRequest → CurlOutcome) : GluedBody (callOpenAiCompatible config request curl) := by
  unfold callOpenAiCompatible
  split_ifs
  · exact gluedBody_error _ rfl
  · split
    · exact gluedBody_error _ rfl
    · exact ⟨.requestFailed config _, requestFailed_eq config _⟩
    · split_ifs
      · exact ⟨.providerFailed config _ _, providerFailed_eq config _ _⟩
      · split
        · exact gluedBody_error _ rfl
        · exact ⟨.chat config request _ false, buildChatBody_eq config request _ false⟩

theorem glued_chatTool {client : AiClient} (hclient : client.tools_ = some .createDefault)
    (env : ChatEnv) (request : AiChatRequest) : GluedBody (client.chatTool env request) := by
  unfold chatTool
  rw [hclient]
  dsimp only
  split_ifs with hok
  · exact gluedBody_error _ rfl
  · obtain ⟨answer, hanswer⟩ := execute_ok (by simpa using hok)
    exact ⟨_, toolBody_eq client.config_ request hanswer⟩

theorem glued_chat {hash : Bytes → ℕ} {client client' : AiClient} {env : ChatEnv}
    {request : AiChatRequest} {response : AiChatResponse}
    (hclient : client.tools_ = some .createDefault)
    (h : client.chat hash env request = some (response, client')) :
    GluedBody response ∧ client'.tools_ = some .createDefault := by
  have hreply (reply : Bytes) (cacheHit : Bool) : ∃ answer : Answer,
      buildChatBody client.config_ request reply cacheHit = jsonEscaping.render answer.value :=
    ⟨_, buildChatBody_eq client.config_ request reply cacheHit⟩
  unfold chat at h
  split_ifs at h with htool
  · obtain ⟨rfl, rfl⟩ := Prod.mk.inj (Option.some.inj h)
    exact ⟨glued_chatTool hclient env request, hclient⟩
  · obtain ⟨⟨cachedReply, cache⟩, -, h⟩ := Option.bind_eq_some_iff.1 h
    cases cachedReply with
    | some reply =>
      obtain ⟨rfl, rfl⟩ := Prod.mk.inj (Option.some.inj h)
      exact ⟨hreply reply true, hclient⟩
    | none =>
      dsimp only at h
      split_ifs at h with hnet hok
      · split at h
        · obtain ⟨cache', -, h⟩ := Option.bind_eq_some_iff.1 h
          obtain ⟨rfl, rfl⟩ := Prod.mk.inj (Option.some.inj h)
          exact ⟨glued_callOpenAiCompatible client.config_ request env.curl, hclient⟩
        · obtain ⟨rfl, rfl⟩ := Prod.mk.inj (Option.some.inj h)
          exact ⟨glued_callOpenAiCompatible client.config_ request env.curl, hclient⟩
      · obtain ⟨rfl, rfl⟩ := Prod.mk.inj (Option.some.inj h)
        exact ⟨glued_callOpenAiCompatible client.config_ request env.curl, hclient⟩
      · obtain ⟨cache', -, h⟩ := Option.bind_eq_some_iff.1 h
        obtain ⟨rfl, rfl⟩ := Prod.mk.inj (Option.some.inj h)
        exact ⟨hreply (makeStubReply request.message) false, hclient⟩

theorem glued_handleChat {hash : Bytes → ℕ} {client client' : AiClient} {env : ChatEnv}
    {result : RouteResult} (hclient : client.tools_ = some .createDefault)
    (h : handleChatRequest hash request client env = some (result, client')) :
    Glued result ∧ client'.tools_ = some .createDefault := by
  unfold handleChatRequest at h
  dsimp only at h
  split_ifs at h
  · obtain ⟨rfl, rfl⟩ := Prod.mk.inj (Option.some.inj h)
    exact ⟨glued_error rfl, hclient⟩
  · obtain ⟨rfl, rfl⟩ := Prod.mk.inj (Option.some.inj h)
    exact ⟨glued_error rfl, hclient⟩
  · obtain ⟨⟨response, client'⟩, hchat, h⟩ := Option.bind_eq_some_iff.1 h
    obtain ⟨rfl, rfl⟩ := Prod.mk.inj (Option.some.inj h)
    obtain ⟨⟨answer, hanswer⟩, hkept⟩ := glued_chat hclient hchat
    exact ⟨.inr ⟨answer, by rw [← hanswer]; rfl⟩, hkept⟩

def Answered (x : Option (RouteResult × GatewayState)) : Prop :=
  ∀ answer ∈ x, Glued answer.1 ∧ Served answer.2

theorem answered_some {result : RouteResult} {s : GatewayState} (h : Glued result)
    (hs : Served s) : Answered (some (result, s)) := by
  intro answer hanswer
  obtain rfl := Option.mem_some_iff.1 hanswer
  exact ⟨h, hs⟩

theorem answered_request {hash : Bytes → ℕ} {homeBody directBody : Bytes} {s : GatewayState}
    (hs : Served s) (env : RequestEnv) :
    Answered (handleRequest hash (.render homeBody directBody) s request env) := by
  obtain ⟨htools, hclient⟩ := hs
  have htoolsRoute : Glued (handleToolsRequest request s.tools_) := htools ▸ glued_tools request
  have hmcpTools : Glued (handleMcpToolsRequest request s.tools_) :=
    htools ▸ glued_mcpTools request
  have hmcpCall : Glued (handleMcpCallRequest request s.tools_ (env.toolContext s.ragStore_)) :=
    htools ▸ glued_mcpCall request (env.toolContext s.ragStore_)
  unfold handleRequest
  refine of_ite (answered_some (glued_register request s.users_ s.userFile env)
    ⟨htools, hclient⟩) ?_
  refine of_ite (answered_some (glued_login request s.users_ env) ⟨htools, hclient⟩) ?_
  refine of_ite (answered_some (glued_me request s.users_ env) ⟨htools, hclient⟩) ?_
  refine of_ite ?_ ?_
  · intro answer hanswer
    obtain ⟨⟨result, client'⟩, hchat, rfl⟩ := Option.map_eq_some_iff.1 hanswer
    obtain ⟨hglued, hkept⟩ := glued_handleChat request hclient hchat
    exact ⟨hglued, htools, hkept⟩
  refine of_ite (answered_some htoolsRoute ⟨htools, hclient⟩) ?_
  refine of_ite (answered_some (glued_health s.aiClient_ s.users_) ⟨htools, hclient⟩) ?_
  refine of_ite (answered_some hmcpTools ⟨htools, hclient⟩) ?_
  refine of_ite (answered_some hmcpCall ⟨htools, hclient⟩) ?_
  refine of_ite (answered_some (glued_ragIngest request s.ragStore_) ⟨htools, hclient⟩) ?_
  refine of_ite (answered_some (.inl ⟨directBody, rfl⟩) ⟨htools, hclient⟩) ?_
  refine of_ite (answered_some (.inl ⟨homeBody, rfl⟩) ⟨htools, hclient⟩) ?_
  exact answered_some (glued_error rfl) ⟨htools, hclient⟩

theorem ascii_of_all {t : Bytes} (h : t.all (fun b ↦ decide (b < 0x80 ∧ Visible b)) = true) :
    ∀ b ∈ t, b < 0x80 ∧ Visible b :=
  fun b hb ↦ of_decide_eq_true (List.all_eq_true.1 h b hb)

theorem clean_lit {cs : List Char}
    (h : (cs.map ascii).all (fun b ↦ decide (b < 0x80 ∧ Visible b)) = true) :
    Clean (lit (String.ofList cs)) := by
  rw [lit_ofList]
  exact clean_of_ascii (ascii_of_all h)

/-- ASCII text without control characters quotes nothing else. -/
theorem clean_of_rendered {v : Value} (h : ∀ b ∈ jsonEscaping.render v, b < 0x80 ∧ Visible b) :
    ∀ t ∈ strings v, Clean t := by
  have hkept : ∀ b : Byte, ¬ b < 0x80 → b ∈ jsonEscapeByte b := by
    intro b hb
    have hne : ∀ c : Byte, c < 0x80 → b ≠ c := fun c hc heq ↦ hb (heq ▸ hc)
    rw [jsonEscapeByte, if_neg (hne _ (by decide)), if_neg (hne _ (by decide)),
      if_neg (hne _ (by decide)), if_neg (hne _ (by decide)), if_neg (hne _ (by decide))]
    exact List.mem_singleton_self b
  intro t ht
  refine clean_of_ascii fun b hb ↦ ⟨?_, ?_⟩
  · by_contra hhigh
    exact hhigh (h b (Escaping.escape_subset ht b (List.mem_flatMap.2 ⟨b, hb, hkept b hhigh⟩))).1
  · by_contra hnot
    obtain ⟨hlow, hblank⟩ := not_or.1 hnot
    have hcontrol := jsonEscaping.control t b hb (UInt8.not_le.1 hlow) hblank
    exact hnot (h b (Escaping.escape_subset ht b hcontrol)).2

theorem clean_payload_iff (config : AiClientConfig) (request : AiChatRequest) :
    (∀ s ∈ strings (payloadValue config request), Clean s) ↔
      Clean config.model ∧ Clean request.message := by
  have hmodel : Clean (lit "model") := clean_lit (by decide)
  have hmessages : Clean (lit "messages") := clean_lit (by decide)
  have hrole : Clean (lit "role") := clean_lit (by decide)
  have huser : Clean (lit "user") := clean_lit (by decide)
  have hcontent : Clean (lit "content") := clean_lit (by decide)
  have htemperature : Clean (lit "temperature") := clean_lit (by decide)
  simp [payloadValue, strings, objectOf, membersOf, arrayOf, elementsOf, hmodel, hmessages, hrole,
    huser, hcontent, htemperature]

/-- What is glued together with `jsonEscape` says what it is meant to say, exactly if no string
in it holds a control character that has no escape of two letters. -/
theorem escaped_json_iff (hash : Bytes → ℕ) (homeBody directBody : Bytes) :
    (∀ s : List Char, (∀ s', Denotes (lit "\"" ++ jsonEscape (utf8 s) ++ lit "\"") s' ↔ s' = s) ↔
      ∀ c ∈ s, Printable c) ∧
    (∀ config request,
      (∀ v, IsText (curlRequest config request).payload v ↔ v = payloadValue config request) ↔
        Clean config.model ∧ Clean request.message) ∧
    ∀ s raw env, Served s →
      ∀ answer ∈ handleRawRequest hash (.render homeBody directBody) s raw env,
        Served answer.2 ∧
        ((∃ body, answer.1.response =
            httpResponse (lit "200 OK") (lit "text/html; charset=utf-8") body) ∨
          ∃ a : Answer,
            answer.1.response = jsonResponse answer.1.status (jsonEscaping.render a.value) ∧
            ((∀ v, IsText (jsonEscaping.render a.value) v ↔ v = a.value) ↔
              ∀ t ∈ strings a.value, Clean t)) := by
  refine ⟨fun s ↦ jsonEscaping.denotes_quote_iff s, fun config request ↦ ?_,
    fun s raw env hs answer hanswer ↦ ?_⟩
  · rw [payload_eq, Escaping.isText_render_iff]
    exact clean_payload_iff config request
  · have hanswered : Answered (handleRawRequest hash (.render homeBody directBody) s raw env) := by
      unfold handleRawRequest
      cases parseHttpRequest raw with
      | none => exact answered_some (glued_error rfl) hs
      | some request => exact answered_request request hs env
    obtain ⟨hglued, hserved⟩ := hanswered answer hanswer
    refine ⟨hserved, hglued.imp_right ?_⟩
    rintro ⟨a, ha⟩
    exact ⟨a, ha, Escaping.isText_render_iff a.value⟩

def stubConfig : AiClientConfig := ⟨lit "stub", [], [], [], false, 64, 20⟩

def startedGateway : GatewayState :=
  ⟨InMemoryRagStore.seedDefaults ⟨[]⟩, .createDefault, .create (some .createDefault) stubConfig,
    .create [] 86400 5, none⟩

/-- A chat about a text with a quote and a line feed. -/
def quotedChat : Segment :=
  EchoServer.quietSegment (lit "POST /chat HTTP/1.1\r\n\r\n\x7b\"message\":\"a\\\"b\\nc\"\x7d")
    (by decide)

def quotedBody : Bytes :=
  lit "\x7b\"ok\":true,\"message\":\"a\\\"b\\nc\",\"reply\":\"Stub AI reply for: a\\\"b\\nc\"," ++
    lit "\"provider\":\"stub\",\"model\":\"\",\"cache_hit\":false,\"tool_used\":false\x7d"

theorem quoted_chat_answered :
    ∃ answer, handleRawRequest (fun _ ↦ 0) (.render [] []) startedGateway quotedChat.bytes
        quotedChat.env = some answer ∧ Served answer.2 ∧
      answer.1.response = jsonResponse (lit "200 OK") quotedBody ∧
      ∃ a : Answer, answer.1.response = jsonResponse answer.1.status (jsonEscaping.render a.value) ∧
        ∀ v, IsText (jsonEscaping.render a.value) v ↔ v = a.value := by
  have hanswered : (handleRawRequest (fun _ ↦ 0) (.render [] []) startedGateway quotedChat.bytes
      quotedChat.env).map (fun answer ↦ answer.1.response) =
      some (jsonResponse (lit "200 OK") quotedBody) := by decide +kernel
  obtain ⟨answer, hanswer, hresponse⟩ := Option.map_eq_some_iff.1 hanswered
  obtain ⟨hserved, ⟨body, hpage⟩ | ⟨a, ha, hiff⟩⟩ := (escaped_json_iff (fun _ ↦ 0) [] []).2.2
    startedGateway quotedChat.bytes quotedChat.env ⟨rfl, rfl⟩ answer hanswer
  · have htype : (httpResponse (lit "200 OK") (lit "text/html; charset=utf-8") body)[31]? =
        some (ascii 't') := rfl
    rw [← hpage, hresponse] at htype
    exact absurd htype (by decide +kernel)
  · refine ⟨answer, hanswer, hserved, hresponse, a, ha, hiff.2 (clean_of_rendered fun b hb ↦ ?_)⟩
    have hascii : ∀ b ∈ jsonResponse (lit "200 OK") quotedBody, b < 0x80 ∧ Visible b :=
      ascii_of_all (by decide +kernel)
    refine hascii b ?_
    rw [← hresponse, ha]
    exact List.mem_append_right _ hb

/-- A control character goes out as it is, and the text is no JSON. -/
theorem control_character_unescaped :
    (∀ s, ¬ Denotes (lit "\"" ++ jsonEscape (utf8 [Char.ofNat 1]) ++ lit "\"") s) ∧
    ∀ v, ¬ IsText (curlRequest stubConfig ⟨[1], []⟩).payload v := by
  have hone : ¬ Visible 1 := by decide
  refine ⟨fun s h ↦ hone (h.visible 1 (by decide)), fun v h ↦ hone (h.visible 1 ?_)⟩
  decide

end CppAiService.JsonAnswers
