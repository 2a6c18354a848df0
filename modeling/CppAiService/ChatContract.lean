import CppAiService.ChatCache
import CppAiService.Foundation.Log
import CppAiService.Gateway

namespace CppAiService.ChatContract

open Bytes HttpCodec AiClient FieldExtraction Foundation.Log Foundation.Run

structure Post where
  message : Bytes
  request : HttpRequest
  env : ChatEnv
  nonempty : message ≠ []
  method : request.method = lit "POST"
  body : request.body = lit "\x7b\"message\":\"" ++ jsonEscape message ++ lit "\"\x7d"

def stubBody (config : AiClientConfig) (message : Bytes) (cacheHit : Bool) : Bytes :=
  lit "\x7b" ++
    lit "\"ok\":true," ++
    lit "\"message\":\"" ++ jsonEscape message ++ lit "\"," ++
    lit "\"reply\":\"" ++ jsonEscape (lit "Stub AI reply for: " ++ message) ++ lit "\"," ++
    lit "\"provider\":\"" ++ jsonEscape config.provider ++ lit "\"," ++
    lit "\"model\":\"" ++ jsonEscape config.model ++ lit "\"," ++
    lit "\"cache_hit\":" ++ lit (if cacheHit then "true" else "false") ++ lit "," ++
    lit "\"tool_used\":false" ++
    lit "\x7d"

def stubResult (config : AiClientConfig) (message : Bytes) (cacheHit : Bool) : RouteResult where
  response :=
    lit "HTTP/1.1 200 OK\r\nContent-Type: application/json; charset=utf-8\r\nContent-Length: " ++
      decimal (stubBody config message cacheHit).length ++ lit "\r\nConnection: close\r\n\r\n" ++
      stubBody config message cacheHit
  status := lit "200 OK"
  cacheHit := cacheHit
  toolUsed := false
  toolName := []
  upstreamLatencyMs := 0

def post (hash : Bytes → ℕ) (client : AiClient) (p : Post) : Option (RouteResult × AiClient) :=
  Gateway.handleChatRequest hash p.request client p.env

variable {hash : Bytes → ℕ} {config : AiClientConfig} {client : AiClient}

theorem Post.body_eq (p : Post) : p.request.body = encodeObject [(lit "message", p.message)] := by
  have hopen : lit "\x7b\"message\":\"" =
      ascii '\x7b' :: ascii '"' :: (lit "message" ++ [ascii '"', ascii ':', ascii '"']) := by
    decide
  have hclose : lit "\"\x7d" = [ascii '"', ascii '\x7d'] := by decide
  rw [p.body, hopen, hclose]
  simp only [encodeObject, moreMembers, member, List.cons_append, List.append_assoc,
    List.nil_append]

theorem isName_message : IsName (lit "message") := by decide

theorem Post.extract {w : Bytes} (hw : IsName w) (p : Post) :
    HttpCodec.extractJsonStringField p.request.body w =
      scannedField w [(lit "message", p.message)] := by
  have hnames : ∀ m ∈ [(lit "message", p.message)], IsName m.1 := by
    intro m hm
    obtain rfl := List.mem_singleton.1 hm
    exact isName_message
  rw [p.body_eq]
  exact extract_encodeObject hw hnames

theorem Post.extract_message (p : Post) :
    Gateway.fieldOrEmpty p.request.body (lit "message") = p.message := by
  rw [Gateway.fieldOrEmpty, p.extract isName_message, scannedField, if_pos rfl]
  rfl

/-- No message text makes the extractor find a tool: where it shows the quoted word, no member
follows. -/
theorem Post.extract_tool (p : Post) :
    Gateway.fieldOrEmpty p.request.body (lit "tool") = [] := by
  have htool : IsName (lit "tool") := by decide
  have hne : lit "message" ≠ lit "tool" := by decide
  rw [Gateway.fieldOrEmpty, p.extract htool, scannedField, if_neg hne]
  split <;> rfl

theorem post_eq (hash : Bytes → ℕ) (client : AiClient) (p : Post) :
    post hash client p = (client.chat hash p.env ⟨p.message, []⟩).map fun (response, client) ↦
      ({ Gateway.makeRouteResult (jsonResponse response.status response.body) response.status with
        cacheHit := response.cacheHit
        toolUsed := response.toolUsed
        toolName := response.toolName
        upstreamLatencyMs := response.upstreamLatencyMs }, client) := by
  simp only [post, Gateway.handleChatRequest, p.method, p.extract_message, p.extract_tool,
    p.nonempty, ne_eq, not_true_eq_false, if_false]
  rw [Option.map_eq_bind]
  rfl

theorem jsonResponse_ok (body : Bytes) :
    jsonResponse (lit "200 OK") body =
      lit "HTTP/1.1 200 OK\r\nContent-Type: application/json; charset=utf-8\r\nContent-Length: " ++
        decimal body.length ++ lit "\r\nConnection: close\r\n\r\n" ++ body := by
  have hhead : lit "HTTP/1.1 " ++ lit "200 OK" ++ lit "\r\n" ++ lit "Content-Type: " ++
      lit "application/json; charset=utf-8" ++ lit "\r\n" ++ lit "Content-Length: " =
      lit "HTTP/1.1 200 OK\r\nContent-Type: application/json; charset=utf-8\r\nContent-Length: " := by
    repeat rw [lit_ofList]
    decide
  have hend : lit "\r\n" ++ lit "Connection: close\r\n" ++ lit "\r\n" =
      lit "\r\nConnection: close\r\n\r\n" := by
    repeat rw [lit_ofList]
    decide
  rw [← hhead, ← hend, jsonResponse, httpResponse]
  simp only [List.append_assoc]

theorem stubResult_eq (config : AiClientConfig) (message : Bytes) (cacheHit : Bool) :
    { Gateway.makeRouteResult (jsonResponse (lit "200 OK")
        (buildChatBody config ⟨message, []⟩ (makeStubReply message) cacheHit)) (lit "200 OK") with
      cacheHit := cacheHit } = stubResult config message cacheHit := by
  rw [jsonResponse_ok]
  rfl

def Right (config : AiClientConfig) (earlier : List (Post × RouteResult))
    (entry : Post × RouteResult) : Prop :=
  ∃ cacheHit, entry.2 = stubResult config entry.1.message cacheHit ∧
    (cacheHit = true → ∃ e ∈ earlier, e.1.message = entry.1.message)

/-- The client holds stub replies of posted messages only. -/
structure Answering (hash : Bytes → ℕ) (config : AiClientConfig) (client : AiClient)
    (log : List (Post × RouteResult)) : Prop where
  serving : client.responseCache_.Serving
  config_ : client.config_ = config
  held : ∀ m v, client.cached hash m = some v →
    v = makeStubReply m ∧ ∃ e ∈ log, e.1.message = m

theorem Answering.post (hstub : shouldUseNetworkProvider config = false)
    {log : List (Post × RouteResult)} (h : Answering hash config client log) (p : Post) :
    ∃ result client', post hash client p = some (result, client') ∧
      Right config log (p, result) ∧ Answering hash config client' (log ++ [(p, result)]) := by
  have hposted : ∀ {m result}, (∃ e ∈ log, e.1.message = m) →
      ∃ e ∈ log ++ [(p, result)], e.1.message = m := by
    intro m result hstub
    obtain ⟨e, he, hm⟩ := hstub
    exact ⟨e, List.mem_append_left _ he, hm⟩
  have htool : (AiChatRequest.mk p.message []).tool = [] := rfl
  rw [post_eq]
  cases hcached : client.cached hash p.message with
  | some reply =>
    obtain ⟨client', hchat, hrenewed, hsame⟩ := chat_of_cached p.env h.serving htool hcached
    obtain ⟨hreply, hearlier⟩ := h.held _ _ hcached
    refine ⟨stubResult config p.message true, client', ?_, ⟨true, rfl, fun _ ↦ hearlier⟩,
      hrenewed.serving, hrenewed.config_.trans h.config_, fun m v hv ↦ ?_⟩
    · rw [hchat, Option.map_some, hreply, h.config_, ← stubResult_eq]
      rfl
    · obtain ⟨hv, hm⟩ := h.held m v (hsame m ▸ hv)
      exact ⟨hv, hposted hm⟩
  | none =>
    obtain ⟨client', hchat, hrenewed, hother⟩ :=
      chat_of_stub p.env h.serving htool hcached (h.config_.symm ▸ hstub)
    refine ⟨stubResult config p.message false, client', ?_, ⟨false, rfl, fun hno ↦ by cases hno⟩,
      hrenewed.serving, hrenewed.config_.trans h.config_, fun m v hv ↦ ?_⟩
    · rw [hchat, Option.map_some, h.config_, ← stubResult_eq]
      rfl
    · have hstored := hother m v hv
      split at hstored
      · next hm =>
        subst hm
        exact ⟨hstored, _, List.mem_append_right _ (List.mem_singleton_self _), rfl⟩
      · obtain ⟨hv, hm⟩ := h.held m v hstored
        exact ⟨hv, hposted hm⟩

theorem answering_create (hash : Bytes → ℕ) (tools : Option ToolRegistry)
    (config : AiClientConfig) : Answering hash config (AiClient.create tools config) [] where
  serving := KHashLfuCache.create_serving _ (by decide) _ _
  config_ := rfl
  held m v hv := by
    rw [cached, AiClient.create, KHashLfuCache.contents_create] at hv
    cases hv

/-- Stub mode answers every posted message with its own reply. -/
theorem stub_contract (hash : Bytes → ℕ) (tools : Option ToolRegistry)
    (hstub : shouldUseNetworkProvider config = false) (posts : List Post) :
    ∃ client log, run (logged (post hash)) (AiClient.create tools config, []) posts =
        some (client, log) ∧
      log.map Prod.fst = posts ∧ Every (Right config) log := by
  refine logged_run ?_ (answering_create hash tools config) posts
  intro client log p h
  exact h.post hstub p

def Post.plain (message : Bytes) (nonempty : message ≠ []) : Post where
  message := message
  request := ⟨lit "POST", lit "/chat", lit "HTTP/1.1", ∅,
    lit "\x7b\"message\":\"" ++ jsonEscape message ++ lit "\"\x7d"⟩
  env := .ofCurl fun _ ↦ .initFails
  nonempty := nonempty
  method := rfl
  body := rfl

theorem quoted_tool_answered :
    let p := Post.plain (lit "use \"tool\"") (by decide)
    let config : AiClientConfig := ⟨lit "stub", [], [], [], false, 1, 1⟩
    ∃ client log, run (logged (post List.length)) (AiClient.create none config, []) [p, p] =
        some (client, log) ∧
      log.map Prod.fst = [p, p] ∧ Every (Right config) log :=
  stub_contract List.length none (by decide) _

end CppAiService.ChatContract
