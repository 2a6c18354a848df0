import CppAiService.ReplyExtraction

namespace CppAiService

def ChatEnv.ofCurl (curl : CurlRequest → CurlOutcome) : ChatEnv :=
  ⟨.stored, .stored, curl, ⟨none, [], .stable⟩⟩

namespace AiClient

open Bytes HttpCodec ReplyExtraction

variable {hash : Bytes → ℕ} {client : AiClient} (env : ChatEnv) {request : AiChatRequest}
  {reply : Bytes}

def cached (hash : Bytes → ℕ) (client : AiClient) (message : Bytes) : Option Bytes :=
  client.responseCache_.contents hash (cacheKey client.config_ ⟨message, []⟩)

theorem cacheKey_injective {config : AiClientConfig} {message message' : Bytes}
    (h : cacheKey config ⟨message, []⟩ = cacheKey config ⟨message', []⟩) : message = message' :=
  List.append_cancel_left h

theorem cacheKey_ne_default (config : AiClientConfig) (request : AiChatRequest) :
    cacheKey config request ≠ default := by
  intro h
  have hnil := (List.append_eq_nil_iff.1 (List.append_eq_nil_iff.1 h).1).2
  exact absurd hnil (by decide)

def hitResponse (config : AiClientConfig) (request : AiChatRequest) (reply : Bytes) :
    AiChatResponse :=
  ⟨true, lit "200 OK", buildChatBody config request reply true, true, false, [], 0⟩

def okResponse (config : AiClientConfig) (request : AiChatRequest) (reply : Bytes)
    (latencyMs : ℤ) : AiChatResponse :=
  plainResponse true (lit "200 OK") (buildChatBody config request reply false) latencyMs

/-- A hit has the body of the fresh answer but for the value of `cache_hit`. -/
theorem hitResponse_body (config : AiClientConfig) (request : AiChatRequest) (reply : Bytes)
    (latencyMs : ℤ) : ∃ front back,
      (hitResponse config request reply).body =
        front ++ lit "\"cache_hit\":" ++ lit "true" ++ back ∧
      (okResponse config request reply latencyMs).body =
        front ++ lit "\"cache_hit\":" ++ lit "false" ++ back := by
  have hback (x : Bytes) : x ++ lit "," ++ lit "\"tool_used\":false" ++ lit "\x7d" =
      x ++ (lit "," ++ lit "\"tool_used\":false" ++ lit "\x7d") := by
    simp only [List.append_assoc]
  exact ⟨_, _, hback _, hback _⟩

structure Renewed (client client' : AiClient) : Prop where
  tools_ : client'.tools_ = client.tools_
  config_ : client'.config_ = client.config_
  serving : client'.responseCache_.Serving

theorem chat_of_cached (hc : client.responseCache_.Serving) (htool : request.tool = [])
    (h : client.cached hash request.message = some reply) :
    ∃ client', client.chat hash env request =
        some (hitResponse client.config_ request reply, client') ∧
      Renewed client client' ∧ ∀ m, client'.cached hash m = client.cached hash m := by
  obtain ⟨cache, hget, hserving, hsame⟩ :=
    KHashLfuCache.get_spec hc hash (cacheKey client.config_ request) env.getOrder
  have hreply : client.responseCache_.contents hash (cacheKey client.config_ request) =
      some reply := h
  refine ⟨{ client with responseCache_ := cache }, ?_, ⟨rfl, rfl, hserving⟩, fun m ↦ hsame _⟩
  simp only [chat, htool, hget, hreply, ne_eq, not_true_eq_false, if_false, Option.bind_eq_bind,
    Option.bind_some]
  rfl

theorem put_cached (hash : Bytes → ℕ) (hc : client.responseCache_.Serving)
    (request : AiChatRequest) (reply : Bytes) (order : IterationOrder) :
    ∃ cache, client.responseCache_.put hash (cacheKey client.config_ request) reply order =
        some cache ∧
      Renewed client { client with responseCache_ := cache } ∧
      ∀ m v, ({ client with responseCache_ := cache } : AiClient).cached hash m = some v →
        if m = request.message then v = reply else client.cached hash m = some v := by
  obtain ⟨cache, hput, hserving, hother⟩ :=
    KHashLfuCache.put_spec hc hash (cacheKey_ne_default client.config_ request) reply order
  refine ⟨cache, hput, ⟨rfl, rfl, hserving⟩, fun m v hv ↦ ?_⟩
  have h := hother (cacheKey client.config_ ⟨m, []⟩) v hv
  by_cases hm : m = request.message
  · subst hm
    rw [if_pos rfl]
    exact (if_pos rfl).mp h
  · have hne : cacheKey client.config_ ⟨m, []⟩ ≠ cacheKey client.config_ request :=
      fun heq ↦ hm (cacheKey_injective heq)
    rw [if_neg hm]
    rwa [if_neg hne] at h

theorem get_missed (hc : client.responseCache_.Serving) (order : IterationOrder)
    (h : client.cached hash request.message = none) :
    ∃ cache, client.responseCache_.get hash (cacheKey client.config_ request) order =
        some (none, cache) ∧ cache.Serving ∧
      ∀ m, ({ client with responseCache_ := cache } : AiClient).cached hash m =
        client.cached hash m := by
  obtain ⟨cache, hget, hserving, hsame⟩ :=
    KHashLfuCache.get_spec hc hash (cacheKey client.config_ request) order
  have hnone : client.responseCache_.contents hash (cacheKey client.config_ request) = none := h
  exact ⟨cache, hnone ▸ hget, hserving, fun m ↦ hsame _⟩

theorem chat_of_stub (hc : client.responseCache_.Serving) (htool : request.tool = [])
    (h : client.cached hash request.message = none)
    (hstub : shouldUseNetworkProvider client.config_ = false) :
    ∃ client', client.chat hash env request =
        some (okResponse client.config_ request (makeStubReply request.message) 0, client') ∧
      Renewed client client' ∧ ∀ m v, client'.cached hash m = some v →
        if m = request.message then v = makeStubReply request.message
        else client.cached hash m = some v := by
  obtain ⟨cache, hget, hserving, hsame⟩ := get_missed hc env.getOrder h
  have hc' : ({ client with responseCache_ := cache } : AiClient).responseCache_.Serving := hserving
  obtain ⟨cache', hput, hrenewed, hother⟩ :=
    put_cached hash hc' request (makeStubReply request.message) env.putOrder
  refine ⟨{ client with responseCache_ := cache' }, ?_,
    ⟨rfl, rfl, hrenewed.serving⟩, fun m v hv ↦ ?_⟩
  · dsimp only at hput
    simp only [chat, htool, hget, hput, hstub, ne_eq, not_true_eq_false, if_false,
      Option.bind_eq_bind, Option.bind_some, Bool.false_eq_true]
    rfl
  · simpa only [hsame] using hother m v hv

def Took (config : AiClientConfig) (request : AiChatRequest) (curl : CurlRequest → CurlOutcome)
    (reply : Bytes) (latencyMs : ℤ) : Prop :=
  config.baseUrl ≠ [] ∧ ∃ httpStatus response,
    curl (curlRequest config request) = .answered httpStatus response latencyMs ∧
      200 ≤ httpStatus ∧ httpStatus < 300 ∧
      AiClient.extractJsonStringField response (lit "content") = some reply

theorem callOpenAiCompatible_of_took {config : AiClientConfig} {curl : CurlRequest → CurlOutcome}
    {latencyMs : ℤ} (h : Took config request curl reply latencyMs) :
    callOpenAiCompatible config request curl = okResponse config request reply latencyMs := by
  obtain ⟨hbase, httpStatus, response, hcurl, hlow, hhigh, hcontent⟩ := h
  have hstatus : ¬ (httpStatus < 200 ∨ 300 ≤ httpStatus) := by omega
  simp only [callOpenAiCompatible, hbase, hcurl, hstatus, hcontent, if_false]
  rfl

theorem took_or_failed (config : AiClientConfig) (request : AiChatRequest)
    (curl : CurlRequest → CurlOutcome) :
    (∃ reply latencyMs, Took config request curl reply latencyMs) ∨
      ((callOpenAiCompatible config request curl).ok = false ∧
        (callOpenAiCompatible config request curl).cacheHit = false) := by
  unfold callOpenAiCompatible
  by_cases hbase : config.baseUrl = []
  · simp only [hbase, if_true]
    exact .inr ⟨rfl, rfl⟩
  simp only [hbase, if_false]
  cases hcurl : curl (curlRequest config request) with
  | initFails => exact .inr ⟨rfl, rfl⟩
  | failed error latencyMs => exact .inr ⟨rfl, rfl⟩
  | answered httpStatus response latencyMs =>
    by_cases hstatus : httpStatus < 200 ∨ 300 ≤ httpStatus
    · simp only [hstatus, if_true]
      exact .inr ⟨rfl, rfl⟩
    simp only [hstatus, if_false]
    cases hcontent : AiClient.extractJsonStringField response (lit "content") with
    | none => exact .inr ⟨rfl, rfl⟩
    | some reply =>
      exact .inl ⟨reply, latencyMs, hbase, httpStatus, response, hcurl, by omega, by omega,
        hcontent⟩

theorem chat_of_took {cache : KHashLfuCache Bytes Bytes} {latencyMs : ℤ} (htool : request.tool = [])
    (hnet : shouldUseNetworkProvider client.config_ = true)
    (hget : client.responseCache_.get hash (cacheKey client.config_ request) env.getOrder =
      some (none, cache)) (htook : Took client.config_ request env.curl reply latencyMs) :
    client.chat hash env request =
      (cache.put hash (cacheKey client.config_ request) reply env.putOrder).map fun cache ↦
        (okResponse client.config_ request reply latencyMs,
          { client with responseCache_ := cache }) := by
  have hextract := extract_reply client.config_ request reply false
  simp only [chat, htool, hget, hnet, callOpenAiCompatible_of_took htook, ne_eq,
    not_true_eq_false, if_false, if_true, Option.bind_eq_bind, Option.bind_some]
  simp only [okResponse, plainResponse, hextract, if_true]
  rw [Option.map_eq_bind]
  rfl

/-- A miss on the network path stores the reply of the provider, if there is one. -/
theorem chat_of_network (hc : client.responseCache_.Serving) (htool : request.tool = [])
    (h : client.cached hash request.message = none)
    (hnet : shouldUseNetworkProvider client.config_ = true) :
    ∃ response client', client.chat hash env request = some (response, client') ∧
      Renewed client client' ∧ response.cacheHit = false ∧
      ((∃ reply latencyMs, Took client.config_ request env.curl reply latencyMs ∧
          response = okResponse client.config_ request reply latencyMs ∧
          ∀ m v, client'.cached hash m = some v →
            if m = request.message then v = reply else client.cached hash m = some v) ∨
        ∀ m, client'.cached hash m = client.cached hash m) := by
  obtain ⟨cache, hget, hserving, hsame⟩ := get_missed hc env.getOrder h
  obtain ⟨reply, latencyMs, htook⟩ | ⟨hok, hmiss⟩ :=
    took_or_failed client.config_ request env.curl
  · have hc' : ({ client with responseCache_ := cache } : AiClient).responseCache_.Serving :=
      hserving
    obtain ⟨cache', hput, hrenewed, hother⟩ :=
      put_cached hash hc' request reply env.putOrder
    refine ⟨_, { client with responseCache_ := cache' }, ?_, ⟨rfl, rfl, hrenewed.serving⟩, rfl,
      .inl ⟨reply, latencyMs, htook, rfl, fun m v hv ↦ ?_⟩⟩
    · rw [chat_of_took env htool hnet hget htook, hput, Option.map_some]
    · simpa only [hsame] using hother m v hv
  · refine ⟨_, { client with responseCache_ := cache }, ?_, ⟨rfl, rfl, hserving⟩, hmiss,
      .inr hsame⟩
    simp only [chat, htool, hget, hnet, hok, ne_eq, not_true_eq_false, if_false, if_true,
      Option.bind_eq_bind, Option.bind_some, Bool.false_eq_true]
    rfl

end AiClient

end CppAiService
