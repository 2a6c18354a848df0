import CppAiService.ChatCache

namespace CppAiService.AiClient

open Bytes HttpCodec ReplyExtraction

/-- `chat` up to the answer of the cache, the first time that it takes a lock; no response when the
message has to be answered anew. -/
def lookUp (hash : Bytes → ℕ) (client : AiClient) (env : ChatEnv) (request : AiChatRequest) :
    Option (Option AiChatResponse × AiClient) := do
  if request.tool ≠ [] then
    return (some (client.chatTool env request), client)
  let key := cacheKey client.config_ request
  let (cachedReply, cache) ← client.responseCache_.get hash key env.getOrder
  return (cachedReply.map fun reply ↦
    ⟨true, lit "200 OK", buildChatBody client.config_ request reply true, true, false, [], 0⟩,
    { client with responseCache_ := cache })

/-- The rest of `chat`: the provider is asked with no lock held, and then its reply stored. -/
def answer (hash : Bytes → ℕ) (client : AiClient) (env : ChatEnv) (request : AiChatRequest) :
    Option (AiChatResponse × AiClient) := do
  let key := cacheKey client.config_ request
  if shouldUseNetworkProvider client.config_ then
    let networkResponse := callOpenAiCompatible client.config_ request env.curl
    match if networkResponse.ok then extractJsonStringField networkResponse.body (lit "reply")
      else none with
    | some reply =>
      let cache ← client.responseCache_.put hash key reply env.putOrder
      return (networkResponse, { client with responseCache_ := cache })
    | none => return (networkResponse, client)
  else
    let reply := makeStubReply request.message
    let cache ← client.responseCache_.put hash key reply env.putOrder
    return (plainResponse true (lit "200 OK") (buildChatBody client.config_ request reply false) 0,
      { client with responseCache_ := cache })

variable {hash : Bytes → ℕ} {client : AiClient} {env : ChatEnv} {request : AiChatRequest}
  {reply : Bytes}

/-- With nothing in between, the two sections are the whole. -/
theorem chat_eq (hash : Bytes → ℕ) (client : AiClient) (env : ChatEnv) (request : AiChatRequest) :
    client.chat hash env request = (client.lookUp hash env request).bind fun (response, client) ↦
      match response with
      | some response => some (response, client)
      | none => client.answer hash env request := by
  rw [chat, lookUp]
  by_cases htool : request.tool = []
  · simp only [htool, ne_eq, not_true_eq_false, if_false, Option.bind_eq_bind]
    cases client.responseCache_.get hash (cacheKey client.config_ request) env.getOrder with
    | none => rfl
    | some got =>
      obtain ⟨cachedReply, cache⟩ := got
      cases cachedReply <;> rfl
  · simp only [ne_eq, htool, not_false_eq_true, if_true]
    rfl

def Replied (config : AiClientConfig) (request : AiChatRequest) (curl : CurlRequest → CurlOutcome)
    (reply : Bytes) (latencyMs : ℤ) : Prop :=
  if shouldUseNetworkProvider config then Took config request curl reply latencyMs
  else reply = makeStubReply request.message ∧ latencyMs = 0

theorem lookUp_of_tool (htool : request.tool ≠ []) :
    client.lookUp hash env request = some (some (client.chatTool env request), client) := by
  rw [lookUp, if_pos htool]
  rfl

theorem lookUp_spec (hash : Bytes → ℕ) (env : ChatEnv) (request : AiChatRequest)
    (hc : client.responseCache_.Serving) (htool : request.tool = []) :
    ∃ client', client.lookUp hash env request = some ((client.cached hash request.message).map
        (hitResponse client.config_ request), client') ∧
      Renewed client client' ∧ ∀ m, client'.cached hash m = client.cached hash m := by
  obtain ⟨cache, hget, hserving, hsame⟩ :=
    KHashLfuCache.get_spec hc hash (cacheKey client.config_ request) env.getOrder
  refine ⟨{ client with responseCache_ := cache }, ?_, ⟨rfl, rfl, hserving⟩, fun m ↦ hsame _⟩
  rw [lookUp, if_neg (not_not.2 htool)]
  simp only [hget, Option.bind_eq_bind, Option.bind_some]
  rfl

theorem answer_stored (hash : Bytes → ℕ) (hc : client.responseCache_.Serving) {latencyMs : ℤ}
    (hreplied : Replied client.config_ request env.curl reply latencyMs) :
    ∃ client', client.answer hash env request =
        some (okResponse client.config_ request reply latencyMs, client') ∧
      Renewed client client' ∧ ∀ m v, client'.cached hash m = some v →
        if m = request.message then v = reply else client.cached hash m = some v := by
  obtain ⟨cache, hput, hrenewed, hother⟩ := put_cached hash hc request reply env.putOrder
  refine ⟨{ client with responseCache_ := cache }, ?_, hrenewed, hother⟩
  rw [Replied] at hreplied
  split at hreplied
  · next hnet =>
    have hextract := extract_reply client.config_ request reply false
    simp only [answer, hnet, callOpenAiCompatible_of_took hreplied, if_true]
    simp only [okResponse, plainResponse, hextract, if_true, Option.bind_eq_bind, hput,
      Option.bind_some]
    rfl
  · next hnet =>
    obtain ⟨rfl, rfl⟩ := hreplied
    simp only [answer, hnet, hput, Option.bind_eq_bind, Option.bind_some]
    rfl

theorem replied_or_failed (hash : Bytes → ℕ) (client : AiClient) (env : ChatEnv)
    (request : AiChatRequest) :
    (∃ reply latencyMs, Replied client.config_ request env.curl reply latencyMs) ∨
      ((callOpenAiCompatible client.config_ request env.curl).ok = false ∧
        client.answer hash env request =
          some (callOpenAiCompatible client.config_ request env.curl, client)) := by
  cases hnet : shouldUseNetworkProvider client.config_ with
  | false => exact .inl ⟨_, 0, by rw [Replied, hnet]; exact ⟨rfl, rfl⟩⟩
  | true =>
    obtain ⟨reply, latencyMs, htook⟩ | ⟨hok, -⟩ := took_or_failed client.config_ request env.curl
    · exact .inl ⟨reply, latencyMs, by rw [Replied, hnet]; exact htook⟩
    · refine .inr ⟨hok, ?_⟩
      simp only [answer, hnet, hok, if_true, Bool.false_eq_true, if_false]
      rfl

end CppAiService.AiClient
