import CppAiService.ChatCache
import CppAiService.Foundation.Log

namespace CppAiService.CachedReplies

open Bytes AiClient Foundation.Log Foundation.Run

structure Call where
  request : AiChatRequest
  env : ChatEnv

def call (hash : Bytes → ℕ) (client : AiClient) (c : Call) : Option (AiChatResponse × AiClient) :=
  client.chat hash c.env c.request

abbrev Entry := Call × AiChatResponse

variable {hash : Bytes → ℕ} {config : AiClientConfig} {client : AiClient} {log : List Entry}

/-- The provider gave this reply to a message, and the response carries it. -/
def Fresh (config : AiClientConfig) (message reply : Bytes) (e : Entry) : Prop :=
  e.1.request = ⟨message, []⟩ ∧ ∃ latencyMs,
    Took config ⟨message, []⟩ e.1.env.curl reply latencyMs ∧
      e.2 = okResponse config ⟨message, []⟩ reply latencyMs

/-- Not about this message, or answered from the cache with this reply. -/
def Repeated (config : AiClientConfig) (message reply : Bytes) (e : Entry) : Prop :=
  e.1.request = ⟨message, []⟩ → e.2 = hitResponse config ⟨message, []⟩ reply

/-- A hit repeats the last fresh reply to its message. -/
def Right (config : AiClientConfig) (earlier : List Entry) (e : Entry) : Prop :=
  e.2.cacheHit = true → ∃ message reply, e.1.request = ⟨message, []⟩ ∧
    e.2 = hitResponse config ⟨message, []⟩ reply ∧
    Last (Fresh config message reply) (Repeated config message reply) earlier

structure Faithful (hash : Bytes → ℕ) (config : AiClientConfig) (client : AiClient)
    (log : List Entry) : Prop where
  serving : client.responseCache_.Serving
  config_ : client.config_ = config
  held : ∀ m v, client.cached hash m = some v →
    Last (Fresh config m v) (Repeated config m v) log

theorem Faithful.renew (h : Faithful hash config client log) {client' : AiClient} {e : Entry}
    (hrenewed : Renewed client client')
    (hheld : ∀ m v, client'.cached hash m = some v →
      Fresh config m v e ∨ client.cached hash m = some v ∧ Repeated config m v e) :
    Faithful hash config client' (log ++ [e]) where
  serving := hrenewed.serving
  config_ := hrenewed.config_.trans h.config_
  held m v hv := by
    obtain hfresh | ⟨hold, hrepeated⟩ := hheld m v hv
    · exact last_self hfresh
    · exact last_append (h.held m v hold) hrepeated

theorem request_eq {c : Call} (htool : c.request.tool = []) : c.request = ⟨c.request.message, []⟩ :=
  congrArg (AiChatRequest.mk c.request.message) htool

theorem repeated_of_message_ne {c : Call} {response : AiChatResponse} {m v : Bytes}
    (h : m ≠ c.request.message) : Repeated config m v (c, response) :=
  fun heq ↦ absurd (congrArg AiChatRequest.message heq).symm h

theorem chatTool_cacheHit (client : AiClient) (env : ChatEnv) (request : AiChatRequest) :
    (client.chatTool env request).cacheHit = false := by
  unfold chatTool
  cases client.tools_ with
  | none => rfl
  | some tools =>
    dsimp only
    split <;> rfl

theorem Faithful.call_tool (h : Faithful hash config client log) {c : Call}
    (htool : c.request.tool ≠ []) :
    ∃ response client', call hash client c = some (response, client') ∧
      Right config log (c, response) ∧ Faithful hash config client' (log ++ [(c, response)]) := by
  refine ⟨client.chatTool c.env c.request, client, ?_, fun hhit ↦ ?_,
    h.renew ⟨rfl, rfl, h.serving⟩ fun m v hv ↦ .inr ⟨hv, fun heq ↦ ?_⟩⟩
  · simp only [call, chat, htool, ne_eq, not_false_eq_true, if_true]
    rfl
  · exact absurd hhit (by simp only [chatTool_cacheHit, Bool.false_eq_true, not_false_eq_true])
  · exact absurd (congrArg AiChatRequest.tool heq) htool

theorem Faithful.call_cached (h : Faithful hash config client log) {c : Call} {reply : Bytes}
    (htool : c.request.tool = []) (hcached : client.cached hash c.request.message = some reply) :
    ∃ response client', call hash client c = some (response, client') ∧
      Right config log (c, response) ∧ Faithful hash config client' (log ++ [(c, response)]) := by
  obtain ⟨client', hchat, hrenewed, hsame⟩ := chat_of_cached c.env h.serving htool hcached
  have hrequest := request_eq htool
  have hresponse : hitResponse client.config_ c.request reply =
      hitResponse config ⟨c.request.message, []⟩ reply := by
    rw [h.config_, ← hrequest]
  refine ⟨_, client', hchat, fun _ ↦ ⟨c.request.message, reply, hrequest, hresponse,
    h.held _ _ hcached⟩, h.renew hrenewed fun m v hv ↦ .inr ?_⟩
  rw [hsame] at hv
  refine ⟨hv, ?_⟩
  by_cases hm : m = c.request.message
  · subst hm
    obtain rfl := Option.some.inj (hcached.symm.trans hv)
    exact fun _ ↦ hresponse
  · exact repeated_of_message_ne hm

theorem Faithful.call_missed (h : Faithful hash config client log) {c : Call}
    (hnet : shouldUseNetworkProvider config = true) (htool : c.request.tool = [])
    (hmissed : client.cached hash c.request.message = none) :
    ∃ response client', call hash client c = some (response, client') ∧
      Right config log (c, response) ∧ Faithful hash config client' (log ++ [(c, response)]) := by
  obtain ⟨response, client', hchat, hrenewed, hnohit, hstored⟩ :=
    chat_of_network c.env h.serving htool hmissed (h.config_.symm ▸ hnet)
  refine ⟨response, client', hchat, fun hhit ↦ ?_, h.renew hrenewed fun m v hv ↦ ?_⟩
  · exact absurd (hnohit.symm.trans hhit) (by decide)
  obtain ⟨reply, latencyMs, htook, hresponse, hother⟩ | hsame := hstored
  · have hstored := hother m v hv
    split at hstored
    · next hm =>
      subst hm
      subst hstored
      rw [h.config_] at htook hresponse
      have hrequest := request_eq htool
      rw [hrequest] at htook hresponse
      exact .inl ⟨hrequest, latencyMs, htook, hresponse⟩
    · next hm => exact .inr ⟨hstored, repeated_of_message_ne hm⟩
  · rw [hsame] at hv
    have hm : m ≠ c.request.message := by
      intro heq
      obtain rfl := heq
      cases hmissed.symm.trans hv
    exact .inr ⟨hv, repeated_of_message_ne hm⟩

theorem Faithful.call (hnet : shouldUseNetworkProvider config = true)
    (h : Faithful hash config client log) (c : Call) :
    ∃ response client', call hash client c = some (response, client') ∧
      Right config log (c, response) ∧ Faithful hash config client' (log ++ [(c, response)]) := by
  by_cases htool : c.request.tool = []
  · cases hcached : client.cached hash c.request.message with
    | some reply => exact h.call_cached htool hcached
    | none => exact h.call_missed hnet htool hcached
  · exact h.call_tool htool

theorem faithful_create (hash : Bytes → ℕ) (tools : Option ToolRegistry)
    (config : AiClientConfig) : Faithful hash config (AiClient.create tools config) [] where
  serving := KHashLfuCache.create_serving _ (by decide) _ _
  config_ := rfl
  held m v hv := by
    rw [cached, AiClient.create, KHashLfuCache.contents_create] at hv
    cases hv

/-- The network path stores the reply it took, and a later hit repeats it, with the same body but
for the value of `cache_hit`. -/
theorem replies_repeated (hash : Bytes → ℕ) (tools : Option ToolRegistry)
    (hnet : shouldUseNetworkProvider config = true) :
    (∀ (client : AiClient) (env : ChatEnv) (message reply : Bytes) (latencyMs : ℤ)
        (cache : KHashLfuCache Bytes Bytes), client.config_ = config →
      client.responseCache_.get hash (cacheKey config ⟨message, []⟩) env.getOrder =
        some (none, cache) →
      Took config ⟨message, []⟩ env.curl reply latencyMs →
      client.chat hash env ⟨message, []⟩ =
        (cache.put hash (cacheKey config ⟨message, []⟩) reply env.putOrder).map fun cache ↦
          (okResponse config ⟨message, []⟩ reply latencyMs,
            { client with responseCache_ := cache })) ∧
    (∀ calls : List Call, ∃ client log,
      run (logged (call hash)) (AiClient.create tools config, []) calls = some (client, log) ∧
        log.map Prod.fst = calls ∧ Every (Right config) log) ∧
    ∀ (message reply : Bytes) (latencyMs : ℤ), ∃ front back,
      (hitResponse config ⟨message, []⟩ reply).body =
        front ++ lit "\"cache_hit\":" ++ lit "true" ++ back ∧
      (okResponse config ⟨message, []⟩ reply latencyMs).body =
        front ++ lit "\"cache_hit\":" ++ lit "false" ++ back := by
  refine ⟨?_, ?_, fun message reply ↦ hitResponse_body config ⟨message, []⟩ reply⟩
  · intro client env message reply latencyMs cache hclient hget htook
    obtain rfl := hclient
    exact chat_of_took env rfl hnet hget htook
  · intro calls
    refine logged_run ?_ (faithful_create hash tools config) calls
    intro client log c h
    exact h.call hnet c

theorem reply_field_repeated :
    let config : AiClientConfig := ⟨lit "openai", lit "m", lit "http://h", [], false, 4, 1⟩
    let client := AiClient.create none config
    let c : Call := ⟨⟨lit "\"reply\"", []⟩,
      .ofCurl fun _ ↦ .answered 200 (lit "\x7b\"content\":\"\\\"reply\\\":\"\x7d") 5⟩
    (∃ cache, client.responseCache_.get List.length (cacheKey config c.request) c.env.getOrder =
        some (none, cache) ∧
      client.chat List.length c.env c.request =
        (cache.put List.length (cacheKey config c.request) (lit "\"reply\":") .stored).map
          fun cache ↦ (okResponse config c.request (lit "\"reply\":") 5,
            { client with responseCache_ := cache })) ∧
    ∃ client' log, run (logged (call List.length)) (client, []) [c, c] = some (client', log) ∧
      log.map Prod.fst = [c, c] ∧ Every (Right config) log := by
  intro config client c
  have hnet : shouldUseNetworkProvider config = true := by decide
  have hcreated := faithful_create List.length none config
  have hmissed : client.cached List.length c.request.message = none :=
    KHashLfuCache.contents_create ..
  obtain ⟨hstored, hrepeated, -⟩ := replies_repeated List.length none hnet
  obtain ⟨cache, hget, -, -⟩ := get_missed hcreated.serving c.env.getOrder hmissed
  refine ⟨⟨cache, hget, hstored client c.env _ _ 5 cache rfl hget ?_⟩, hrepeated [c, c]⟩
  exact ⟨by decide, 200, _, rfl, by decide, by decide, by decide +kernel⟩

end CppAiService.CachedReplies
