import CppAiService.ChatSections
import CppAiService.Foundation.Threads
import CppAiService.GatewayRuns

namespace CppAiService.Gateway

open Bytes HttpCodec

variable {hash : Bytes → ℕ} {pages : WebPages} {s t : GatewayState} {request : HttpRequest}
  {env : RequestEnv} {result : RouteResult}

theorem handleChatRequest_refused (hash : Bytes → ℕ) (hroute : route request.path = .chat)
    (hnone : chatRequest request = none) : ∃ result, ∀ aiClient chatEnv,
      handleChatRequest hash request aiClient chatEnv = some (result, aiClient) := by
  rw [chatRequest, hroute] at hnone
  dsimp only at hnone
  by_cases hmethod : request.method = lit "POST"
  · by_cases hempty : fieldOrEmpty request.body (lit "message") = []
    · refine ⟨authBadRequest (lit
        "request body must contain a non-empty string field named message"), fun _ _ ↦ ?_⟩
      rw [handleChatRequest, if_neg (not_not.2 hmethod)]
      dsimp only
      rw [if_pos hempty]
      rfl
    · rw [if_pos ⟨hmethod, hempty⟩] at hnone
      cases hnone
  · exact ⟨_, fun _ _ ↦ if_pos hmethod⟩

/-- A request that is no chat sees no more of the client than its settings. -/
theorem handleRequest_with_client (hchat : chatRequest request = none) {client : AiClient}
    (hconfig : client.config_ = s.aiClient_.config_)
    (h : handleRequest hash pages s request env = some (result, t)) :
    handleRequest hash pages { s with aiClient_ := client } request env =
      some (result, { t with aiClient_ := client }) := by
  rw [handleRequest_eq] at h ⊢
  cases hroute : route request.path with
  | chat =>
    obtain ⟨refused, hrefused⟩ := handleChatRequest_refused hash hroute hchat
    rw [hroute, handleRoute, hrefused] at h
    obtain ⟨rfl, rfl⟩ := Prod.mk.inj (Option.some.inj h)
    rw [handleRoute, hrefused]
    rfl
  | health =>
    rw [hroute] at h
    obtain ⟨rfl, rfl⟩ := Prod.mk.inj (Option.some.inj h)
    rw [handleRoute, handleHealthRequest, handleHealthRequest, AiClient.configJson,
      AiClient.configJson]
    dsimp only
    rw [hconfig]
  | _ =>
    rw [hroute] at h
    obtain ⟨rfl, rfl⟩ := Prod.mk.inj (Option.some.inj h)
    rfl

end CppAiService.Gateway

namespace CppAiService.InterleavedRequests

open Bytes HttpCodec Gateway GatewayRuns AiClient
open Foundation.Run Foundation.Log Foundation.Threads

/-- A request whose handler runs, and whether it is a chat that was not found in the cache. -/
structure Running where
  request : Request
  missed : Bool

/-- What the threads share, the handlers that run, and the answers so far. -/
structure Server where
  gateway : GatewayState
  running : List Running
  answered : List Exchange

/-- A request arrives on some thread, or one handler goes on to the end of its next section under a
lock. -/
inductive Action
  | receive (r : Request)
  | advance (i : ℕ)

def received : List Action → List Request
  | [] => []
  | .receive r :: actions => r :: received actions
  | .advance _ :: actions => received actions

/-- Every handler but that of a chat comes to one section. -/
def advance (hash : Bytes → ℕ) (pages : WebPages) (s : GatewayState) (c : Running) :
    Option (Option RouteResult × GatewayState) :=
  match c.request.chat with
  | none => (serve hash pages s c.request).map fun (result, t) ↦ (some result, t)
  | some q =>
    let chatEnv := c.request.env.chatEnv s.ragStore_
    if c.missed then
      (s.aiClient_.answer hash chatEnv q).map fun (response, aiClient) ↦
        (some (chatAnswer response), { s with aiClient_ := aiClient })
    else
      (s.aiClient_.lookUp hash chatEnv q).map fun (response, aiClient) ↦
        (response.map chatAnswer, { s with aiClient_ := aiClient })

def step (hash : Bytes → ℕ) (pages : WebPages) (s : Server) : Action → Option Server
  | .receive r => some { s with running := s.running ++ [⟨r, false⟩] }
  | .advance i =>
    match s.running[i]? with
    | none => some s
    | some c => (advance hash pages s.gateway c).map fun
      | (some result, t) => ⟨t, s.running.eraseIdx i, s.answered ++ [(c.request, result)]⟩
      | (none, t) => ⟨t, s.running.set i ⟨c.request, true⟩, s.answered⟩

/-- The answer gives a reply that was not cached, and that is cached now. -/
def Stored (config : AiClientConfig) (message reply : Bytes) (e : Exchange) : Prop :=
  e.1.chat = some ⟨message, []⟩ ∧ ∃ latencyMs,
    Replied config ⟨message, []⟩ e.1.env.curl reply latencyMs ∧
      e.2 = chatAnswer (okResponse config ⟨message, []⟩ reply latencyMs)

/-- Not about this message, or answered from the cache with this reply, or by a provider that
failed. -/
def Kept (config : AiClientConfig) (message reply : Bytes) (e : Exchange) : Prop :=
  e.1.chat = some ⟨message, []⟩ → e.2 = chatAnswer (hitResponse config ⟨message, []⟩ reply) ∨
    (callOpenAiCompatible config ⟨message, []⟩ e.1.env.curl).ok = false ∧
      e.2 = chatAnswer (callOpenAiCompatible config ⟨message, []⟩ e.1.env.curl)

/-- What a chat may be answered, in view of the answers before it. -/
inductive Right (start : GatewayState) (earlier : List Exchange) : Exchange → Prop
  | other {r : Request} (result : RouteResult) (hchat : r.chat = none) :
      Right start earlier (r, result)
  | tool {r : Request} {q : AiChatRequest} (hchat : r.chat = some q) (htool : q.tool ≠ []) :
      Right start earlier
        (r, chatAnswer (start.aiClient_.chatTool (r.env.chatEnv start.ragStore_) q))
  | hit {r : Request} {message reply : Bytes} (hchat : r.chat = some ⟨message, []⟩)
      (hlast : Last (Stored start.aiClient_.config_ message reply)
        (Kept start.aiClient_.config_ message reply) earlier) :
      Right start earlier
        (r, chatAnswer (hitResponse start.aiClient_.config_ ⟨message, []⟩ reply))
  | replied {r : Request} {message reply : Bytes} {latencyMs : ℤ}
      (hchat : r.chat = some ⟨message, []⟩)
      (hreplied : Replied start.aiClient_.config_ ⟨message, []⟩ r.env.curl reply latencyMs) :
      Right start earlier
        (r, chatAnswer (okResponse start.aiClient_.config_ ⟨message, []⟩ reply latencyMs))
  | failed {r : Request} {message : Bytes} (hchat : r.chat = some ⟨message, []⟩)
      (hok : (callOpenAiCompatible start.aiClient_.config_ ⟨message, []⟩ r.env.curl).ok = false) :
      Right start earlier
        (r, chatAnswer (callOpenAiCompatible start.aiClient_.config_ ⟨message, []⟩ r.env.curl))

def notChat (r : Request) : Bool := r.chat.isNone

/-- The shared objects after some answers: all but the cache is where the other requests bring it
one after the other, and what the cache holds is the last reply to its message. -/
structure Kindred (hash : Bytes → ℕ) (pages : WebPages) (start s : GatewayState)
    (answered : List Exchange) : Prop where
  renewed : Renewed start.aiClient_ s.aiClient_
  ragStore : s.ragStore_ = start.ragStore_
  others : run (logged (serve hash pages)) (start, [])
      ((answered.map Prod.fst).filter notChat) =
    some ({ s with aiClient_ := start.aiClient_ }, answered.filter fun e ↦ notChat e.1)
  held : ∀ m v, s.aiClient_.cached hash m = some v →
    Last (Stored start.aiClient_.config_ m v) (Kept start.aiClient_.config_ m v) answered
  right : Every (Right start) answered

variable {hash : Bytes → ℕ} {pages : WebPages} {start s t : GatewayState} {answered : List Exchange}
  {c : Running} {r : Request} {q : AiChatRequest} {result : RouteResult} {message : Bytes}

theorem serve_with_client (hchat : r.chat = none) {client : AiClient}
    (hconfig : client.config_ = s.aiClient_.config_)
    (h : serve hash pages s r = some (result, t)) :
    serve hash pages { s with aiClient_ := client } r =
      some (result, { t with aiClient_ := client }) := by
  rw [Request.chat] at hchat
  rw [serve, handleRawRequest] at h ⊢
  cases hparse : parseHttpRequest r.raw with
  | none =>
    rw [hparse] at h
    obtain ⟨rfl, rfl⟩ := Prod.mk.inj (Option.some.inj h)
    rfl
  | some request =>
    rw [hparse] at h hchat
    exact handleRequest_with_client hchat hconfig h

theorem Kindred.chatted (h : Kindred hash pages start s answered) {client : AiClient}
    (hrenewed : Renewed s.aiClient_ client) (hchat : r.chat = some q)
    (hright : Right start answered (r, result))
    (hheld : ∀ m v, client.cached hash m = some v →
      Stored start.aiClient_.config_ m v (r, result) ∨
        s.aiClient_.cached hash m = some v ∧ Kept start.aiClient_.config_ m v (r, result)) :
    Kindred hash pages start { s with aiClient_ := client } (answered ++ [(r, result)]) where
  renewed := ⟨hrenewed.tools_.trans h.renewed.tools_, hrenewed.config_.trans h.renewed.config_,
    hrenewed.serving⟩
  ragStore := h.ragStore
  others := by
    have hno : notChat r = false := by rw [notChat, hchat]; rfl
    simp only [List.map_append, List.filter_append, List.map_cons, List.map_nil, List.filter_cons,
      hno, Bool.false_eq_true, if_false, List.filter_nil, List.append_nil]
    exact h.others
  held m v hv := by
    obtain hstored | ⟨hold, hkept⟩ := hheld m v hv
    · exact last_self hstored
    · exact last_append (h.held m v hold) hkept
  right := every_append h.right hright

theorem Kindred.advance_other (h : Kindred hash pages start s answered) (hchat : r.chat = none)
    (hdocument : r.document = none) (missed : Bool) :
    ∃ result t, advance hash pages s ⟨r, missed⟩ = some (some result, t) ∧
      Kindred hash pages start t (answered ++ [(r, result)]) := by
  obtain ⟨result, t, hserve⟩ := serve_possible hash pages h.renewed.serving r
  have hhandled := handled_raw hserve
  have hclient := hhandled.client
  rw [hchat] at hclient
  have hstore := hhandled.documents
  rw [hdocument] at hstore
  have hyes : notChat r = true := by rw [notChat, hchat]; rfl
  refine ⟨result, t, ?_, ?_, ?_, ?_, ?_, every_append h.right (.other result hchat)⟩
  · rw [advance, hchat]
    dsimp only
    rw [hserve, Option.map_some]
  · rw [hclient]
    exact h.renewed
  · exact hstore.trans h.ragStore
  · simp only [List.map_append, List.filter_append, List.map_cons, List.map_nil, List.filter_cons,
      hyes, if_true, List.filter_nil]
    exact logged_concat h.others (serve_with_client hchat h.renewed.config_.symm hserve)
  · intro m v hv
    rw [hclient] at hv
    exact last_append (h.held m v hv) fun heq ↦ nomatch hchat.symm.trans heq

theorem Kindred.advance_tool (h : Kindred hash pages start s answered) (hchat : r.chat = some q)
    (htool : q.tool ≠ []) :
    ∃ result t, advance hash pages s ⟨r, false⟩ = some (some result, t) ∧
      Kindred hash pages start t (answered ++ [(r, result)]) := by
  refine ⟨chatAnswer (s.aiClient_.chatTool (r.env.chatEnv s.ragStore_) q), s, ?_, ?_⟩
  · rw [advance, hchat]
    dsimp only
    rw [lookUp_of_tool htool]
    rfl
  · have hsame : s.aiClient_.chatTool (r.env.chatEnv s.ragStore_) q =
        start.aiClient_.chatTool (r.env.chatEnv start.ragStore_) q := by
      rw [chatTool, chatTool, h.renewed.tools_, h.renewed.config_, h.ragStore]
    rw [hsame]
    refine h.chatted ⟨rfl, rfl, h.renewed.serving⟩ hchat (.tool hchat htool) fun m v hv ↦
      .inr ⟨hv, fun heq ↦ ?_⟩
    obtain rfl := Option.some.inj (hchat.symm.trans heq)
    exact absurd rfl htool

theorem kept_of_message_ne (hchat : r.chat = some ⟨message, []⟩) {config : AiClientConfig}
    {m v : Bytes} (h : m ≠ message) : Kept config m v (r, result) :=
  fun heq ↦ absurd (AiChatRequest.mk.inj (Option.some.inj (hchat.symm.trans heq))).1.symm h

/-- A chat that finds its message is answered; one that does not goes on. -/
theorem Kindred.advance_lookUp (h : Kindred hash pages start s answered)
    (hchat : r.chat = some ⟨message, []⟩) :
    (∃ result t, advance hash pages s ⟨r, false⟩ = some (some result, t) ∧
      Kindred hash pages start t (answered ++ [(r, result)])) ∨
    ∃ t, advance hash pages s ⟨r, false⟩ = some (none, t) ∧
      Kindred hash pages start t answered := by
  obtain ⟨client, hlookUp, hrenewed, hsame⟩ := lookUp_spec hash
    (r.env.chatEnv s.ragStore_) ⟨message, []⟩ h.renewed.serving rfl
  have hadvance : advance hash pages s ⟨r, false⟩ = some (((s.aiClient_.cached hash message).map
      (hitResponse s.aiClient_.config_ ⟨message, []⟩)).map chatAnswer,
      { s with aiClient_ := client }) := by
    rw [advance, hchat]
    dsimp only
    rw [hlookUp]
    rfl
  cases hcached : s.aiClient_.cached hash message with
  | some reply =>
    rw [hcached, h.renewed.config_] at hadvance
    refine .inl ⟨_, _, hadvance, h.chatted hrenewed hchat (.hit hchat (h.held _ _ hcached))
      fun m v hv ↦ .inr ?_⟩
    rw [hsame] at hv
    refine ⟨hv, ?_⟩
    by_cases hm : m = message
    · subst hm
      obtain rfl := Option.some.inj (hcached.symm.trans hv)
      exact fun _ ↦ .inl rfl
    · exact kept_of_message_ne hchat hm
  | none =>
    rw [hcached] at hadvance
    refine .inr ⟨_, hadvance, ⟨hrenewed.tools_.trans h.renewed.tools_,
      hrenewed.config_.trans h.renewed.config_, hrenewed.serving⟩, h.ragStore, h.others,
      fun m v hv ↦ ?_, h.right⟩
    rw [hsame] at hv
    exact h.held m v hv

theorem Kindred.advance_answer (h : Kindred hash pages start s answered)
    (hchat : r.chat = some ⟨message, []⟩) :
    ∃ result t, advance hash pages s ⟨r, true⟩ = some (some result, t) ∧
      Kindred hash pages start t (answered ++ [(r, result)]) := by
  have hadvance : advance hash pages s ⟨r, true⟩ = (s.aiClient_.answer hash
      (r.env.chatEnv s.ragStore_) ⟨message, []⟩).map fun (response, aiClient) ↦
        (some (chatAnswer response), { s with aiClient_ := aiClient }) := by
    rw [advance, hchat]
    rfl
  obtain ⟨reply, latencyMs, hreplied⟩ | ⟨hok, hfailed⟩ := replied_or_failed hash s.aiClient_
    (r.env.chatEnv s.ragStore_) ⟨message, []⟩
  · obtain ⟨client, hanswer, hrenewed, hstored⟩ :=
      answer_stored hash h.renewed.serving hreplied
    rw [hanswer, Option.map_some, h.renewed.config_] at hadvance
    rw [h.renewed.config_] at hreplied
    refine ⟨_, _, hadvance, h.chatted hrenewed hchat (.replied hchat hreplied) fun m v hv ↦ ?_⟩
    have hv := hstored m v hv
    split at hv
    · next hm =>
      obtain rfl := hm
      obtain rfl := hv
      exact .inl ⟨hchat, latencyMs, hreplied, rfl⟩
    · next hm => exact .inr ⟨hv, kept_of_message_ne hchat hm⟩
  · rw [hfailed, Option.map_some, h.renewed.config_] at hadvance
    rw [h.renewed.config_] at hok
    refine ⟨_, _, hadvance, h.chatted ⟨rfl, rfl, h.renewed.serving⟩ hchat (.failed hchat hok)
      fun m v hv ↦ .inr ⟨hv, fun heq ↦ .inr ?_⟩⟩
    obtain ⟨rfl, -⟩ := AiChatRequest.mk.inj (Option.some.inj (hchat.symm.trans heq))
    exact ⟨hok, rfl⟩

theorem calls_of_chat (hchat : r.chat = some q) : r.userCall = none ∧ r.document = none := by
  obtain ⟨request, hparse, hchat⟩ := Option.bind_eq_some_iff.1 hchat
  have hroute : route request.path = .chat := by
    rw [chatRequest] at hchat
    split at hchat
    · assumption
    · cases hchat
  rw [Request.userCall, Request.document, hparse, Option.bind_some, Option.bind_some,
    Gateway.userCall, ingestedDocument, hroute]
  exact ⟨rfl, rfl⟩

/-- One thread alone does what the server does with one request after another. -/
theorem advance_alone (h : serve hash pages s r = some (result, t)) :
    advance hash pages s ⟨r, false⟩ = some (some result, t) ∨
      ∃ u, advance hash pages s ⟨r, false⟩ = some (none, u) ∧
        advance hash pages u ⟨r, true⟩ = some (some result, t) := by
  cases hchat : r.chat with
  | none =>
    rw [advance, hchat]
    dsimp only
    rw [h]
    exact .inl rfl
  | some q =>
    have hhandled := handled_raw h
    obtain ⟨hcall, hdocument⟩ := calls_of_chat hchat
    rw [HandledRaw, hcall, hdocument, hchat] at hhandled
    obtain ⟨response, hresponse, rfl⟩ := hhandled.client
    obtain ⟨husers, hfile⟩ := Prod.mk.inj hhandled.users
    have ht : t = { s with aiClient_ := t.aiClient_ } := by
      obtain ⟨ragStore, tools, client, users, file⟩ := t
      obtain rfl : ragStore = s.ragStore_ := hhandled.documents
      obtain rfl : tools = s.tools_ := hhandled.tools
      obtain rfl : users = s.users_ := husers
      obtain rfl : file = s.userFile := hfile
      rfl
    rw [chat_eq] at hresponse
    obtain ⟨⟨found, client⟩, hlookUp, hresponse⟩ := Option.bind_eq_some_iff.1 hresponse
    have hfirst : advance hash pages s ⟨r, false⟩ =
        some (found.map chatAnswer, { s with aiClient_ := client }) := by
      rw [advance, hchat]
      dsimp only
      rw [hlookUp]
      rfl
    cases found with
    | some found =>
      obtain ⟨rfl, hclient⟩ := Prod.mk.inj (Option.some.inj hresponse)
      rw [ht, ← hclient]
      exact .inl hfirst
    | none =>
      refine .inr ⟨_, hfirst, ?_⟩
      have hanswer : client.answer hash (r.env.chatEnv s.ragStore_) q =
          some (response, t.aiClient_) := hresponse
      rw [advance, hchat]
      dsimp only
      rw [hanswer, ht]
      rfl

/-- The interleavings are no fewer than the runs that take one request at a time. -/
theorem serial_run {requests : List Request} {log later : List Exchange}
    (h : run (logged (serve hash pages)) (s, log) requests = some (t, later)) :
    ∃ actions, received actions = requests ∧
      run (step hash pages) ⟨s, [], log⟩ actions = some ⟨t, [], later⟩ := by
  induction requests generalizing s log with
  | nil =>
    obtain ⟨rfl, rfl⟩ := Prod.mk.inj (Option.some.inj h)
    exact ⟨[], rfl, rfl⟩
  | cons r requests ih =>
    rw [run_cons, Option.bind_eq_some_iff] at h
    obtain ⟨u, hu, h⟩ := h
    obtain ⟨⟨result, v⟩, hserve, rfl⟩ := Option.map_eq_some_iff.1 hu
    obtain ⟨actions, hreceived, hrun⟩ := ih h
    obtain hdone | ⟨w, hmissed, hdone⟩ := advance_alone hserve
    · refine ⟨.receive r :: .advance 0 :: actions, by rw [received, received, hreceived], ?_⟩
      simp only [run_cons, step, List.nil_append, List.getElem?_cons_zero, hdone, Option.bind_some,
        Option.map_some, List.eraseIdx_cons_zero]
      exact hrun
    · refine ⟨.receive r :: .advance 0 :: .advance 0 :: actions,
        by rw [received, received, received, hreceived], ?_⟩
      simp only [run_cons, step, List.nil_append, List.getElem?_cons_zero, hmissed, hdone,
        Option.bind_some, Option.map_some, List.set_cons_zero, List.eraseIdx_cons_zero]
      exact hrun

/-- A handler that runs can go on: it posts no document, and only a chat with no tool is ever sent
to the provider. -/
structure Running.Able (c : Running) : Prop where
  document : c.request.document = none
  chat : c.missed = true → ∃ message, c.request.chat = some ⟨message, []⟩

theorem Kindred.advance (h : Kindred hash pages start s answered) (hc : c.Able) :
    (∃ result t, advance hash pages s c = some (some result, t) ∧
      Kindred hash pages start t (answered ++ [(c.request, result)])) ∨
    c.missed = false ∧ (∃ message, c.request.chat = some ⟨message, []⟩) ∧
      ∃ t, advance hash pages s c = some (none, t) ∧ Kindred hash pages start t answered := by
  obtain ⟨r, missed⟩ := c
  cases missed with
  | true =>
    obtain ⟨message, hchat⟩ := hc.chat rfl
    exact .inl (h.advance_answer hchat)
  | false =>
    cases hchat : r.chat with
    | none => exact .inl (h.advance_other hchat hc.document false)
    | some q =>
      by_cases htool : q.tool = []
      · have hq : r.chat = some ⟨q.message, []⟩ := by rw [hchat, ← htool]
        obtain hdone | hmissed := h.advance_lookUp hq
        · exact .inl hdone
        · exact .inr ⟨rfl, ⟨q.message, hchat.symm.trans hq⟩, hmissed⟩
      · exact .inl (h.advance_tool hchat htool)

/-- Every request that arrived is answered or runs, once. -/
structure Interleaved (hash : Bytes → ℕ) (pages : WebPages) (start : GatewayState)
    (requests : List Request) (s : Server) : Prop where
  perm : (s.answered.map Prod.fst ++ s.running.map Running.request).Perm requests
  able : ∀ c ∈ s.running, c.Able
  kindred : Kindred hash pages start s.gateway s.answered

variable {requests : List Request} {server server' : Server} {i : ℕ}

theorem Interleaved.receive (h : Interleaved hash pages start requests server)
    (hdocument : r.document = none) : Interleaved hash pages start (requests ++ [r])
      { server with running := server.running ++ [⟨r, false⟩] } where
  perm := by
    rw [List.map_append, ← List.append_assoc]
    exact h.perm.append_right [r]
  able := by
    intro c hc
    obtain hc | hc := List.mem_append.1 hc
    · exact h.able c hc
    · obtain rfl := List.mem_singleton.1 hc
      exact ⟨hdocument, nofun⟩
  kindred := h.kindred

/-- One section of one handler: the request is answered, or it is a chat that goes on. -/
theorem Interleaved.advance (h : Interleaved hash pages start requests server)
    (hc : server.running[i]? = some c) : ∃ server',
      step hash pages server (.advance i) = some server' ∧
      Interleaved hash pages start requests server' ∧
      ((∃ result, server'.running = server.running.eraseIdx i ∧
          server'.answered = server.answered ++ [(c.request, result)]) ∨
        c.missed = false ∧ server'.running = server.running.set i ⟨c.request, true⟩ ∧
          server'.answered = server.answered) := by
  obtain ⟨before, after, hrunning, hset, herase⟩ := pick hc
  have hmem : ∀ d, d ∈ server.running ↔ d = c ∨ d ∈ before ++ after := by
    intro d
    rw [hrunning, mem_middle]
  have hable := h.able c ((hmem c).2 (.inl rfl))
  have hperm := h.perm
  rw [hrunning, List.map_append, List.map_cons] at hperm
  obtain ⟨result, t, hadvance, ht⟩ | ⟨hmissed, hchat, t, hadvance, ht⟩ := h.kindred.advance hable
  · refine ⟨⟨t, server.running.eraseIdx i, server.answered ++ [(c.request, result)]⟩, ?_,
      ⟨?_, ?_, ht⟩, .inl ⟨result, rfl, rfl⟩⟩
    · rw [step, hc]
      dsimp only
      rw [hadvance, Option.map_some]
    · refine List.Perm.trans ?_ hperm
      rw [herase, List.map_append, List.map_append, List.map_singleton, List.append_assoc,
        List.singleton_append]
      exact List.Perm.append_left _ List.perm_middle.symm
    · intro d hd
      rw [herase] at hd
      exact h.able d ((hmem d).2 (.inr hd))
  · refine ⟨⟨t, server.running.set i ⟨c.request, true⟩, server.answered⟩, ?_,
      ⟨?_, ?_, ht⟩, .inr ⟨hmissed, rfl, rfl⟩⟩
    · rw [step, hc]
      dsimp only
      rw [hadvance, Option.map_some]
    · rw [hset, List.map_append, List.map_cons]
      exact hperm
    · intro d hd
      rw [hset, mem_middle] at hd
      obtain rfl | hd := hd
      · exact ⟨hable.document, fun _ ↦ hchat⟩
      · exact h.able d ((hmem d).2 (.inr hd))

theorem Interleaved.step (h : Interleaved hash pages start requests server) {a : Action}
    (ha : ∀ r ∈ received [a], r.document = none) :
    ∃ server', step hash pages server a = some server' ∧
      Interleaved hash pages start (requests ++ received [a]) server' := by
  cases a with
  | receive r => exact ⟨_, rfl, h.receive (ha r (List.mem_singleton_self r))⟩
  | advance i =>
    rw [received, received, List.append_nil]
    cases hc : server.running[i]? with
    | none =>
      refine ⟨server, ?_, h⟩
      rw [InterleavedRequests.step, hc]
    | some c =>
      obtain ⟨server', hstep, h', -⟩ := h.advance hc
      exact ⟨server', hstep, h'⟩

theorem received_append (as bs : List Action) :
    received (as ++ bs) = received as ++ received bs := by
  induction as with
  | nil => rfl
  | cons a as ih => cases a <;> simp only [List.cons_append, received, ih]

theorem Interleaved.run {actions : List Action}
    (h : Interleaved hash pages start requests server)
    (hposts : ∀ r ∈ received actions, r.document = none) :
    ∃ server', run (InterleavedRequests.step hash pages) server actions = some server' ∧
      Interleaved hash pages start (requests ++ received actions) server' := by
  induction actions generalizing requests server with
  | nil => exact ⟨server, rfl, by rwa [received, List.append_nil]⟩
  | cons a actions ih =>
    have hreceived : received (a :: actions) = received [a] ++ received actions :=
      received_append [a] actions
    rw [hreceived] at hposts ⊢
    obtain ⟨middle, hstep, hmiddle⟩ := h.step fun r hr ↦ hposts r (List.mem_append_left _ hr)
    obtain ⟨server', hrun, h'⟩ := ih hmiddle fun r hr ↦ hposts r (List.mem_append_right _ hr)
    rw [List.append_assoc] at h'
    exact ⟨server', by rw [run_cons, hstep, Option.bind_some, hrun], h'⟩

theorem interleaved_construct (hash : Bytes → ℕ) (pages : WebPages) (config : AiClientConfig)
    (users : UserStore.Stored) : Interleaved hash pages (construct config users) []
      ⟨construct config users, [], []⟩ where
  perm := .nil
  able := nofun
  kindred :=
    { renewed := (components_construct hash config users).renewed
      ragStore := rfl
      others := rfl
      held := by
        intro m v hv
        rw [cached, construct, AiClient.create, KHashLfuCache.contents_create] at hv
        cases hv
      right := every_nil }

/-- However the threads take their turns, as long as nobody posts a document, for which there is no
lock: each request is answered once, or still runs; the requests that are no chats are answered as
they would be one after the other, in the order of the answers; and a chat gets a reply of the
provider to its own message, the last one that was given if the cache has it. -/
theorem interleavings_answered (hash : Bytes → ℕ) (pages : WebPages) (config : AiClientConfig)
    (users : UserStore.Stored) (actions : List Action)
    (hposts : ∀ r ∈ received actions, r.document = none) :
    ∃ s, run (step hash pages) ⟨construct config users, [], []⟩ actions = some s ∧
      (s.answered.map Prod.fst ++ s.running.map Running.request).Perm (received actions) ∧
      Kindred hash pages (construct config users) s.gateway s.answered := by
  obtain ⟨s, hrun, hs⟩ := (interleaved_construct hash pages config users).run hposts
  exact ⟨s, hrun, hs.perm, hs.kindred⟩

def greets (reply : Bytes) : Request :=
  ⟨lit "POST /chat HTTP/1.1\r\n\r\n\x7b\"message\":\"hi\"\x7d", { quietEnv with
    curl := fun _ ↦ .answered 200 (lit "\x7b\"content\":\"" ++ reply ++ lit "\"\x7d") 5 }⟩

/-- The second chat looks the message up before the first one has stored its reply, and the third
one afterwards. -/
def threeGreetings : List Action :=
  [.receive (greets (lit "hello")), .receive (greets (lit "good day")), .advance 0, .advance 1,
    .advance 0, .receive (greets (lit "yes")), .advance 1, .advance 0]

theorem threeGreetings_posts : ∀ r ∈ received threeGreetings, r.document = none := by
  have hgreets : ∀ reply, (greets reply).document = none := fun reply ↦ by
    have hparse : (parseHttpRequest (greets []).raw).bind ingestedDocument = none := by
      decide +kernel
    exact hparse
  intro r hr
  obtain rfl | rfl | rfl : r = _ ∨ r = _ ∨ r = _ := by
    simpa only [threeGreetings, received, List.mem_cons, List.not_mem_nil, or_false] using hr
  all_goals exact hgreets _

theorem threeGreetings_answered : ∃ s, run (step List.length (.render [] []))
      ⟨construct ⟨lit "openai", lit "m", lit "http://h", [], false, 4, 1⟩
        (UserStore.start [] 86400 5 true none), [], []⟩ threeGreetings = some s ∧
    (s.answered.map Prod.fst ++ s.running.map Running.request).Perm
      [greets (lit "hello"), greets (lit "good day"), greets (lit "yes")] ∧
    Kindred List.length (.render [] []) (construct
      ⟨lit "openai", lit "m", lit "http://h", [], false, 4, 1⟩
        (UserStore.start [] 86400 5 true none)) s.gateway s.answered :=
  interleavings_answered _ _ _ _ threeGreetings threeGreetings_posts

def Moves (s : Server) (a : Action) : Prop := ∃ i, a = .advance i ∧ i < s.running.length

def sections (running : List Running) : ℕ :=
  (running.map fun c ↦ if c.missed then 1 else 2).sum

theorem sections_le (running : List Running) : sections running ≤ 2 * running.length := by
  induction running with
  | nil => exact le_rfl
  | cons c running ih =>
    rw [sections, List.map_cons, List.sum_cons, ← sections, List.length_cons]
    split <;> omega

theorem sections_middle (before after : List Running) (c : Running) :
    sections (before ++ c :: after) =
      (if c.missed then 1 else 2) + sections (before ++ after) := by
  simp only [sections, List.map_append, List.map_cons, List.sum_append, List.sum_cons]
  omega

theorem Interleaved.moves (h : Interleaved hash pages start requests server) {a : Action}
    (ha : Moves server a) : ∃ server', InterleavedRequests.step hash pages server a = some server' ∧
      Interleaved hash pages start requests server' ∧
      sections server'.running + 1 ≤ sections server.running := by
  obtain ⟨i, rfl, hi⟩ := ha
  obtain ⟨c, hc⟩ : ∃ c, server.running[i]? = some c := ⟨_, List.getElem?_eq_getElem hi⟩
  obtain ⟨before, after, hrunning, hset, herase⟩ := pick hc
  obtain ⟨server', hstep, h', ⟨result, hleft, -⟩ | ⟨hmissed, hleft, -⟩⟩ := h.advance hc
  · refine ⟨server', hstep, h', ?_⟩
    rw [hleft, herase, hrunning, sections_middle]
    split <;> omega
  · refine ⟨server', hstep, h', ?_⟩
    rw [hleft, hset, hrunning, sections_middle, sections_middle, hmissed]
    simp only [if_true, Bool.false_eq_true, if_false]
    omega

theorem Interleaved.drain {more : List Action} (h : Interleaved hash pages start requests server)
    (hmore : Along (InterleavedRequests.step hash pages) Moves server more) :
    ∃ server', Foundation.Run.run (InterleavedRequests.step hash pages) server more =
        some server' ∧
      Interleaved hash pages start requests server' ∧
      sections server'.running + more.length ≤ sections server.running := by
  induction more generalizing server with
  | nil => exact ⟨server, rfl, h, le_rfl⟩
  | cons a more ih =>
    obtain ⟨middle, hstep, hmiddle, hless⟩ := h.moves hmore.1
    obtain ⟨server', hrun, h', hleft⟩ := ih hmiddle (hmore.2 middle hstep)
    refine ⟨server', by rw [run_cons, hstep, Option.bind_some, hrun], h', ?_⟩
    rw [List.length_cons]
    omega

/-- No handler waits for another: once no more requests arrive, the threads come to an end after at
most two sections for each that runs, in whatever order, and then every request is answered. -/
theorem answers_come (hash : Bytes → ℕ) (pages : WebPages) (config : AiClientConfig)
    (users : UserStore.Stored) (actions : List Action)
    (hposts : ∀ r ∈ received actions, r.document = none) :
    ∃ s, run (step hash pages) ⟨construct config users, [], []⟩ actions = some s ∧
      ∀ more, Along (step hash pages) Moves s more →
        more.length ≤ 2 * s.running.length ∧
        ∃ t, run (step hash pages) s more = some t ∧
          ((∃ a, Along (step hash pages) Moves s (more ++ [a])) ∨
            t.running = [] ∧ (t.answered.map Prod.fst).Perm (received actions)) := by
  obtain ⟨s, hrun, hs⟩ := (interleaved_construct hash pages config users).run hposts
  refine ⟨s, hrun, fun more hmore ↦ ?_⟩
  obtain ⟨t, hdrained, ht, hleft⟩ := hs.drain hmore
  have hle := sections_le s.running
  refine ⟨by omega, t, hdrained, ?_⟩
  cases hrunning : t.running with
  | nil =>
    have hperm := ht.perm
    rw [hrunning, List.map_nil, List.append_nil] at hperm
    exact .inr ⟨rfl, hperm⟩
  | cons c running =>
    refine .inl ⟨.advance 0, along_concat.2 ⟨hmore, fun u hu ↦ ⟨0, rfl, ?_⟩⟩⟩
    obtain rfl := Option.some.inj (hdrained.symm.trans hu)
    rw [hrunning]
    exact Nat.succ_pos _

/-- Two chats have looked their message up and are with the provider. -/
theorem twoGreetings_come : ∃ s, run (step List.length (.render [] []))
      ⟨construct ⟨lit "openai", lit "m", lit "http://h", [], false, 4, 1⟩
        (UserStore.start [] 86400 5 true none), [], []⟩ (threeGreetings.take 4) = some s ∧
    s.running.length = 2 ∧
    ∀ more, Along (step List.length (.render [] [])) Moves s more →
      more.length ≤ 2 * s.running.length ∧
      ∃ t, run (step List.length (.render [] [])) s more = some t ∧
        ((∃ a, Along (step List.length (.render [] [])) Moves s (more ++ [a])) ∨
          t.running = [] ∧ (t.answered.map Prod.fst).Perm
            [greets (lit "hello"), greets (lit "good day")]) := by
  obtain ⟨s, hrun, hcome⟩ := answers_come List.length (.render [] [])
    ⟨lit "openai", lit "m", lit "http://h", [], false, 4, 1⟩ (UserStore.start [] 86400 5 true none)
    (threeGreetings.take 4) fun r hr ↦ threeGreetings_posts r (List.mem_append_left _ hr)
  have hrunning : (run (step List.length (.render [] []))
      ⟨construct ⟨lit "openai", lit "m", lit "http://h", [], false, 4, 1⟩
        (UserStore.start [] 86400 5 true none), [], []⟩ (threeGreetings.take 4)).map
      (fun s ↦ s.running.length) = some 2 := by decide +kernel
  rw [hrun, Option.map_some, Option.some.injEq] at hrunning
  exact ⟨s, hrun, hrunning, hcome⟩

end CppAiService.InterleavedRequests
