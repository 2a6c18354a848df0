import CppAiService.GatewayRuns
import CppAiService.Retrieval

namespace CppAiService.HttpRetrieval

open Bytes HttpCodec Gateway GatewayRuns InMemoryRagStore ToolRegistry
open Foundation.Run Foundation.Log

def defaults : List RagDocument := (seedDefaults ⟨[]⟩).documents_

def matchesJson (query : Bytes) (results : List RagSearchResult) : Bytes :=
  lit "\x7b" ++
    lit "\"query\":\"" ++ jsonEscape query ++ lit "\"," ++
    lit "\"count\":" ++ decimal results.length ++ lit "," ++
    lit "\"matches\":[" ++ commaSeparated (results.map resultJson) ++
    lit "]\x7d"

def mcpHead : Bytes :=
  lit "\x7b" ++
    lit "\"ok\":true," ++
    lit "\"protocol\":\"mcp-like\"," ++
    lit "\"tool\":\"" ++ jsonEscape (lit "rag_search") ++ lit "\"," ++
    lit "\"result\":"

def chatHead (config : AiClientConfig) (query tool : Bytes) : Bytes :=
  lit "\x7b" ++
    lit "\"ok\":true," ++
    lit "\"message\":\"" ++ jsonEscape query ++ lit "\"," ++
    lit "\"reply\":\"Tool " ++ jsonEscape tool ++ lit " executed for: " ++
      jsonEscape query ++ lit "\"," ++
    lit "\"provider\":\"" ++ jsonEscape config.provider ++ lit "\"," ++
    lit "\"model\":\"" ++ jsonEscape config.model ++ lit "\"," ++
    lit "\"cache_hit\":false," ++
    lit "\"tool_used\":true," ++
    lit "\"tool\":\"" ++ jsonEscape tool ++ lit "\"," ++
    lit "\"tool_result\":"

/-- A request searches, by either way, and the result comes behind this head in the answer. -/
inductive Searches (config : AiClientConfig) (r : Request) (query : Bytes) : Bytes → Prop
  | mcp (request : HttpRequest) (input : Bytes) (hparse : parseHttpRequest r.raw = some request)
      (hroute : route request.path = .mcpCall) (hmethod : request.method = lit "POST")
      (htool : extractJsonStringField request.body (lit "tool") = some (lit "rag_search"))
      (hinput : (extractJsonStringField request.body (lit "query")).getD
        (fieldOrEmpty request.body (lit "message")) = input)
      (hquery : query = if input = [] then lit "cpp-ai-service" else input) :
      Searches config r query mcpHead
  | chat (hchat : r.chat = some ⟨query, lit "rag_search"⟩) :
      Searches config r query (chatHead config query (lit "rag_search"))

theorem toolBody_head (config : AiClientConfig) (query tool json : Bytes) :
    AiClient.toolBody config ⟨query, tool⟩ ⟨true, json, []⟩ =
      chatHead config query tool ++ json ++ lit "\x7d" := rfl

theorem upsertInto_of_new {document : RagDocument} {documents : List RagDocument}
    (hnew : document.id ∉ documents.map (·.id)) :
    upsertInto document documents = documents ++ [document] := by
  induction documents with
  | nil => rfl
  | cons existing documents ih =>
    rw [List.map_cons, List.mem_cons, not_or] at hnew
    rw [upsertInto, if_neg (Ne.symm hnew.1), ih hnew.2, List.cons_append]

theorem stored_of_nodup {documents : List RagDocument}
    (hnodup : (documents.map (·.id)).Nodup) : Retrieval.stored documents = ⟨documents⟩ := by
  induction documents using List.reverseRecOn with
  | nil => rfl
  | append_singleton documents document ih =>
    rw [List.map_append, List.map_singleton, List.nodup_append_comm, List.singleton_append,
      List.nodup_cons] at hnodup
    have hstored : Retrieval.stored (documents ++ [document]) =
        (Retrieval.stored documents).upsert document := by
      rw [Retrieval.stored, List.foldl_append]
      rfl
    rw [hstored, ih hnodup.2, upsert, upsertInto_of_new hnodup.1]

theorem seeded : seedDefaults ⟨[]⟩ = Retrieval.stored defaults :=
  (stored_of_nodup (by decide +kernel)).symm

theorem execute_ragSearch (context : ToolContext) (input : Bytes) :
    createDefault.execute context (lit "rag_search") input = ragSearch context input := by
  have hfind : (createDefault.tools_.find? fun item ↦ item.1 = lit "rag_search") =
      createDefault.tools_[1]? := rfl
  rw [execute, hfind]
  rfl

variable {hash : Bytes → ℕ} {pages : WebPages} {s t : GatewayState} {r : Request}
  {result : RouteResult} {query : Bytes}

theorem chat_message_ne (h : r.chat = some ⟨query, lit "rag_search"⟩) : query ≠ [] := by
  obtain ⟨request, -, hchat⟩ := Option.bind_eq_some_iff.1 h
  rw [chatRequest] at hchat
  split at hchat
  · dsimp only at hchat
    split_ifs at hchat with hposted
    obtain ⟨rfl, -⟩ := AiChatRequest.mk.inj (Option.some.inj hchat)
    exact hposted.2
  · cases hchat

theorem serve_mcp (htools : s.tools_ = .createDefault) {request : HttpRequest} {input : Bytes}
    (hparse : parseHttpRequest r.raw = some request) (hroute : route request.path = .mcpCall)
    (hmethod : request.method = lit "POST")
    (htool : extractJsonStringField request.body (lit "tool") = some (lit "rag_search"))
    (hinput : (extractJsonStringField request.body (lit "query")).getD
      (fieldOrEmpty request.body (lit "message")) = input)
    (hserve : serve hash pages s r = some (result, t)) :
    result.response = jsonResponse (lit "200 OK") (mcpHead ++ (s.ragStore_.searchJson r.env.sort
      (if input = [] then lit "cpp-ai-service" else input) 3) ++ lit "\x7d") := by
  have hne : lit "rag_search" ≠ [] := by decide
  rw [serve, handleRawRequest, hparse] at hserve
  dsimp only at hserve
  rw [handleRequest_eq, hroute] at hserve
  obtain ⟨rfl, -⟩ := Prod.mk.inj (Option.some.inj hserve)
  rw [handleMcpCallRequest, if_neg (not_not.2 hmethod), htools, fieldOrEmpty, htool]
  cases hquery : extractJsonStringField request.body (lit "query") with
  | some query =>
    obtain rfl : query = input := by rwa [hquery] at hinput
    simp only [Option.getD_some, hne, execute_ragSearch, ragSearch, RequestEnv.toolContext, if_true,
      if_false, makeRouteResult, mcpHead, List.append_assoc]
  | none =>
    obtain rfl : fieldOrEmpty request.body (lit "message") = input := by rwa [hquery] at hinput
    simp only [Option.getD_some, hne, execute_ragSearch, ragSearch, RequestEnv.toolContext, if_true,
      if_false, makeRouteResult, mcpHead, List.append_assoc]

theorem serve_chat (htools : s.aiClient_.tools_ = some .createDefault)
    (hchat : r.chat = some ⟨query, lit "rag_search"⟩)
    (hserve : serve hash pages s r = some (result, t)) :
    result.response = jsonResponse (lit "200 OK") (chatHead s.aiClient_.config_ query
      (lit "rag_search") ++ s.ragStore_.searchJson r.env.sort query 3 ++ lit "\x7d") := by
  have hne : lit "rag_search" ≠ [] := by decide
  have hclient := (handled_raw hserve).client
  rw [hchat] at hclient
  obtain ⟨response, hresponse, rfl⟩ := hclient
  rw [AiClient.chat_of_tool hne] at hresponse
  obtain ⟨rfl, -⟩ := Prod.mk.inj (Option.some.inj hresponse)
  have hexecute : createDefault.execute (r.env.chatEnv s.ragStore_).tools (lit "rag_search") query =
      ⟨true, s.ragStore_.searchJson r.env.sort query 3, []⟩ := by
    rw [execute_ragSearch, RequestEnv.chatEnv, RequestEnv.toolContext, ragSearch]
    dsimp only
    rw [if_neg (chat_message_ne hchat)]
  generalize s.ragStore_.searchJson r.env.sort query 3 = json at hexecute ⊢
  rw [chatAnswer, makeRouteResult, AiClient.chatTool, htools]
  dsimp only
  rw [hexecute, ← toolBody_head]
  rfl

/-- Requests of any kind: a search over HTTP, by the tool endpoint or by a chat with the tool,
answers with the best three of the documents that were posted and of the defaults, each as it was
last posted. -/
theorem searches_over_http (hash : Bytes → ℕ) (pages : WebPages) (config : AiClientConfig)
    (users : UserStore.Stored) (requests : List Request) {s : GatewayState} {log : List Exchange}
    (hrun : run (logged (serve hash pages)) (construct config users, []) requests = some (s, log))
    {r : Request} {query head : Bytes} (hsearch : Searches config r query head) :
    ∃ result s' results, serve hash pages s r = some (result, s') ∧
      Retrieval.ExactTopK (defaults ++ documents requests) query 3 results ∧
      result.response = jsonResponse (lit "200 OK")
        (head ++ matchesJson query results ++ lit "\x7d") := by
  have hcomponents := (components_construct hash config users).keeps hrun
  have hrequests := logged_actions hrun
  rw [List.map_nil, List.nil_append] at hrequests
  have hstore : s.ragStore_ = Retrieval.stored (defaults ++ documents requests) := by
    rw [hcomponents.ragStore, hrequests, Retrieval.stored, List.foldl_append]
    exact congrArg (List.foldl upsert · (documents requests)) seeded
  obtain ⟨result, s', hserve⟩ := serve_possible hash pages hcomponents.renewed.serving r
  refine ⟨result, s', s.ragStore_.search r.env.sort query 3, hserve, ?_, ?_⟩
  · rw [hstore]
    exact Retrieval.exactTopK_search ..
  · cases hsearch with
    | mcp request input hparse hroute hmethod htool hinput hquery =>
      rw [hquery]
      exact serve_mcp hcomponents.tools hparse hroute hmethod htool hinput hserve
    | chat hchat =>
      have hconfig : s.aiClient_.config_ = config := hcomponents.renewed.config_
      rw [← hconfig]
      exact serve_chat hcomponents.renewed.tools_ hchat hserve

def poolNote : RagDocument := ⟨lit "note", lit "Pools", lit "Slots of a memory pool"⟩

def posts : Request :=
  ⟨lit "POST /rag/ingest HTTP/1.1\r\n\r\n" ++
    lit "\x7b\"id\":\"note\",\"title\":\"Pools\",\"content\":\"Slots of a memory pool\"\x7d",
    quietEnv⟩

def asks : Request :=
  ⟨lit "POST /mcp/call HTTP/1.1\r\n\r\n\x7b\"tool\":\"rag_search\",\"query\":\"slots\"\x7d", quietEnv⟩

theorem posts_document : posts.document = some poolNote := by decide +kernel

theorem asks_searches (config : AiClientConfig) : Searches config asks (lit "slots") mcpHead := by
  have hparse : (parseHttpRequest asks.raw).map (fun q ↦ (route q.path, q.method,
      extractJsonStringField q.body (lit "tool"), extractJsonStringField q.body (lit "query"))) =
      some (.mcpCall, lit "POST", some (lit "rag_search"), some (lit "slots")) := by decide +kernel
  obtain ⟨q, hq, heq⟩ := Option.map_eq_some_iff.1 hparse
  obtain ⟨hroute, hmethod, htool, hquery⟩ : route q.path = .mcpCall ∧ q.method = lit "POST" ∧
      extractJsonStringField q.body (lit "tool") = some (lit "rag_search") ∧
      extractJsonStringField q.body (lit "query") = some (lit "slots") := by simpa using heq
  exact .mcp q (lit "slots") hq hroute hmethod htool (by rw [hquery, Option.getD_some]) (by decide)

/-- A note is posted and then searched for, over HTTP. -/
theorem note_found : ∃ s log result s' results,
    run (logged (serve (fun _ ↦ 0) (.render [] []))) (construct
      ⟨lit "stub", [], [], [], false, 64, 20⟩ (UserStore.start [] 86400 5 true none), []) [posts] =
        some (s, log) ∧
    serve (fun _ ↦ 0) (.render [] []) s asks = some (result, s') ∧
    Retrieval.ExactTopK (defaults ++ [poolNote]) (lit "slots") 3 results ∧
    result.response = jsonResponse (lit "200 OK")
      (mcpHead ++ matchesJson (lit "slots") results ++ lit "\x7d") := by
  obtain ⟨s, log, hrun, -, -⟩ := (components_construct (fun _ ↦ 0)
    ⟨lit "stub", [], [], [], false, 64, 20⟩ (UserStore.start [] 86400 5 true none)).goes_on
      (.render [] []) [posts]
  have hdocuments : documents [posts] = [poolNote] := by
    rw [documents, List.filterMap_cons_some posts_document, List.filterMap_nil]
  obtain ⟨result, s', results, hserve, hbest, hresponse⟩ := searches_over_http (fun _ ↦ 0)
    (.render [] []) _ _ [posts] hrun (asks_searches _)
  rw [hdocuments] at hbest
  exact ⟨s, log, result, s', results, hrun, hserve, hbest, hresponse⟩

end CppAiService.HttpRetrieval
