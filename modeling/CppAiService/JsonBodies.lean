import CppAiService.FieldExtraction
import CppAiService.Foundation.JsonWriter
import CppAiService.Gateway
import CppAiService.MessageFraming

namespace CppAiService.JsonBodies

open Bytes HttpCodec FieldExtraction MessageFraming Foundation Foundation.EscapeCode Foundation.Json

section Escapes

theorem jsonEscape_plain {x : Bytes}
    (hx : ∀ b ∈ x, 0x20 ≤ b ∧ b ≠ ascii '"' ∧ b ≠ ascii '\\') : jsonEscape x = x := by
  have hplain : ∀ b : Byte, 0x20 ≤ b ∧ b ≠ ascii '"' ∧ b ≠ ascii '\\' → jsonShort b = none :=
    forall_byte (by decide +kernel)
  rw [jsonEscape_eq_escape]
  exact Plain.escape_eq (C := jsonCode) fun b hb ↦ hplain b (hx b hb)

theorem item_of_printable {c : Char} (h : Printable c) :
    ∃ a : Item, a.text = jsonEscape (String.utf8EncodeChar c) ∧ a.char = c := by
  have hshort (e : Short) (htext : (Item.short e).text = jsonEscape (String.utf8EncodeChar e.char)) :
      ∃ a : Item, a.text = jsonEscape (String.utf8EncodeChar e.char) ∧ a.char = e.char :=
    ⟨.short e, htext, rfl⟩
  obtain hspace | rfl | rfl | rfl := h
  · by_cases hquote : c = '"'
    · obtain rfl := hquote
      exact hshort .quote (by decide)
    by_cases hmark : c = '\\'
    · obtain rfl := hmark
      exact hshort .mark (by decide)
    have hraw : Unescaped c := ⟨hspace, hquote, hmark⟩
    exact ⟨.raw c hraw, (jsonEscape_plain hraw.bytes).symm, rfl⟩
  · exact hshort .tab (by decide)
  · exact hshort .newline (by decide)
  · exact hshort .carriageReturn (by decide)

def jsonEscaping : Escaping where
  escape := jsonEscape
  literal u h := by
    induction u with
    | nil => exact ⟨[], rfl, rfl⟩
    | cons c u ih =>
      obtain ⟨hc, hu⟩ := List.forall_mem_cons.1 h
      obtain ⟨a, htext, hchar⟩ := item_of_printable hc
      obtain ⟨L, hbody, hvalue⟩ := ih hu
      refine ⟨a :: L, ?_, congrArg₂ List.cons hchar hvalue⟩
      calc a.text ++ L.body
          = jsonEscape (String.utf8EncodeChar c) ++ jsonEscape (utf8 u) := by rw [htext, hbody]
        _ = jsonEscape (String.utf8EncodeChar c ++ utf8 u) := List.flatMap_append.symm
  control s b hb hlow hblank := by
    have hsame : ∀ b : Byte, b < 0x20 → ¬ Blank b → jsonEscapeByte b = [b] :=
      forall_byte (by decide +kernel)
    exact List.mem_flatMap.2 ⟨b, hb, hsame b hlow hblank ▸ List.mem_singleton_self b⟩

end Escapes

section Numbers

theorem digits_decimal (n : ℕ) : Digits (decimal n) := by
  refine ⟨by simp [decimal, Nat.toDigits_ne_nil], fun b hb ↦ ?_⟩
  simpa [isdigit, Digit] using isdigit_of_mem_decimal hb

theorem head_decimal (n : ℕ) : n ≠ 0 → ∃ d ds, decimal n = d :: ds ∧ d ≠ 0x30 := by
  have hdigit : ∀ n < 10, n ≠ 0 → ascii n.digitChar ≠ 0x30 := by decide
  induction n using Nat.strong_induction_on with
  | _ n ih =>
    intro hn
    obtain hlt | hle := Nat.lt_or_ge n 10
    · rw [decimal, Nat.toDigits_of_lt_base hlt]
      exact ⟨_, _, rfl, hdigit n hlt hn⟩
    · obtain ⟨d, ds, hds, hd⟩ := ih (n / 10) (by omega) (by omega)
      rw [decimal, Nat.toDigits_of_base_le (by decide) hle, List.map_append, ← decimal, hds]
      exact ⟨d, _, rfl, hd⟩

theorem intPart_decimal (n : ℕ) : IntPart (decimal n) := by
  refine ⟨digits_decimal n, fun hhead ↦ ?_⟩
  by_cases hn : n = 0
  · rw [hn]
    decide
  · obtain ⟨d, ds, hds, hd⟩ := head_decimal n hn
    rw [hds] at hhead
    exact absurd (Option.some.inj hhead) hd

theorem isNumber_decimal (n : ℕ) : IsNumber (decimal n) :=
  ⟨[], decimal n, [], [], by simp, .inl rfl, intPart_decimal n, .inl rfl, .inl rfl⟩

theorem isNumber_decimalInt (n : ℤ) : IsNumber (decimalInt n) := by
  cases n with
  | ofNat n => exact isNumber_decimal n
  | negSucc n =>
    exact ⟨lit "-", decimal (n + 1), [], [], by simp [decimalInt], .inr rfl, intPart_decimal _,
      .inl rfl, .inl rfl⟩

/-- The digits of a mantissa without the zeros behind them. -/
theorem stripped_decimal {m : ℕ} (hm : m ≠ 0) :
    ∃ d ds, ((decimal m).reverse.dropWhile (· = ascii '0')).reverse = d :: ds ∧
      Digit d ∧ ∀ b ∈ ds, Digit b := by
  obtain ⟨d, ds, hds, hd⟩ := head_decimal m hm
  have hdigits := (digits_decimal m).2
  rw [hds, List.forall_mem_cons] at hdigits
  have hlast : [d].dropWhile (· = ascii '0') = [d] :=
    List.dropWhile_cons_of_neg fun h ↦ hd (of_decide_eq_true h)
  refine ⟨d, (ds.reverse.dropWhile (· = ascii '0')).reverse, ?_, hdigits.1, fun b hb ↦ ?_⟩
  · rw [hds, List.reverse_cons, List.dropWhile_append]
    split
    · next hnil => rw [hlast, List.isEmpty_iff.1 hnil]; rfl
    · rw [List.reverse_append]; rfl
  · exact hdigits.2 b (List.mem_reverse.1 (List.dropWhile_subset _ (List.mem_reverse.1 hb)))

theorem isNumber_scientific {d : Byte} {ds : Bytes} (hd : Digit d) (hds : ∀ b ∈ ds, Digit b)
    {digits : Bytes} (hdigits : digits = d :: ds) {exponent : Bytes} (hexponent : Digits exponent) :
    IsNumber (digits.take 1 ++ (if digits.length = 1 then [] else lit "." ++ digits.drop 1) ++
      lit "e+" ++ exponent) := by
  subst hdigits
  refine ⟨[], [d], if (d :: ds).length = 1 then [] else lit "." ++ ds, lit "e+" ++ exponent, ?_,
    .inl rfl, ⟨⟨List.cons_ne_nil _ _, by simpa using hd⟩, fun _ ↦ rfl⟩, ?_,
    .inr ⟨0x65, [0x2B], exponent, rfl, .inl rfl, .inr (.inl rfl), hexponent⟩⟩
  · simp
  · split
    · exact .inl rfl
    · next hlength =>
      have hne : ds ≠ [] := by
        rintro rfl
        exact hlength rfl
      exact .inr ⟨ds, rfl, hne, hds⟩

theorem isNumber_decimalDouble (n : ℕ) : IsNumber (RagStore.decimalDouble n) := by
  unfold RagStore.decimalDouble
  extract_lets exponent unit down rounded
  split
  · exact isNumber_decimal n
  · next hlarge =>
    have hpow : 10 ^ exponent ≤ n := by
      have hpos : 0 < exponent := by omega
      have hlength : (Nat.toDigits 10 n).length = exponent + 1 := by
        have hnil : 0 < (Nat.toDigits 10 n).length := Nat.length_toDigits_pos
        omega
      by_contra hlt
      have hle := (Nat.length_toDigits_le_iff (b := 10) (by decide) hpos).2 (Nat.not_le.1 hlt)
      omega
    have hdown : 0 < down := by
      refine Nat.div_pos (le_trans ?_ hpow) (Nat.pow_pos (by decide))
      exact Nat.pow_le_pow_right (by decide) (Nat.sub_le _ _)
    have hrounded : rounded ≠ 0 := by
      have hle : down ≤ rounded := by
        change down ≤ if _ then down + 1 else down
        split
        · exact Nat.le_succ _
        · exact le_refl _
      omega
    have hpadded (e : ℕ) : Digits ((if e < 10 then lit "0" else []) ++ decimal e) := by
      obtain ⟨hne, hdigits⟩ := digits_decimal e
      refine ⟨by simp [hne], List.forall_mem_append.2 ⟨?_, hdigits⟩⟩
      split
      · decide +kernel
      · simp
    have hscientific {m : ℕ} (hm : m ≠ 0) (e : ℕ) :
        let digits := ((decimal m).reverse.dropWhile (· = ascii '0')).reverse
        IsNumber (digits.take 1 ++ (if digits.length = 1 then [] else lit "." ++ digits.drop 1) ++
          lit "e+" ++ (if e < 10 then lit "0" else []) ++ decimal e) := by
      obtain ⟨d, ds, hds, hd, hall⟩ := stripped_decimal hm
      intro digits
      rw [List.append_assoc _ (if e < 10 then lit "0" else [])]
      exact isNumber_scientific hd hall hds (hpadded e)
    by_cases hten : rounded = 10 ^ 6
    · rw [if_pos hten]
      exact hscientific (by decide) (exponent + 1)
    · rw [if_neg hten]
      exact hscientific hrounded exponent

def ofNat (n : ℕ) : Value := .number ⟨decimal n, isNumber_decimal n⟩

def ofInt (n : ℤ) : Value := .number ⟨decimalInt n, isNumber_decimalInt n⟩

def ofScore (n : ℕ) : Value := .number ⟨RagStore.decimalDouble n, isNumber_decimalDouble n⟩

end Numbers

section Values

inductive ToolAnswer
  | projectStatus
  | serverTime (time : Bytes)
  | ragSearch (query : Bytes) (results : List RagSearchResult)

def resultValue (result : RagSearchResult) : Value :=
  objectOf [(lit "id", .string result.document.id), (lit "title", .string result.document.title),
    (lit "content", .string result.document.content), (lit "score", ofScore result.score)]

def ToolAnswer.value : ToolAnswer → Value
  | projectStatus =>
    objectOf [(lit "project", .string (lit "cpp-ai-service")),
      (lit "status", .string (lit "C++ AI service gateway with tools, cache, MCP-like endpoints, " ++
        lit "and minimal RAG")),
      (lit "features", arrayOf ([lit "/health", lit "/chat", lit "AiClient", lit "ToolRegistry",
        lit "LFU response cache", lit "environment config", lit "OpenAI-compatible provider",
        lit "/mcp/tools", lit "/mcp/call", lit "rag_search"].map .string)),
      (lit "next", .string (lit "full MCP JSON-RPC and persistent vector store"))]
  | serverTime time => objectOf [(lit "timestamp", .string time)]
  | ragSearch query results =>
    objectOf [(lit "query", .string query), (lit "count", ofNat results.length),
      (lit "matches", arrayOf (results.map resultValue))]

def userValue (user : UserProfile) : Value :=
  objectOf [(lit "username", .string user.username), (lit "role", .string user.role)]

def payloadValue (config : AiClientConfig) (request : AiChatRequest) : Value :=
  objectOf [(lit "model", .string config.model),
    (lit "messages", arrayOf [objectOf [(lit "role", .string (lit "user")),
      (lit "content", .string request.message)]]),
    (lit "temperature", .number ⟨lit "0.2", [], lit "0", lit ".2", [], rfl, .inl rfl,
      ⟨⟨by decide, by decide +kernel⟩, fun _ ↦ rfl⟩,
      .inr ⟨lit "2", rfl, by decide, by decide +kernel⟩, .inl rfl⟩)]

inductive Answer
  | error (message : Bytes)
  | requestFailed (config : AiClientConfig) (reason : Bytes)
  | providerFailed (config : AiClientConfig) (httpStatus : ℤ) (response : Bytes)
  | chat (config : AiClientConfig) (request : AiChatRequest) (reply : Bytes) (cacheHit : Bool)
  | toolChat (config : AiClientConfig) (request : AiChatRequest) (result : ToolAnswer)
  | user (profile : UserProfile)
  | session (token : Bytes) (profile : UserProfile)
  | tools
  | mcpTools
  | mcpCall (tool : Bytes) (result : ToolAnswer)
  | ingested (id title : Bytes)
  | health (client : AiClient) (users : UserStore)

def toolValue (name description : Bytes) (more : List (Bytes × Value)) : Value :=
  objectOf ((lit "name", .string name) :: (lit "description", .string description) :: more)

/-- The schema of a tool without parameters, or with one. -/
def schemaValue (properties : Value) : Value :=
  objectOf [(lit "type", .string (lit "object")), (lit "properties", properties),
    (lit "additionalProperties", .bool false)]

def queryValue : Value :=
  objectOf [(lit "query", objectOf [(lit "type", .string (lit "string")),
    (lit "description", .string (lit "Search query. If omitted, /chat message is used."))])]

def toolsValue (schema : Value → List (Bytes × Value)) : Value :=
  arrayOf [
    toolValue (lit "project_status") (lit "Return the current cpp-ai-service project status.")
      (schema (schemaValue .emptyObject)),
    toolValue (lit "rag_search")
      (lit "Search the local in-memory RAG document store and return matched context.")
      (schema (schemaValue queryValue)),
    toolValue (lit "server_time") (lit "Return the server timestamp.")
      (schema (schemaValue .emptyObject))]

def configValue (client : AiClient) : Value :=
  objectOf [(lit "provider", .string client.config_.provider),
    (lit "model", .string client.config_.model), (lit "base_url", .string client.config_.baseUrl),
    (lit "api_key_configured", .bool client.config_.apiKeyConfigured),
    (lit "cache_capacity", ofInt client.config_.cacheCapacity),
    (lit "timeout_seconds", ofInt client.config_.requestTimeoutSeconds)]

def usersValue (users : UserStore) : Value :=
  objectOf [(lit "user_count", ofNat users.users_.keys.length),
    (lit "session_count", ofNat users.sessions_.keys.length),
    (lit "invite_required", .bool (users.inviteCode_ ≠ [])),
    (lit "session_ttl_seconds", ofNat users.sessionTtlSeconds_),
    (lit "registration_limit_per_minute", ofNat users.registrationLimitPerMinute_),
    (lit "password_hash", .string (lit "demo_only_fnv1a"))]

def Answer.value : Answer → Value
  | error message => objectOf [(lit "ok", .bool false), (lit "error", .string message)]
  | requestFailed config reason =>
    objectOf [(lit "ok", .bool false),
      (lit "error", .string (lit "AI provider request failed: " ++ reason)),
      (lit "provider", .string config.provider), (lit "base_url", .string config.baseUrl)]
  | providerFailed config httpStatus response =>
    objectOf [(lit "ok", .bool false),
      (lit "error", .string (lit "provider returned HTTP " ++ decimalInt httpStatus)),
      (lit "provider", .string config.provider), (lit "body", .string response)]
  | chat config request reply cacheHit =>
    objectOf [(lit "ok", .bool true), (lit "message", .string request.message),
      (lit "reply", .string reply), (lit "provider", .string config.provider),
      (lit "model", .string config.model), (lit "cache_hit", .bool cacheHit),
      (lit "tool_used", .bool false)]
  | toolChat config request result =>
    objectOf [(lit "ok", .bool true), (lit "message", .string request.message),
      (lit "reply", .string (lit "Tool " ++ request.tool ++ lit " executed for: " ++
        request.message)),
      (lit "provider", .string config.provider), (lit "model", .string config.model),
      (lit "cache_hit", .bool false), (lit "tool_used", .bool true),
      (lit "tool", .string request.tool), (lit "tool_result", result.value)]
  | user profile => objectOf [(lit "ok", .bool true), (lit "user", userValue profile)]
  | session token profile =>
    objectOf [(lit "ok", .bool true), (lit "session_token", .string token),
      (lit "user", userValue profile)]
  | tools => objectOf [(lit "ok", .bool true), (lit "tools", toolsValue fun _ ↦ [])]
  | mcpTools =>
    objectOf [(lit "ok", .bool true), (lit "protocol", .string (lit "mcp-like")),
      (lit "tools", toolsValue fun schema ↦ [(lit "input_schema", schema)])]
  | mcpCall tool result =>
    objectOf [(lit "ok", .bool true), (lit "protocol", .string (lit "mcp-like")),
      (lit "tool", .string tool), (lit "result", result.value)]
  | ingested id title =>
    objectOf [(lit "ok", .bool true), (lit "id", .string id), (lit "title", .string title)]
  | health client users =>
    objectOf [(lit "ok", .bool true), (lit "ai", configValue client),
      (lit "auth", usersValue users)]

end Values

section Texts

theorem jsonEscape_append (s t : Bytes) : jsonEscape (s ++ t) = jsonEscape s ++ jsonEscape t :=
  List.flatMap_append

theorem payload_eq (config : AiClientConfig) (request : AiChatRequest) :
    (AiClient.curlRequest config request).payload =
      jsonEscaping.render (payloadValue config request) := by
  unfold AiClient.curlRequest
  simp only [payloadValue, objectOf, membersOf, arrayOf, elementsOf, Escaping.render,
    Escaping.quote, List.append_assoc, List.cons_append, List.nil_append]
  rfl

theorem jsonError_eq (message : Bytes) :
    jsonError message = jsonEscaping.render (Answer.error message).value := by
  unfold jsonError
  simp only [Answer.value, objectOf, membersOf, Escaping.render, Escaping.quote,
    List.append_assoc, List.cons_append, List.nil_append]
  rfl

theorem buildChatBody_eq (config : AiClientConfig) (request : AiChatRequest) (reply : Bytes)
    (cacheHit : Bool) : AiClient.buildChatBody config request reply cacheHit =
      jsonEscaping.render (Answer.chat config request reply cacheHit).value := by
  unfold AiClient.buildChatBody
  simp only [Answer.value, objectOf, membersOf, Escaping.render,
    Escaping.quote, List.append_assoc, List.cons_append, List.nil_append]
  cases cacheHit <;> rfl

theorem userJson_eq (user : UserProfile) :
    Gateway.userJson user = jsonEscaping.render (userValue user) := by
  unfold Gateway.userJson
  simp only [userValue, objectOf, membersOf, Escaping.render,
    Escaping.quote, List.append_assoc, List.cons_append, List.nil_append]
  rfl

theorem configJson_eq (client : AiClient) :
    client.configJson = jsonEscaping.render (configValue client) := by
  unfold AiClient.configJson
  simp only [configValue, objectOf, membersOf, Escaping.render,
    Escaping.quote, List.append_assoc, List.cons_append, List.nil_append]
  cases client.config_.apiKeyConfigured <;> rfl

theorem usersJson_eq (users : UserStore) :
    users.configJson = jsonEscaping.render (usersValue users) := by
  have hinvite : lit (if users.inviteCode_ = [] then "false" else "true") =
      boolText (users.inviteCode_ ≠ []) := by
    by_cases hempty : users.inviteCode_ = []
    · rw [if_pos hempty, decide_eq_false (not_not.2 hempty)]
      rfl
    · rw [if_neg hempty, decide_eq_true hempty]
      rfl
  unfold UserStore.configJson
  simp only [usersValue, objectOf, membersOf, Escaping.render,
    Escaping.quote, hinvite, List.append_assoc, List.cons_append, List.nil_append]
  rfl

theorem requestFailed_eq (config : AiClientConfig) (reason : Bytes) :
    lit "\x7b\"ok\":false," ++
        lit "\"error\":\"AI provider request failed: " ++ jsonEscape reason ++ lit "\"," ++
        lit "\"provider\":\"" ++ jsonEscape config.provider ++ lit "\"," ++
        lit "\"base_url\":\"" ++ jsonEscape config.baseUrl ++ lit "\"" ++ lit "\x7d" =
      jsonEscaping.render (Answer.requestFailed config reason).value := by
  have hreason : jsonEscaping.escape (lit "AI provider request failed: " ++ reason) =
      lit "AI provider request failed: " ++ jsonEscape reason := jsonEscape_append ..
  simp only [Answer.value, objectOf, membersOf, Escaping.render, Escaping.quote, hreason,
    List.append_assoc, List.cons_append, List.nil_append]
  rfl

theorem providerFailed_eq (config : AiClientConfig) (httpStatus : ℤ) (response : Bytes) :
    lit "\x7b\"ok\":false," ++
        lit "\"error\":\"provider returned HTTP " ++ decimalInt httpStatus ++ lit "\"," ++
        lit "\"provider\":\"" ++ jsonEscape config.provider ++ lit "\"," ++
        lit "\"body\":\"" ++ jsonEscape response ++ lit "\"" ++ lit "\x7d" =
      jsonEscaping.render (Answer.providerFailed config httpStatus response).value := by
  have hnumber : ∀ b : Byte, NumberByte b → 0x20 ≤ b ∧ b ≠ ascii '"' ∧ b ≠ ascii '\\' :=
    forall_byte (by decide +kernel)
  have hstatus : jsonEscaping.escape (lit "provider returned HTTP " ++ decimalInt httpStatus) =
      lit "provider returned HTTP " ++ decimalInt httpStatus := by
    have hlit : jsonEscape (lit "provider returned HTTP ") = lit "provider returned HTTP " := by
      rw [lit_ofList]
      decide
    have hdigits : jsonEscape (decimalInt httpStatus) = decimalInt httpStatus :=
      jsonEscape_plain fun b hb ↦ hnumber b ((isNumber_decimalInt httpStatus).numberByte b hb)
    change jsonEscape _ = _
    rw [jsonEscape_append, hlit, hdigits]
  simp only [Answer.value, objectOf, membersOf, Escaping.render, Escaping.quote, hstatus,
    List.append_assoc, List.cons_append, List.nil_append]
  rfl

theorem toolBody_eq (config : AiClientConfig) (request : AiChatRequest) {result : ToolResult}
    {answer : ToolAnswer} (h : result.json = jsonEscaping.render answer.value) :
    AiClient.toolBody config request result =
      jsonEscaping.render (Answer.toolChat config request answer).value := by
  have hreply : jsonEscaping.escape (lit "Tool " ++ (request.tool ++ (lit " executed for: " ++
      request.message))) = lit "Tool " ++ (jsonEscape request.tool ++ (lit " executed for: " ++
        jsonEscape request.message)) := by
    have htool : jsonEscape (lit "Tool ") = lit "Tool " := by
      rw [lit_ofList]
      decide
    have hfor : jsonEscape (lit " executed for: ") = lit " executed for: " := by
      rw [lit_ofList]
      decide
    change jsonEscape _ = _
    rw [jsonEscape_append, jsonEscape_append, jsonEscape_append, htool, hfor]
  unfold AiClient.toolBody
  simp only [h, Answer.value, objectOf, membersOf, Escaping.render,
    Escaping.quote, hreply, List.append_assoc, List.cons_append, List.nil_append]
  rfl

theorem resultJson_eq (result : RagSearchResult) :
    InMemoryRagStore.resultJson result = jsonEscaping.render (resultValue result) := by
  unfold InMemoryRagStore.resultJson
  simp only [resultValue, objectOf, membersOf, Escaping.render,
    Escaping.quote, List.append_assoc, List.cons_append, List.nil_append]
  rfl

theorem searchJson_eq (s : InMemoryRagStore) (sort : RagStore.SortOrder) (query : Bytes)
    (limit : ℕ) : s.searchJson sort query limit =
      jsonEscaping.render (ToolAnswer.ragSearch query (s.search sort query limit)).value := by
  have hmatches : jsonEscaping.render (arrayOf ((s.search sort query limit).map resultValue)) =
      lit "[" ++ (commaSeparated ((s.search sort query limit).map InMemoryRagStore.resultJson) ++
        lit "]") := by
    rw [Escaping.render_arrayOf, List.map_map, funext resultJson_eq]
    rfl
  unfold InMemoryRagStore.searchJson
  simp only [ToolAnswer.value, objectOf, membersOf, Escaping.render,
    Escaping.quote, hmatches, List.append_assoc, List.cons_append, List.nil_append]
  rfl

section Tools

open ToolRegistry

def plainSchema : Bytes :=
  lit "\x7b\"type\":\"object\",\"properties\":\x7b\x7d,\"additionalProperties\":false\x7d"

def querySchema : Bytes :=
  lit "\x7b\"type\":\"object\",\"properties\":\x7b\"query\":\x7b\"type\":\"string\"," ++
    lit "\"description\":\"Search query. If omitted, /chat message is used.\"\x7d\x7d," ++
    lit "\"additionalProperties\":false\x7d"

theorem createDefault_tools : createDefault.tools_ = [
    (lit "project_status",
      ⟨lit "Return the current cpp-ai-service project status.", plainSchema, projectStatus⟩),
    (lit "rag_search",
      ⟨lit "Search the local in-memory RAG document store and return matched context.", querySchema,
        ragSearch⟩),
    (lit "server_time", ⟨lit "Return the server timestamp.", plainSchema, serverTime⟩)] := by
  have hproject : ¬ lit "project_status" = lit "server_time" ∧
      lit "project_status" < lit "server_time" ∧ ¬ lit "project_status" = lit "rag_search" ∧
      lit "project_status" < lit "rag_search" := by decide
  have hsearch : ¬ lit "server_time" = lit "rag_search" ∧
      ¬ lit "rag_search" < lit "project_status" ∧ lit "rag_search" < lit "server_time" ∧
      ¬ lit "server_time" < lit "project_status" := by decide
  simp only [createDefault, registerTool, insertTool, hproject, hsearch, if_false, if_true]
  rfl

theorem toolJson_eq (name description inputSchema : Bytes) (handler : ToolHandler) :
    toolJson (name, ⟨description, inputSchema, handler⟩) =
      jsonEscaping.render (toolValue name description []) := by
  unfold toolJson
  simp only [toolValue, objectOf, membersOf, Escaping.render, Escaping.quote, List.append_assoc,
    List.cons_append, List.nil_append]
  rfl

theorem mcpToolJson_eq (name description : Bytes) {inputSchema : Bytes} {schema : Value}
    (h : inputSchema = jsonEscaping.render schema) (handler : ToolHandler) :
    mcpToolJson (name, ⟨description, inputSchema, handler⟩) =
      jsonEscaping.render (toolValue name description [(lit "input_schema", schema)]) := by
  unfold mcpToolJson
  simp only [h, toolValue, objectOf, membersOf, Escaping.render, Escaping.quote,
    List.append_assoc, List.cons_append, List.nil_append]
  rfl

-- The characters of a long literal are compared one by one once they are a list.
theorem plainSchema_eq : plainSchema = jsonEscaping.render (schemaValue .emptyObject) := by
  simp only [plainSchema, schemaValue, objectOf, membersOf, Escaping.render, Escaping.quote]
  repeat rw [lit_ofList]
  decide

theorem querySchema_eq : querySchema = jsonEscaping.render (schemaValue queryValue) := by
  simp only [querySchema, schemaValue, queryValue, objectOf, membersOf, Escaping.render,
    Escaping.quote]
  repeat rw [lit_ofList]
  decide

theorem listToolsJson_eq :
    createDefault.listToolsJson = jsonEscaping.render Answer.tools.value := by
  have hlist : createDefault.tools_.map toolJson =
      [toolValue (lit "project_status") (lit "Return the current cpp-ai-service project status.") [],
        toolValue (lit "rag_search")
          (lit "Search the local in-memory RAG document store and return matched context.") [],
        toolValue (lit "server_time") (lit "Return the server timestamp.") []].map
          (jsonEscaping.render ·) := by
    rw [createDefault_tools]
    simp only [List.map_cons, List.map_nil, toolJson_eq]
  rw [listToolsJson, hlist]
  simp only [Answer.value, toolsValue, objectOf, membersOf, Escaping.render_arrayOf, Escaping.render,
    Escaping.quote, List.append_assoc, List.cons_append, List.nil_append]
  rfl

theorem listMcpToolsJson_eq :
    createDefault.listMcpToolsJson = jsonEscaping.render Answer.mcpTools.value := by
  have hlist : createDefault.tools_.map mcpToolJson =
      [toolValue (lit "project_status") (lit "Return the current cpp-ai-service project status.")
          [(lit "input_schema", schemaValue .emptyObject)],
        toolValue (lit "rag_search")
          (lit "Search the local in-memory RAG document store and return matched context.")
          [(lit "input_schema", schemaValue queryValue)],
        toolValue (lit "server_time") (lit "Return the server timestamp.")
          [(lit "input_schema", schemaValue .emptyObject)]].map (jsonEscaping.render ·) := by
    rw [createDefault_tools]
    simp only [List.map_cons, List.map_nil, mcpToolJson_eq _ _ plainSchema_eq,
      mcpToolJson_eq _ _ querySchema_eq]
  rw [listMcpToolsJson, hlist]
  simp only [Answer.value, toolsValue, objectOf, membersOf, Escaping.render_arrayOf, Escaping.render,
    Escaping.quote, List.append_assoc, List.cons_append, List.nil_append]
  rfl

theorem projectStatus_eq (context : ToolContext) (input : Bytes) :
    (projectStatus context input).json = jsonEscaping.render ToolAnswer.projectStatus.value := by
  unfold projectStatus
  simp only [ToolAnswer.value, objectOf, membersOf, Escaping.render, Escaping.quote]
  repeat rw [lit_ofList]
  decide +kernel

theorem serverTime_eq (context : ToolContext) (input : Bytes) :
    (serverTime context input).json =
      jsonEscaping.render (ToolAnswer.serverTime context.serverTime).value := by
  unfold serverTime
  simp only [ToolAnswer.value, objectOf, membersOf, Escaping.render, Escaping.quote,
    List.append_assoc, List.cons_append, List.nil_append]
  rfl

/-- A tool that succeeds has written the JSON of its answer. -/
theorem execute_ok {context : ToolContext} {name input : Bytes}
    (h : (createDefault.execute context name input).ok = true) :
    ∃ answer : ToolAnswer,
      (createDefault.execute context name input).json = jsonEscaping.render answer.value := by
  unfold execute at h ⊢
  cases hitem : createDefault.tools_.find? fun item ↦ item.1 = name with
  | none =>
    rw [hitem] at h
    cases h
  | some item =>
    have hmem := List.mem_of_find?_eq_some hitem
    simp only [createDefault_tools, List.mem_cons, List.not_mem_nil, or_false] at hmem
    simp only [hitem] at h ⊢
    obtain rfl | rfl | rfl := hmem
    · exact ⟨.projectStatus, projectStatus_eq context input⟩
    · simp only [ragSearch] at h ⊢
      cases hstore : context.ragStore with
      | none =>
        rw [hstore] at h
        cases h
      | some store => exact ⟨_, searchJson_eq store context.sort _ 3⟩
    · exact ⟨.serverTime context.serverTime, serverTime_eq context input⟩

end Tools

end Texts

end CppAiService.JsonBodies
