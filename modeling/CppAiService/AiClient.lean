import CppAiService.HashLfuCache
import CppAiService.ToolRegistry

namespace CppAiService

open Bytes HttpCodec

structure AiClientConfig where
  provider : Bytes
  model : Bytes
  baseUrl : Bytes
  apiKey : Bytes
  apiKeyConfigured : Bool
  cacheCapacity : ℤ
  requestTimeoutSeconds : ℤ

structure AiChatRequest where
  message : Bytes
  tool : Bytes

structure AiChatResponse where
  ok : Bool
  status : Bytes
  body : Bytes
  cacheHit : Bool
  toolUsed : Bool
  toolName : Bytes
  upstreamLatencyMs : ℤ
  deriving DecidableEq

structure CurlRequest where
  url : Bytes
  headers : List Bytes
  payload : Bytes
  timeoutSeconds : ℤ

inductive CurlOutcome
  | initFails
  | failed (error : Bytes) (latencyMs : ℤ)
  | answered (httpStatus : ℤ) (response : Bytes) (latencyMs : ℤ)

structure ChatEnv where
  getOrder : IterationOrder
  putOrder : IterationOrder
  curl : CurlRequest → CurlOutcome
  tools : ToolContext

structure AiClient where
  tools_ : Option ToolRegistry
  config_ : AiClientConfig
  responseCache_ : KHashLfuCache Bytes Bytes

namespace AiClient

/-- The loop behind the opening quote. The copies of `jsonEscape` and `jsonError` in this
file of the source are those of the codec. -/
def parseStringBody (parsed : Bytes) (escaped : Bool) : Bytes → Option Bytes
  | [] => none
  | ch :: rest =>
    if escaped then parseStringBody (parsed ++ [unescapeByte ch]) false rest
    else if ch = ascii '\\' then parseStringBody parsed true rest
    else if ch = ascii '"' then some parsed
    else parseStringBody (parsed ++ [ch]) false rest

/-- Unlike the codec's, this extractor skips anything up to the next quote. -/
def extractJsonStringField (json field : Bytes) : Option Bytes :=
  let key := lit "\"" ++ field ++ lit "\""
  match find json key 0 with
  | none => none
  | some keyPos =>
    match find json (lit ":") (keyPos + key.length) with
    | none => none
    | some colon =>
      match find json (lit "\"") (colon + 1) with
      | none => none
      | some quote => parseStringBody [] false (json.drop (quote + 1))

def networkProviders : List Bytes :=
  ["openai", "openai_compatible", "deepseek", "openrouter", "groq", "ollama", "chatanywhere"].map lit

def stripTrailingSlash (value : Bytes) : Bytes :=
  (value.reverse.dropWhile (· = ascii '/')).reverse

/-- The cache has four slices, so that the number of cores is not asked for. -/
def create (tools : Option ToolRegistry) (config : AiClientConfig) : AiClient where
  tools_ := tools
  config_ := config
  responseCache_ := KHashLfuCache.create (sizeTOfInt config.cacheCapacity) 4 10 0

def shouldUseNetworkProvider (config : AiClientConfig) : Bool :=
  networkProviders.any (config.provider == ·)

def cacheKey (config : AiClientConfig) (request : AiChatRequest) : Bytes :=
  config.provider ++ lit "\n" ++ config.model ++ lit "\n" ++ request.message

def makeStubReply (message : Bytes) : Bytes := lit "Stub AI reply for: " ++ message

def buildChatBody (config : AiClientConfig) (request : AiChatRequest) (reply : Bytes)
    (cacheHit : Bool) : Bytes :=
  lit "\x7b" ++
    lit "\"ok\":true," ++
    lit "\"message\":\"" ++ jsonEscape request.message ++ lit "\"," ++
    lit "\"reply\":\"" ++ jsonEscape reply ++ lit "\"," ++
    lit "\"provider\":\"" ++ jsonEscape config.provider ++ lit "\"," ++
    lit "\"model\":\"" ++ jsonEscape config.model ++ lit "\"," ++
    lit "\"cache_hit\":" ++ lit (if cacheHit then "true" else "false") ++ lit "," ++
    lit "\"tool_used\":false" ++
    lit "\x7d"

def toolBody (config : AiClientConfig) (request : AiChatRequest) (result : ToolResult) : Bytes :=
  lit "\x7b" ++
    lit "\"ok\":true," ++
    lit "\"message\":\"" ++ jsonEscape request.message ++ lit "\"," ++
    lit "\"reply\":\"Tool " ++ jsonEscape request.tool ++ lit " executed for: " ++
      jsonEscape request.message ++ lit "\"," ++
    lit "\"provider\":\"" ++ jsonEscape config.provider ++ lit "\"," ++
    lit "\"model\":\"" ++ jsonEscape config.model ++ lit "\"," ++
    lit "\"cache_hit\":false," ++
    lit "\"tool_used\":true," ++
    lit "\"tool\":\"" ++ jsonEscape request.tool ++ lit "\"," ++
    lit "\"tool_result\":" ++ result.json ++
    lit "\x7d"

def plainResponse (ok : Bool) (status body : Bytes) (upstreamLatencyMs : ℤ) : AiChatResponse :=
  ⟨ok, status, body, false, false, [], upstreamLatencyMs⟩

def curlRequest (config : AiClientConfig) (request : AiChatRequest) : CurlRequest where
  url := stripTrailingSlash config.baseUrl ++ lit "/chat/completions"
  headers := lit "Content-Type: application/json" ::
    if config.apiKeyConfigured then [lit "Authorization: Bearer " ++ config.apiKey] else []
  payload :=
    lit "\x7b" ++
      lit "\"model\":\"" ++ jsonEscape config.model ++ lit "\"," ++
      lit "\"messages\":[\x7b\"role\":\"user\",\"content\":\"" ++ jsonEscape request.message ++
        lit "\"\x7d]," ++
      lit "\"temperature\":0.2" ++
      lit "\x7d"
  timeoutSeconds := config.requestTimeoutSeconds

def callOpenAiCompatible (config : AiClientConfig) (request : AiChatRequest)
    (curl : CurlRequest → CurlOutcome) : AiChatResponse :=
  if config.baseUrl = [] then
    plainResponse false (lit "500 Internal Server Error")
      (jsonError (lit "CPP_AI_BASE_URL is not configured")) 0
  else
    match curl (curlRequest config request) with
    | .initFails =>
      plainResponse false (lit "500 Internal Server Error")
        (jsonError (lit "failed to initialize curl")) 0
    | .failed error latencyMs =>
      plainResponse false (lit "502 Bad Gateway")
        (lit "\x7b\"ok\":false," ++
          lit "\"error\":\"AI provider request failed: " ++ jsonEscape error ++ lit "\"," ++
          lit "\"provider\":\"" ++ jsonEscape config.provider ++ lit "\"," ++
          lit "\"base_url\":\"" ++ jsonEscape config.baseUrl ++ lit "\"" ++
          lit "\x7d") latencyMs
    | .answered httpStatus response latencyMs =>
      if httpStatus < 200 ∨ 300 ≤ httpStatus then
        plainResponse false (lit "502 Bad Gateway")
          (lit "\x7b\"ok\":false," ++
            lit "\"error\":\"provider returned HTTP " ++ decimalInt httpStatus ++ lit "\"," ++
            lit "\"provider\":\"" ++ jsonEscape config.provider ++ lit "\"," ++
            lit "\"body\":\"" ++ jsonEscape response ++ lit "\"" ++
            lit "\x7d") latencyMs
      else
        match extractJsonStringField response (lit "content") with
        | none =>
          plainResponse false (lit "502 Bad Gateway")
            (jsonError (lit "provider response did not contain assistant content")) latencyMs
        | some reply =>
          plainResponse true (lit "200 OK") (buildChatBody config request reply false) latencyMs

def chatTool (client : AiClient) (env : ChatEnv) (request : AiChatRequest) : AiChatResponse :=
  match client.tools_ with
  | none =>
    plainResponse false (lit "500 Internal Server Error")
      (jsonError (lit "tool registry is not configured")) 0
  | some tools =>
    let result := tools.execute env.tools request.tool request.message
    if !result.ok then
      ⟨false, lit "400 Bad Request", jsonError result.error, false, true, request.tool, 0⟩
    else
      ⟨true, lit "200 OK", toolBody client.config_ request result, false, true, request.tool, 0⟩

/-- `none` is a crash inside the response cache. -/
def chat (hash : Bytes → ℕ) (client : AiClient) (env : ChatEnv) (request : AiChatRequest) :
    Option (AiChatResponse × AiClient) := do
  if request.tool ≠ [] then
    return (client.chatTool env request, client)
  let key := cacheKey client.config_ request
  let (cachedReply, cache) ← client.responseCache_.get hash key env.getOrder
  let client := { client with responseCache_ := cache }
  match cachedReply with
  | some reply =>
    return (⟨true, lit "200 OK", buildChatBody client.config_ request reply true, true, false, [], 0⟩,
      client)
  | none =>
    if shouldUseNetworkProvider client.config_ then
      let networkResponse := callOpenAiCompatible client.config_ request env.curl
      match if networkResponse.ok then extractJsonStringField networkResponse.body (lit "reply")
        else none with
      | some reply =>
        let cache ← client.responseCache_.put hash key reply env.putOrder
        return (networkResponse, { client with responseCache_ := cache })
      | none => return (networkResponse, client)
    else
      let reply := makeStubReply request.message
      let cache ← client.responseCache_.put hash key reply env.putOrder
      return (plainResponse true (lit "200 OK") (buildChatBody client.config_ request reply false) 0,
        { client with responseCache_ := cache })

def configJson (client : AiClient) : Bytes :=
  lit "\x7b" ++
    lit "\"provider\":\"" ++ jsonEscape client.config_.provider ++ lit "\"," ++
    lit "\"model\":\"" ++ jsonEscape client.config_.model ++ lit "\"," ++
    lit "\"base_url\":\"" ++ jsonEscape client.config_.baseUrl ++ lit "\"," ++
    lit "\"api_key_configured\":" ++
      lit (if client.config_.apiKeyConfigured then "true" else "false") ++ lit "," ++
    lit "\"cache_capacity\":" ++ decimalInt client.config_.cacheCapacity ++ lit "," ++
    lit "\"timeout_seconds\":" ++ decimalInt client.config_.requestTimeoutSeconds ++
    lit "\x7d"

end AiClient

end CppAiService
