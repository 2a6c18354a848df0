import CppAiService.RagStore

namespace CppAiService

open Bytes HttpCodec

structure ToolResult where
  ok : Bool
  json : Bytes
  error : Bytes

/-- What the handlers look up when they run: the shared document store and the clock,
already formatted. -/
structure ToolContext where
  ragStore : Option InMemoryRagStore
  serverTime : Bytes
  sort : RagStore.SortOrder

abbrev ToolHandler := ToolContext → Bytes → ToolResult

structure ToolEntry where
  description : Bytes
  inputSchema : Bytes
  handler : ToolHandler

/-- The entries in the order of their names, as `std::map` keeps them. -/
structure ToolRegistry where
  tools_ : List (Bytes × ToolEntry)

namespace ToolRegistry

def insertTool (name : Bytes) (entry : ToolEntry) :
    List (Bytes × ToolEntry) → List (Bytes × ToolEntry)
  | [] => [(name, entry)]
  | item :: tools =>
    if item.1 = name then (name, entry) :: tools
    else if name < item.1 then (name, entry) :: item :: tools
    else item :: insertTool name entry tools

def registerTool (r : ToolRegistry) (name description inputSchema : Bytes) (handler : ToolHandler) :
    ToolRegistry :=
  ⟨insertTool name ⟨description, inputSchema, handler⟩ r.tools_⟩

def execute (r : ToolRegistry) (context : ToolContext) (name input : Bytes) : ToolResult :=
  match r.tools_.find? fun item ↦ item.1 = name with
  | none => ⟨false, [], lit "unknown tool: " ++ name⟩
  | some item => item.2.handler context input

def toolJson (item : Bytes × ToolEntry) : Bytes :=
  lit "\x7b" ++
    lit "\"name\":\"" ++ jsonEscape item.1 ++ lit "\"," ++
    lit "\"description\":\"" ++ jsonEscape item.2.description ++ lit "\"" ++
    lit "\x7d"

def listToolsJson (r : ToolRegistry) : Bytes :=
  lit "\x7b\"ok\":true,\"tools\":[" ++ commaSeparated (r.tools_.map toolJson) ++ lit "]\x7d"

def mcpToolJson (item : Bytes × ToolEntry) : Bytes :=
  lit "\x7b" ++
    lit "\"name\":\"" ++ jsonEscape item.1 ++ lit "\"," ++
    lit "\"description\":\"" ++ jsonEscape item.2.description ++ lit "\"," ++
    lit "\"input_schema\":" ++ item.2.inputSchema ++
    lit "\x7d"

def listMcpToolsJson (r : ToolRegistry) : Bytes :=
  lit "\x7b\"ok\":true,\"protocol\":\"mcp-like\",\"tools\":[" ++
    commaSeparated (r.tools_.map mcpToolJson) ++ lit "]\x7d"

def projectStatus : ToolHandler := fun _ _ ↦
  ⟨true,
    lit "\x7b" ++
    lit "\"project\":\"cpp-ai-service\"," ++
    lit "\"status\":\"C++ AI service gateway with tools, cache, MCP-like endpoints, and minimal RAG\"," ++
    lit "\"features\":[\"/health\",\"/chat\",\"AiClient\",\"ToolRegistry\",\"LFU response cache\"," ++
    lit "\"environment config\",\"OpenAI-compatible provider\",\"/mcp/tools\",\"/mcp/call\"," ++
    lit "\"rag_search\"]," ++
    lit "\"next\":\"full MCP JSON-RPC and persistent vector store\"" ++
    lit "\x7d", []⟩

def serverTime : ToolHandler := fun context _ ↦
  ⟨true, lit "\x7b" ++ lit "\"timestamp\":\"" ++ jsonEscape context.serverTime ++ lit "\"" ++
    lit "\x7d", []⟩

def ragSearch : ToolHandler := fun context input ↦
  match context.ragStore with
  | none => ⟨false, [], lit "RAG store is not configured"⟩
  | some ragStore =>
    let query := if input = [] then lit "cpp-ai-service" else input
    ⟨true, ragStore.searchJson context.sort query 3, []⟩

def createDefault : ToolRegistry :=
  ((ToolRegistry.mk []).registerTool (lit "project_status")
    (lit "Return the current cpp-ai-service project status.")
    (lit "\x7b\"type\":\"object\",\"properties\":\x7b\x7d,\"additionalProperties\":false\x7d")
    projectStatus
  ).registerTool (lit "server_time")
    (lit "Return the server timestamp.")
    (lit "\x7b\"type\":\"object\",\"properties\":\x7b\x7d,\"additionalProperties\":false\x7d")
    serverTime
  |>.registerTool (lit "rag_search")
    (lit "Search the local in-memory RAG document store and return matched context.")
    (lit "\x7b\"type\":\"object\",\"properties\":\x7b\"query\":\x7b\"type\":\"string\"," ++
      lit "\"description\":\"Search query. If omitted, /chat message is used.\"\x7d\x7d," ++
      lit "\"additionalProperties\":false\x7d")
    ragSearch

example : createDefault.tools_.map Prod.fst =
    [lit "project_status", lit "rag_search", lit "server_time"] := by decide +kernel

end ToolRegistry

end CppAiService
