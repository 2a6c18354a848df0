import CppAiService.HttpCodec

namespace CppAiService

open Bytes HttpCodec

structure RagDocument where
  id : Bytes
  title : Bytes
  content : Bytes
  deriving DecidableEq

/-- Under the keyword embedding every score is a whole number. -/
structure RagSearchResult where
  document : RagDocument
  score : ℕ
  deriving DecidableEq

namespace RagStore

def lowerCopy (value : Bytes) : Bytes := value.map tolower

/-- The loop of `tokenize`, given the token read so far. -/
def tokenizeFrom (current : Bytes) : Bytes → List Bytes
  | [] => if current = [] then [] else [current]
  | ch :: rest =>
    if isalnum ch then tokenizeFrom (current ++ [ch]) rest
    else if current = [] then tokenizeFrom [] rest
    else current :: tokenizeFrom [] rest

def tokenize (text : Bytes) : List Bytes := tokenizeFrom [] (lowerCopy text)

def vocabulary : List Bytes :=
  ["cpp", "service", "gateway", "chat", "tool", "mcp", "rag", "cache", "provider", "model", "http",
    "reactor", "poller", "supabase", "vector"].map lit

/-- `KeywordEmbeddingProvider::embed`, the only provider there is. -/
def embed (text : Bytes) : List ℕ := vocabulary.map fun word ↦ (tokenize text).count word

def dotProduct (left right : List ℕ) : ℕ := (List.zipWith (· * ·) left right).sum

/-- What `operator<<` writes for a double that is a whole number: six significant digits,
ties to even. -/
def decimalDouble (n : ℕ) : Bytes :=
  let exponent := (Nat.toDigits 10 n).length - 1
  if exponent < 6 then decimal n
  else
    let unit := 10 ^ (exponent - 5)
    let down := n / unit
    let rounded :=
      if unit < 2 * (n % unit) ∨ (unit = 2 * (n % unit) ∧ down % 2 = 1) then down + 1 else down
    let (mantissa, exponent) :=
      if rounded = 10 ^ 6 then (10 ^ 5, exponent + 1) else (rounded, exponent)
    let digits := (decimal mantissa).reverse.dropWhile (· = ascii '0') |>.reverse
    digits.take 1 ++ (if digits.length = 1 then [] else lit "." ++ digits.drop 1) ++
      lit "e+" ++ (if exponent < 10 then lit "0" else []) ++ decimal exponent

/-- How `std::sort` arranges results of equal score is left open. -/
structure SortOrder where
  arrange : List RagSearchResult → List RagSearchResult
  perm : ∀ results, (arrange results).Perm results
  sorted : ∀ results, (arrange results).Pairwise fun left right ↦ right.score ≤ left.score

def SortOrder.stable : SortOrder where
  arrange results := results.mergeSort fun left right ↦ right.score ≤ left.score
  perm results := results.mergeSort_perm _
  sorted results := by
    have htrans : ∀ a b c : RagSearchResult, decide (b.score ≤ a.score) = true →
        decide (c.score ≤ b.score) = true → decide (c.score ≤ a.score) = true := by
      intro a b c hab hbc
      simp only [decide_eq_true_eq] at *
      omega
    have htotal : ∀ a b : RagSearchResult,
        (decide (b.score ≤ a.score) || decide (a.score ≤ b.score)) = true := by
      intro a b
      simp only [Bool.or_eq_true, decide_eq_true_eq]
      omega
    have h := results.pairwise_mergeSort htrans htotal
    exact h.imp of_decide_eq_true

end RagStore

structure InMemoryRagStore where
  documents_ : List RagDocument
  deriving DecidableEq

namespace InMemoryRagStore

open RagStore

def upsertInto (document : RagDocument) : List RagDocument → List RagDocument
  | [] => [document]
  | existing :: documents =>
    if existing.id = document.id then document :: documents
    else existing :: upsertInto document documents

def upsert (s : InMemoryRagStore) (document : RagDocument) : InMemoryRagStore :=
  ⟨upsertInto document s.documents_⟩

def seedDefaults (s : InMemoryRagStore) : InMemoryRagStore :=
  ((s.upsert ⟨lit "architecture", lit "C++ AI service gateway architecture",
    lit "cpp-ai-service is a C++ AI service gateway. HTTP requests flow through TcpServer, " ++
    lit "TcpConnection, HttpCodec, AiClient, ToolRegistry, LFU cache, and optional provider calls."⟩
  ).upsert ⟨lit "mcp", lit "MCP-like tool endpoint",
    lit "The current MCP-like endpoint supports GET /mcp/tools and POST /mcp/call. " ++
    lit "It exposes local tool schemas but is not full MCP JSON-RPC yet."⟩
  ).upsert ⟨lit "rag", lit "RAG gateway plan",
    lit "RAG should be a gateway capability: ingest documents, chunk content, create embeddings, " ++
    lit "store vectors, retrieve context through rag_search, and then let AiClient generate an answer."⟩

def score (query : Bytes) (document : RagDocument) : ℕ :=
  let haystack := document.title ++ lit " " ++ document.content
  dotProduct (embed query) (embed haystack) +
    (tokenize haystack).countP fun token ↦ token ∈ tokenize query

def search (s : InMemoryRagStore) (sort : SortOrder) (query : Bytes) (limit : ℕ) :
    List RagSearchResult :=
  let results := s.documents_.filterMap fun document ↦
    let score := score query document
    if 0 < score then some ⟨document, score⟩ else none
  (sort.arrange results).take limit

def resultJson (result : RagSearchResult) : Bytes :=
  lit "\x7b" ++
    lit "\"id\":\"" ++ jsonEscape result.document.id ++ lit "\"," ++
    lit "\"title\":\"" ++ jsonEscape result.document.title ++ lit "\"," ++
    lit "\"content\":\"" ++ jsonEscape result.document.content ++ lit "\"," ++
    lit "\"score\":" ++ decimalDouble result.score ++
    lit "\x7d"

def searchJson (s : InMemoryRagStore) (sort : SortOrder) (query : Bytes) (limit : ℕ) : Bytes :=
  let results := s.search sort query limit
  lit "\x7b" ++
    lit "\"query\":\"" ++ jsonEscape query ++ lit "\"," ++
    lit "\"count\":" ++ decimal results.length ++ lit "," ++
    lit "\"matches\":[" ++ commaSeparated (results.map resultJson) ++
    lit "]\x7d"

end InMemoryRagStore

end CppAiService
