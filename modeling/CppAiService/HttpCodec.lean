import CppAiService.Bytes
import CppAiService.Foundation.Escape

namespace CppAiService.HttpCodec

open Bytes Foundation Foundation.Search

abbrev Headers := Map Bytes Bytes

structure HttpRequest where
  method : Bytes
  path : Bytes
  version : Bytes
  headers : Headers
  body : Bytes

def toLower (value : Bytes) : Bytes := value.map tolower

def trim (value : Bytes) : Bytes :=
  ((value.dropWhile isspace).reverse.dropWhile isspace).reverse

def jsonEscapeByte (ch : Byte) : Bytes :=
  if ch = ascii '\\' then lit "\\\\"
  else if ch = ascii '"' then lit "\\\""
  else if ch = ascii '\n' then lit "\\n"
  else if ch = ascii '\r' then lit "\\r"
  else if ch = ascii '\t' then lit "\\t"
  else [ch]

def jsonEscape (input : Bytes) : Bytes := input.flatMap jsonEscapeByte

/-- `stream >> token`: skips white space, then reads up to the next one. -/
def readToken (stream : Bytes) : Option (Bytes × Bytes) :=
  match (stream.dropWhile isspace).span (fun ch ↦ !isspace ch) with
  | ([], _) => none
  | (token, rest) => some (token, rest)

/-- `std::strtoul(s.c_str(), nullptr, 10)` on a 64-bit `unsigned long`. -/
def strtoul (s : Bytes) : ℕ :=
  let digits (t : Bytes) : ℕ :=
    (t.takeWhile isdigit).foldl (fun n ch ↦ 10 * n + (ch.toNat - 48)) 0
  match (s.takeWhile (· ≠ 0)).dropWhile isspace with
  | [] => 0
  | ch :: t =>
    if ch = ascii '-' then
      if 2 ^ 64 ≤ digits t then 2 ^ 64 - 1 else (2 ^ 64 - digits t) % 2 ^ 64
    else min (digits (if ch = ascii '+' then t else ch :: t)) (2 ^ 64 - 1)

/-- The header loop. Each round moves `lineStart` on by at least two, so a fuel of
the text's length is never used up. -/
def parseHeaderLines (raw : Bytes) (headerEnd : ℕ) : ℕ → ℕ → Headers → Option Headers
  | 0, _, _ => none
  | fuel + 1, lineStart, headers =>
    if lineStart < headerEnd then
      match find raw (lit "\r\n") lineStart with
      | none => none
      | some lineEnd =>
        if headerEnd < lineEnd then none
        else
          let line := substr raw lineStart (lineEnd - lineStart)
          let headers := match find line (lit ":") 0 with
            | none => headers
            | some colon =>
              headers.insert (toLower (trim (line.take colon))) (trim (line.drop (colon + 1)))
          parseHeaderLines raw headerEnd fuel (lineEnd + 2) headers
    else some headers

/-- `none` where the source returns false; only the log reads what it has filled
in by then. -/
def parseHttpRequest (raw : Bytes) : Option HttpRequest := do
  let requestLineEnd ← find raw (lit "\r\n") 0
  let (method, stream) ← readToken (raw.take requestLineEnd)
  let (path, stream) ← readToken stream
  let (version, _) ← readToken stream
  let headerEnd ← find raw (lit "\r\n\r\n") 0
  let headers ← parseHeaderLines raw headerEnd (raw.length + 1) (requestLineEnd + 2) ∅
  let body := raw.drop (headerEnd + 4)
  let body := match headers.lookup (lit "content-length") with
    | none => body
    | some value => body.take (strtoul value)
  return { method, path, version, headers, body }

def unescapeByte (escaped : Byte) : Byte :=
  if escaped = ascii 'n' then ascii '\n'
  else if escaped = ascii 'r' then ascii '\r'
  else if escaped = ascii 't' then ascii '\t'
  else escaped

/-- The loop behind the opening quote. A backslash that is the last byte is copied
like any other, but then the text has no closing quote. -/
def parseStringBody (parsed : Bytes) : Bytes → Option Bytes
  | [] => none
  | ch :: rest =>
    if ch = ascii '"' then some parsed
    else
      match rest with
      | [] => parseStringBody (parsed ++ [ch]) []
      | escaped :: rest =>
        if ch = ascii '\\' then parseStringBody (parsed ++ [unescapeByte escaped]) rest
        else parseStringBody (parsed ++ [ch]) (escaped :: rest)

def extractJsonStringField (json field : Bytes) : Option Bytes :=
  let key := lit "\"" ++ field ++ lit "\""
  match find json key 0 with
  | none => none
  | some keyPos =>
    match find json (lit ":") (keyPos + key.length) with
    | none => none
    | some colon =>
      match (json.drop (colon + 1)).dropWhile isspace with
      | [] => none
      | ch :: rest => if ch = ascii '"' then parseStringBody [] rest else none

def jsonError (message : Bytes) : Bytes :=
  lit "\x7b\"ok\":false,\"error\":\"" ++ jsonEscape message ++ lit "\"\x7d"

def httpResponse (status contentType body : Bytes) : Bytes :=
  lit "HTTP/1.1 " ++ status ++ lit "\r\n" ++
    lit "Content-Type: " ++ contentType ++ lit "\r\n" ++
    lit "Content-Length: " ++ decimal body.length ++ lit "\r\n" ++
    lit "Connection: close\r\n" ++
    lit "\r\n" ++ body

def jsonResponse (status body : Bytes) : Bytes :=
  httpResponse status (lit "application/json; charset=utf-8") body

example : (parseHttpRequest (lit "GET  /x HTTP/1.1\r\nA : b \r\ncontent-Length:2\r\n\r\nabc")).map
    (fun r ↦ (r.method, r.path, r.headers.lookup (lit "a"), r.body)) =
      some (lit "GET", lit "/x", some (lit "b"), lit "ab") := by decide +kernel

end CppAiService.HttpCodec
