import CppAiService.Foundation.LastWrite
import CppAiService.MessageFraming

namespace CppAiService.RequestMeaning

open Bytes HttpCodec MessageFraming Foundation.LastWrite Foundation.Lines Foundation.Search

def words (text : Bytes) : List Bytes := (text.splitOnP isspace).filter (· ≠ [])

def headerField (line : Bytes) : Option (Bytes × Bytes) :=
  if ascii ':' ∈ line then
    some (toLower (trim (line.takeWhile (· ≠ ascii ':'))),
      trim (line.dropWhile (· ≠ ascii ':')).tail)
  else none

def lastValue (lines : List Bytes) (name : Bytes) : Option Bytes :=
  lastWrite (lines.filterMap headerField) name

def Means (raw : Bytes) (request : HttpRequest) : Prop :=
  ∃ head rest first lines more,
    CutAt (lit "\r\n\r\n") raw head rest ∧
    splitBreaks cr lf head = first :: lines ∧
    words first = request.method :: request.path :: request.version :: more ∧
    (∀ name, request.headers.lookup name = lastValue lines name) ∧
    request.body = match lastValue lines (lit "content-length") with
      | none => rest
      | some value => rest.take (strtoul value)

theorem words_cons {ch : Byte} (h : isspace ch = true) (text : Bytes) :
    words (ch :: text) = words text := by
  rw [words, List.splitOnP_cons_eq_if_modifyHead, if_pos h, List.filter_cons_of_neg (by simp)]
  rfl

theorem words_dropWhile (text : Bytes) : words (text.dropWhile isspace) = words text := by
  induction text with
  | nil => rfl
  | cons ch text ih =>
    rw [List.dropWhile_cons]
    split_ifs with h
    · rw [ih, words_cons h]
    · rfl

theorem words_append {token rest : Bytes} (hne : token ≠ [])
    (htoken : ∀ ch ∈ token, isspace ch = false) (hrest : ∀ ch ∈ rest.head?, isspace ch = true) :
    words (token ++ rest) = token :: words rest := by
  cases rest with
  | nil =>
    rw [List.append_nil, words, List.splitOnP_eq_singleton htoken]
    simp [words, hne]
  | cons ch rest =>
    have hch : isspace ch = true := hrest ch rfl
    rw [words_cons hch, words, List.splitOnP_append_cons_of_forall_mem htoken ch hch,
      List.filter_cons_of_pos (by simpa using hne)]
    rfl

theorem readToken_cases (stream : Bytes) : (readToken stream = none ∧ words stream = []) ∨
    ∃ token rest, readToken stream = some (token, rest) ∧ words stream = token :: words rest := by
  rw [← words_dropWhile, readToken]
  cases hstream : stream.dropWhile isspace with
  | nil => exact .inl ⟨rfl, rfl⟩
  | cons ch text =>
    have hch : isspace ch = false := by
      have hhead := List.head?_dropWhile_not isspace stream
      rw [hstream] at hhead
      simpa using hhead
    rw [List.span_eq_takeWhile_dropWhile]
    refine .inr ⟨(ch :: text).takeWhile (!isspace ·), (ch :: text).dropWhile (!isspace ·), ?_, ?_⟩
    · rw [List.takeWhile_cons, hch]
      rfl
    · have htoken : ∀ a ∈ (ch :: text).takeWhile (!isspace ·), isspace a = false := by
        intro a ha
        simpa using List.mem_takeWhile_imp ha
      have hrest : ∀ a ∈ ((ch :: text).dropWhile (!isspace ·)).head?, isspace a = true := by
        intro a ha
        have hhead := List.head?_dropWhile_not (!isspace ·) (ch :: text)
        rw [Option.mem_def.1 ha] at hhead
        simpa using hhead
      have hne : (ch :: text).takeWhile (!isspace ·) ≠ [] := by
        rw [List.takeWhile_cons, hch]
        exact List.cons_ne_nil _ _
      rw [← words_append hne htoken hrest, List.takeWhile_append_dropWhile]

theorem readWords_eq (first : Bytes) : readWords first = match words first with
    | method :: path :: version :: _ => some (method, path, version)
    | _ => none := by
  obtain ⟨hread, hwords⟩ | ⟨method, s, hread, hwords⟩ := readToken_cases first
  · simp only [readWords, hread, hwords, Option.bind_eq_bind, Option.bind_none]
  obtain ⟨hread', hwords'⟩ | ⟨path, t, hread', hwords'⟩ := readToken_cases s
  · simp only [readWords, hread, hwords, hread', hwords', Option.bind_eq_bind, Option.bind_none,
      Option.bind_some]
  obtain ⟨hread'', hwords''⟩ | ⟨version, u, hread'', hwords''⟩ := readToken_cases t
  · simp only [readWords, hread, hwords, hread', hwords', hread'', hwords'', Option.bind_eq_bind,
      Option.bind_none, Option.bind_some]
  · simp only [readWords, hread, hwords, hread', hwords', hread'', hwords'', Option.bind_eq_bind,
      Option.bind_some, Option.pure_def]

theorem insertHeader_eq (headers : Headers) (line : Bytes) :
    insertHeader headers line = match headerField line with
      | none => headers
      | some field => headers.insert field.1 field.2 := by
  by_cases hcolon : ascii ':' ∈ line
  · have hfront : ascii ':' ∉ line.takeWhile (· ≠ ascii ':') := by
      intro hmem
      simpa using List.mem_takeWhile_imp hmem
    have hline : line = line.takeWhile (· ≠ ascii ':') ++
        ascii ':' :: (line.dropWhile (· ≠ ascii ':')).tail := by
      have hback : line.dropWhile (· ≠ ascii ':') =
          ascii ':' :: (line.dropWhile (· ≠ ascii ':')).tail := by
        cases hdrop : line.dropWhile (· ≠ ascii ':') with
        | nil => exact absurd (List.dropWhile_eq_nil_iff.1 hdrop _ hcolon) (by simp)
        | cons ch rest =>
          have hhead := List.head?_dropWhile_not (· ≠ ascii ':') line
          rw [hdrop] at hhead
          obtain rfl : ch = ascii ':' := by simpa using hhead
          rfl
      rw [← hback, List.takeWhile_append_dropWhile]
    rw [headerField, if_pos hcolon]
    conv_lhs => rw [hline]
    exact insertHeader_named hfront headers _
  · have hfind : find line (lit ":") 0 = none := by
      have hsearch := indexOf_skip (w := []) hcolon []
      rw [List.append_nil] at hsearch
      rw [find_zero]
      exact hsearch
    rw [headerField, if_neg hcolon, insertHeader, hfind]

/-- A later line overwrites what an earlier one has stored under its name. -/
theorem lookup_headers (lines : List Bytes) (name : Bytes) :
    (lines.foldl insertHeader ∅).lookup name = lastValue lines name := by
  have hfold : lines.foldl insertHeader ∅ = writeAll ∅ (lines.filterMap headerField) := by
    rw [writeAll, List.foldl_filterMap]
    congr 1
    funext headers line
    rw [insertHeader_eq]
    cases headerField line with
    | none => rfl
    | some field => rfl
  rw [hfold, lookup_writeAll, lastValue]
  exact Option.or_none

/-- A text with an empty line is a request line, header lines and what follows. -/
theorem exists_message {raw head rest : Bytes} (h : CutAt (lit "\r\n\r\n") raw head rest) :
    ∃ first lines, splitBreaks cr lf head = first :: lines ∧ raw = message first lines rest ∧
      Whole cr lf first ∧ ∀ line ∈ lines, line ≠ [] ∧ Whole cr lf line := by
  obtain ⟨first, lines, hsplit, rfl, hfirst, hlines⟩ := splitBreaks_spec (c := cr) (d := lf) head
  obtain ⟨hraw, hearlier⟩ := h
  have hmessage : raw = message first lines rest := by
    rw [hraw, lit_blank, message, List.append_assoc]
    rfl
  rw [hmessage, lit_blank] at hearlier
  have hne := ne_nil_of_blank hearlier
  exact ⟨first, lines, hsplit, hmessage, hfirst, fun line hmem ↦ ⟨hne line hmem, hlines line hmem⟩⟩

theorem message_cut {first : Bytes} (hfirst : Whole cr lf first) (lines : List Bytes)
    (rest : Bytes) : ∃ behind, CutAt (lit "\r\n") (message first lines rest) first behind := by
  obtain ⟨r, hr⟩ := broken_append_starts cr lf lines (cr :: lf :: rest)
  have hfound : indexOf (lit "\r\n") (message first lines rest) = some first.length := by
    rw [message, hr, lit_crlf, indexOf_break hfirst (by decide)]
  have hcut := cutAt_of_indexOf hfound
  rw [message, List.take_left] at hcut
  exact ⟨_, hcut⟩

/-- A text with an empty line is parsed by its parts. -/
theorem exists_parsed {raw : Bytes} (h : lit "\r\n\r\n" <:+: raw) :
    ∃ head rest first lines behind, CutAt (lit "\r\n\r\n") raw head rest ∧
      splitBreaks cr lf head = first :: lines ∧ CutAt (lit "\r\n") raw first behind ∧
      parseHttpRequest raw = (readWords first).map fun words ↦
        ⟨words.1, words.2.1, words.2.2, lines.foldl insertHeader ∅,
          declaredBody (lines.foldl insertHeader ∅) rest⟩ := by
  obtain ⟨head, rest, hblank⟩ := exists_cutAt h
  obtain ⟨first, lines, hsplit, hraw, hfirst, hlines⟩ := exists_message hblank
  obtain ⟨behind, hcut⟩ := message_cut hfirst lines rest
  refine ⟨head, rest, first, lines, behind, hblank, hsplit, hraw ▸ hcut, ?_⟩
  rw [hraw, parseHttpRequest_eq hfirst hlines]

theorem readWords_eq_some {first method path version : Bytes} :
    readWords first = some (method, path, version) ↔
      ∃ more, words first = method :: path :: version :: more := by
  rw [readWords_eq]
  match words first with
  | [] => simp
  | [_] => simp
  | [_, _] => simp
  | _ :: _ :: _ :: more => simp

theorem readWords_isSome_iff (first : Bytes) :
    (readWords first).isSome ↔ 3 ≤ (words first).length := by
  rw [readWords_eq]
  match words first with
  | [] => simp
  | [_] => simp
  | [_, _] => simp
  | _ :: _ :: _ :: more => simp

theorem blank_of_parse {raw : Bytes} {request : HttpRequest}
    (h : parseHttpRequest raw = some request) : lit "\r\n\r\n" <:+: raw := by
  simp only [parseHttpRequest, Option.bind_eq_bind, Option.bind_eq_some_iff] at h
  obtain ⟨-, -, -, -, -, -, -, -, headerEnd, hblank, -⟩ := h
  rw [find_zero] at hblank
  exact (cutAt_of_indexOf hblank).occurs

/-- The header loop ends at the empty line, without rejecting anything. -/
theorem parseHeaderLines_ends {raw : Bytes} {requestLineEnd headerEnd : ℕ}
    (hline : find raw (lit "\r\n") 0 = some requestLineEnd)
    (hblank : find raw (lit "\r\n\r\n") 0 = some headerEnd) (headers : Headers) :
    (parseHeaderLines raw headerEnd (raw.length + 1) (requestLineEnd + 2) headers).isSome := by
  rw [find_zero] at hline hblank
  obtain ⟨head, rest, hhead⟩ := exists_cutAt (cutAt_of_indexOf hblank).occurs
  obtain ⟨first, lines, -, hraw, hfirst, hlines⟩ := exists_message hhead
  obtain ⟨behind, hcut⟩ := message_cut hfirst lines rest
  have hend : requestLineEnd = first.length := by
    rw [hraw, hcut.indexOf_eq] at hline
    exact (Option.some.inj hline).symm
  have hblankEnd : headerEnd = first.length + (broken cr lf lines).length := by
    rw [hraw, message, lit_blank, indexOf_blank (by decide) hfirst hlines] at hblank
    exact (Option.some.inj hblank).symm
  have hfuel : lines.length < raw.length + 1 := by
    rw [hraw]
    exact length_lines_lt first lines rest
  rw [hend, hblankEnd, parseHeaderLines_message hlines hraw headers hfuel]
  rfl

/-- Which texts are requests, and what they say. -/
theorem parse_exact (raw : Bytes) :
    ((parseHttpRequest raw).isSome ↔ lit "\r\n\r\n" <:+: raw ∧
      ∃ first behind, CutAt (lit "\r\n") raw first behind ∧ 3 ≤ (words first).length) ∧
    (∀ requestLineEnd headerEnd headers, find raw (lit "\r\n") 0 = some requestLineEnd →
      find raw (lit "\r\n\r\n") 0 = some headerEnd →
      (parseHeaderLines raw headerEnd (raw.length + 1) (requestLineEnd + 2) headers).isSome) ∧
    ∀ request, parseHttpRequest raw = some request → Means raw request := by
  refine ⟨?_, fun _ _ headers hline hblank ↦ parseHeaderLines_ends hline hblank headers, ?_⟩
  · constructor
    · intro hsome
      obtain ⟨request, hrequest⟩ := Option.isSome_iff_exists.1 hsome
      have hoccurs := blank_of_parse hrequest
      obtain ⟨_, _, first, _, behind, -, -, hcut, hparse⟩ := exists_parsed hoccurs
      rw [hparse, Option.isSome_map, readWords_isSome_iff] at hsome
      exact ⟨hoccurs, first, behind, hcut, hsome⟩
    · rintro ⟨hoccurs, first', behind', hcut', hwords⟩
      obtain ⟨_, _, first, _, behind, -, -, hcut, hparse⟩ := exists_parsed hoccurs
      obtain ⟨rfl, -⟩ := hcut.unique hcut'
      rw [hparse, Option.isSome_map, readWords_isSome_iff]
      exact hwords
  · intro request hrequest
    obtain ⟨head, rest, first, lines, -, hblank, hsplit, -, hparse⟩ :=
      exists_parsed (blank_of_parse hrequest)
    rw [hparse] at hrequest
    obtain ⟨⟨method, path, version⟩, hwords, rfl⟩ := Option.map_eq_some_iff.1 hrequest
    obtain ⟨more, hmore⟩ := readWords_eq_some.1 hwords
    refine ⟨head, rest, first, lines, more, hblank, hsplit, hmore, lookup_headers lines, ?_⟩
    rw [← lookup_headers]
    rfl

end CppAiService.RequestMeaning
