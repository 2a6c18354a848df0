import CppAiService.Foundation.Lines
import CppAiService.HttpCodec
import Mathlib.Data.List.TakeWhile

namespace CppAiService.MessageFraming

open Bytes HttpCodec Foundation.Lines Foundation.Search

theorem bounds_of_isDigit {ch : Char} (h : ch.isDigit) : 48 ≤ ch.toNat ∧ ch.toNat ≤ 57 := by
  simp only [Char.isDigit, Bool.and_eq_true, decide_eq_true_eq] at h
  exact ⟨UInt32.le_iff_toNat_le.1 h.1, UInt32.le_iff_toNat_le.1 h.2⟩

theorem toNat_ascii {ch : Char} (h : ch.isDigit) : (ascii ch).toNat = ch.toNat := by
  have hle := (bounds_of_isDigit h).2
  have hmod : (ascii ch).toNat = ch.toNat % 2 ^ 8 := UInt32.toNat_toUInt8 ch.val
  omega

theorem isdigit_of_mem_decimal {n : ℕ} {ch : Byte} (h : ch ∈ decimal n) : isdigit ch = true := by
  obtain ⟨digit, hmem, rfl⟩ := List.mem_map.1 h
  have hdigit := Nat.isDigit_of_mem_toDigits (by decide) (by decide) hmem
  simp only [isdigit, Bool.and_eq_true, decide_eq_true_eq, UInt8.le_iff_toNat_le,
    toNat_ascii hdigit]
  exact bounds_of_isDigit hdigit

theorem foldl_digits (digits : List Char) (h : ∀ ch ∈ digits, ch.isDigit) (n : ℕ) :
    (digits.map ascii).foldl (fun n ch ↦ 10 * n + (ch.toNat - 48)) n =
      Nat.ofDigitChars 10 digits n := by
  induction digits generalizing n with
  | nil => rfl
  | cons ch digits ih =>
    obtain ⟨hch, hdigits⟩ := List.forall_mem_cons.1 h
    rw [List.map_cons, List.foldl_cons, ih hdigits, toNat_ascii hch, Nat.ofDigitChars_cons]
    rfl

theorem plain_of_isdigit {ch : Byte} (h : isdigit ch = true) :
    ch ≠ 0 ∧ isspace ch = false ∧ ch ≠ ascii '-' ∧ ch ≠ ascii '+' := by
  refine ⟨?_, ?_, ?_, ?_⟩
  · intro hch
    exact absurd (hch ▸ h) (by decide)
  · rw [Bool.eq_false_iff]
    intro hspace
    simp only [isspace, isdigit, Bool.or_eq_true, Bool.and_eq_true, beq_iff_eq, decide_eq_true_eq,
      UInt8.le_iff_toNat_le] at h hspace
    obtain rfl | ⟨-, hle⟩ := hspace
    · exact absurd h.1 (by decide)
    · exact absurd (h.1.trans hle) (by decide)
  all_goals
    intro hch
    exact absurd (hch ▸ h) (by decide)

/-- A length that fits `unsigned long` is read back. -/
theorem strtoul_decimal {n : ℕ} (hn : n < 2 ^ 64) : strtoul (decimal n) = n := by
  have hfold : (decimal n).foldl (fun n ch ↦ 10 * n + (ch.toNat - 48)) 0 = n := by
    rw [decimal, foldl_digits _ fun ch h ↦ Nat.isDigit_of_mem_toDigits (by decide) (by decide) h]
    exact Nat.ofDigitChars_ten_toDigits
  have hnul : (decimal n).takeWhile (· ≠ 0) = decimal n :=
    List.takeWhile_eq_self_iff.2 fun ch h ↦
      decide_eq_true (plain_of_isdigit (isdigit_of_mem_decimal h)).1
  have hall : (decimal n).takeWhile isdigit = decimal n :=
    List.takeWhile_eq_self_iff.2 fun ch h ↦ isdigit_of_mem_decimal h
  obtain ⟨ch, t, ht⟩ : ∃ ch t, decimal n = ch :: t :=
    List.exists_cons_of_ne_nil (by simp [decimal, Nat.toDigits_ne_nil])
  obtain ⟨-, hspace, hminus, hplus⟩ :=
    plain_of_isdigit (isdigit_of_mem_decimal (ht ▸ List.mem_cons_self : ch ∈ decimal n))
  rw [ht] at hfold hnul hall
  simp only [strtoul, ht, hnul, List.dropWhile_cons, hspace, hminus, hplus, hall, hfold,
    Bool.false_eq_true, if_false]
  omega

def cr : Byte := ascii '\r'

def lf : Byte := ascii '\n'

theorem lit_crlf : lit "\r\n" = [cr, lf] := by decide

theorem lit_blank : lit "\r\n\r\n" = [cr, lf, cr, lf] := by decide

def insertHeader (headers : Headers) (line : Bytes) : Headers :=
  match find line (lit ":") 0 with
  | none => headers
  | some colon => headers.insert (toLower (trim (line.take colon))) (trim (line.drop (colon + 1)))

def HeaderLines (lines : List Bytes) : Prop := ∀ line ∈ lines, line ≠ [] ∧ cr ∉ line

theorem HeaderLines.whole {lines : List Bytes} (h : HeaderLines lines) :
    ∀ line ∈ lines, line ≠ [] ∧ Whole cr lf line :=
  fun line hmem ↦ ⟨(h line hmem).1, whole_of_not_mem (h line hmem).2⟩

def message (first : Bytes) (lines : List Bytes) (body : Bytes) : Bytes :=
  first ++ (broken cr lf lines ++ cr :: lf :: cr :: lf :: body)

theorem length_lines_lt (first : Bytes) (lines : List Bytes) (body : Bytes) :
    lines.length < (message first lines body).length + 1 := by
  have hle : lines.length ≤ (broken cr lf lines).length := length_le_broken cr lf lines
  simp only [message, List.length_append]
  omega

theorem find_crlf {raw before line r : Bytes} (hraw : raw = before ++ (line ++ cr :: lf :: r))
    (hline : Whole cr lf line) :
    find raw (lit "\r\n") before.length = some (before.length + line.length) := by
  have hle : before.length ≤ raw.length := by
    rw [hraw, List.length_append]
    exact Nat.le_add_right _ _
  rw [find, if_pos hle, hraw, List.drop_left, lit_crlf, indexOf_break hline (by decide),
    Option.map_some, Nat.add_comm]

theorem parseHeaderLines_message {lines : List Bytes}
    (hlines : ∀ line ∈ lines, line ≠ [] ∧ Whole cr lf line) {raw before body : Bytes}
    (hraw : raw = message before lines body) (headers : Headers) {fuel : ℕ}
    (hfuel : lines.length < fuel) :
    parseHeaderLines raw (before.length + (broken cr lf lines).length) fuel (before.length + 2)
      headers = some (lines.foldl insertHeader headers) := by
  induction lines generalizing before headers fuel with
  | nil =>
    obtain ⟨fuel, rfl⟩ := Nat.exists_eq_succ_of_ne_zero (Nat.ne_of_gt hfuel)
    simp [parseHeaderLines, broken]
  | cons line lines ih =>
    obtain ⟨⟨hne, hline⟩, hlines⟩ := List.forall_mem_cons.1 hlines
    obtain ⟨fuel, rfl⟩ := Nat.exists_eq_succ_of_ne_zero (Nat.ne_of_gt (Nat.zero_lt_of_lt hfuel))
    have hpos := List.length_pos_iff.2 hne
    -- the next round starts behind this line
    have hnext : raw = message (before ++ cr :: lf :: line) lines body := by
      rw [hraw, message, message, broken_cons]
      simp only [List.cons_append, List.append_assoc]
    obtain ⟨r, hr⟩ := broken_append_starts cr lf lines (cr :: lf :: body)
    have hhere : raw = (before ++ [cr, lf]) ++ (line ++ cr :: lf :: r) := by
      rw [hnext, message, hr]
      simp only [List.cons_append, List.append_assoc, List.nil_append]
    have hend := find_crlf hhere hline
    have hsub : substr raw (before ++ [cr, lf]).length line.length = line := by
      rw [substr, hhere, List.drop_left, List.take_left]
    simp only [List.length_append, List.length_cons, List.length_nil, Nat.zero_add,
      Nat.reduceAdd] at hend hsub
    have hrest := ih hlines hnext (insertHeader headers line) (Nat.lt_of_succ_lt_succ hfuel)
    simp only [List.length_append, List.length_cons] at hrest
    simp only [parseHeaderLines, broken_cons, List.length_cons, List.length_append, hend,
      Nat.add_sub_cancel_left, hsub, List.foldl_cons]
    rw [if_pos (by omega), if_neg (by omega)]
    have hstart : before.length + 2 + line.length + 2 =
        before.length + (line.length + 1 + 1) + 2 := by omega
    have hlength : before.length + (line.length + (broken cr lf lines).length + 1 + 1) =
        before.length + (line.length + 1 + 1) + (broken cr lf lines).length := by omega
    rw [hstart, hlength]
    exact hrest

def declaredBody (headers : Headers) (body : Bytes) : Bytes :=
  match headers.lookup (lit "content-length") with
  | none => body
  | some value => body.take (strtoul value)

def readWords (first : Bytes) : Option (Bytes × Bytes × Bytes) := do
  let (method, stream) ← readToken first
  let (path, stream) ← readToken stream
  let (version, _) ← readToken stream
  return (method, path, version)

structure StartLine (first method path version : Bytes) : Prop where
  plain : cr ∉ first
  words : readWords first = some (method, path, version)

/-- How a message is read whose lines hold no break. -/
theorem parseHttpRequest_eq {first : Bytes} (hfirst : Whole cr lf first) {lines : List Bytes}
    (hlines : ∀ line ∈ lines, line ≠ [] ∧ Whole cr lf line) (body : Bytes) :
    parseHttpRequest (message first lines body) = (readWords first).map fun words ↦
      ⟨words.1, words.2.1, words.2.2, lines.foldl insertHeader ∅,
        declaredBody (lines.foldl insertHeader ∅) body⟩ := by
  obtain ⟨r, hr⟩ := broken_append_starts cr lf lines (cr :: lf :: body)
  have hline : find (message first lines body) (lit "\r\n") 0 = some first.length := by
    rw [find_zero, message, hr, lit_crlf, indexOf_break hfirst (by decide)]
  have htake : (message first lines body).take first.length = first := List.take_left
  have hend : find (message first lines body) (lit "\r\n\r\n") 0 =
      some (first.length + (broken cr lf lines).length) := by
    rw [find_zero, message, lit_blank, indexOf_blank (by decide) hfirst hlines]
  have hheaders := parseHeaderLines_message hlines (Eq.refl (message first lines body)) ∅
    (length_lines_lt first lines body)
  have hbody : (message first lines body).drop (first.length + (broken cr lf lines).length + 4) =
      body := by
    rw [message, ← List.append_assoc, ← List.length_append, ← List.drop_drop, List.drop_left]
    rfl
  simp only [parseHttpRequest, readWords, hline, htake, hend, hheaders, hbody,
    Option.bind_eq_bind, Option.bind_some, Option.pure_def, Option.map_bind, Function.comp_def,
    Option.map_some]
  rfl

/-- What is written line by line is read back, whatever bytes the body has. -/
theorem parseHttpRequest_message {first method path version : Bytes}
    (hfirst : StartLine first method path version) {lines : List Bytes}
    (hlines : HeaderLines lines) (body : Bytes) :
    parseHttpRequest (message first lines body) =
      some ⟨method, path, version, lines.foldl insertHeader ∅,
        declaredBody (lines.foldl insertHeader ∅) body⟩ := by
  rw [parseHttpRequest_eq (whole_of_not_mem hfirst.plain) hlines.whole, hfirst.words,
    Option.map_some]

def responseLines (contentType body : Bytes) : List Bytes :=
  [lit "Content-Type: " ++ contentType, lit "Content-Length: " ++ decimal body.length,
    lit "Connection: close"]

theorem httpResponse_eq (status contentType body : Bytes) :
    httpResponse status contentType body =
      message (lit "HTTP/1.1 " ++ status) (responseLines contentType body) body := by
  have hclose : lit "Connection: close\r\n" = lit "Connection: close" ++ [cr, lf] := by
    decide
  rw [httpResponse, message, responseLines, hclose, lit_crlf]
  simp only [broken_cons, List.append_assoc, List.cons_append, List.nil_append]
  rfl

theorem insertHeader_named {name : Bytes} (hname : ascii ':' ∉ name) (headers : Headers)
    (value : Bytes) :
    insertHeader headers (name ++ ascii ':' :: value) =
      headers.insert (toLower (trim name)) (trim value) := by
  have hfind : find (name ++ ascii ':' :: value) (lit ":") 0 = some name.length := by
    have hcolon : lit ":" = [ascii ':'] := rfl
    have hhere : indexOf [ascii ':'] (ascii ':' :: value) = some 0 := indexOf_append [_] value
    rw [find_zero, hcolon, indexOf_skip hname, hhere, Option.map_some, Nat.zero_add]
  have hvalue : (name ++ ascii ':' :: value).drop (name.length + 1) = value := by
    rw [← List.drop_drop, List.drop_left]
    rfl
  simp only [insertHeader, hfind, List.take_left, hvalue]

theorem trim_spaced {value : Bytes} (h : ∀ ch ∈ value, isspace ch = false) :
    trim (ascii ' ' :: value) = value := by
  have hfront : (ascii ' ' :: value).dropWhile isspace = value := by
    have hspace : isspace (ascii ' ') = true := by decide
    rw [List.dropWhile_cons, if_pos hspace]
    cases value with
    | nil => rfl
    | cons ch value => rw [List.dropWhile_cons, if_neg (by simp [h ch List.mem_cons_self])]
  have hback : value.reverse.dropWhile isspace = value.reverse := by
    cases hvalue : value.reverse with
    | nil => rfl
    | cons ch rest =>
      have hch : ch ∈ value := List.mem_reverse.1 (hvalue ▸ List.mem_cons_self)
      rw [List.dropWhile_cons, if_neg (by simp [h ch hch])]
  rw [trim, hfront, hback, List.reverse_reverse]

theorem lookup_responseLines (contentType body : Bytes) :
    ((responseLines contentType body).foldl insertHeader ∅).lookup (lit "content-length") =
      some (decimal body.length) := by
  have htype : lit "Content-Type: " = lit "Content-Type" ++ [ascii ':', ascii ' '] := by
    decide
  have hlength : lit "Content-Length: " = lit "Content-Length" ++ [ascii ':', ascii ' '] := by
    decide
  have hclose : lit "Connection: close" = lit "Connection" ++ ascii ':' :: lit " close" := by
    decide
  have hname : toLower (trim (lit "Content-Length")) = lit "content-length" := by decide
  have hother : lit "content-length" ≠ toLower (trim (lit "Connection")) := by decide
  have hspaces : ∀ ch ∈ decimal body.length, isspace ch = false := fun ch h ↦
    (plain_of_isdigit (isdigit_of_mem_decimal h)).2.1
  simp only [responseLines, htype, hlength, hclose, List.foldl_cons, List.foldl_nil,
    List.append_assoc, List.cons_append, List.nil_append]
  rw [insertHeader_named (by decide), insertHeader_named (by decide),
    insertHeader_named (by decide), AList.lookup_insert_ne hother, hname,
    AList.lookup_insert, trim_spaced hspaces]

theorem headerLines_responseLines {contentType : Bytes} (htype : cr ∉ contentType)
    (body : Bytes) : HeaderLines (responseLines contentType body) := by
  have hdecimal : cr ∉ decimal body.length := fun h ↦
    absurd (isdigit_of_mem_decimal h) (by decide)
  have hjoin : ∀ {name value : Bytes}, name ≠ [] → cr ∉ name → cr ∉ value →
      name ++ value ≠ [] ∧ cr ∉ name ++ value := by
    intro name value hne hname hvalue
    refine ⟨List.append_ne_nil_of_left_ne_nil hne value, fun h ↦ ?_⟩
    obtain h | h := List.mem_append.1 h
    · exact hname h
    · exact hvalue h
  intro line hline
  simp only [responseLines, List.mem_cons, List.not_mem_nil, or_false] at hline
  obtain rfl | rfl | rfl := hline
  · exact hjoin (by decide) (by decide) htype
  · exact hjoin (by decide) (by decide) hdecimal
  · decide

end CppAiService.MessageFraming
