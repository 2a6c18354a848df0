import CppAiService.ExtractorAgreement
import CppAiService.Foundation.JsonLiteral
import Mathlib.Algebra.Order.BigOperators.Group.List

namespace CppAiService.LiteralDecoding

open Bytes FieldExtraction ExtractorAgreement Foundation Foundation.Search Foundation.EscapeCode
  Foundation.Json

/-- The object `{"f" : L}`. -/
def oneMember (field : Bytes) (before after : Whitespace) (L : Literal) : Bytes :=
  ascii '{' :: (quoted field ++ before.bytes ++
    ascii ':' :: (after.bytes ++ L.text ++ [ascii '}']))

/-- What the extractors make of a character: the letter behind a mark is kept, and only
`n`, `r` and `t` have a meaning of their own. -/
def read : Item → Bytes
  | .raw c _ => String.utf8EncodeChar c
  | .short e => [HttpCodec.unescapeByte e.letter]
  | .unicode u _ _ => ascii 'u' :: u.digits
  | .pair high low _ _ => ascii 'u' :: (high.digits ++ ascii 'u' :: low.digits)

def Decoded : Item → Prop
  | .raw _ _ => True
  | .short e => e ≠ .backspace ∧ e ≠ .formFeed
  | .unicode _ _ _ | .pair _ _ _ _ => False

theorem decode_plain {x : Bytes} (hx : ∀ b ∈ x, b ≠ ascii '"' ∧ b ≠ ascii '\\') (s : Bytes) :
    jsonCode.decode (x ++ s) = (jsonCode.decode s).map (x ++ ·) := by
  induction x with
  | nil => simp
  | cons b x ih =>
    obtain ⟨⟨hquote, hmark⟩, hx⟩ := List.forall_mem_cons.1 hx
    rw [List.cons_append, decode_letter_cons (C := jsonCode) hquote hmark, ih hx, Option.map_map]
    rfl

theorem decode_mark (b : Byte) (s : Bytes) :
    jsonCode.decode (ascii '\\' :: b :: s) =
      (jsonCode.decode s).map (HttpCodec.unescapeByte b :: ·) :=
  jsonCode.decode_mark_cons b s

theorem digits_plain (u : Hex4) : ∀ b ∈ u.digits, b ≠ ascii '"' ∧ b ≠ ascii '\\' := by
  have hall : ∀ b : Byte, (hexValue b).isSome → b ≠ ascii '"' ∧ b ≠ ascii '\\' :=
    forall_byte (by decide +kernel)
  exact fun b hb ↦ hall b (u.hex b hb)

theorem decode_text (a : Item) (s : Bytes) :
    jsonCode.decode (a.text ++ s) = (jsonCode.decode s).map (read a ++ ·) := by
  have hunit (u : Hex4) (s : Bytes) : jsonCode.decode (ascii '\\' :: ascii 'u' :: (u.digits ++ s)) =
      (jsonCode.decode s).map (ascii 'u' :: u.digits ++ ·) := by
    rw [decode_mark, decode_plain (digits_plain u), Option.map_map]
    rfl
  cases a with
  | raw c hc => exact decode_plain (fun b hb ↦ (hc.bytes b hb).2) s
  | short e => exact decode_mark e.letter s
  | unicode u c hc => exact hunit u s
  | pair high low c hc =>
    have htext : (Item.pair high low c hc).text ++ s = ascii '\\' :: ascii 'u' ::
        (high.digits ++ ascii '\\' :: ascii 'u' :: (low.digits ++ s)) := by
      simp only [Item.text, List.cons_append, List.append_assoc]
      rfl
    have hread (t : Bytes) : ascii 'u' :: high.digits ++ (ascii 'u' :: low.digits ++ t) =
        read (.pair high low c hc) ++ t := by
      simp only [read, List.cons_append, List.append_assoc]
    rw [htext, hunit high, hunit low, Option.map_map]
    exact congrArg (Option.map · _) (funext hread)

theorem decode_body (L : Literal) (s : Bytes) :
    jsonCode.decode (L.body ++ ascii '"' :: s) = some (L.flatMap read) := by
  induction L with
  | nil => exact jsonCode.decode_quote_cons s
  | cons a L ih =>
    rw [Literal.body, List.flatMap_cons, List.append_assoc, decode_text, ← Literal.body, ih]
    rfl

theorem extract_oneMember (field : Bytes) (before after : Whitespace) (L : Literal) :
    HttpCodec.extractJsonStringField (oneMember field before after L) field =
        some (L.flatMap read) ∧
      AiClient.extractJsonStringField (oneMember field before after L) field =
        some (L.flatMap read) := by
  have hblank : ∀ b : Byte, Blank b → isspace b = true ∧ b ≠ ascii ':' :=
    forall_byte (by decide +kernel)
  have hcolon : ascii ':' ∉ before.bytes := fun hmem ↦ (hblank _ (before.blank _ hmem)).2 rfl
  have hbehind : behindColon (oneMember field before after L) field =
      some (after.bytes ++ L.text ++ [ascii '}']) := by
    have hskip := afterFirst_skip (c := ascii '"') (w := field ++ [ascii '"']) (x := [ascii '{'])
      (by decide) (quoted field ++ (before.bytes ++
        ascii ':' :: (after.bytes ++ L.text ++ [ascii '}'])))
    have hkey := afterFirst_append (quoted field) (before.bytes ++
        ascii ':' :: (after.bytes ++ L.text ++ [ascii '}']))
    rw [behindColon, oneMember, List.append_assoc (quoted field)]
    refine (congrArg (Option.bind · _) (hskip.trans hkey)).trans ?_
    rw [Option.bind_some, afterFirst_letter hcolon]
  have hdrop : (after.bytes ++ L.text ++ [ascii '}']).dropWhile isspace =
      ascii '"' :: (L.body ++ ascii '"' :: [ascii '}']) := by
    have hspace : ∀ b ∈ after.bytes, isspace b = true :=
      fun b hb ↦ (hblank b (after.blank b hb)).1
    rw [List.append_assoc, List.dropWhile_append_of_pos hspace, Literal.text, List.cons_append,
      List.append_assoc]
    rfl
  have hstart : StartsString (after.bytes ++ L.text ++ [ascii '}']) := by
    rw [StartsString, hdrop]
    rfl
  have hvalue : readValue (after.bytes ++ L.text ++ [ascii '}']) = some (L.flatMap read) := by
    rw [readValue, hdrop]
    exact (if_pos rfl).trans (decode_body L _)
  rw [codec_extract_eq, client_extract_eq, hbehind, Option.bind_some, Option.bind_some,
    read_of_startsString hstart, hvalue]
  exact ⟨rfl, rfl⟩

/-- Texts glued from pieces that are never shorter agree only piece by piece. -/
theorem flatMap_eq_iff {α β : Type} {f g : α → List β} {l : List α}
    (hle : ∀ a ∈ l, (g a).length ≤ (f a).length) :
    l.flatMap f = l.flatMap g ↔ ∀ a ∈ l, f a = g a := by
  induction l with
  | nil => simp
  | cons a l ih =>
    obtain ⟨ha, hl⟩ := List.forall_mem_cons.1 hle
    have hlength : (l.flatMap g).length ≤ (l.flatMap f).length := by
      rw [List.length_flatMap, List.length_flatMap]
      exact List.sum_le_sum hl
    rw [List.flatMap_cons, List.flatMap_cons, List.forall_mem_cons, ← ih hl]
    constructor
    · intro h
      have hsum := congrArg List.length h
      rw [List.length_append, List.length_append] at hsum
      exact List.append_inj h (by omega)
    · rintro ⟨hfirst, hrest⟩
      rw [hfirst, hrest]

theorem length_read (a : Item) : (String.utf8EncodeChar a.char).length ≤ (read a).length := by
  have hfour (c : Char) : (String.utf8EncodeChar c).length ≤ 4 :=
    (String.length_utf8EncodeChar c).trans_le c.utf8Size_le_four
  cases a with
  | raw c hc => exact le_refl _
  | short e => cases e <;> decide
  | unicode u c hc =>
    rw [read, List.length_cons, u.four]
    exact (hfour c).trans (by decide)
  | pair high low c hc =>
    simp only [read, List.length_cons, List.length_append, high.four, low.four]
    exact (hfour c).trans (by decide)

theorem read_eq_iff (a : Item) : read a = String.utf8EncodeChar a.char ↔ Decoded a := by
  have hlong {x : Bytes} (c : Char) (hx : 4 < x.length) : x ≠ String.utf8EncodeChar c := by
    intro heq
    rw [heq, String.length_utf8EncodeChar] at hx
    exact absurd c.utf8Size_le_four (not_le.2 hx)
  cases a with
  | raw c hc => exact iff_of_true rfl trivial
  | short e => cases e <;> simp only [Decoded] <;> decide
  | unicode u c hc =>
    refine iff_of_false (hlong c ?_) id
    rw [read, List.length_cons, u.four]
    decide
  | pair high low c hc =>
    refine iff_of_false (hlong c ?_) id
    simp only [read, List.length_cons, List.length_append, high.four, low.four]
    decide

/-- Exactly the literals without `\b`, `\f` and `\u` are decoded as JSON defines them. -/
theorem literal_decoded_iff (field : Bytes) (before after : Whitespace) (L : Literal) :
    (HttpCodec.extractJsonStringField (oneMember field before after L) field =
        some (utf8 L.value) ↔ ∀ a ∈ L, Decoded a) ∧
      (AiClient.extractJsonStringField (oneMember field before after L) field =
        some (utf8 L.value) ↔ ∀ a ∈ L, Decoded a) := by
  have hiff : some (L.flatMap read) = some (utf8 L.value) ↔ ∀ a ∈ L, Decoded a := by
    rw [Option.some_inj, utf8, Literal.value, List.flatMap_map,
      flatMap_eq_iff fun a _ ↦ length_read a]
    exact forall₂_congr fun a _ ↦ read_eq_iff a
  obtain ⟨hcodec, hclient⟩ := extract_oneMember field before after L
  rw [hcodec, hclient]
  exact ⟨hiff, hiff⟩

/-- An escaped Chinese letter arrives as five ASCII letters. -/
theorem chinese_letter_misread :
    let L : Literal :=
      [.unicode ⟨lit "4f60", rfl, by decide +kernel⟩ (Char.ofNat 0x4F60) (by decide)]
    let json := oneMember (lit "message") ⟨[], by simp⟩ ⟨[], by simp⟩ L
    json = lit "\x7b\"message\":\"\\u4f60\"\x7d" ∧ utf8 L.value = [0xE4, 0xBD, 0xA0] ∧
      HttpCodec.extractJsonStringField json (lit "message") = some (lit "u4f60") ∧
      AiClient.extractJsonStringField json (lit "message") = some (lit "u4f60") ∧
      lit "u4f60" ≠ utf8 L.value := by
  decide +kernel

end CppAiService.LiteralDecoding
