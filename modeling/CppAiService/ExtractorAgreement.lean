import CppAiService.ReplyExtraction
import Mathlib.Data.List.TakeWhile

namespace CppAiService.ExtractorAgreement

open Bytes HttpCodec AiClient FieldExtraction Foundation Foundation.Search Foundation.EscapeCode

def behindColon (json field : Bytes) : Option Bytes :=
  (afterFirst (ascii '"' :: (field ++ [ascii '"'])) json).bind (afterFirst [ascii ':'])

def StartsString (s : Bytes) : Prop := (s.dropWhile isspace).head? = some (ascii '"')

/-- The first quote opens a string that is closed. -/
def HoldsString (s : Bytes) : Prop :=
  ∃ x rest, ascii '"' ∉ x ∧ s = x ++ ascii '"' :: rest ∧ (jsonCode.decode rest).isSome

theorem codec_extract_eq (json field : Bytes) :
    HttpCodec.extractJsonStringField json field = (behindColon json field).bind readValue := by
  rw [FieldExtraction.extractJsonStringField_eq, behindColon, Option.bind_assoc]

theorem client_extract_eq (json field : Bytes) :
    AiClient.extractJsonStringField json field =
      (behindColon json field).bind fun s ↦ (afterFirst [ascii '"'] s).bind jsonCode.decode := by
  rw [ReplyExtraction.extractJsonStringField_eq, behindColon, Option.bind_assoc]
  congr 1
  funext s
  rw [ReplyExtraction.readField, Option.bind_assoc]

theorem not_mem_takeWhile_isspace (s : Bytes) : ascii '"' ∉ s.takeWhile isspace := by
  intro hmem
  have hspace := List.mem_takeWhile_imp hmem
  revert hspace
  decide

/-- Both read the string that starts next. -/
theorem read_of_startsString {s : Bytes} (h : StartsString s) :
    (afterFirst [ascii '"'] s).bind jsonCode.decode = readValue s := by
  obtain ⟨rest, hrest⟩ := List.head?_eq_some_iff.1 h
  have hs : s = s.takeWhile isspace ++ ascii '"' :: rest := by
    rw [← hrest, List.takeWhile_append_dropWhile]
  rw [readValue, hrest]
  conv_lhs => rw [hs]
  rw [afterFirst_letter (not_mem_takeWhile_isspace s), Option.bind_some]
  exact (if_pos rfl).symm

theorem readValue_of_not_startsString {s : Bytes} (h : ¬ StartsString s) : readValue s = none := by
  rw [readValue]
  cases hs : s.dropWhile isspace with
  | nil => rfl
  | cons ch rest =>
    refine if_neg fun hquote ↦ h ?_
    rw [StartsString, hs, hquote]
    rfl

theorem read_isSome_iff (s : Bytes) :
    ((afterFirst [ascii '"'] s).bind jsonCode.decode).isSome ↔ HoldsString s := by
  by_cases hquote : ascii '"' ∈ s
  · obtain ⟨x, rest, rfl, hx⟩ := List.eq_append_cons_of_mem hquote
    rw [afterFirst_letter hx, Option.bind_some]
    constructor
    · intro hsome
      exact ⟨x, rest, hx, rfl, hsome⟩
    · intro hholds
      obtain ⟨y, rest', hy, heq, hsome⟩ := hholds
      have hsame := congrArg (afterFirst [ascii '"']) heq
      rw [afterFirst_letter hx, afterFirst_letter hy, Option.some.injEq] at hsame
      rwa [hsame]
  · rw [afterFirst_letter_none hquote]
    refine iff_of_false Bool.false_ne_true fun hholds ↦ ?_
    obtain ⟨x, rest, -, rfl, -⟩ := hholds
    exact hquote (List.mem_append_right _ List.mem_cons_self)

/-- The two extractors agree unless the value is no string and a string follows. -/
theorem extractors_agree_iff (json field : Bytes) :
    AiClient.extractJsonStringField json field = HttpCodec.extractJsonStringField json field ↔
      ∀ s, behindColon json field = some s → StartsString s ∨ ¬ HoldsString s := by
  rw [client_extract_eq, codec_extract_eq]
  cases hs : behindColon json field with
  | none => exact iff_of_true rfl fun s h ↦ by cases h
  | some s =>
    rw [Option.bind_some, Option.bind_some]
    by_cases hstart : StartsString s
    · refine iff_of_true (read_of_startsString hstart) fun t ht ↦ ?_
      obtain rfl := Option.some.inj ht
      exact .inl hstart
    · rw [readValue_of_not_startsString hstart]
      constructor
      · intro hnone t ht
        obtain rfl := Option.some.inj ht
        refine .inr fun hholds ↦ ?_
        rw [← read_isSome_iff, hnone] at hholds
        cases hholds
      · intro h
        have hno := (h s rfl).resolve_left hstart
        rw [← read_isSome_iff, Option.not_isSome_iff_eq_none] at hno
        exact hno

/-- Where the content is null, the client's extractor yields the next name as the reply. -/
theorem null_content_yields_next_name :
    let response := lit "\x7b\"content\":null,\"x\":\"y\"\x7d"
    AiClient.extractJsonStringField response (lit "content") = some (lit "x") ∧
      HttpCodec.extractJsonStringField response (lit "content") = none := by
  decide +kernel

end CppAiService.ExtractorAgreement
