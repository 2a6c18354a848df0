import CppAiService.AiClient
import CppAiService.FieldExtraction

namespace CppAiService.ReplyExtraction

open Bytes HttpCodec AiClient FieldExtraction Foundation Foundation.Search Foundation.EscapeCode

theorem parseStringBody_eq (parsed : Bytes) (escaped : Bool) (s : Bytes) :
    AiClient.parseStringBody parsed escaped s =
      (jsonCode.decodeFrom escaped s).map (parsed ++ ·) := by
  induction s generalizing parsed escaped with
  | nil => rfl
  | cons ch rest ih =>
    have hmap : ∀ b : Byte, ((fun t ↦ parsed ++ t) ∘ fun t ↦ b :: t) = fun t ↦ parsed ++ [b] ++ t :=
      fun b ↦ funext fun t ↦ (List.append_cons parsed b t)
    cases escaped with
    | true =>
      change AiClient.parseStringBody (parsed ++ [unescapeByte ch]) false rest =
        ((jsonCode.decodeFrom false rest).map (unescapeByte ch :: ·)).map (parsed ++ ·)
      rw [ih, Option.map_map, hmap]
    | false =>
      change (if ch = jsonCode.mark then AiClient.parseStringBody parsed true rest
        else if ch = jsonCode.quote then some parsed
        else AiClient.parseStringBody (parsed ++ [ch]) false rest) =
          (if ch = jsonCode.quote then some [] else if ch = jsonCode.mark then
            jsonCode.decodeFrom true rest
          else (jsonCode.decodeFrom false rest).map (ch :: ·)).map (parsed ++ ·)
      by_cases hmark : ch = jsonCode.mark
      · have hquote : ch ≠ jsonCode.quote := hmark ▸ jsonCode.quote_ne_mark.symm
        rw [if_pos hmark, if_neg hquote, if_pos hmark, ih]
      · rw [if_neg hmark, if_neg hmark]
        split
        · rw [Option.map_some, List.append_nil]
        · rw [ih, Option.map_map, hmap]

/-- From the quoted name the extractor goes on to the next colon and the next quote. -/
def readField (s : Bytes) : Option Bytes :=
  ((afterFirst [ascii ':'] s).bind (afterFirst [ascii '"'])).bind jsonCode.decode

theorem extractJsonStringField_eq (json field : Bytes) :
    AiClient.extractJsonStringField json field =
      (afterFirst (ascii '"' :: (field ++ [ascii '"'])) json).bind readField := by
  have hkey : lit "\"" ++ field ++ lit "\"" = ascii '"' :: (field ++ [ascii '"']) := by
    simp [lit]
  have hcolon : lit ":" = [ascii ':'] := rfl
  have hquote : lit "\"" = [ascii '"'] := rfl
  unfold AiClient.extractJsonStringField
  rw [hkey, hcolon, hquote]
  cases hk : find json (ascii '"' :: (field ++ [ascii '"'])) 0 with
  | none =>
    have hafter := afterFirst_of_find_none (Nat.zero_le _) hk
    rw [List.drop_zero] at hafter
    simp only [hk, hafter, Option.bind_none]
  | some keyPos =>
    obtain ⟨hafter, hle⟩ := afterFirst_of_find hk
    rw [List.drop_zero] at hafter
    simp only [hk, hafter, Option.bind_some, readField]
    cases hc : find json [ascii ':'] (keyPos + (ascii '"' :: (field ++ [ascii '"'])).length) with
    | none => simp only [afterFirst_of_find_none hle hc, Option.bind_none]
    | some colon =>
      obtain ⟨hafter, hle⟩ := afterFirst_of_find hc
      rw [List.length_singleton] at hafter hle
      simp only [hafter, Option.bind_some]
      cases hq : find json [ascii '"'] (colon + 1) with
      | none => simp only [afterFirst_of_find_none hle hq, Option.bind_none]
      | some quote =>
        obtain ⟨hafter, -⟩ := afterFirst_of_find hq
        simp only [hafter, Option.bind_some, parseStringBody_eq, List.nil_append,
          Option.map_id_fun']
        rfl

theorem readField_quoted {x : Bytes} (hx : ascii ':' ∉ x) (s r : Bytes) :
    readField (x ++ ascii ':' :: ascii '"' :: (jsonEscape s ++ ascii '"' :: r)) = some s := by
  rw [readField, afterFirst_letter hx, Option.bind_some]
  change (afterFirst [ascii '"'] ([ascii '"'] ++ (jsonEscape s ++ ascii '"' :: r))).bind _ = _
  rw [afterFirst_append, Option.bind_some, jsonEscape_eq_escape]
  exact jsonCode.decode_escape s r

theorem buildChatBody_eq (config : AiClientConfig) (request : AiChatRequest) (reply : Bytes)
    (cacheHit : Bool) :
    ∃ tail, buildChatBody config request reply cacheHit =
      ascii '{' :: ascii '"' :: (lit "ok" ++ ascii '"' :: (lit ":true," ++
        member (lit "message") request.message (ascii ',' :: member (lit "reply") reply tail))) := by
  have hhead : lit "\x7b" ++ lit "\"ok\":true," ++ lit "\"message\":\"" =
      ascii '\x7b' :: ascii '"' :: (lit "ok" ++ ascii '"' :: (lit ":true," ++
        ascii '"' :: (lit "message" ++ [ascii '"', ascii ':', ascii '"']))) := by
    decide
  have hnext : lit "\"," ++ lit "\"reply\":\"" =
      ascii '"' :: ascii ',' :: ascii '"' :: (lit "reply" ++ [ascii '"', ascii ':', ascii '"']) := by
    decide
  have hclose : lit "\"," = ascii '"' :: lit "," := by decide
  refine ⟨lit "," ++ (lit "\"provider\":\"" ++ jsonEscape config.provider ++ lit "\"," ++
    lit "\"model\":\"" ++ jsonEscape config.model ++ lit "\"," ++
    lit "\"cache_hit\":" ++ lit (if cacheHit then "true" else "false") ++ lit "," ++
    lit "\"tool_used\":false" ++ lit "\x7d"), ?_⟩
  calc buildChatBody config request reply cacheHit
      = (lit "\x7b" ++ lit "\"ok\":true," ++ lit "\"message\":\"") ++ (jsonEscape request.message ++
          ((lit "\"," ++ lit "\"reply\":\"") ++ (jsonEscape reply ++ (lit "\"," ++
            (lit "\"provider\":\"" ++ jsonEscape config.provider ++ lit "\"," ++
              lit "\"model\":\"" ++ jsonEscape config.model ++ lit "\"," ++
              lit "\"cache_hit\":" ++ lit (if cacheHit then "true" else "false") ++ lit "," ++
              lit "\"tool_used\":false" ++ lit "\x7d"))))) := by
        unfold buildChatBody
        simp only [List.append_assoc]
    _ = _ := by
        rw [hhead, hnext, hclose]
        simp only [member, List.cons_append, List.append_assoc, List.nil_append]

/-- Wherever the message shows the quoted word, the next colon is that of the reply. -/
theorem extract_reply (config : AiClientConfig) (request : AiChatRequest) (reply : Bytes)
    (cacheHit : Bool) :
    AiClient.extractJsonStringField (buildChatBody config request reply cacheHit) (lit "reply") =
      some reply := by
  obtain ⟨tail, hbody⟩ := buildChatBody_eq config request reply cacheHit
  have hreply : IsName (lit "reply") := by decide
  have hmessage : IsName (lit "message") := by decide
  have hq : ascii '"' ∉ lit "reply" := hreply.1.quote_not_mem
  -- the quoted word does not begin at one of the quotes before the message
  have hskip : ∀ {x : Bytes}, ascii '"' ∉ x → x ≠ lit "reply" → ∀ r,
      afterFirst (ascii '"' :: (lit "reply" ++ [ascii '"'])) (ascii '"' :: (x ++ ascii '"' :: r)) =
        afterFirst (ascii '"' :: (lit "reply" ++ [ascii '"'])) (ascii '"' :: r) := by
    intro x hx hne r
    rw [afterFirst_delimited hq hx, if_neg hne]
  have hfirst : afterFirst (ascii '"' :: (lit "reply" ++ [ascii '"']))
      (buildChatBody config request reply cacheHit) =
        afterFirst (ascii '"' :: (lit "reply" ++ [ascii '"'])) (member (lit "message")
          request.message (ascii ',' :: member (lit "reply") reply tail)) := by
    have hbrace : ascii '"' ∉ [ascii '\x7b'] := by decide
    rw [hbody]
    refine (afterFirst_skip hbrace _).trans ?_
    rw [hskip (by decide) (by decide)]
    exact hskip (by decide) (by decide) _
  rw [extractJsonStringField_eq, hfirst, afterFirst_member hreply hmessage,
    if_neg (by decide)]
  split
  · have hcolon : ascii ':' ∉ ascii ',' :: ascii '"' :: (lit "reply" ++ [ascii '"']) := by
      decide
    have h := readField_quoted hcolon reply tail
    simpa only [member, Option.bind_some, List.cons_append, List.append_assoc, List.nil_append]
      using h
  · have hcomma : ascii '"' ∉ [ascii ','] := by decide
    have h := hskip hcomma (by decide) (lit "reply" ++ ascii '"' :: ascii ':' ::
      ascii '"' :: (jsonEscape reply ++ ascii '"' :: tail))
    refine (congrArg (Option.bind · readField) h).trans ?_
    change (afterFirst _ (member (lit "reply") reply tail)).bind readField = _
    rw [afterFirst_member hreply hreply, if_pos rfl]
    exact readField_quoted List.not_mem_nil reply tail

end CppAiService.ReplyExtraction
