import CppAiService.HttpCodec

namespace CppAiService.FieldExtraction

open Bytes HttpCodec Foundation Foundation.Search Foundation.EscapeCode

def jsonShort (ch : Byte) : Option Byte :=
  if ch = ascii '\\' then some (ascii '\\')
  else if ch = ascii '"' then some (ascii '"')
  else if ch = ascii '\n' then some (ascii 'n')
  else if ch = ascii '\r' then some (ascii 'r')
  else if ch = ascii '\t' then some (ascii 't')
  else none

/-- The convention that the codec's writers and readers share. -/
def jsonCode : EscapeCode Byte where
  quote := ascii '"'
  mark := ascii '\\'
  short := jsonShort
  long := unescapeByte
  quote_ne_mark := by decide
  short_quote := by decide
  short_mark := by decide
  short_ne_quote a b ha h := by
    unfold jsonShort at h
    split_ifs at h <;> cases h <;> decide
  long_short a b h := by
    unfold jsonShort at h
    split_ifs at h <;> cases h <;> subst a <;> decide

theorem jsonEscape_eq_escape (s : Bytes) : jsonEscape s = jsonCode.escape s := by
  have h : jsonEscapeByte = jsonCode.escapeLetter := by
    funext ch
    simp only [jsonEscapeByte, escapeLetter, jsonCode, jsonShort]
    split_ifs <;> rfl
  rw [jsonEscape, h]
  rfl

theorem parseStringBody_eq (parsed s : Bytes) :
    parseStringBody parsed s = (jsonCode.decode s).map (parsed ++ ·) := by
  fun_induction parseStringBody parsed s with
  | case1 parsed => rfl
  | case2 parsed rest =>
    rw [show ascii '"' = jsonCode.quote from rfl, decode_quote_cons]
    simp
  | case3 parsed ch h ih =>
    rw [ih]
    by_cases hm : ch = jsonCode.mark
    · simp [hm]
    · simp [decode_letter_cons (C := jsonCode) h hm]
  | case4 parsed escaped rest h ih =>
    rw [ih, show ascii '\\' = jsonCode.mark from rfl, decode_mark_cons, Option.map_map]
    simp [Function.comp_def, jsonCode]
  | case5 parsed ch h escaped rest hm ih =>
    rw [ih, decode_letter_cons (C := jsonCode) (a := ch) h hm, Option.map_map]
    simp [Function.comp_def]

def readValue (s : Bytes) : Option Bytes :=
  match s.dropWhile isspace with
  | [] => none
  | ch :: rest => if ch = ascii '"' then jsonCode.decode rest else none

/-- The extractor takes the first textual occurrence of the quoted name, then the
next colon, and reads a string there. -/
theorem extractJsonStringField_eq (json field : Bytes) :
    extractJsonStringField json field =
      (afterFirst (ascii '"' :: (field ++ [ascii '"'])) json).bind fun r ↦
        (afterFirst [ascii ':'] r).bind readValue := by
  have hkey : lit "\"" ++ field ++ lit "\"" = ascii '"' :: (field ++ [ascii '"']) := by
    simp [lit]
  rw [extractJsonStringField, hkey, find_zero]
  simp only [afterFirst]
  cases hk : indexOf (ascii '"' :: (field ++ [ascii '"'])) json with
  | none => rfl
  | some keyPos =>
    simp only [find_behind ((find_zero _ _).trans hk), Option.map_some, Option.bind_some]
    have hcolon : lit ":" = [ascii ':'] := rfl
    rw [hcolon]
    cases hc : indexOf [ascii ':'] (json.drop (keyPos +
        (ascii '"' :: (field ++ [ascii '"'])).length)) with
    | none => rfl
    | some colon =>
      simp only [Option.map_some, Option.bind_some, List.drop_drop, List.length_singleton]
      rw [readValue, show colon + (keyPos + (ascii '"' :: (field ++ [ascii '"'])).length) + 1 =
        keyPos + (ascii '"' :: (field ++ [ascii '"'])).length + (colon + 1) by omega]
      simp only [parseStringBody_eq, List.nil_append, Option.map_id_fun']
      rfl

def quoted (w : Bytes) : Bytes := ascii '"' :: (w ++ [ascii '"'])

def readAfter (s : Bytes) : Option Bytes := (afterFirst [ascii ':'] s).bind readValue

theorem readAfter_quoted {x : Bytes} (hx : ascii ':' ∉ x) (s r : Bytes) :
    readAfter (x ++ ascii ':' :: ascii '"' :: (jsonEscape s ++ ascii '"' :: r)) = some s := by
  have hspace : isspace (ascii '"') = false := by decide
  rw [readAfter, afterFirst_letter hx, Option.bind_some, jsonEscape_eq_escape]
  simp only [readValue, List.dropWhile_cons, hspace, Bool.false_eq_true, ↓reduceIte]
  exact jsonCode.decode_escape s r

section Object

/-- A name that is written as it stands and holds no JSON punctuation. -/
def IsName (w : Bytes) : Prop := jsonCode.Plain w ∧ ascii ':' ∉ w ∧ ascii ',' ∉ w

instance (w : Bytes) : Decidable (IsName w) :=
  have := List.decidableBAll (jsonShort · = none) w
  inferInstanceAs (Decidable ((∀ a ∈ w, jsonShort a = none) ∧ _))

abbrev Members := List (Bytes × Bytes)

def member (name value rest : Bytes) : Bytes :=
  ascii '"' :: (name ++ ascii '"' :: ascii ':' :: ascii '"' ::
    (jsonEscape value ++ ascii '"' :: rest))

def moreMembers : Members → Bytes
  | [] => [ascii '}']
  | (name, value) :: ms => ascii ',' :: member name value (moreMembers ms)

/-- A flat object of string members, written without white space. -/
def encodeObject : Members → Bytes
  | [] => lit "\x7b\x7d"
  | (name, value) :: ms => ascii '{' :: member name value (moreMembers ms)

/-- The value a scan for a name arrives at: that of the first member which has the
name, unless an earlier value shows the quoted name, whose successor is then read. -/
def scannedField (w : Bytes) : Members → Option Bytes
  | [] => none
  | (name, value) :: ms =>
    if name = w then some value
    else if jsonCode.EndsQuoted w value then ms.head?.map Prod.snd
    else scannedField w ms

theorem readAfter_moreMembers {ms : Members} (hms : ∀ m ∈ ms, IsName m.1) :
    readAfter (moreMembers ms) = ms.head?.map Prod.snd := by
  cases ms with
  | nil =>
    rw [readAfter, moreMembers, afterFirst_letter_none (by decide)]
    rfl
  | cons m ms =>
    obtain ⟨-, hcolon, -⟩ := hms m List.mem_cons_self
    have h := readAfter_quoted (x := ascii ',' :: ascii '"' :: (m.1 ++ [ascii '"']))
      (by simp only [List.mem_cons, List.mem_append, List.not_mem_nil, or_false, not_or]
          exact ⟨by decide, by decide, hcolon, by decide⟩) m.2 (moreMembers ms)
    simpa [moreMembers, member] using h

theorem afterFirst_member {w name : Bytes} (hw : IsName w) (hn : IsName name)
    (value rest : Bytes) :
    afterFirst (ascii '"' :: (w ++ [ascii '"'])) (member name value rest) =
      if name = w then
        some (ascii ':' :: ascii '"' :: (jsonEscape value ++ ascii '"' :: rest))
      else if jsonCode.EndsQuoted w value then some rest
      else afterFirst (ascii '"' :: (w ++ [ascii '"'])) (ascii '"' :: rest) := by
  have hq : ascii '"' ∉ w := hw.1.quote_not_mem
  rw [member, afterFirst_delimited hq hn.1.quote_not_mem]
  refine if_congr Iff.rfl rfl ?_
  have hcolon : [ascii ':'] ≠ w := by
    intro heq
    obtain rfl := heq
    exact hw.2.1 (List.mem_singleton_self _)
  have h := afterFirst_delimited hq (x := [ascii ':']) (by decide)
    (jsonEscape value ++ ascii '"' :: rest)
  rw [if_neg hcolon] at h
  rw [show ascii ':' :: ascii '"' :: (jsonEscape value ++ ascii '"' :: rest) =
    [ascii ':'] ++ ascii '"' :: (jsonEscape value ++ ascii '"' :: rest) from rfl, h,
    jsonEscape_eq_escape]
  exact afterFirst_quoted hw.1 value rest

theorem scan_moreMembers {w : Bytes} (hw : IsName w) {ms : Members}
    (hms : ∀ m ∈ ms, IsName m.1) :
    (afterFirst (ascii '"' :: (w ++ [ascii '"'])) (ascii '"' :: moreMembers ms)).bind readAfter =
      scannedField w ms := by
  induction ms with
  | nil =>
    rw [moreMembers, afterFirst_unclosed (by decide)]
    rfl
  | cons m ms ih =>
    obtain ⟨hn, hms⟩ := List.forall_mem_cons.mp hms
    have hcomma : [ascii ','] ≠ w := by
      intro heq
      obtain rfl := heq
      exact hw.2.2 (List.mem_singleton_self _)
    have hq : ascii '"' ∉ w := hw.1.quote_not_mem
    have h := afterFirst_delimited hq (x := [ascii ',']) (by decide)
      (m.1 ++ ascii '"' :: ascii ':' :: ascii '"' ::
        (jsonEscape m.2 ++ ascii '"' :: moreMembers ms))
    rw [if_neg hcomma] at h
    rw [moreMembers, member]
    refine (congrArg (Option.bind · readAfter) h).trans ?_
    change (afterFirst _ (member m.1 m.2 (moreMembers ms))).bind readAfter = _
    rw [afterFirst_member hw hn, scannedField]
    split_ifs
    · exact readAfter_quoted (x := []) (by simp) m.2 _
    · exact readAfter_moreMembers hms
    · exact ih hms

theorem extract_encodeObject {w : Bytes} (hw : IsName w) {ms : Members}
    (hms : ∀ m ∈ ms, IsName m.1) :
    extractJsonStringField (encodeObject ms) w = scannedField w ms := by
  rw [extractJsonStringField_eq]
  change (afterFirst _ _).bind readAfter = _
  cases ms with
  | nil =>
    have h := afterFirst_skip (c := ascii '"') (w := w ++ [ascii '"']) (x := lit "\x7b\x7d")
      (by decide) []
    rw [List.append_nil] at h
    rw [encodeObject, h, afterFirst_nil]
    rfl
  | cons m ms =>
    obtain ⟨hn, hms⟩ := List.forall_mem_cons.mp hms
    have h := afterFirst_skip (c := ascii '"') (w := w ++ [ascii '"']) (x := [ascii '{'])
      (by decide)
      (member m.1 m.2 (moreMembers ms))
    rw [List.singleton_append] at h
    rw [encodeObject, h, afterFirst_member hw hn, scannedField]
    split_ifs
    · exact readAfter_quoted (x := []) (by simp) m.2 _
    · exact readAfter_moreMembers hms
    · exact scan_moreMembers hw hms

end Object

end CppAiService.FieldExtraction
