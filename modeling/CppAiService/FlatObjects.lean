import CppAiService.FieldExtraction
import CppAiService.Gateway

namespace CppAiService.FlatObjects

open Bytes HttpCodec FieldExtraction Foundation Foundation.Search Foundation.EscapeCode

def Unquoted (w : Bytes) : Prop := ascii '"' ∉ w ∧ ascii '\\' ∉ w

instance (w : Bytes) : Decidable (Unquoted w) := inferInstanceAs (Decidable (_ ∧ _))

/-- The text behind the quoted word, where that is met before any member has the name: between
a name and its value, in a value, or between two members. -/
def misread (w : Bytes) : Members → Option Bytes
  | [] => none
  | (name, value) :: ms =>
    if name = w then none
    else if [ascii ':'] = w then some (jsonEscape value ++ ascii '"' :: moreMembers ms)
    else if jsonCode.Shows w value then some (moreMembers ms)
    else if ms = [] then none
    else if [ascii ','] = w then some ((moreMembers ms).drop 2)
    else misread w ms

/-- What the extractor answers: the member's value, or what it reads from where it was misled. -/
def answer (w : Bytes) (ms : Members) : Option Bytes :=
  match misread w ms with
  | some r => readAfter r
  | none => ms.lookup w

theorem afterFirst_name {w name : Bytes} (hw : Unquoted w) (hn : Unquoted name)
    (value rest : Bytes) :
    afterFirst (quoted w) (member name value rest) =
      if name = w then
        some (ascii ':' :: ascii '"' :: (jsonEscape value ++ ascii '"' :: rest))
      else if [ascii ':'] = w then some (jsonEscape value ++ ascii '"' :: rest)
      else if jsonCode.Shows w value then some rest
      else afterFirst (quoted w) (ascii '"' :: rest) := by
  have hcolon := afterFirst_delimited hw.1 (x := [ascii ':']) (by decide)
    (jsonEscape value ++ ascii '"' :: rest)
  have hvalue := afterFirst_shown (C := jsonCode) hw.1 hw.2 value rest
  rw [← jsonEscape_eq_escape] at hvalue
  rw [member, quoted, afterFirst_delimited hw.1 hn.1]
  refine if_congr Iff.rfl rfl (hcolon.trans ?_)
  exact if_congr Iff.rfl rfl hvalue

theorem lookup_cons_of_ne {w name : Bytes} (h : name ≠ w) (value : Bytes) (ms : Members) :
    List.lookup w ((name, value) :: ms) = ms.lookup w := by
  rw [List.lookup_cons, beq_false_of_ne (Ne.symm h)]

theorem answer_cons_self (w value : Bytes) (ms : Members) :
    answer w ((w, value) :: ms) = some value := by
  rw [answer, misread, if_pos rfl, List.lookup_cons, beq_self_eq_true]

/-- Behind the last member the scan finds nothing; before another one it meets the comma. -/
theorem scan_member {w : Bytes} (hw : Unquoted w) {name value : Bytes} {ms : Members}
    (hms : ∀ m ∈ (name, value) :: ms, Unquoted m.1) :
    (afterFirst (quoted w) (member name value (moreMembers ms))).bind readAfter =
      answer w ((name, value) :: ms) := by
  induction ms generalizing name value with
  | nil =>
    have hend : afterFirst (quoted w) (ascii '"' :: moreMembers []) = none :=
      afterFirst_unclosed (by decide)
    rw [afterFirst_name hw (hms _ List.mem_cons_self), hend]
    by_cases hname : name = w
    · subst hname
      rw [if_pos rfl, answer_cons_self]
      exact readAfter_quoted List.not_mem_nil value _
    · rw [answer, misread, if_neg hname, if_neg hname, if_pos rfl]
      split_ifs
      · rfl
      · rfl
      · rw [lookup_cons_of_ne hname]
        rfl
  | cons m ms ih =>
    obtain ⟨hn, hms⟩ := List.forall_mem_cons.1 hms
    have hcomma := afterFirst_delimited hw.1 (x := [ascii ',']) (by decide)
      (m.1 ++ ascii '"' :: ascii ':' :: ascii '"' ::
        (jsonEscape m.2 ++ ascii '"' :: moreMembers ms))
    rw [afterFirst_name hw hn]
    by_cases hname : name = w
    · subst hname
      rw [if_pos rfl, answer_cons_self]
      exact readAfter_quoted List.not_mem_nil value _
    · rw [answer, misread, if_neg hname, if_neg hname, if_neg (List.cons_ne_nil m ms)]
      split_ifs with hcolon hshows hsep
      · rfl
      · rfl
      · rw [if_pos hsep] at hcomma
        exact congrArg (Option.bind · readAfter) hcomma
      · rw [if_neg hsep] at hcomma
        refine (congrArg (Option.bind · readAfter) hcomma).trans ?_
        rw [lookup_cons_of_ne hname]
        exact ih hms

theorem extract_eq_answer {w : Bytes} (hw : Unquoted w) {ms : Members}
    (hms : ∀ m ∈ ms, Unquoted m.1) :
    extractJsonStringField (encodeObject ms) w = answer w ms := by
  rw [extractJsonStringField_eq]
  change (afterFirst (quoted w) _).bind readAfter = _
  cases ms with
  | nil =>
    have hskip := afterFirst_skip (c := ascii '"') (w := w ++ [ascii '"']) (x := lit "\x7b\x7d")
      (by decide) []
    rw [List.append_nil, afterFirst_nil] at hskip
    exact congrArg (Option.bind · readAfter) hskip
  | cons m ms =>
    have hskip := afterFirst_skip (c := ascii '"') (w := w ++ [ascii '"']) (x := [ascii '{'])
      (by decide) (member m.1 m.2 (moreMembers ms))
    refine (congrArg (Option.bind · readAfter) hskip).trans ?_
    exact scan_member hw hms

/-- The extractor gives each member's value, and refuses a name that no member has. -/
def Extracts (w : Bytes) (ms : Members) : Prop :=
  (∀ value, (w, value) ∈ ms → extractJsonStringField (encodeObject ms) w = some value) ∧
    (w ∉ ms.map Prod.fst → extractJsonStringField (encodeObject ms) w = none)

theorem lookup_of_mem {ms : Members} (hdistinct : (ms.map Prod.fst).Nodup) {w value : Bytes}
    (hmem : (w, value) ∈ ms) : ms.lookup w = some value := by
  induction ms with
  | nil => cases hmem
  | cons m ms ih =>
    rw [List.map_cons, List.nodup_cons] at hdistinct
    obtain rfl | hmem := List.mem_cons.1 hmem
    · rw [List.lookup_cons, beq_self_eq_true]
    · have hne : m.1 ≠ w := fun heq ↦ hdistinct.1 (heq ▸ List.mem_map_of_mem hmem)
      rw [lookup_cons_of_ne hne]
      exact ih hdistinct.2 hmem

theorem extracts_iff_lookup {ms : Members} (hdistinct : (ms.map Prod.fst).Nodup) (w : Bytes) :
    Extracts w ms ↔ extractJsonStringField (encodeObject ms) w = ms.lookup w := by
  by_cases hw : w ∈ ms.map Prod.fst
  · obtain ⟨⟨name, value⟩, hmem, rfl⟩ := List.mem_map.1 hw
    rw [lookup_of_mem hdistinct hmem]
    constructor
    · intro h
      exact h.1 value hmem
    · intro h
      refine ⟨fun other hother ↦ ?_, fun hno ↦ absurd hw hno⟩
      rw [h, ← lookup_of_mem hdistinct hmem]
      exact lookup_of_mem hdistinct hother
  · have hnone : ms.lookup w = none := by
      rw [List.lookup_eq_none_iff]
      intro m hm
      exact bne_iff_ne.2 fun heq ↦ hw (heq ▸ List.mem_map_of_mem hm)
    rw [hnone]
    constructor
    · intro h
      exact h.2 hw
    · intro h
      exact ⟨fun value hmem ↦ absurd (List.mem_map_of_mem hmem) hw, fun _ ↦ h⟩

section Misread

def behindColon (x : Bytes) : Bytes := (x.dropWhile (· ≠ ascii ':')).drop 1

def Blank (x : Bytes) : Prop := ∀ b ∈ x, isspace b = true

instance (x : Bytes) : Decidable (Blank x) := List.decidableBAll _ x

def PlainBlank (x : Bytes) : Prop := ∀ b ∈ x, isspace b = true ∧ jsonShort b = none

instance (x : Bytes) : Decidable (PlainBlank x) := List.decidableBAll _ x

/-- What is read where a value is looked for and a member comes: its own value, unless there is a
colon in its name. -/
def nextString : Members → Option Bytes
  | [] => none
  | (name, value) :: _ =>
    if ascii ':' ∉ name then some value
    else if Blank (behindColon name) then some [ascii ':']
    else none

/-- The same where another value stands in front of the members. -/
def valueString (value : Bytes) (ms : Members) : Option Bytes :=
  if ascii ':' ∉ value then nextString ms
  else if ms ≠ [] ∧ PlainBlank (behindColon value) then some [ascii ',']
  else none

theorem eq_append_behindColon {x : Bytes} (h : ascii ':' ∈ x) :
    ∃ u, ascii ':' ∉ u ∧ x = u ++ ascii ':' :: behindColon x := by
  induction x with
  | nil => cases h
  | cons b x ih =>
    by_cases hb : b = ascii ':'
    · refine ⟨[], List.not_mem_nil, ?_⟩
      rw [behindColon, List.dropWhile_cons_of_neg (by simpa using hb), hb]
      rfl
    · obtain ⟨u, hu, hx⟩ := ih ((List.mem_cons.1 h).resolve_left (Ne.symm hb))
      refine ⟨b :: u, fun hmem ↦ ?_, ?_⟩
      · obtain heq | hmem := List.mem_cons.1 hmem
        · exact hb heq.symm
        · exact hu hmem
      · rw [behindColon, List.dropWhile_cons_of_pos (by simpa using hb)]
        exact congrArg (b :: ·) hx

theorem readValue_letter {b : Byte} (hspace : isspace b = false) (hb : b ≠ ascii '"') (r : Bytes) :
    readValue (b :: r) = none := by
  rw [readValue, List.dropWhile_cons_of_neg (by simpa using hspace)]
  exact if_neg hb

theorem readValue_space {b : Byte} (hspace : isspace b = true) (r : Bytes) :
    readValue (b :: r) = readValue r := by
  rw [readValue, readValue, List.dropWhile_cons_of_pos hspace]

theorem readValue_quote (r : Bytes) : readValue (ascii '"' :: r) = jsonCode.decode r := by
  rw [readValue, List.dropWhile_cons_of_neg (by decide)]
  exact if_pos rfl

/-- Behind a part of a name a string is read if that part is blank. -/
theorem readValue_name {x : Bytes} (hx : ascii '"' ∉ x) (r : Bytes) :
    readValue (x ++ ascii '"' :: r) =
      if Blank x then jsonCode.decode r else none := by
  induction x with
  | nil =>
    have hblank : Blank [] := List.forall_mem_nil _
    rw [List.nil_append, readValue_quote, if_pos hblank]
  | cons b x ih =>
    rw [List.mem_cons, not_or] at hx
    rw [List.cons_append]
    cases hspace : isspace b with
    | true =>
      rw [readValue_space hspace, ih hx.2]
      exact if_congr (by simp [Blank, hspace]) rfl rfl
    | false =>
      rw [readValue_letter hspace (Ne.symm hx.1), if_neg]
      intro hall
      cases hspace.symm.trans (hall b List.mem_cons_self)

/-- Behind a part of a value too, if no byte of it is escaped. -/
theorem readValue_value (x r : Bytes) :
    readValue (jsonEscape x ++ ascii '"' :: r) =
      if PlainBlank x then jsonCode.decode r else none := by
  rw [jsonEscape_eq_escape]
  induction x with
  | nil =>
    have hblank : PlainBlank [] := List.forall_mem_nil _
    rw [escape_nil, List.nil_append, readValue_quote, if_pos hblank]
  | cons b x ih =>
    rw [escape_cons, List.append_assoc]
    cases hshort : jsonShort b with
    | some c =>
      rw [escapeLetter, show jsonCode.short b = some c from hshort]
      refine (readValue_letter (by decide) (by decide) _).trans (if_neg fun hall ↦ ?_).symm
      cases hshort.symm.trans (hall b List.mem_cons_self).2
    | none =>
      rw [escapeLetter_of_short_eq_none (C := jsonCode) hshort, List.singleton_append]
      cases hspace : isspace b with
      | true =>
        rw [readValue_space hspace, ih]
        exact if_congr (by simp [PlainBlank, hspace, hshort]) rfl rfl
      | false =>
        have hquote : b ≠ ascii '"' := by
          rintro rfl
          cases hshort
        refine (readValue_letter hspace hquote _).trans (if_neg fun hall ↦ ?_).symm
        cases hspace.symm.trans (hall b List.mem_cons_self).1

theorem decode_separator {b : Byte} (hquote : b ≠ ascii '"') (hmark : b ≠ ascii '\\') (r : Bytes) :
    jsonCode.decode (b :: ascii '"' :: r) = some [b] := by
  rw [decode_letter_cons (C := jsonCode) hquote hmark, show ascii '"' = jsonCode.quote from rfl,
    decode_quote_cons]
  rfl

theorem readAfter_colon {x : Bytes} (hx : ascii ':' ∉ x) (r : Bytes) :
    readAfter (x ++ ascii ':' :: r) = readValue r := by
  rw [readAfter, afterFirst_letter hx, Option.bind_some]

theorem readAfter_skip {x : Bytes} (hx : ascii ':' ∉ x) (r : Bytes) :
    readAfter (x ++ r) = readAfter r := by
  rw [readAfter, readAfter, afterFirst_skip hx]

theorem colon_not_mem_escape {x : Bytes} (hx : ascii ':' ∉ x) : ascii ':' ∉ jsonEscape x := by
  intro hmem
  obtain ⟨b, hb, hmem⟩ := List.mem_flatMap.1 hmem
  have hletter : ∀ b : Byte, ascii ':' ∈ jsonEscapeByte b → b = ascii ':' :=
    forall_byte (by decide +kernel)
  exact hx (hletter b hmem ▸ hb)

theorem readAfter_name {name : Bytes} (hname : Unquoted name) (value rest : Bytes) (ms : Members) :
    readAfter (name ++ ascii '"' :: ascii ':' :: ascii '"' ::
      (jsonEscape value ++ ascii '"' :: rest)) = nextString ((name, value) :: ms) := by
  rw [nextString]
  by_cases hcolon : ascii ':' ∈ name
  · obtain ⟨u, hu, hsplit⟩ := eq_append_behindColon hcolon
    have hquote : ascii '"' ∉ behindColon name := fun hmem ↦
      hname.1 (hsplit ▸ List.mem_append_right _ (List.mem_cons_of_mem _ hmem))
    rw [if_neg (not_not.2 hcolon)]
    nth_rewrite 1 [hsplit]
    rw [List.append_assoc, List.cons_append, readAfter_colon hu, readValue_name hquote,
      decode_separator (by decide) (by decide)]
  · rw [if_pos hcolon]
    have hprefix : ascii ':' ∉ name ++ [ascii '"'] := by
      rw [List.mem_append, not_or]
      exact ⟨hcolon, by decide⟩
    have hread := readAfter_quoted hprefix value rest
    rwa [List.append_assoc, List.singleton_append] at hread

theorem readAfter_members {ms : Members} (hms : ∀ m ∈ ms, Unquoted m.1) :
    readAfter (moreMembers ms) = nextString ms := by
  cases ms with
  | nil =>
    rw [readAfter, moreMembers, afterFirst_letter_none (by decide)]
    rfl
  | cons m ms =>
    have hskip : ascii ':' ∉ [ascii ',', ascii '"'] := by decide
    exact (readAfter_skip hskip _).trans (readAfter_name (hms m List.mem_cons_self) m.2 _ ms)

theorem readAfter_value {ms : Members} (hms : ∀ m ∈ ms, Unquoted m.1) (value : Bytes) :
    readAfter (jsonEscape value ++ ascii '"' :: moreMembers ms) = valueString value ms := by
  rw [valueString]
  by_cases hcolon : ascii ':' ∈ value
  · obtain ⟨u, hu, hsplit⟩ := eq_append_behindColon hcolon
    rw [if_neg (not_not.2 hcolon)]
    have hescaped : jsonEscape value =
        jsonEscape u ++ ascii ':' :: jsonEscape (behindColon value) := by
      nth_rewrite 1 [hsplit]
      exact List.flatMap_append
    have hplain : ascii ':' ∉ jsonEscape u := colon_not_mem_escape hu
    rw [hescaped, List.append_assoc, List.cons_append, readAfter_colon hplain, readValue_value]
    cases ms with
    | nil =>
      exact (ite_eq_right_iff.2 fun _ ↦ rfl).trans (if_neg fun h ↦ h.1 rfl).symm
    | cons m ms =>
      rw [moreMembers, member, decode_separator (by decide) (by decide)]
      exact if_congr (by simp) rfl rfl
  · rw [if_pos hcolon]
    have hplain : ascii ':' ∉ jsonEscape value ++ [ascii '"'] := by
      rw [List.mem_append, not_or]
      exact ⟨colon_not_mem_escape hcolon, by decide⟩
    have hskip := readAfter_skip hplain (moreMembers ms)
    rw [List.append_assoc, List.singleton_append] at hskip
    exact hskip.trans (readAfter_members hms)

/-- The quoted name is not met in front of the member that has it, or where it is met the right
string is read all the same. -/
def ReadsRight (w : Bytes) : Members → Prop
  | [] => True
  | (name, value) :: ms =>
    name = w ∨
      if [ascii ':'] = w then valueString value ms = ms.lookup w
      else if jsonCode.Shows w value then nextString ms = ms.lookup w
      else if ms = [] then True
      else if [ascii ','] = w then nextString ms = ms.lookup w
      else ReadsRight w ms

instance decidableReadsRight (w : Bytes) : ∀ ms, Decidable (ReadsRight w ms)
  | [] => isTrue trivial
  | (name, _) :: ms =>
    have := decidableReadsRight w ms
    inferInstanceAs (Decidable (name = w ∨ if [ascii ':'] = w then _ else _))

theorem readsRight_iff {ms : Members} (hms : ∀ m ∈ ms, Unquoted m.1) (w : Bytes) :
    ReadsRight w ms ↔ answer w ms = ms.lookup w := by
  induction ms with
  | nil => exact iff_of_true trivial rfl
  | cons m ms ih =>
    obtain ⟨name, value⟩ := m
    obtain ⟨-, hrest⟩ := List.forall_mem_cons.1 hms
    by_cases hname : name = w
    · subst hname
      rw [answer_cons_self, List.lookup_cons, beq_self_eq_true]
      exact iff_of_true (.inl rfl) rfl
    rw [ReadsRight, or_iff_right hname, answer, misread, if_neg hname, lookup_cons_of_ne hname]
    by_cases hcolon : [ascii ':'] = w
    · rw [if_pos hcolon, if_pos hcolon]
      exact Eq.congr (readAfter_value hrest value).symm rfl
    rw [if_neg hcolon, if_neg hcolon]
    by_cases hshows : jsonCode.Shows w value
    · rw [if_pos hshows, if_pos hshows]
      exact Eq.congr (readAfter_members hrest).symm rfl
    rw [if_neg hshows, if_neg hshows]
    cases ms with
    | nil => exact iff_of_true trivial rfl
    | cons m ms =>
      rw [if_neg (List.cons_ne_nil m ms), if_neg (List.cons_ne_nil m ms)]
      by_cases hcomma : [ascii ','] = w
      · rw [if_pos hcomma, if_pos hcomma]
        exact Eq.congr (readAfter_name (hrest m List.mem_cons_self) m.2 _ ms).symm rfl
      · rw [if_neg hcomma, if_neg hcomma]
        exact ih hrest

end Misread

theorem extracts_iff_readsRight {ms : Members} (hnames : ∀ m ∈ ms, Unquoted m.1)
    (hdistinct : (ms.map Prod.fst).Nodup) {w : Bytes} (hw : Unquoted w) :
    Extracts w ms ↔ ReadsRight w ms := by
  rw [extracts_iff_lookup hdistinct, extract_eq_answer hw hnames, readsRight_iff hnames]

section Handlers

open Gateway

theorem answer_of_shown {w name value : Bytes} {ms : Members} (hname : name ≠ w)
    (hcolon : [ascii ':'] ≠ w) (hshows : jsonCode.Shows w value) :
    answer w ((name, value) :: ms) = readAfter (moreMembers ms) := by
  rw [answer, misread, if_neg hname, if_neg hcolon, if_pos hshows]

theorem answer_of_not_shown {w name value : Bytes} {m : Bytes × Bytes} {ms : Members}
    (hname : name ≠ w) (hcolon : [ascii ':'] ≠ w) (hcomma : [ascii ','] ≠ w)
    (hshows : ¬ jsonCode.Shows w value) :
    answer w ((name, value) :: m :: ms) = answer w (m :: ms) := by
  rw [answer, answer, misread, if_neg hname, if_neg hcolon, if_neg hshows,
    if_neg (List.cons_ne_nil m ms), if_neg hcomma, lookup_cons_of_ne hname]

/-- Of three fields the second is always read right, and the third is taken for the second
when the first shows its name. -/
theorem extract_three {a b c : Bytes} (ha : IsName a) (hb : IsName b) (hc : IsName c)
    (hab : a ≠ b) (hac : a ≠ c) (hbc : b ≠ c) (x y z : Bytes) :
    extractJsonStringField (encodeObject [(a, x), (b, y), (c, z)]) a = some x ∧
    extractJsonStringField (encodeObject [(a, x), (b, y), (c, z)]) b = some y ∧
    extractJsonStringField (encodeObject [(a, x), (b, y), (c, z)]) c =
      some (if jsonCode.Shows c x then y else z) := by
  have hunquoted {w : Bytes} (hw : IsName w) : Unquoted w :=
    ⟨hw.1.quote_not_mem, hw.1.mark_not_mem⟩
  have hcolon {w : Bytes} (hw : IsName w) : [ascii ':'] ≠ w :=
    fun heq ↦ hw.2.1 (heq ▸ List.mem_singleton_self _)
  have hcomma {w : Bytes} (hw : IsName w) : [ascii ','] ≠ w :=
    fun heq ↦ hw.2.2 (heq ▸ List.mem_singleton_self _)
  have hnames : ∀ m ∈ [(a, x), (b, y), (c, z)], IsName m.1 := by simp [ha, hb, hc]
  have hms : ∀ m ∈ [(a, x), (b, y), (c, z)], Unquoted m.1 := fun m hm ↦ hunquoted (hnames m hm)
  obtain ⟨-, hnext⟩ := List.forall_mem_cons.1 hnames
  obtain ⟨-, hlast⟩ := List.forall_mem_cons.1 hnext
  rw [extract_eq_answer (hunquoted ha) hms, extract_eq_answer (hunquoted hb) hms,
    extract_eq_answer (hunquoted hc) hms]
  refine ⟨answer_cons_self a x _, ?_, ?_⟩
  · by_cases hshows : jsonCode.Shows b x
    · rw [answer_of_shown hab (hcolon hb) hshows, readAfter_moreMembers hnext]
      rfl
    · rw [answer_of_not_shown hab (hcolon hb) (hcomma hb) hshows, answer_cons_self]
  · by_cases hshows : jsonCode.Shows c x
    · rw [answer_of_shown hac (hcolon hc) hshows, readAfter_moreMembers hnext, if_pos hshows]
      rfl
    · rw [answer_of_not_shown hac (hcolon hc) (hcomma hc) hshows, if_neg hshows]
      by_cases hsecond : jsonCode.Shows c y
      · rw [answer_of_shown hbc (hcolon hc) hsecond, readAfter_moreMembers hlast]
        rfl
      · rw [answer_of_not_shown hbc (hcolon hc) (hcomma hc) hsecond, answer_cons_self]

theorem ingested_names : IsName (lit "id") ∧ IsName (lit "title") ∧ IsName (lit "content") := by
  repeat rw [lit_ofList]
  decide

theorem registered_names :
    IsName (lit "username") ∧ IsName (lit "password") ∧ IsName (lit "invite_code") := by
  repeat rw [lit_ofList]
  decide

/-- The document that a posted one becomes. -/
theorem ingest_posted {request : HttpRequest} (hmethod : request.method = lit "POST")
    {id title content : Bytes} (hid : id ≠ []) (htitle : title ≠ []) (hcontent : content ≠ [])
    (hbody : request.body = encodeObject [(lit "id", id), (lit "title", title),
      (lit "content", content)]) (store : InMemoryRagStore) :
    (handleRagIngestRequest request store).2 = store.upsert
      ⟨id, title, if jsonCode.Shows (lit "content") id then title else content⟩ := by
  obtain ⟨hidName, htitleName, hcontentName⟩ := ingested_names
  obtain ⟨h₁, h₂, h₃⟩ := extract_three hidName htitleName hcontentName (by decide) (by decide)
    (by decide) id title content
  unfold handleRagIngestRequest fieldOrEmpty
  rw [if_neg (not_not_intro hmethod), hbody, h₁, h₂, h₃]
  dsimp only [Option.getD_some]
  have hfound : ¬ (id = [] ∨ title = [] ∨
      (if jsonCode.Shows (lit "content") id then title else content) = []) := by
    split_ifs <;> simp only [hid, htitle, hcontent, or_self, not_false_eq_true]
  rw [if_neg hfound]

/-- The registration that a posted one becomes. -/
theorem register_posted {request : HttpRequest} (hmethod : request.method = lit "POST")
    {username password inviteCode : Bytes}
    (hbody : request.body = encodeObject [(lit "username", username), (lit "password", password),
      (lit "invite_code", inviteCode)]) (hsize : request.body.length ≤ 8192) (users : UserStore)
    (file : Option Bytes) (env : RequestEnv) :
    (handleRegisterRequest request users file env).2 =
      (users.registerUser file username password
        (if jsonCode.Shows (lit "invite_code") username then password else inviteCode)
        env.clientId env.now env.device env.append).2 := by
  obtain ⟨husername, hpassword, hinvite⟩ := registered_names
  obtain ⟨h₁, h₂, h₃⟩ := extract_three husername hpassword hinvite (by decide) (by decide)
    (by decide) username password inviteCode
  unfold handleRegisterRequest fieldOrEmpty
  rw [if_neg (not_not_intro hmethod), if_neg (Nat.not_lt.2 hsize), hbody, h₁, h₂, h₃]
  dsimp only [Option.getD_some]
  split_ifs <;> rfl

theorem ingests_iff {request : HttpRequest} (hmethod : request.method = lit "POST")
    {id title content : Bytes} (hid : id ≠ []) (htitle : title ≠ []) (hcontent : content ≠ [])
    (hbody : request.body = encodeObject [(lit "id", id), (lit "title", title),
      (lit "content", content)]) :
    (∀ store, (handleRagIngestRequest request store).2 = store.upsert ⟨id, title, content⟩) ↔
      (jsonCode.Shows (lit "content") id → title = content) := by
  have hposted := ingest_posted hmethod hid htitle hcontent hbody
  constructor
  · intro h hshows
    have hstored := (hposted ⟨[]⟩).symm.trans (h ⟨[]⟩)
    rw [if_pos hshows] at hstored
    have hdocument := (List.cons.inj (InMemoryRagStore.mk.inj hstored)).1
    exact (RagDocument.mk.inj hdocument).2.2
  · intro h store
    rw [hposted store]
    by_cases hshows : jsonCode.Shows (lit "content") id
    · rw [if_pos hshows, h hshows]
    · rw [if_neg hshows]

theorem registers_iff (username password inviteCode : Bytes) :
    (let body := encodeObject [(lit "username", username), (lit "password", password),
      (lit "invite_code", inviteCode)]
    extractJsonStringField body (lit "username") = some username ∧
      extractJsonStringField body (lit "password") = some password ∧
      fieldOrEmpty body (lit "invite_code") = inviteCode) ↔
      (jsonCode.Shows (lit "invite_code") username → password = inviteCode) := by
  obtain ⟨husername, hpassword, hinvite⟩ := registered_names
  obtain ⟨h₁, h₂, h₃⟩ := extract_three husername hpassword hinvite (by decide) (by decide)
    (by decide) username password inviteCode
  dsimp only
  rw [fieldOrEmpty, h₁, h₂, h₃, Option.getD_some, ite_eq_right_iff]
  exact ⟨fun h ↦ h.2.2, fun h ↦ ⟨rfl, rfl, h⟩⟩

end Handlers

/-- A flat object's field is extracted right exactly when the quoted name is not met too early, or
the string read there happens to be the right one. Of the posted fields the third alone can be
misread, where the first one shows its name, and is then the second. -/
theorem extracts_iff (ms : Members) (w : Bytes) :
    ((∀ m ∈ ms, Unquoted m.1) → (ms.map Prod.fst).Nodup → Unquoted w →
      (Extracts w ms ↔ ReadsRight w ms)) ∧
    (∀ (request : HttpRequest) (id title content : Bytes), request.method = lit "POST" →
      id ≠ [] → title ≠ [] → content ≠ [] →
      request.body = encodeObject [(lit "id", id), (lit "title", title), (lit "content", content)] →
      ((∀ store, (Gateway.handleRagIngestRequest request store).2 =
          store.upsert ⟨id, title, content⟩) ↔
        (jsonCode.Shows (lit "content") id → title = content))) ∧
    ∀ username password inviteCode : Bytes,
      (let body := encodeObject [(lit "username", username), (lit "password", password),
        (lit "invite_code", inviteCode)]
      extractJsonStringField body (lit "username") = some username ∧
        extractJsonStringField body (lit "password") = some password ∧
        Gateway.fieldOrEmpty body (lit "invite_code") = inviteCode) ↔
        (jsonCode.Shows (lit "invite_code") username → password = inviteCode) :=
  ⟨fun hnames hdistinct hw ↦ extracts_iff_readsRight hnames hdistinct hw,
    fun _ _ _ _ hmethod hid htitle hcontent hbody ↦
      ingests_iff hmethod hid htitle hcontent hbody,
    registers_iff⟩

/-- A document whose id is the word content is stored with its title as the content. -/
theorem title_stored_as_content :
    let posted := [(lit "id", lit "content"), (lit "title", lit "t"), (lit "content", lit "c")]
    extractJsonStringField (encodeObject posted) (lit "content") = some (lit "t") ∧
      ¬ Extracts (lit "content") posted ∧
      ∀ store, (Gateway.handleRagIngestRequest ⟨lit "POST", lit "/rag/ingest", lit "HTTP/1.1", ∅,
        encodeObject posted⟩ store).2 = store.upsert ⟨lit "content", lit "t", lit "t"⟩ := by
  intro posted
  have hextract : extractJsonStringField (encodeObject posted) (lit "content") = some (lit "t") := by
    decide
  refine ⟨hextract, fun h ↦ ?_, fun store ↦ ?_⟩
  · have hright := h.1 (lit "c") (by decide)
    rw [hextract] at hright
    revert hright
    decide
  · exact ingest_posted rfl (by decide) (by decide) (by decide) rfl store

/-- The title is extracted all the same when the id shows its name. -/
theorem title_behind_its_name : Extracts (lit "title")
    [(lit "id", lit "title"), (lit "title", lit "t")] :=
  ((extracts_iff _ _).1 (by decide) (by decide) (by decide)).2 (by decide)

end CppAiService.FlatObjects
