import CppAiService.Foundation.JsonText

namespace CppAiService.Foundation.Json

def Printable (c : Char) : Prop := ' ' ≤ c ∨ c = '\t' ∨ c = '\n' ∨ c = '\r'

instance : DecidablePred Printable := fun _ ↦ inferInstanceAs (Decidable (_ ∨ _))

def Clean (s : List UInt8) : Prop := ∃ u : List Char, s = utf8 u ∧ ∀ c ∈ u, Printable c

def Denotes (t : List UInt8) (s : List Char) : Prop := ∃ L : Literal, L.text = t ∧ L.value = s

def elementsOf (v : Value) : List Value → Node .elements
  | [] => .element v
  | w :: vs => .elements v (elementsOf w vs)

def arrayOf : List Value → Value
  | [] => .emptyArray
  | v :: vs => .array (elementsOf v vs)

def membersOf (name : List UInt8) (v : Value) : List (List UInt8 × Value) → Node .members
  | [] => .member name v
  | (other, w) :: ms => .members name v (membersOf other w ms)

def objectOf : List (List UInt8 × Value) → Value
  | [] => .emptyObject
  | (name, v) :: ms => .object (membersOf name v ms)

/-- An escape function that writes printable text as the body of a literal and leaves the other
control characters as they are. -/
structure Escaping where
  escape : List UInt8 → List UInt8
  literal : ∀ u : List Char, (∀ c ∈ u, Printable c) →
    ∃ L : Literal, L.body = escape (utf8 u) ∧ L.value = u
  control : ∀ (s : List UInt8), ∀ b ∈ s, b < 0x20 → ¬ Blank b → b ∈ escape s

namespace Escaping

variable (E : Escaping)

def quote (s : List UInt8) : List UInt8 := 0x22 :: (E.escape s ++ [0x22])

def render : {k : Kind} → Node k → List UInt8
  | _, .null => nullText
  | _, .bool b => boolText b
  | _, .number n => n.text
  | _, .string s => E.quote s
  | _, .emptyArray => [0x5B, 0x5D]
  | _, .array vs => 0x5B :: (render vs ++ [0x5D])
  | _, .emptyObject => [0x7B, 0x7D]
  | _, .object ms => 0x7B :: (render ms ++ [0x7D])
  | _, .element v => render v
  | _, .elements v vs => render v ++ 0x2C :: render vs
  | _, .member name v => E.quote name ++ 0x3A :: render v
  | _, .members name v ms => E.quote name ++ 0x3A :: (render v ++ 0x2C :: render ms)

end Escaping

def strings : {k : Kind} → Node k → List (List UInt8)
  | _, .null | _, .bool _ | _, .number _ | _, .emptyArray | _, .emptyObject => []
  | _, .string s => [s]
  | _, .array vs => strings vs
  | _, .object ms => strings ms
  | _, .element v => strings v
  | _, .elements v vs => strings v ++ strings vs
  | _, .member name v => name :: strings v
  | _, .members name v ms => name :: (strings v ++ strings ms)

def Visible (b : UInt8) : Prop := 0x20 ≤ b ∨ Blank b

instance : DecidablePred Visible := fun _ ↦ inferInstanceAs (Decidable (_ ∨ _))

theorem visible_of_all {t : List UInt8} (h : t.all (decide <| Visible ·) = true) :
    ∀ b ∈ t, Visible b :=
  fun b hb ↦ of_decide_eq_true (List.all_eq_true.1 h b hb)

theorem NumberByte.visible {b : UInt8} (h : NumberByte b) : Visible b := by
  obtain ⟨hlow, -⟩ | rfl | rfl | rfl | rfl | rfl := h
  · exact .inl (UInt8.le_trans (by decide : (0x20 : UInt8) ≤ 0x30) hlow)
  all_goals decide

theorem Item.visible (a : Item) : ∀ b ∈ a.text, Visible b := by
  have hdigits (u : Hex4) : ∀ b ∈ u.digits, Visible b := by
    intro b hb
    have hsome := u.hex b hb
    by_contra hnot
    have hlow : b < 0x20 := UInt8.not_le.1 fun h ↦ hnot (.inl h)
    have hnone : hexValue b = none := by
      have hbelow {d : UInt8} (hd : 0x20 ≤ d) (e : UInt8) : ¬ (d ≤ b ∧ b ≤ e) :=
        fun h ↦ UInt8.not_le.2 hlow (UInt8.le_trans hd h.1)
      rw [hexValue, if_neg (hbelow (by decide) _), if_neg (hbelow (by decide) _),
        if_neg (hbelow (by decide) _)]
    rw [hnone] at hsome
    cases hsome
  have hunit (u : Hex4) : ∀ b ∈ 0x5C :: 0x75 :: u.digits, Visible b :=
    List.forall_mem_cons.2 ⟨by decide, List.forall_mem_cons.2 ⟨by decide, hdigits u⟩⟩
  cases a with
  | raw c hc => exact fun b hb ↦ .inl (hc.bytes b hb).1
  | short e => cases e <;> exact visible_of_all (by decide)
  | unicode u c hc => exact hunit u
  | pair high low c hc => exact List.forall_mem_append.2 ⟨hunit high, hunit low⟩

theorem Literal.visible (L : Literal) : ∀ b ∈ L.text, Visible b := by
  simp only [Literal.text, Literal.body, List.forall_mem_cons, List.forall_mem_append,
    List.forall_mem_flatMap]
  exact ⟨by decide, fun a _ ↦ a.visible, by decide, by simp⟩

theorem Whitespace.visible (w : Whitespace) : ∀ b ∈ w.bytes, Visible b :=
  fun b hb ↦ .inr (w.blank b hb)

theorem Derives.visible {k : Kind} {t : List UInt8} {j : Node k} (h : Derives t j) :
    ∀ b ∈ t, Visible b := by
  induction h with
  | null => exact visible_of_all (by decide)
  | bool b => cases b <;> exact visible_of_all (by decide)
  | number n => exact fun b hb ↦ (n.isNumber.numberByte b hb).visible
  | string L => exact L.visible
  | emptyArray w =>
    simp only [List.forall_mem_cons, List.forall_mem_append]
    exact ⟨by decide, w.visible, by decide, by simp⟩
  | array h ih =>
    simp only [List.forall_mem_cons, List.forall_mem_append]
    exact ⟨by decide, ih, by decide, by simp⟩
  | emptyObject w =>
    simp only [List.forall_mem_cons, List.forall_mem_append]
    exact ⟨by decide, w.visible, by decide, by simp⟩
  | object h ih =>
    simp only [List.forall_mem_cons, List.forall_mem_append]
    exact ⟨by decide, ih, by decide, by simp⟩
  | element before after h ih =>
    simp only [List.forall_mem_append]
    exact ⟨before.visible, ih, after.visible⟩
  | elements before after h hs ih ihs =>
    simp only [List.forall_mem_cons, List.forall_mem_append]
    exact ⟨before.visible, ih, after.visible, by decide, ihs⟩
  | member L front behind before after h ih =>
    simp only [List.forall_mem_cons, List.forall_mem_append]
    exact ⟨front.visible, L.visible, behind.visible, by decide, before.visible, ih, after.visible⟩
  | members L front behind before after h hs ih ihs =>
    simp only [List.forall_mem_cons, List.forall_mem_append]
    exact ⟨front.visible, L.visible, behind.visible, by decide, before.visible, ih, after.visible,
      by decide, ihs⟩

theorem Denotes.visible {t : List UInt8} {s : List Char} (h : Denotes t s) :
    ∀ b ∈ t, Visible b := by
  obtain ⟨L, rfl, -⟩ := h
  exact L.visible

theorem IsText.visible {t : List UInt8} {v : Value} (h : IsText t v) : ∀ b ∈ t, Visible b := by
  obtain ⟨before, after, s, rfl, h⟩ := h
  simp only [List.forall_mem_append]
  exact ⟨before.visible, h.visible, after.visible⟩

theorem Derives.utf8_strings {k : Kind} {t : List UInt8} {j : Node k} (h : Derives t j) :
    ∀ s ∈ strings j, ∃ u, s = utf8 u := by
  induction h with
  | null | bool | number | emptyArray | emptyObject => simp [strings]
  | string L => simp [strings]
  | array h ih => exact ih
  | object h ih => exact ih
  | element before after h ih => exact ih
  | elements before after h hs ih ihs => exact List.forall_mem_append.2 ⟨ih, ihs⟩
  | member L front behind before after h ih => exact List.forall_mem_cons.2 ⟨⟨_, rfl⟩, ih⟩
  | members L front behind before after h hs ih ihs =>
    exact List.forall_mem_cons.2 ⟨⟨_, rfl⟩, List.forall_mem_append.2 ⟨ih, ihs⟩⟩

/-- Of ASCII text no other control character is asked for. -/
theorem clean_of_ascii {s : List UInt8} (h : ∀ b ∈ s, b < 0x80 ∧ Visible b) : Clean s := by
  have hall : ∀ n < 0x80, Visible (UInt8.ofNat n) →
      Printable (Char.ofNat n) ∧ String.utf8EncodeChar (Char.ofNat n) = [UInt8.ofNat n] := by
    decide
  have hbyte : ∀ b ∈ s, Printable (Char.ofNat b.toNat) ∧
      String.utf8EncodeChar (Char.ofNat b.toNat) = [b] := by
    intro b hb
    obtain ⟨hlow, hvisible⟩ := h b hb
    have hchar := hall b.toNat (UInt8.lt_iff_toNat_lt.1 hlow)
    rw [UInt8.ofNat_toNat] at hchar
    exact hchar hvisible
  refine ⟨s.map fun b ↦ Char.ofNat b.toNat, ?_, ?_⟩
  · rw [utf8, List.flatMap_map, List.flatMap_congr fun b hb ↦ (hbyte b hb).2,
      List.flatMap_singleton']
  · rw [List.forall_mem_map]
    exact fun b hb ↦ (hbyte b hb).1

namespace Escaping

variable {E : Escaping}

theorem derives_quote {s : List UInt8} (h : Clean s) :
    ∃ L : Literal, E.quote s = L.text ∧ utf8 L.value = s := by
  obtain ⟨u, rfl, hu⟩ := h
  obtain ⟨L, hbody, hvalue⟩ := E.literal u hu
  exact ⟨L, by rw [quote, ← hbody, Literal.text], by rw [hvalue]⟩

def noSpace : Whitespace := ⟨[], by simp⟩

/-- What is glued together from clean strings is what the grammar derives. -/
theorem derives_render {k : Kind} {j : Node k} (h : ∀ s ∈ strings j, Clean s) :
    Derives (E.render j) j := by
  induction j with
  | null => exact .null
  | bool b => exact .bool b
  | number n => exact .number n
  | string s =>
    obtain ⟨L, hL, hs⟩ := derives_quote (E := E) (h s (List.mem_singleton_self s))
    rw [render, hL, ← hs]
    exact .string L
  | emptyArray => exact .emptyArray noSpace
  | array vs ih => exact .array (ih h)
  | emptyObject => exact .emptyObject noSpace
  | object ms ih => exact .object (ih h)
  | element v ih =>
    have hv := Derives.element noSpace noSpace (ih h)
    rwa [noSpace, List.append_nil, List.nil_append] at hv
  | elements v vs ih ihs =>
    obtain ⟨hv, hvs⟩ := List.forall_mem_append.1 h
    exact Derives.elements noSpace noSpace (ih hv) (ihs hvs)
  | member name v ih =>
    obtain ⟨hname, hv⟩ := List.forall_mem_cons.1 h
    obtain ⟨L, hL, hs⟩ := derives_quote (E := E) hname
    have hm := Derives.member L noSpace noSpace noSpace noSpace (ih hv)
    rw [render, hL, ← hs]
    simpa [noSpace] using hm
  | members name v ms ih ihs =>
    obtain ⟨hname, hrest⟩ := List.forall_mem_cons.1 h
    obtain ⟨hv, hms⟩ := List.forall_mem_append.1 hrest
    obtain ⟨L, hL, hs⟩ := derives_quote (E := E) hname
    have hm := Derives.members L noSpace noSpace noSpace noSpace (ih hv) (ihs hms)
    rw [render, hL, ← hs]
    simpa [noSpace] using hm

theorem escape_subset_quote (s : List UInt8) : ∀ b ∈ E.escape s, b ∈ E.quote s :=
  fun _ hb ↦ List.mem_cons_of_mem _ (List.mem_append_left _ hb)

theorem escape_subset {k : Kind} {j : Node k} {s : List UInt8} (h : s ∈ strings j) :
    ∀ b ∈ E.escape s, b ∈ E.render j := by
  intro b hb
  induction j with
  | null => cases h
  | bool c => cases h
  | number n => cases h
  | string t =>
    obtain rfl := List.mem_singleton.1 h
    exact escape_subset_quote s b hb
  | emptyArray => cases h
  | array vs ih => exact List.mem_cons_of_mem _ (List.mem_append_left _ (ih h))
  | emptyObject => cases h
  | object ms ih => exact List.mem_cons_of_mem _ (List.mem_append_left _ (ih h))
  | element v ih => exact ih h
  | elements v vs ih ihs =>
    obtain h | h := List.mem_append.1 h
    · exact List.mem_append_left _ (ih h)
    · exact List.mem_append_right _ (List.mem_cons_of_mem _ (ihs h))
  | member name v ih =>
    obtain rfl | h := List.mem_cons.1 h
    · exact List.mem_append_left _ (escape_subset_quote s b hb)
    · exact List.mem_append_right _ (List.mem_cons_of_mem _ (ih h))
  | members name v ms ih ihs =>
    obtain rfl | h := List.mem_cons.1 h
    · exact List.mem_append_left _ (escape_subset_quote s b hb)
    · obtain h | h := List.mem_append.1 h
      · exact List.mem_append_right _ (List.mem_cons_of_mem _ (List.mem_append_left _ (ih h)))
      · refine List.mem_append_right _ (List.mem_cons_of_mem _ (List.mem_append_right _ ?_))
        exact List.mem_cons_of_mem _ (ihs h)

theorem printable_of_visible {u : List Char} (h : ∀ b ∈ E.escape (utf8 u), Visible b) :
    ∀ c ∈ u, Printable c := by
  have hall : ∀ n < 0x80, ¬ Printable (Char.ofNat n) →
      UInt8.ofNat (Char.ofNat n).toNat < 0x20 ∧ ¬ Blank (UInt8.ofNat (Char.ofNat n).toNat) := by
    decide
  intro c hc
  by_contra hnot
  have hascii : c.toNat ≤ 0x7F := by
    by_contra hhigh
    have hspace : (' ').toNat ≤ c.toNat := le_trans (by decide) (not_le.1 hhigh).le
    exact hnot (.inl hspace)
  obtain ⟨hlow, hblank⟩ := forall_ascii (p := fun c ↦ ¬ Printable c →
    UInt8.ofNat c.toNat < 0x20 ∧ ¬ Blank (UInt8.ofNat c.toNat)) hall hascii hnot
  have hmem : UInt8.ofNat c.toNat ∈ utf8 u :=
    List.mem_flatMap.2 ⟨c, hc, utf8_of_ascii hascii ▸ List.mem_singleton_self _⟩
  obtain hge | hwhite := h _ (E.control _ _ hmem hlow hblank)
  · exact UInt8.not_le.2 hlow hge
  · exact hblank hwhite

theorem render_arrayOf (vs : List Value) :
    E.render (arrayOf vs) =
      0x5B :: (((vs.map fun v ↦ E.render v).intersperse [0x2C]).flatten ++ [0x5D]) := by
  have helements (v : Value) (vs : List Value) : E.render (elementsOf v vs) =
      (((v :: vs).map fun v ↦ E.render v).intersperse [0x2C]).flatten := by
    induction vs generalizing v with
    | nil => simp [elementsOf, render]
    | cons w vs ih =>
      rw [elementsOf, render, ih]
      simp
  cases vs with
  | nil => rfl
  | cons v vs => rw [arrayOf, render, helements]

/-- A quoted text is the literal of its string, and of no other, exactly if it is printable. -/
theorem denotes_quote_iff (s : List Char) :
    (∀ s', Denotes (E.quote (utf8 s)) s' ↔ s' = s) ↔ ∀ c ∈ s, Printable c := by
  constructor
  · intro h
    exact printable_of_visible (E := E) fun b hb ↦
      ((h s).2 rfl).visible b (escape_subset_quote _ b hb)
  · intro h s'
    obtain ⟨L, hbody, hvalue⟩ := E.literal s h
    have hL : L.text = E.quote (utf8 s) := by rw [Literal.text, hbody, quote]
    constructor
    · rintro ⟨M, hM, rfl⟩
      have hsame : M.body ++ 0x22 :: [] = L.body ++ 0x22 :: [] :=
        (List.cons.inj (hM.trans hL.symm)).2
      exact (Literal.body_split hsame).1.trans hvalue
    · rintro rfl
      exact ⟨L, hL, hvalue⟩

/-- What is glued together is the text of its value, and of no other, exactly if every string in
it is clean. -/
theorem isText_render_iff (v : Value) :
    (∀ w, IsText (E.render v) w ↔ w = v) ↔ ∀ s ∈ strings v, Clean s := by
  constructor
  · intro hexact s hs
    have htext : IsText (E.render v) v := (hexact v).2 rfl
    obtain ⟨u, rfl⟩ : ∃ u, s = utf8 u := by
      obtain ⟨before, after, t, -, h⟩ := htext
      exact h.utf8_strings s hs
    exact ⟨u, rfl, printable_of_visible (E := E) fun b hb ↦
      htext.visible b (escape_subset hs b hb)⟩
  · intro h w
    have htext : IsText (E.render v) v :=
      ⟨noSpace, noSpace, E.render v, by simp [noSpace], derives_render h⟩
    constructor
    · exact fun hw ↦ hw.unique htext
    · rintro rfl
      exact htext

end Escaping

end CppAiService.Foundation.Json
