import CppAiService.Foundation.JsonLiteral

namespace CppAiService.Foundation.Json

section Numbers

def Digit (b : UInt8) : Prop := 0x30 ≤ b ∧ b ≤ 0x39

instance : DecidablePred Digit := fun _ ↦ inferInstanceAs (Decidable (_ ∧ _))

def Digits (t : List UInt8) : Prop := t ≠ [] ∧ ∀ b ∈ t, Digit b

/-- No digit stands behind a leading zero. -/
def IntPart (t : List UInt8) : Prop := Digits t ∧ (t.head? = some 0x30 → t.length = 1)

def FracPart (t : List UInt8) : Prop := t = [] ∨ ∃ digits, t = 0x2E :: digits ∧ Digits digits

def ExpPart (t : List UInt8) : Prop :=
  t = [] ∨ ∃ e sign digits, t = e :: (sign ++ digits) ∧ (e = 0x65 ∨ e = 0x45) ∧
    (sign = [] ∨ sign = [0x2B] ∨ sign = [0x2D]) ∧ Digits digits

def IsNumber (t : List UInt8) : Prop :=
  ∃ minus int frac exp, t = minus ++ int ++ frac ++ exp ∧ (minus = [] ∨ minus = [0x2D]) ∧
    IntPart int ∧ FracPart frac ∧ ExpPart exp

structure Number where
  text : List UInt8
  isNumber : IsNumber text

end Numbers

inductive Kind
  | value
  | elements
  | members

/-- Values, and the lists of elements and members that arrays and objects are made of. Strings
and names stand in their UTF-8 encoding. -/
inductive Node : Kind → Type
  | null : Node .value
  | bool (b : Bool) : Node .value
  | number (n : Number) : Node .value
  | string (s : List UInt8) : Node .value
  | emptyArray : Node .value
  | array (vs : Node .elements) : Node .value
  | emptyObject : Node .value
  | object (ms : Node .members) : Node .value
  | element (v : Node .value) : Node .elements
  | elements (v : Node .value) (vs : Node .elements) : Node .elements
  | member (name : List UInt8) (v : Node .value) : Node .members
  | members (name : List UInt8) (v : Node .value) (ms : Node .members) : Node .members

abbrev Value := Node .value

def nullText : List UInt8 := [0x6E, 0x75, 0x6C, 0x6C]

def boolText : Bool → List UInt8
  | true => [0x74, 0x72, 0x75, 0x65]
  | false => [0x66, 0x61, 0x6C, 0x73, 0x65]

/-- The grammar: which texts stand for which values, elements and members. -/
inductive Derives : List UInt8 → {k : Kind} → Node k → Prop
  | null : Derives nullText .null
  | bool (b : Bool) : Derives (boolText b) (.bool b)
  | number (n : Number) : Derives n.text (.number n)
  | string (L : Literal) : Derives L.text (.string (utf8 L.value))
  | emptyArray (w : Whitespace) : Derives (0x5B :: (w.bytes ++ [0x5D])) .emptyArray
  | array {t : List UInt8} {vs : Node .elements} (h : Derives t vs) :
      Derives (0x5B :: (t ++ [0x5D])) (.array vs)
  | emptyObject (w : Whitespace) : Derives (0x7B :: (w.bytes ++ [0x7D])) .emptyObject
  | object {t : List UInt8} {ms : Node .members} (h : Derives t ms) :
      Derives (0x7B :: (t ++ [0x7D])) (.object ms)
  | element {t : List UInt8} {v : Value} (before after : Whitespace) (h : Derives t v) :
      Derives (before.bytes ++ (t ++ after.bytes)) (.element v)
  | elements {t ts : List UInt8} {v : Value} {vs : Node .elements} (before after : Whitespace)
      (h : Derives t v) (hs : Derives ts vs) :
      Derives (before.bytes ++ (t ++ (after.bytes ++ 0x2C :: ts))) (.elements v vs)
  | member {t : List UInt8} {v : Value} (L : Literal) (front behind before after : Whitespace)
      (h : Derives t v) :
      Derives (front.bytes ++ (L.text ++ (behind.bytes ++ 0x3A ::
        (before.bytes ++ (t ++ after.bytes))))) (.member (utf8 L.value) v)
  | members {t ts : List UInt8} {v : Value} {ms : Node .members} (L : Literal)
      (front behind before after : Whitespace) (h : Derives t v) (hs : Derives ts ms) :
      Derives (front.bytes ++ (L.text ++ (behind.bytes ++ 0x3A ::
        (before.bytes ++ (t ++ (after.bytes ++ 0x2C :: ts)))))) (.members (utf8 L.value) v ms)

def IsText (t : List UInt8) (v : Value) : Prop :=
  ∃ before after : Whitespace, ∃ s, t = before.bytes ++ (s ++ after.bytes) ∧ Derives s v

def NumberByte (b : UInt8) : Prop :=
  Digit b ∨ b = 0x2B ∨ b = 0x2D ∨ b = 0x2E ∨ b = 0x45 ∨ b = 0x65

instance : DecidablePred NumberByte := fun _ ↦ inferInstanceAs (Decidable (_ ∨ _))

theorem Digits.numberByte {t : List UInt8} (h : Digits t) : ∀ b ∈ t, NumberByte b :=
  fun b hb ↦ .inl (h.2 b hb)

theorem IsNumber.numberByte {t : List UInt8} (h : IsNumber t) : ∀ b ∈ t, NumberByte b := by
  obtain ⟨minus, int, frac, exp, rfl, hminus, hint, hfrac, hexp⟩ := h
  have hfracBytes : ∀ b ∈ frac, NumberByte b := by
    obtain rfl | ⟨digits, rfl, hdigits⟩ := hfrac
    · simp
    · exact List.forall_mem_cons.2 ⟨by decide, hdigits.numberByte⟩
  have hexpBytes : ∀ b ∈ exp, NumberByte b := by
    obtain rfl | ⟨e, sign, digits, rfl, he, hsign, hdigits⟩ := hexp
    · simp
    · refine List.forall_mem_cons.2 ⟨?_, List.forall_mem_append.2 ⟨?_, hdigits.numberByte⟩⟩
      · obtain rfl | rfl := he <;> decide
      · obtain rfl | rfl | rfl := hsign <;> decide +kernel
  have hminusBytes : ∀ b ∈ minus, NumberByte b := by
    obtain rfl | rfl := hminus <;> decide +kernel
  simp only [List.forall_mem_append]
  exact ⟨⟨⟨hminusBytes, hint.1.numberByte⟩, hfracBytes⟩, hexpBytes⟩

theorem IsNumber.head {t : List UInt8} (h : IsNumber t) :
    ∃ b s, t = b :: s ∧ (Digit b ∨ b = 0x2D) := by
  obtain ⟨minus, int, frac, exp, rfl, hminus, ⟨⟨hne, hdigits⟩, -⟩, -⟩ := h
  obtain ⟨d, ds, rfl⟩ := List.exists_cons_of_ne_nil hne
  obtain rfl | rfl := hminus
  · exact ⟨d, ds ++ frac ++ exp, by simp, .inl (hdigits d List.mem_cons_self)⟩
  · exact ⟨0x2D, d :: ds ++ frac ++ exp, by simp, .inr rfl⟩

inductive Shape
  | null
  | bool (b : Bool)
  | number
  | string
  | array
  | object

def shapeOf (b : UInt8) : Option Shape :=
  if b = 0x6E then some .null
  else if b = 0x74 then some (.bool true)
  else if b = 0x66 then some (.bool false)
  else if Digit b ∨ b = 0x2D then some .number
  else if b = 0x22 then some .string
  else if b = 0x5B then some .array
  else if b = 0x7B then some .object
  else none

def shape : {k : Kind} → Node k → Option Shape
  | _, .null => some .null
  | _, .bool b => some (.bool b)
  | _, .number _ => some .number
  | _, .string _ => some .string
  | _, .emptyArray | _, .array _ => some .array
  | _, .emptyObject | _, .object _ => some .object
  | _, .element _ | _, .elements _ _ | _, .member _ _ | _, .members _ _ _ => none

theorem Derives.head {t : List UInt8} {v : Value} (h : Derives t v) :
    ∃ b s, t = b :: s ∧ shapeOf b = shape v ∧ (shapeOf b).isSome := by
  cases h with
  | null => exact ⟨_, _, rfl, rfl, rfl⟩
  | bool b => cases b <;> exact ⟨_, _, rfl, rfl, rfl⟩
  | number n =>
    obtain ⟨b, s, hs, hb⟩ := n.isNumber.head
    have hshape : shapeOf b = some .number := by
      have hne : ∀ d : UInt8, ¬ (Digit d ∨ d = 0x2D) → b ≠ d := fun d hd heq ↦ hd (heq ▸ hb)
      rw [shapeOf, if_neg (hne _ (by decide)), if_neg (hne _ (by decide)),
        if_neg (hne _ (by decide)), if_pos hb]
    exact ⟨b, s, hs, hshape, hshape ▸ rfl⟩
  | string L => exact ⟨_, _, rfl, rfl, rfl⟩
  | emptyArray w => exact ⟨_, _, rfl, rfl, rfl⟩
  | array h => exact ⟨_, _, rfl, rfl, rfl⟩
  | emptyObject w => exact ⟨_, _, rfl, rfl, rfl⟩
  | object h => exact ⟨_, _, rfl, rfl, rfl⟩

theorem Derives.same_shape {t t' r r' : List UInt8} {v v' : Value} (h : Derives t v)
    (h' : Derives t' v') (heq : t ++ r = t' ++ r') : shape v = shape v' := by
  obtain ⟨b, s, rfl, hb, -⟩ := h.head
  obtain ⟨b', s', rfl, hb', -⟩ := h'.head
  rw [← hb, ← hb', (List.cons.inj heq).1]

theorem Whitespace.split {w w' : Whitespace} {b b' : UInt8} {s s' : List UInt8}
    (hb : ¬ Blank b) (hb' : ¬ Blank b') (h : w.bytes ++ b :: s = w'.bytes ++ b' :: s') :
    b :: s = b' :: s' := by
  have hdrop (w : Whitespace) {b : UInt8} (hb : ¬ Blank b) (s : List UInt8) :
      (w.bytes ++ b :: s).dropWhile (Blank ·) = b :: s := by
    rw [List.dropWhile_append_of_pos fun a ha ↦ decide_eq_true (w.blank a ha),
      List.dropWhile_cons_of_neg (by simpa using hb)]
  rw [← hdrop w hb s, h, hdrop w' hb' s']

theorem blank_of_shapeOf {b : UInt8} (hb : (shapeOf b).isSome) : ¬ Blank b := by
  rintro (rfl | rfl | rfl | rfl) <;> cases hb

theorem Derives.peel {t t' r r' : List UInt8} {v v' : Value} (h : Derives t v) (h' : Derives t' v')
    {w w' : Whitespace} (heq : w.bytes ++ (t ++ r) = w'.bytes ++ (t' ++ r')) :
    t ++ r = t' ++ r' := by
  obtain ⟨b, s, rfl, -, hb⟩ := h.head
  obtain ⟨b', s', rfl, -, hb'⟩ := h'.head
  exact Whitespace.split (blank_of_shapeOf hb) (blank_of_shapeOf hb') heq

/-- What may stand behind a value, the elements of an array and the members of an object. -/
def Stops : Kind → List UInt8 → Prop
  | .value, r => ∀ b ∈ r.head?, ¬ NumberByte b
  | .elements, r => ∃ s, r = 0x5D :: s
  | .members, r => ∃ s, r = 0x7D :: s

theorem Blank.not_numberByte {b : UInt8} (h : Blank b) : ¬ NumberByte b := by
  obtain rfl | rfl | rfl | rfl := h <;> decide

theorem stops_behind (w : Whitespace) {b : UInt8} (hb : ¬ NumberByte b) (s : List UInt8) :
    Stops .value (w.bytes ++ b :: s) := by
  intro c hc
  cases hw : w.bytes with
  | nil =>
    rw [hw] at hc
    exact Option.some.inj hc ▸ hb
  | cons d ds =>
    rw [hw] at hc
    exact Option.some.inj hc ▸ (w.blank d (hw ▸ List.mem_cons_self)).not_numberByte

theorem number_split {t t' r r' : List UInt8} (ht : ∀ b ∈ t, NumberByte b)
    (ht' : ∀ b ∈ t', NumberByte b) (hr : Stops .value r) (hr' : Stops .value r')
    (h : t ++ r = t' ++ r') : t = t' ∧ r = r' := by
  have htake {t r : List UInt8} (ht : ∀ b ∈ t, NumberByte b) (hr : Stops .value r) :
      (t ++ r).takeWhile (NumberByte ·) = t := by
    have hnone : r.takeWhile (NumberByte ·) = [] := by
      cases r with
      | nil => rfl
      | cons b s => exact List.takeWhile_cons_of_neg (by simpa using hr b rfl)
    rw [List.takeWhile_append_of_pos fun b hb ↦ decide_eq_true (ht b hb), hnone, List.append_nil]
  have hsame : t = t' := by rw [← htake ht hr, h, htake ht' hr']
  subst hsame
  exact ⟨rfl, List.append_cancel_left h⟩

/-- Elements and members begin with a value or a name, which no closing bracket can be. -/
theorem Derives.not_closed {k : Kind} {t : List UInt8} {j : Node k} (h : Derives t j)
    {w : Whitespace} {b : UInt8} (hb : shapeOf b = none) (hblank : ¬ Blank b) {r r' : List UInt8} :
    t ++ r ≠ w.bytes ++ b :: r' := by
  have hvalue {t r : List UInt8} {v : Value} (h : Derives t v) (w' : Whitespace) :
      w'.bytes ++ (t ++ r) ≠ w.bytes ++ b :: r' := by
    obtain ⟨a, s, rfl, -, ha⟩ := h.head
    intro heq
    obtain ⟨rfl, -⟩ := List.cons.inj (Whitespace.split (blank_of_shapeOf ha) hblank heq)
    rw [hb] at ha
    cases ha
  have hname {L : Literal} {r : List UInt8} (w' : Whitespace) :
      w'.bytes ++ (L.text ++ r) ≠ w.bytes ++ b :: r' := hvalue (Derives.string L) w'
  cases k with
  | value => exact hvalue h ⟨[], by simp⟩
  | elements =>
    cases h with
    | element before after h =>
      rw [List.append_assoc, List.append_assoc]
      exact hvalue h before
    | elements before after h hs =>
      rw [List.append_assoc, List.append_assoc]
      exact hvalue h before
  | members =>
    cases h with
    | member L front behind before after h =>
      rw [List.append_assoc, List.append_assoc]
      exact hname front
    | members L front behind before after h hs =>
      rw [List.append_assoc, List.append_assoc]
      exact hname front

/-- A text stands for one thing, and where it ends does not depend on what follows. -/
def Unique {k : Kind} (t : List UInt8) (j : Node k) : Prop :=
  ∀ {t' r r' : List UInt8} {j' : Node k}, Derives t' j' → Stops k r → Stops k r' →
    t ++ r = t' ++ r' → j = j' ∧ r = r'

def Closes (b : UInt8) : Prop := b = 0x2C ∨ b = 0x5D ∨ b = 0x7D

theorem Closes.facts {b : UInt8} (h : Closes b) :
    shapeOf b = none ∧ ¬ Blank b ∧ ¬ NumberByte b := by
  obtain rfl | rfl | rfl := h <;> exact ⟨rfl, by decide, by decide⟩

theorem Unique.item {t t' s s' : List UInt8} {v v' : Value} {b b' : UInt8}
    {before before' after after' : Whitespace} (hunique : Unique t v) (h : Derives t v)
    (h' : Derives t' v') (hb : Closes b) (hb' : Closes b')
    (heq : before.bytes ++ (t ++ (after.bytes ++ b :: s)) =
      before'.bytes ++ (t' ++ (after'.bytes ++ b' :: s'))) : v = v' ∧ b = b' ∧ s = s' := by
  obtain ⟨hvalue, hrest⟩ := hunique h' (stops_behind after hb.facts.2.2 s)
    (stops_behind after' hb'.facts.2.2 s') (h.peel h' heq)
  exact ⟨hvalue, List.cons.inj (Whitespace.split hb.facts.2.1 hb'.facts.2.1 hrest)⟩

theorem text_unique (L : Literal) : Unique L.text (.string (utf8 L.value)) := by
  intro t' r r' j' h' hr hr' heq
  have hshape := (Derives.string L).same_shape h' heq
  cases h' with
  | string M =>
    simp only [Literal.text, List.cons_append, List.append_assoc, List.cons.injEq, true_and,
      List.nil_append] at heq
    obtain ⟨hvalue, hrest⟩ := Literal.body_split heq
    exact ⟨congrArg (fun s ↦ Node.string (utf8 s)) hvalue, hrest⟩
  | _ => cases hshape

theorem name_split {L M : Literal} {front front' behind behind' : Whitespace}
    {s s' : List UInt8} (heq : front.bytes ++ (L.text ++ (behind.bytes ++ 0x3A :: s)) =
      front'.bytes ++ (M.text ++ (behind'.bytes ++ 0x3A :: s'))) :
    utf8 L.value = utf8 M.value ∧ s = s' := by
  have hcolon : ¬ NumberByte 0x3A := by decide
  obtain ⟨hname, hrest⟩ := text_unique L (.string M) (stops_behind behind hcolon s)
    (stops_behind behind' hcolon s') ((Derives.string L).peel (.string M) heq)
  have hblank : ¬ Blank 0x3A := by decide
  exact ⟨Node.string.inj hname, (List.cons.inj (Whitespace.split hblank hblank hrest)).2⟩

theorem null_unique : Unique nullText .null := by
  intro t' r r' j' h' hr hr' heq
  have hshape := Derives.null.same_shape h' heq
  cases h' with
  | null => exact ⟨rfl, List.append_cancel_left heq⟩
  | _ => cases hshape

theorem bool_unique (b : Bool) : Unique (boolText b) (.bool b) := by
  intro t' r r' j' h' hr hr' heq
  have hshape := (Derives.bool b).same_shape h' heq
  cases h' with
  | bool b' =>
    cases hshape
    exact ⟨rfl, List.append_cancel_left heq⟩
  | _ => cases hshape

theorem number_unique (n : Number) : Unique n.text (.number n) := by
  intro t' r r' j' h' hr hr' heq
  have hshape := (Derives.number n).same_shape h' heq
  cases h' with
  | number n' =>
    obtain ⟨htext, hrest⟩ := number_split n.isNumber.numberByte n'.isNumber.numberByte hr hr' heq
    obtain ⟨text, isNumber⟩ := n
    obtain rfl : text = n'.text := htext
    exact ⟨rfl, hrest⟩
  | _ => cases hshape

section Brackets

variable {k : Kind} {t t' r r' : List UInt8} {j j' : Node k} {w w' : Whitespace} {o c : UInt8}

theorem empty_split (hc : Closes c)
    (heq : o :: (w.bytes ++ [c]) ++ r = o :: (w'.bytes ++ [c]) ++ r') : r = r' := by
  simp only [List.cons_append, List.append_assoc, List.cons.injEq, true_and,
    List.nil_append] at heq
  exact (List.cons.inj (Whitespace.split hc.facts.2.1 hc.facts.2.1 heq)).2

theorem Derives.not_empty (h : Derives t j) (hc : Closes c) :
    o :: (t ++ [c]) ++ r ≠ o :: (w.bytes ++ [c]) ++ r' := by
  intro heq
  simp only [List.cons_append, List.append_assoc, List.cons.injEq, true_and,
    List.nil_append] at heq
  exact h.not_closed hc.facts.1 hc.facts.2.1 heq

/-- An array and an object are read alike: items between two brackets. -/
theorem Unique.bracketed (hunique : Unique t j) (h' : Derives t' j')
    (hstops : ∀ s, Stops k (c :: s))
    (heq : o :: (t ++ [c]) ++ r = o :: (t' ++ [c]) ++ r') : j = j' ∧ r = r' := by
  simp only [List.cons_append, List.append_assoc, List.cons.injEq, true_and,
    List.nil_append] at heq
  obtain ⟨hitems, hrest⟩ := hunique h' (hstops r) (hstops r') heq
  exact ⟨hitems, (List.cons.inj hrest).2⟩

end Brackets

theorem closes_square : Closes 0x5D := .inr (.inl rfl)

theorem closes_curly : Closes 0x7D := .inr (.inr rfl)

theorem closes_comma : Closes 0x2C := .inl rfl

theorem emptyArray_unique (w : Whitespace) :
    Unique (0x5B :: (w.bytes ++ [0x5D])) .emptyArray := by
  intro t' r r' j' h' hr hr' heq
  have hshape := (Derives.emptyArray w).same_shape h' heq
  cases h' with
  | emptyArray w' => exact ⟨rfl, empty_split closes_square heq⟩
  | array h' => exact absurd heq.symm (h'.not_empty closes_square)
  | _ => cases hshape

theorem Unique.array {t : List UInt8} {vs : Node .elements} (h : Derives t vs)
    (hunique : Unique t vs) : Unique (0x5B :: (t ++ [0x5D])) (.array vs) := by
  intro t' r r' j' h' hr hr' heq
  have hshape := (Derives.array h).same_shape h' heq
  cases h' with
  | emptyArray w' => exact absurd heq (h.not_empty closes_square)
  | array h' =>
    obtain ⟨rfl, hrest⟩ := hunique.bracketed h' (fun s ↦ ⟨s, rfl⟩) heq
    exact ⟨rfl, hrest⟩
  | _ => cases hshape

theorem emptyObject_unique (w : Whitespace) :
    Unique (0x7B :: (w.bytes ++ [0x7D])) .emptyObject := by
  intro t' r r' j' h' hr hr' heq
  have hshape := (Derives.emptyObject w).same_shape h' heq
  cases h' with
  | emptyObject w' => exact ⟨rfl, empty_split closes_curly heq⟩
  | object h' => exact absurd heq.symm (h'.not_empty closes_curly)
  | _ => cases hshape

theorem Unique.object {t : List UInt8} {ms : Node .members} (h : Derives t ms)
    (hunique : Unique t ms) : Unique (0x7B :: (t ++ [0x7D])) (.object ms) := by
  intro t' r r' j' h' hr hr' heq
  have hshape := (Derives.object h).same_shape h' heq
  cases h' with
  | emptyObject w' => exact absurd heq (h.not_empty closes_curly)
  | object h' =>
    obtain ⟨rfl, hrest⟩ := hunique.bracketed h' (fun s ↦ ⟨s, rfl⟩) heq
    exact ⟨rfl, hrest⟩
  | _ => cases hshape

/-- By induction on the derivation; the byte behind an item says whether another one follows. -/
theorem Derives.unique {k : Kind} {t : List UInt8} {j : Node k} (h : Derives t j) :
    Unique t j := by
  induction h with
  | null => exact null_unique
  | bool b => exact bool_unique b
  | number n => exact number_unique n
  | string L => exact text_unique L
  | emptyArray w => exact emptyArray_unique w
  | array h ih => exact Unique.array h ih
  | emptyObject w => exact emptyObject_unique w
  | object h ih => exact Unique.object h ih
  | element before after h ih =>
    rintro t' _ _ j' h' ⟨s, rfl⟩ ⟨s', rfl⟩ heq
    cases h' with
    | element before' after' h' =>
      simp only [List.append_assoc] at heq
      obtain ⟨rfl, -, rfl⟩ := ih.item h h' closes_square closes_square heq
      exact ⟨rfl, rfl⟩
    | elements before' after' h' hs' =>
      simp only [List.append_assoc, List.cons_append] at heq
      obtain ⟨-, hne, -⟩ := ih.item h h' closes_square closes_comma heq
      cases hne
  | elements before after h hs ih ihs =>
    rintro t' _ _ j' h' ⟨s, rfl⟩ ⟨s', rfl⟩ heq
    cases h' with
    | element before' after' h' =>
      simp only [List.append_assoc, List.cons_append] at heq
      obtain ⟨-, hne, -⟩ := ih.item h h' closes_comma closes_square heq
      cases hne
    | elements before' after' h' hs' =>
      simp only [List.append_assoc, List.cons_append] at heq
      obtain ⟨rfl, -, hrest⟩ := ih.item h h' closes_comma closes_comma heq
      obtain ⟨rfl, hrest⟩ := ihs hs' ⟨s, rfl⟩ ⟨s', rfl⟩ hrest
      exact ⟨rfl, hrest⟩
  | member L front behind before after h ih =>
    rintro t' _ _ j' h' ⟨s, rfl⟩ ⟨s', rfl⟩ heq
    cases h' with
    | member M front' behind' before' after' h' =>
      simp only [List.append_assoc, List.cons_append] at heq
      obtain ⟨hname, heq⟩ := name_split heq
      obtain ⟨rfl, -, rfl⟩ := ih.item h h' closes_curly closes_curly heq
      exact ⟨hname ▸ rfl, rfl⟩
    | members M front' behind' before' after' h' hs' =>
      simp only [List.append_assoc, List.cons_append] at heq
      obtain ⟨-, hne, -⟩ := ih.item h h' closes_curly closes_comma (name_split heq).2
      cases hne
  | members L front behind before after h hs ih ihs =>
    rintro t' _ _ j' h' ⟨s, rfl⟩ ⟨s', rfl⟩ heq
    cases h' with
    | member M front' behind' before' after' h' =>
      simp only [List.append_assoc, List.cons_append] at heq
      obtain ⟨-, hne, -⟩ := ih.item h h' closes_comma closes_curly (name_split heq).2
      cases hne
    | members M front' behind' before' after' h' hs' =>
      simp only [List.append_assoc, List.cons_append] at heq
      obtain ⟨hname, heq⟩ := name_split heq
      obtain ⟨rfl, -, hrest⟩ := ih.item h h' closes_comma closes_comma heq
      obtain ⟨rfl, hrest⟩ := ihs hs' ⟨s, rfl⟩ ⟨s', rfl⟩ hrest
      exact ⟨hname ▸ rfl, hrest⟩

/-- A JSON text stands for one value. -/
theorem IsText.unique {t : List UInt8} {v v' : Value} (h : IsText t v) (h' : IsText t v') :
    v = v' := by
  obtain ⟨before, after, s, rfl, h⟩ := h
  obtain ⟨before', after', s', heq, h'⟩ := h'
  have hstops (w : Whitespace) : Stops .value w.bytes := by
    intro b hb
    exact (w.blank b (List.mem_of_head? hb)).not_numberByte
  exact (h.unique h' (hstops after) (hstops after') (h.peel h' heq)).1

end CppAiService.Foundation.Json
