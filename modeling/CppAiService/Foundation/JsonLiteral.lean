import Mathlib.Data.List.Flatten
import Mathlib.Data.UInt

namespace CppAiService.Foundation.Json

def utf8 (s : List Char) : List UInt8 := s.flatMap String.utf8EncodeChar

def Unescaped (c : Char) : Prop := ' ' ≤ c ∧ c ≠ '"' ∧ c ≠ '\\'

instance : DecidablePred Unescaped := fun _ ↦ inferInstanceAs (Decidable (_ ∧ _))

inductive Short
  | quote
  | mark
  | slash
  | backspace
  | formFeed
  | newline
  | carriageReturn
  | tab
  deriving DecidableEq

namespace Short

def letter : Short → UInt8
  | quote => 0x22
  | mark => 0x5C
  | slash => 0x2F
  | backspace => 0x62
  | formFeed => 0x66
  | newline => 0x6E
  | carriageReturn => 0x72
  | tab => 0x74

def char : Short → Char
  | quote => '"'
  | mark => '\\'
  | slash => '/'
  | backspace => Char.ofNat 0x08
  | formFeed => Char.ofNat 0x0C
  | newline => '\n'
  | carriageReturn => '\r'
  | tab => '\t'

end Short

def Blank (b : UInt8) : Prop := b = 0x20 ∨ b = 0x09 ∨ b = 0x0A ∨ b = 0x0D

instance : DecidablePred Blank := fun _ ↦ inferInstanceAs (Decidable (_ ∨ _))

structure Whitespace where
  bytes : List UInt8
  blank : ∀ b ∈ bytes, Blank b

def hexValue (d : UInt8) : Option ℕ :=
  if 0x30 ≤ d ∧ d ≤ 0x39 then some (d.toNat - 0x30)
  else if 0x41 ≤ d ∧ d ≤ 0x46 then some (d.toNat - 0x41 + 10)
  else if 0x61 ≤ d ∧ d ≤ 0x66 then some (d.toNat - 0x61 + 10)
  else none

structure Hex4 where
  digits : List UInt8
  four : digits.length = 4
  hex : ∀ d ∈ digits, (hexValue d).isSome

def Hex4.toNat (u : Hex4) : ℕ := u.digits.foldl (fun n d ↦ 16 * n + (hexValue d).getD 0) 0

def Surrogates (high low : ℕ) (c : Char) : Prop :=
  (0xD800 ≤ high ∧ high ≤ 0xDBFF) ∧ (0xDC00 ≤ low ∧ low ≤ 0xDFFF) ∧
    c.toNat = 0x10000 + (high - 0xD800) * 0x400 + (low - 0xDC00)

/-- One character of a string literal, in each of the ways it can be written. -/
inductive Item
  | raw (c : Char) (h : Unescaped c)
  | short (e : Short)
  | unicode (u : Hex4) (c : Char) (h : c.toNat = u.toNat)
  | pair (high low : Hex4) (c : Char) (h : Surrogates high.toNat low.toNat c)

namespace Item

def char : Item → Char
  | raw c _ => c
  | short e => e.char
  | unicode _ c _ => c
  | pair _ _ c _ => c

def text : Item → List UInt8
  | raw c _ => String.utf8EncodeChar c
  | short e => [0x5C, e.letter]
  | unicode u _ _ => 0x5C :: 0x75 :: u.digits
  | pair high low _ _ => 0x5C :: 0x75 :: (high.digits ++ 0x5C :: 0x75 :: low.digits)

end Item

abbrev Literal := List Item

namespace Literal

def value (L : Literal) : List Char := L.map Item.char

def body (L : Literal) : List UInt8 := L.flatMap Item.text

def text (L : Literal) : List UInt8 := 0x22 :: (L.body ++ [0x22])

end Literal

theorem utf8_of_ascii {c : Char} (h : c.toNat ≤ 0x7F) :
    String.utf8EncodeChar c = [UInt8.ofNat c.toNat] := if_pos h

theorem utf8_of_not_ascii {c : Char} (h : 0x7F < c.toNat) :
    ∀ b ∈ String.utf8EncodeChar c, 0x80 ≤ b := by
  have hlast (n m : ℕ) (hm : 0x80 ≤ m) (hsum : n + m < 256) : 0x80 ≤ UInt8.ofNat (n + m) := by
    rw [UInt8.le_iff_toNat_le, UInt8.toNat_ofNat', Nat.mod_eq_of_lt hsum]
    exact hm.trans (Nat.le_add_left m n)
  have hnot : ¬ c.val.toNat ≤ 0x7F := Nat.not_le.2 h
  intro b hb
  unfold String.utf8EncodeChar at hb
  rw [if_neg hnot] at hb
  split_ifs at hb
  all_goals
    simp only [List.mem_cons, List.not_mem_nil, or_false] at hb
    obtain rfl | rfl | rfl | rfl := hb <;> exact hlast _ _ (by omega) (by omega)

theorem forall_ascii {p : Char → Prop} (h : ∀ n < 0x80, p (Char.ofNat n)) {c : Char}
    (hc : c.toNat ≤ 0x7F) : p c := by
  rw [← Char.ofNat_toNat c]
  exact h c.toNat (Nat.lt_succ_of_le hc)

theorem Unescaped.bytes {c : Char} (h : Unescaped c) :
    ∀ b ∈ String.utf8EncodeChar c, 0x20 ≤ b ∧ b ≠ 0x22 ∧ b ≠ 0x5C := by
  obtain hascii | hhigh := Nat.lt_or_ge 0x7F c.toNat |>.symm
  · intro b hb
    obtain ⟨hlow, hquote, hmark⟩ := h
    rw [utf8_of_ascii hascii, List.mem_singleton] at hb
    have hbyte : b.toNat = c.toNat := by
      rw [hb, UInt8.toNat_ofNat', Nat.mod_eq_of_lt (by omega)]
    have hne (d : Char) {e : UInt8} (he : e.toNat = d.toNat) (hc : c ≠ d) : b ≠ e := by
      rintro rfl
      exact hc (Char.toNat_inj.1 (hbyte.symm.trans he))
    refine ⟨?_, hne '"' rfl hquote, hne '\\' rfl hmark⟩
    rw [UInt8.le_iff_toNat_le, hbyte]
    exact UInt32.le_iff_toNat_le.1 hlow
  · intro b hb
    have hb := utf8_of_not_ascii hhigh b hb
    have hne : ∀ d : UInt8, d < 0x80 → b ≠ d := fun d hd heq ↦ UInt8.not_le.2 hd (heq ▸ hb)
    exact ⟨UInt8.le_trans (by decide : (0x20 : UInt8) ≤ 0x80) hb, hne _ (by decide), hne _ (by decide)⟩

theorem utf8EncodeChar_split {c d : Char} {r r' : List UInt8}
    (h : String.utf8EncodeChar c ++ r = String.utf8EncodeChar d ++ r') : c = d ∧ r = r' := by
  have hdecode (c : Char) (r : List UInt8) :
      ByteArray.utf8DecodeChar? (String.utf8EncodeChar c ++ r).toByteArray 0 = some c := by
    rw [List.toByteArray_append]
    exact ByteArray.utf8DecodeChar?_utf8EncodeChar_append
  have hsame := hdecode c r
  rw [h, hdecode d r'] at hsame
  obtain rfl := Option.some.inj hsame
  exact ⟨rfl, List.append_cancel_left h⟩

namespace Item

theorem text_raw_ne_mark {c : Char} (hc : Unescaped c) {r t : List UInt8} :
    String.utf8EncodeChar c ++ r ≠ 0x5C :: t := by
  intro h
  obtain ⟨b, bs, hbs⟩ := List.exists_cons_of_ne_nil (String.utf8EncodeChar_ne_nil (c := c))
  rw [hbs, List.cons_append] at h
  exact (hc.bytes b (hbs ▸ List.mem_cons_self)).2.2 (List.cons.inj h).1

theorem letter_ne_unicode (e : Short) : e.letter ≠ 0x75 := by
  cases e <;> decide

theorem letter_injective : Function.Injective Short.letter := by
  intro a b h
  revert h
  cases a <;> cases b <;> decide

theorem not_surrogate (c : Char) : ¬ (0xD800 ≤ c.toNat ∧ c.toNat ≤ 0xDFFF) := by
  intro h
  have hvalid := c.valid
  change c.toNat < 0xD800 ∨ 0xDFFF < c.toNat ∧ c.toNat < 0x110000 at hvalid
  omega

theorem digits_split {u v : Hex4} {r r' : List UInt8} (h : u.digits ++ r = v.digits ++ r') :
    u.toNat = v.toNat ∧ r = r' := by
  obtain ⟨hsame, hrest⟩ := List.append_inj h (u.four.trans v.four.symm)
  exact ⟨by rw [Hex4.toNat, hsame, Hex4.toNat], hrest⟩

theorem text_split {a b : Item} {r r' : List UInt8} (h : a.text ++ r = b.text ++ r') :
    a.char = b.char ∧ r = r' := by
  cases a with
  | raw c hc =>
    cases b with
    | raw d hd => exact utf8EncodeChar_split h
    | short e => exact absurd h (text_raw_ne_mark hc)
    | unicode v d hd => exact absurd h (text_raw_ne_mark hc)
    | pair high low d hd => exact absurd h (text_raw_ne_mark hc)
  | short e =>
    cases b with
    | raw d hd => exact absurd h.symm (text_raw_ne_mark hd)
    | short f =>
      obtain ⟨hletter, hrest⟩ := List.cons.inj (List.cons.inj h).2
      exact ⟨congrArg Short.char (letter_injective hletter), hrest⟩
    | unicode v d hd => exact absurd (List.cons.inj (List.cons.inj h).2).1 (letter_ne_unicode e)
    | pair high low d hd =>
      exact absurd (List.cons.inj (List.cons.inj h).2).1 (letter_ne_unicode e)
  | unicode u c hc =>
    cases b with
    | raw d hd => exact absurd h.symm (text_raw_ne_mark hd)
    | short f => exact absurd (List.cons.inj (List.cons.inj h).2).1.symm (letter_ne_unicode f)
    | unicode v d hd =>
      obtain ⟨hsame, hrest⟩ := digits_split (List.cons.inj (List.cons.inj h).2).2
      exact ⟨Char.toNat_inj.1 (hc.trans (hsame.trans hd.symm)), hrest⟩
    | pair high low d hd =>
      -- a high surrogate is no character
      simp only [text, List.cons_append, List.append_assoc, List.cons.injEq, true_and] at h
      obtain ⟨hsame, -⟩ := digits_split h
      obtain ⟨⟨hlow, hhigh⟩, -⟩ := hd
      exact absurd ⟨by omega, by omega⟩ (not_surrogate c)
  | pair high low c hc =>
    cases b with
    | raw d hd => exact absurd h.symm (text_raw_ne_mark hd)
    | short f => exact absurd (List.cons.inj (List.cons.inj h).2).1.symm (letter_ne_unicode f)
    | unicode v d hd =>
      simp only [text, List.cons_append, List.append_assoc, List.cons.injEq, true_and] at h
      obtain ⟨hsame, -⟩ := digits_split h
      obtain ⟨⟨hlow, hhigh⟩, -⟩ := hc
      exact absurd ⟨by omega, by omega⟩ (not_surrogate d)
    | pair high' low' d hd =>
      simp only [text, List.cons_append, List.append_assoc, List.cons.injEq, true_and] at h
      obtain ⟨hhigh, hrest⟩ := digits_split h
      obtain ⟨hlow, hrest⟩ := digits_split (List.cons.inj (List.cons.inj hrest).2).2
      refine ⟨Char.toNat_inj.1 ?_, hrest⟩
      change c.toNat = d.toNat
      rw [hc.2.2, hd.2.2, hhigh, hlow]

end Item

/-- A literal ends at its closing quote, and says one string. -/
theorem Literal.body_split {L M : Literal} {r r' : List UInt8}
    (h : L.body ++ 0x22 :: r = M.body ++ 0x22 :: r') : L.value = M.value ∧ r = r' := by
  have hquote (a : Item) (t t' : List UInt8) : a.text ++ t ≠ 0x22 :: t' := by
    cases a with
    | raw c hc =>
      intro h
      obtain ⟨b, bs, hbs⟩ := List.exists_cons_of_ne_nil (String.utf8EncodeChar_ne_nil (c := c))
      rw [Item.text, hbs, List.cons_append] at h
      exact (hc.bytes b (hbs ▸ List.mem_cons_self)).2.1 (List.cons.inj h).1
    | short e => exact fun h ↦ absurd (List.cons.inj h).1 (by decide)
    | unicode u c hc => exact fun h ↦ absurd (List.cons.inj h).1 (by decide)
    | pair high low c hc => exact fun h ↦ absurd (List.cons.inj h).1 (by decide)
  induction L generalizing M with
  | nil =>
    cases M with
    | nil => exact ⟨rfl, (List.cons.inj h).2⟩
    | cons b M =>
      rw [Literal.body, Literal.body, List.flatMap_cons, List.append_assoc] at h
      exact absurd h.symm (hquote b _ _)
  | cons a L ih =>
    cases M with
    | nil =>
      rw [Literal.body, Literal.body, List.flatMap_cons, List.append_assoc] at h
      exact absurd h (hquote a _ _)
    | cons b M =>
      rw [Literal.body, Literal.body, List.flatMap_cons, List.flatMap_cons, List.append_assoc,
        List.append_assoc] at h
      obtain ⟨hchar, hrest⟩ := Item.text_split h
      obtain ⟨hvalue, hrest⟩ := ih hrest
      exact ⟨congrArg₂ List.cons hchar hvalue, hrest⟩

end CppAiService.Foundation.Json
