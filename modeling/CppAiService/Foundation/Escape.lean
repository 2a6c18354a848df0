import CppAiService.Foundation.Search

namespace CppAiService.Foundation

open Search

/-- A quoting convention: the quote and the mark themselves, and possibly other
letters, are written as the mark followed by a short form. -/
structure EscapeCode (α : Type) where
  quote : α
  mark : α
  short : α → Option α
  long : α → α
  quote_ne_mark : quote ≠ mark
  short_quote : short quote = some quote
  short_mark : short mark = some mark
  short_ne_quote : ∀ a b, a ≠ quote → short a = some b → b ≠ quote
  long_short : ∀ a b, short a = some b → long b = a

namespace EscapeCode

variable {α : Type} (C : EscapeCode α)

def escapeLetter (a : α) : List α :=
  match C.short a with
  | some b => [C.mark, b]
  | none => [a]

def escape (s : List α) : List α := s.flatMap C.escapeLetter

def Plain (w : List α) : Prop := ∀ a ∈ w, C.short a = none

@[simp] theorem escape_nil : C.escape [] = [] := rfl

@[simp] theorem escape_cons (a : α) (s : List α) :
    C.escape (a :: s) = C.escapeLetter a ++ C.escape s := rfl

theorem escape_append (s t : List α) : C.escape (s ++ t) = C.escape s ++ C.escape t :=
  List.flatMap_append

variable {C}

theorem escapeLetter_of_short_eq_none {a : α} (h : C.short a = none) :
    C.escapeLetter a = [a] := by simp only [escapeLetter, h]

theorem Plain.escape_eq {w : List α} (h : C.Plain w) : C.escape w = w := by
  induction w with
  | nil => rfl
  | cons a w ih =>
    rw [escape_cons, escapeLetter_of_short_eq_none (h a List.mem_cons_self),
      ih fun b hb ↦ h b (List.mem_cons_of_mem a hb)]
    rfl

theorem Plain.quote_not_mem {w : List α} (h : C.Plain w) : C.quote ∉ w := by
  intro hq
  have hs := h _ hq
  rw [C.short_quote] at hs
  cases hs

theorem Plain.mark_not_mem {w : List α} (h : C.Plain w) : C.mark ∉ w := by
  intro hm
  have hs := h _ hm
  rw [C.short_mark] at hs
  cases hs

theorem quote_not_mem_escapeLetter {a : α} (ha : a ≠ C.quote) :
    C.quote ∉ C.escapeLetter a := by
  unfold escapeLetter
  cases hs : C.short a with
  | none => simpa using ha.symm
  | some b => simpa using ⟨C.quote_ne_mark, (C.short_ne_quote a b ha hs).symm⟩

theorem quote_not_mem_escape {s : List α} (h : C.quote ∉ s) : C.quote ∉ C.escape s := by
  induction s with
  | nil => exact h
  | cons a s ih =>
    obtain ⟨ha, hs⟩ := List.ne_and_not_mem_of_not_mem_cons h
    rw [escape_cons, List.mem_append, not_or]
    exact ⟨quote_not_mem_escapeLetter ha.symm, ih hs⟩

/-- The only place where an escaped text can show a quoted plain word is its
very end: the text is that word, or ends with a quote followed by it. -/
def EndsQuoted (C : EscapeCode α) (w m : List α) : Prop := m = w ∨ C.quote :: w <:+ m

theorem endsQuoted_iff_of_quote_not_mem {w m : List α} (h : C.quote ∉ m) :
    C.EndsQuoted w m ↔ m = w := by
  constructor
  · intro hor
    obtain rfl | hs := hor
    · rfl
    · exact absurd (hs.subset List.mem_cons_self) h
  · exact .inl

variable (C) [DecidableEq α]

/-- Reads up to the first unescaped quote and resolves the short forms; the flag
says that the previous letter was an open mark. -/
def decodeFrom : Bool → List α → Option (List α)
  | _, [] => none
  | true, b :: s => (decodeFrom false s).map (C.long b :: ·)
  | false, a :: s =>
    if a = C.quote then some []
    else if a = C.mark then decodeFrom true s
    else (decodeFrom false s).map (a :: ·)

def decode (s : List α) : Option (List α) := C.decodeFrom false s

@[simp] theorem decode_nil : C.decode [] = none := rfl

@[simp] theorem decode_quote_cons (s : List α) : C.decode (C.quote :: s) = some [] := by
  simp only [decode, decodeFrom, ↓reduceIte]

@[simp] theorem decode_mark_singleton : C.decode [C.mark] = none := by
  simp only [decode, decodeFrom, C.quote_ne_mark.symm, ↓reduceIte]

@[simp] theorem decode_mark_cons (b : α) (s : List α) :
    C.decode (C.mark :: b :: s) = (C.decode s).map (C.long b :: ·) := by
  simp only [decode, decodeFrom, C.quote_ne_mark.symm, ↓reduceIte]

variable {C} in
theorem decode_letter_cons {a : α} (hq : a ≠ C.quote) (hm : a ≠ C.mark) (s : List α) :
    C.decode (a :: s) = (C.decode s).map (a :: ·) := by
  simp only [decode, decodeFrom, hq, hm, ↓reduceIte]

/-- Decoding inverts escaping, whatever follows the closing quote. -/
theorem decode_escape (s r : List α) : C.decode (C.escape s ++ C.quote :: r) = some s := by
  induction s with
  | nil => simp
  | cons a s ih =>
    rw [escape_cons, escapeLetter]
    cases hs : C.short a with
    | none =>
      have hq : a ≠ C.quote := by
        intro heq
        obtain rfl := heq
        simp [C.short_quote] at hs
      have hm : a ≠ C.mark := by
        intro heq
        obtain rfl := heq
        simp [C.short_mark] at hs
      simp only [List.cons_append, List.nil_append, decode_letter_cons hq hm, ih, Option.map_some]
    | some b =>
      simp only [List.cons_append, List.nil_append, decode_mark_cons, ih, Option.map_some,
        C.long_short a b hs]

theorem escape_injective : Function.Injective C.escape := by
  intro s t h
  have hs := C.decode_escape s []
  rw [h, C.decode_escape t []] at hs
  exact (Option.some.inj hs).symm

variable {C}

instance (w m : List α) : Decidable (C.EndsQuoted w m) :=
  inferInstanceAs (Decidable (_ ∨ _))

theorem afterFirst_quoted_aux {w : List α} (hw : C.Plain w) (m r : List α) :
    ∀ y : List α, C.quote ∉ y →
      afterFirst (C.quote :: (w ++ [C.quote])) (C.quote :: (C.escape (y ++ m) ++ C.quote :: r)) =
        if y ++ m = w ∨ C.quote :: w <:+ m then some r
        else afterFirst (C.quote :: (w ++ [C.quote])) (C.quote :: r) := by
  induction m with
  | nil =>
    intro y hy
    rw [List.append_nil, afterFirst_delimited hw.quote_not_mem (quote_not_mem_escape hy)]
    have hiff : C.escape y = w ↔ y = w ∨ C.quote :: w <:+ [] := by
      constructor
      · intro h
        exact .inl (C.escape_injective (h.trans hw.escape_eq.symm))
      · intro hor
        obtain rfl | h := hor
        · exact hw.escape_eq
        · simp at h
    simp only [hiff]
  | cons a m ih =>
    intro y hy
    by_cases ha : a = C.quote
    · -- the quote is written as mark and quote, and no plain word ends with the mark
      subst ha
      have hx : C.quote ∉ C.escape y ++ [C.mark] := by
        simp [quote_not_mem_escape hy, C.quote_ne_mark]
      have hne : C.escape y ++ [C.mark] ≠ w := by
        intro heq
        obtain rfl := heq
        exact hw.mark_not_mem (by simp)
      have hsplit : C.escape (y ++ C.quote :: m) ++ C.quote :: r =
          (C.escape y ++ [C.mark]) ++ C.quote :: (C.escape ([] ++ m) ++ C.quote :: r) := by
        simp [escape_append, escapeLetter, C.short_quote]
      rw [hsplit, afterFirst_delimited hw.quote_not_mem hx, if_neg hne, ih [] (by simp)]
      have hyw : y ++ C.quote :: m ≠ w := by
        intro heq
        obtain rfl := heq
        exact hw.quote_not_mem (by simp)
      simp only [List.nil_append, List.suffix_cons_iff, List.cons.injEq, true_and, hyw, false_or,
        @eq_comm _ m w]
    · have hya : C.quote ∉ y ++ [a] := by simp [hy, Ne.symm ha]
      have h := ih (y ++ [a]) hya
      rw [List.append_assoc, List.singleton_append] at h
      rw [h]
      simp only [List.suffix_cons_iff, List.cons.injEq, Ne.symm ha, false_and, false_or]

theorem afterFirst_quoted {w : List α} (hw : C.Plain w) (m r : List α) :
    afterFirst (C.quote :: (w ++ [C.quote])) (C.quote :: (C.escape m ++ C.quote :: r)) =
      if C.EndsQuoted w m then some r
      else afterFirst (C.quote :: (w ++ [C.quote])) (C.quote :: r) := by
  have h := afterFirst_quoted_aux hw m r [] (by simp)
  rw [List.nil_append] at h
  rw [h]
  exact if_congr Iff.rfl rfl rfl

/-- An escaped text shows a quoted word: it is the word, or ends with a quote and the word. -/
def Shows (C : EscapeCode α) (w m : List α) : Prop :=
  C.escape m = w ∨ C.quote :: w <:+ C.escape m

instance (w m : List α) : Decidable (C.Shows w m) := inferInstanceAs (Decidable (_ ∨ _))

omit [DecidableEq α] in
theorem suffix_append_iff_of_not_mem {c : α} {w x : List α} (hx : c ∉ x) (y : List α) :
    c :: w <:+ x ++ y ↔ c :: w <:+ y := by
  induction x with
  | nil => rfl
  | cons a x ih =>
    obtain ⟨ha, hx⟩ := List.ne_and_not_mem_of_not_mem_cons hx
    rw [List.cons_append, List.suffix_cons_iff, ih hx]
    exact or_iff_right fun heq ↦ ha (List.cons_eq_cons.1 heq).1

theorem afterFirst_shown_aux {w : List α} (hq : C.quote ∉ w) (hmark : C.mark ∉ w) (m r : List α) :
    ∀ x : List α, C.quote ∉ x →
      afterFirst (C.quote :: (w ++ [C.quote])) (C.quote :: (x ++ C.escape m ++ C.quote :: r)) =
        if x ++ C.escape m = w ∨ C.quote :: w <:+ C.escape m then some r
        else afterFirst (C.quote :: (w ++ [C.quote])) (C.quote :: r) := by
  induction m with
  | nil =>
    intro x hx
    rw [escape_nil, List.append_nil, afterFirst_delimited hq hx]
    simp only [List.suffix_nil, reduceCtorEq, or_false]
  | cons a m ih =>
    intro x hx
    rw [escape_cons]
    by_cases ha : a = C.quote
    · -- the word cannot end with the mark that stands in front of the quote
      subst ha
      have hletter : C.escapeLetter C.quote = [C.mark, C.quote] := by
        rw [escapeLetter, C.short_quote]
      have hx' : C.quote ∉ x ++ [C.mark] := by
        rw [List.mem_append, List.mem_singleton, not_or]
        exact ⟨hx, C.quote_ne_mark⟩
      have hne : x ++ [C.mark] ≠ w := by
        intro heq
        exact hmark (heq ▸ List.mem_append_right x (List.mem_singleton_self _))
      have hwhole : ¬ x ++ (C.mark :: C.quote :: C.escape m) = w := by
        intro heq
        exact hq (heq ▸ List.mem_append_right x (List.mem_cons_of_mem _ List.mem_cons_self))
      have hsuffix : C.quote :: w <:+ C.mark :: C.quote :: C.escape m ↔
          C.escape m = w ∨ C.quote :: w <:+ C.escape m := by
        rw [List.suffix_cons_iff, List.suffix_cons_iff, List.cons_eq_cons, List.cons_eq_cons,
          or_iff_right fun h ↦ C.quote_ne_mark h.1, eq_comm (a := w)]
        exact or_congr (and_iff_right rfl) Iff.rfl
      have hsplit : x ++ (C.escapeLetter C.quote ++ C.escape m) ++ C.quote :: r =
          (x ++ [C.mark]) ++ C.quote :: ([] ++ C.escape m ++ C.quote :: r) := by
        simp [hletter]
      rw [hsplit, afterFirst_delimited hq hx', if_neg hne, ih [] List.not_mem_nil, hletter]
      refine if_congr ?_ rfl rfl
      rw [List.nil_append, List.cons_append, List.cons_append, List.nil_append, hsuffix,
        or_iff_right hwhole]
    · have hletter := quote_not_mem_escapeLetter (C := C) ha
      have hx' : C.quote ∉ x ++ C.escapeLetter a := by
        rw [List.mem_append, not_or]
        exact ⟨hx, hletter⟩
      rw [← List.append_assoc x, ih _ hx']
      exact if_congr (or_congr Iff.rfl (suffix_append_iff_of_not_mem hletter _).symm) rfl rfl

theorem afterFirst_shown {w : List α} (hq : C.quote ∉ w) (hmark : C.mark ∉ w) (m r : List α) :
    afterFirst (C.quote :: (w ++ [C.quote])) (C.quote :: (C.escape m ++ C.quote :: r)) =
      if C.Shows w m then some r else afterFirst (C.quote :: (w ++ [C.quote])) (C.quote :: r) := by
  have h := afterFirst_shown_aux hq hmark m r [] List.not_mem_nil
  rw [List.nil_append] at h
  rw [h]
  exact if_congr Iff.rfl rfl rfl

end EscapeCode

end CppAiService.Foundation
