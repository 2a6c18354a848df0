import Mathlib.Data.List.Basic

namespace CppAiService.Foundation.Search

variable {α : Type} [DecidableEq α]

def indexOf (p : List α) : List α → Option ℕ
  | [] => if p = [] then some 0 else none
  | a :: s => if p.isPrefixOf (a :: s) then some 0 else (indexOf p s).map (· + 1)

def afterFirst (p s : List α) : Option (List α) :=
  (indexOf p s).map fun i ↦ s.drop (i + p.length)

theorem indexOf_cons_of_not_starts {p : List α} {a : α} {s : List α}
    (h : ¬ p <+: a :: s) : indexOf p (a :: s) = (indexOf p s).map (· + 1) := by
  have hb : p.isPrefixOf (a :: s) = false := by
    simpa only [← Bool.not_eq_true, List.isPrefixOf_iff_prefix] using h
  simp only [indexOf, hb, Bool.false_eq_true, ↓reduceIte]

theorem indexOf_append (p r : List α) : indexOf p (p ++ r) = some 0 := by
  have hb : p.isPrefixOf (p ++ r) = true :=
    List.isPrefixOf_iff_prefix.mpr (List.prefix_append p r)
  cases h : p ++ r with
  | nil => simp [indexOf, (List.append_eq_nil_iff.mp h).1]
  | cons a s => rw [h] at hb; simp only [indexOf, hb, ↓reduceIte]

/-- A reported position really carries the pattern, and no earlier one does. -/
theorem indexOf_eq_some {p s : List α} {i : ℕ} (h : indexOf p s = some i) :
    p <+: s.drop i ∧ ∀ j < i, ¬ p <+: s.drop j := by
  induction s generalizing i with
  | nil =>
    by_cases hp : p = []
    · simp only [indexOf, hp, ↓reduceIte, Option.some.injEq] at h
      subst h
      exact ⟨by simp [hp], by omega⟩
    · simp [indexOf, hp] at h
  | cons a s ih =>
    by_cases hp : p <+: a :: s
    · have hb := List.isPrefixOf_iff_prefix.mpr hp
      simp only [indexOf, hb, ↓reduceIte, Option.some.injEq] at h
      subst h
      exact ⟨hp, by omega⟩
    · rw [indexOf_cons_of_not_starts hp, Option.map_eq_some_iff] at h
      obtain ⟨k, hk, rfl⟩ := h
      obtain ⟨hpre, hmin⟩ := ih hk
      refine ⟨hpre, fun j hj ↦ ?_⟩
      cases j with
      | zero => exact hp
      | succ j => exact hmin j (by omega)

theorem indexOf_length_le {p s : List α} {i : ℕ} (h : indexOf p s = some i) :
    i + p.length ≤ s.length := by
  have hpre := (indexOf_eq_some h).1.length_le
  rw [List.length_drop] at hpre
  by_cases hi : i ≤ s.length
  · omega
  · have hlast := (indexOf_eq_some h).2 s.length (by omega)
    have hp : p = [] := List.length_eq_zero_iff.mp (by omega)
    exact absurd (by simp [hp]) hlast

theorem indexOf_isSome {p s : List α} (h : p <:+: s) : (indexOf p s).isSome := by
  induction s with
  | nil =>
    obtain rfl := List.infix_nil.1 h
    rfl
  | cons a s ih =>
    by_cases hp : p <+: a :: s
    · obtain ⟨r, hr⟩ := hp
      rw [← hr, indexOf_append]
      rfl
    · rw [indexOf_cons_of_not_starts hp, Option.isSome_map]
      exact ih ((List.infix_cons_iff.1 h).resolve_left hp)

def CutAt (p s x y : List α) : Prop := s = x ++ (p ++ y) ∧ ∀ j < x.length, ¬ p <+: s.drop j

omit [DecidableEq α] in
theorem CutAt.occurs {p s x y : List α} (h : CutAt p s x y) : p <:+: s :=
  ⟨x, y, by rw [h.1, List.append_assoc]⟩

theorem CutAt.indexOf_eq {p s x y : List α} (h : CutAt p s x y) :
    indexOf p s = some x.length := by
  obtain ⟨rfl, hearlier⟩ := h
  induction x with
  | nil => exact indexOf_append p y
  | cons a x ih =>
    have hrest := ih fun j hj ↦ hearlier (j + 1) (by simpa using hj)
    have hstart : ¬ p <+: a :: (x ++ (p ++ y)) := hearlier 0 (by simp)
    rw [List.cons_append, indexOf_cons_of_not_starts hstart, hrest]
    rfl

theorem cutAt_of_indexOf {p s : List α} {i : ℕ} (h : indexOf p s = some i) :
    CutAt p s (s.take i) (s.drop (i + p.length)) := by
  have hle := indexOf_length_le h
  obtain ⟨⟨r, hr⟩, hearlier⟩ := indexOf_eq_some h
  have hbehind : s.drop (i + p.length) = r := by
    rw [← List.drop_drop, ← hr, List.drop_left]
  refine ⟨?_, fun j hj ↦ hearlier j (Nat.lt_of_lt_of_le hj (List.length_take_le i s))⟩
  rw [hbehind, hr, List.take_append_drop]

theorem exists_cutAt {p s : List α} (h : p <:+: s) : ∃ x y, CutAt p s x y := by
  obtain ⟨i, hi⟩ := Option.isSome_iff_exists.1 (indexOf_isSome h)
  exact ⟨_, _, cutAt_of_indexOf hi⟩

theorem CutAt.unique {p s x y x' y' : List α} (h : CutAt p s x y) (h' : CutAt p s x' y') :
    x = x' ∧ y = y' := by
  have hlength := Option.some.inj (h.indexOf_eq.symm.trans h'.indexOf_eq)
  obtain ⟨rfl, hrest⟩ := List.append_inj (h.1.symm.trans h'.1) hlength
  exact ⟨rfl, List.append_cancel_left hrest⟩

theorem afterFirst_append (p r : List α) : afterFirst p (p ++ r) = some r := by
  simp [afterFirst, indexOf_append]

theorem afterFirst_cons_of_not_starts {p : List α} {a : α} {s : List α}
    (h : ¬ p <+: a :: s) : afterFirst p (a :: s) = afterFirst p s := by
  rw [afterFirst, afterFirst, indexOf_cons_of_not_starts h, Option.map_map]
  congr 1
  funext i
  simp only [Function.comp_apply, Nat.add_right_comm, List.drop_succ_cons]

theorem afterFirst_nil {c : α} {w : List α} : afterFirst (c :: w) [] = none := by
  simp [afterFirst, indexOf]

theorem indexOf_skip {c : α} {w x : List α} (hx : c ∉ x) (r : List α) :
    indexOf (c :: w) (x ++ r) = (indexOf (c :: w) r).map (· + x.length) := by
  induction x with
  | nil => simp
  | cons a x ih =>
    obtain ⟨ha, hx⟩ := List.ne_and_not_mem_of_not_mem_cons hx
    rw [List.cons_append, indexOf_cons_of_not_starts, ih hx, Option.map_map]
    · rfl
    · intro h
      exact ha (List.cons_prefix_cons.mp h).1

theorem afterFirst_skip {c : α} {w x : List α} (hx : c ∉ x) (r : List α) :
    afterFirst (c :: w) (x ++ r) = afterFirst (c :: w) r := by
  rw [afterFirst, afterFirst, indexOf_skip hx, Option.map_map]
  congr 1
  funext i
  rw [Function.comp_apply, Nat.add_right_comm, Nat.add_comm, List.drop_append,
    List.drop_eq_nil_of_le (by omega), List.nil_append, Nat.add_sub_cancel_left]

theorem afterFirst_letter {c : α} {x : List α} (hx : c ∉ x) (r : List α) :
    afterFirst [c] (x ++ c :: r) = some r := by
  rw [afterFirst_skip hx]
  exact afterFirst_append [c] r

theorem afterFirst_letter_none {c : α} {x : List α} (hx : c ∉ x) :
    afterFirst [c] x = none := by
  have h := afterFirst_skip (w := []) hx []
  rwa [List.append_nil, afterFirst_nil] at h

omit [DecidableEq α] in
theorem delimited_prefix_iff {c : α} {w x : List α} (hw : c ∉ w) (hx : c ∉ x) (r : List α) :
    w ++ [c] <+: x ++ c :: r ↔ x = w := by
  induction w generalizing x with
  | nil =>
    cases x with
    | nil => simp
    | cons a x =>
      have ha : c ≠ a := (List.ne_and_not_mem_of_not_mem_cons hx).1
      simp [List.cons_prefix_cons, ha]
  | cons b w ih =>
    obtain ⟨hb, hw⟩ := List.ne_and_not_mem_of_not_mem_cons hw
    cases x with
    | nil => simp [List.cons_prefix_cons, Ne.symm hb]
    | cons a x =>
      obtain ⟨-, hx⟩ := List.ne_and_not_mem_of_not_mem_cons hx
      simp only [List.cons_append, List.cons_prefix_cons, ih hw hx, List.cons.injEq]
      constructor <;> rintro ⟨h, h'⟩ <;> exact ⟨h.symm, h'⟩

/-- Between two delimiters there is exactly one candidate for a delimited word. -/
theorem afterFirst_delimited {c : α} {w x : List α} (hw : c ∉ w) (hx : c ∉ x) (r : List α) :
    afterFirst (c :: (w ++ [c])) (c :: (x ++ c :: r)) =
      if x = w then some r else afterFirst (c :: (w ++ [c])) (c :: r) := by
  split_ifs with h
  · subst h
    have ha := afterFirst_append (c :: (x ++ [c])) r
    rwa [List.cons_append, List.append_assoc, List.singleton_append] at ha
  · rw [afterFirst_cons_of_not_starts, afterFirst_skip hx]
    intro hp
    exact h ((delimited_prefix_iff hw hx r).mp (List.cons_prefix_cons.mp hp).2)

theorem afterFirst_unclosed {c : α} {w x : List α} (hx : c ∉ x) :
    afterFirst (c :: (w ++ [c])) (c :: x) = none := by
  rw [afterFirst_cons_of_not_starts]
  · have h := afterFirst_skip (w := w ++ [c]) hx []
    rwa [List.append_nil, afterFirst_nil] at h
  · intro hp
    have hsub := (List.cons_prefix_cons.mp hp).2.subset
    exact hx (hsub (by simp))

omit [DecidableEq α] in
/-- A pattern without a letter does not reach across it. -/
theorem prefix_of_append_cons {p x y : List α} {b : α} (hb : b ∉ p) (h : p <+: x ++ b :: y) :
    p <+: x := by
  induction x generalizing p with
  | nil =>
    cases p with
    | nil => exact List.nil_prefix
    | cons a p => exact absurd ((List.cons_prefix_cons.1 h).1 ▸ List.mem_cons_self) hb
  | cons c x ih =>
    cases p with
    | nil => exact List.nil_prefix
    | cons a p =>
      obtain ⟨hac, htail⟩ := List.cons_prefix_cons.1 h
      have hbp : b ∉ p := fun hmem ↦ hb (List.mem_cons_of_mem a hmem)
      exact List.cons_prefix_cons.2 ⟨hac, ih hbp htail⟩

omit [DecidableEq α] in
theorem infix_of_append_cons {p x y : List α} {b : α} (hb : b ∉ p) (h : p <:+: x ++ b :: y) :
    p <:+: x ∨ p <:+: y := by
  induction x with
  | nil =>
    obtain h | h := List.infix_cons_iff.1 h
    · exact .inl (prefix_of_append_cons hb (x := []) h).isInfix
    · exact .inr h
  | cons c x ih =>
    obtain h | h := List.infix_cons_iff.1 h
    · exact .inl (prefix_of_append_cons hb (x := c :: x) h).isInfix
    · obtain h | h := ih h
      · exact .inl (h.trans (List.suffix_cons c x).isInfix)
      · exact .inr h

/-- A text that does not hold the pattern is skipped. -/
theorem afterFirst_append_of_absent {p x : List α} {b : α} (h : ¬ p <:+: x) (hb : b ∉ p)
    (r : List α) : afterFirst p (x ++ b :: r) = afterFirst p (b :: r) := by
  induction x with
  | nil => rfl
  | cons a x ih =>
    rw [List.cons_append, afterFirst_cons_of_not_starts, ih]
    · exact fun hx ↦ h (hx.trans (List.suffix_cons a x).isInfix)
    · intro hp
      exact h (prefix_of_append_cons hb (x := a :: x) hp).isInfix

theorem afterFirst_append_of_present {p x : List α} (h : p <:+: x) :
    ∃ y, y <:+ x ∧ ∀ r, afterFirst p (x ++ r) = some (y ++ r) := by
  induction x with
  | nil =>
    obtain rfl := List.infix_nil.1 h
    exact ⟨[], List.suffix_rfl, fun r ↦ afterFirst_append [] r⟩
  | cons a x ih =>
    by_cases hp : p <+: a :: x
    · obtain ⟨y, hy⟩ := hp
      refine ⟨y, ⟨p, hy⟩, fun r ↦ ?_⟩
      rw [← hy, List.append_assoc]
      exact afterFirst_append p (y ++ r)
    · have hx : p <:+: x := (List.infix_cons_iff.1 h).resolve_left hp
      obtain ⟨y, hy, hafter⟩ := ih hx
      refine ⟨y, hy.trans (List.suffix_cons a x), fun r ↦ ?_⟩
      rw [List.cons_append, afterFirst_cons_of_not_starts, hafter]
      intro hr
      have hlength : p.length ≤ (a :: x).length := h.length_le
      exact hp (List.prefix_of_prefix_length_le hr (List.prefix_append (a :: x) r) hlength)

end CppAiService.Foundation.Search
