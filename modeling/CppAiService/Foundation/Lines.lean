import CppAiService.Foundation.Search

namespace CppAiService.Foundation.Lines

open Search

variable {α : Type}

def broken (c d : α) (lines : List (List α)) : List α := lines.flatMap fun line ↦ c :: d :: line

theorem broken_cons (c d : α) (line : List α) (lines : List (List α)) :
    broken c d (line :: lines) = c :: d :: (line ++ broken c d lines) := by
  simp only [broken, List.flatMap_cons, List.cons_append]

theorem length_le_broken (c d : α) (lines : List (List α)) :
    lines.length ≤ (broken c d lines).length := by
  induction lines with
  | nil => exact Nat.zero_le _
  | cons line lines ih =>
    simp only [broken_cons, List.length_cons, List.length_append]
    omega

/-- Behind a line there is always a break: that of the next line or the first of `r`. -/
theorem broken_append_starts (c d : α) (lines : List (List α)) (r : List α) :
    ∃ r', broken c d lines ++ c :: d :: r = c :: d :: r' := by
  cases lines with
  | nil => exact ⟨r, rfl⟩
  | cons line lines =>
    refine ⟨line ++ broken c d lines ++ c :: d :: r, ?_⟩
    rw [broken_cons]
    rfl

def Whole (c d : α) (line : List α) : Prop := ¬ [c, d] <:+: line

/-- The lines of a text, with the breaks between them taken out. -/
def splitBreaks [DecidableEq α] (c d : α) : List α → List (List α)
  | [] => [[]]
  | [a] => [[a]]
  | a :: b :: s =>
    if a = c ∧ b = d then [] :: splitBreaks c d s
    else (splitBreaks c d (b :: s)).modifyHead (a :: ·)

variable {c d : α}

theorem whole_of_not_mem {line : List α} (h : c ∉ line) : Whole c d line :=
  fun hbreak ↦ h (hbreak.subset List.mem_cons_self)

theorem Whole.tail {a : α} {line : List α} (h : Whole c d (a :: line)) : Whole c d line :=
  fun hbreak ↦ h (hbreak.trans (List.suffix_cons a line).isInfix)

/-- A line without a break does not run on into one. -/
theorem Whole.not_starts {line : List α} (h : Whole c d line) (hcd : c ≠ d) (hne : line ≠ [])
    (w r : List α) : ¬ c :: d :: w <+: line ++ c :: r := by
  intro hstarts
  cases line with
  | nil => exact hne rfl
  | cons a line =>
    obtain ⟨rfl, hrest⟩ := List.cons_prefix_cons.1 hstarts
    cases line with
    | nil => exact hcd (List.cons_prefix_cons.1 hrest).1.symm
    | cons b line =>
      obtain ⟨rfl, -⟩ := List.cons_prefix_cons.1 hrest
      exact h (List.prefix_append [c, d] line).isInfix

theorem splitBreaks_spec [DecidableEq α] (s : List α) : ∃ first lines,
    splitBreaks c d s = first :: lines ∧ s = first ++ broken c d lines ∧ Whole c d first ∧
      ∀ line ∈ lines, Whole c d line := by
  induction s using splitBreaks.induct c d with
  | case1 => exact ⟨[], [], rfl, rfl, whole_of_not_mem List.not_mem_nil, by simp⟩
  | case2 a =>
    refine ⟨[a], [], rfl, rfl, fun h ↦ ?_, by simp⟩
    simpa using h.length_le
  | case3 a b s hbreak ih =>
    obtain ⟨first, lines, hsplit, rfl, hfirst, hlines⟩ := ih
    obtain ⟨rfl, rfl⟩ := hbreak
    refine ⟨[], first :: lines, ?_, by rw [broken_cons]; rfl,
      whole_of_not_mem List.not_mem_nil, ?_⟩
    · rw [splitBreaks, if_pos ⟨rfl, rfl⟩, hsplit]
    · exact List.forall_mem_cons.2 ⟨hfirst, hlines⟩
  | case4 a b s hno ih =>
    obtain ⟨first, lines, hsplit, hs, hfirst, hlines⟩ := ih
    refine ⟨a :: first, lines, ?_, by rw [hs]; rfl, ?_, hlines⟩
    · rw [splitBreaks, if_neg hno, hsplit, List.modifyHead_cons]
    · intro hbreak
      obtain hhere | hlater := List.infix_cons_iff.1 hbreak
      · have hstarts := hhere.trans (List.prefix_append (a :: first) (broken c d lines))
        rw [List.cons_append, ← hs] at hstarts
        obtain ⟨rfl, hrest⟩ := List.cons_prefix_cons.1 hstarts
        exact hno ⟨rfl, (List.cons_prefix_cons.1 hrest).1.symm⟩
      · exact hfirst hlater

variable [DecidableEq α]

theorem indexOf_whole {line : List α} (hline : Whole c d line) (hcd : c ≠ d) (w r : List α) :
    indexOf (c :: d :: w) (line ++ c :: r) =
      (indexOf (c :: d :: w) (c :: r)).map (· + line.length) := by
  induction line with
  | nil => simp
  | cons a line ih =>
    have hstart := hline.not_starts hcd (List.cons_ne_nil a line) w r
    rw [List.cons_append] at hstart ⊢
    rw [indexOf_cons_of_not_starts hstart, ih hline.tail, Option.map_map]
    rfl

theorem indexOf_break {line : List α} (hline : Whole c d line) (hcd : c ≠ d) (r : List α) :
    indexOf [c, d] (line ++ c :: d :: r) = some line.length := by
  have hhere := indexOf_append [c, d] r
  simp only [List.cons_append, List.nil_append] at hhere
  rw [indexOf_whole hline hcd, hhere, Option.map_some, Nat.zero_add]

/-- A block of lines, none of them empty, is ended by the first empty one. -/
theorem indexOf_blank {first : List α} {lines : List (List α)} (hcd : c ≠ d)
    (hfirst : Whole c d first) (hlines : ∀ line ∈ lines, line ≠ [] ∧ Whole c d line) (r : List α) :
    indexOf [c, d, c, d] (first ++ (broken c d lines ++ c :: d :: c :: d :: r)) =
      some (first.length + (broken c d lines).length) := by
  induction lines generalizing first with
  | nil =>
    have hhere := indexOf_append [c, d, c, d] r
    simp only [List.cons_append, List.nil_append] at hhere
    simp only [broken, List.flatMap_nil, List.nil_append, List.length_nil, Nat.add_zero]
    rw [indexOf_whole hfirst hcd, hhere, Option.map_some, Nat.zero_add]
  | cons line lines ih =>
    obtain ⟨⟨hne, hline⟩, hlines⟩ := List.forall_mem_cons.1 hlines
    have hrest := ih hline hlines
    obtain ⟨t, ht⟩ := broken_append_starts c d lines (c :: d :: r)
    -- the break in front of a line is not followed by another one
    have hbreak : ¬ [c, d, c, d] <+: c :: d :: (line ++ c :: d :: t) := by
      intro h
      rw [List.cons_prefix_cons, List.cons_prefix_cons] at h
      exact hline.not_starts hcd hne [] (d :: t) h.2.2
    have hsecond : ¬ [c, d, c, d] <+: d :: (line ++ c :: d :: t) := fun h ↦
      hcd (List.cons_prefix_cons.1 h).1
    rw [ht] at hrest
    rw [broken_cons]
    simp only [List.cons_append, List.append_assoc]
    rw [ht, indexOf_whole hfirst hcd, indexOf_cons_of_not_starts hbreak,
      indexOf_cons_of_not_starts hsecond, hrest]
    simp only [Option.map_some, List.length_cons, List.length_append]
    congr 1
    omega

omit [DecidableEq α] in
/-- In front of the first empty line no line is empty. -/
theorem ne_nil_of_blank {first : List α} {lines : List (List α)} {r : List α}
    (hblank : ∀ j < (first ++ broken c d lines).length,
      ¬ [c, d, c, d] <+: (first ++ (broken c d lines ++ c :: d :: c :: d :: r)).drop j) :
    ∀ line ∈ lines, line ≠ [] := by
  rintro _ hmem rfl
  obtain ⟨before, after, rfl⟩ := List.append_of_mem hmem
  obtain ⟨t, ht⟩ := broken_append_starts c d after (c :: d :: r)
  have hsplit : broken c d (before ++ [] :: after) =
      broken c d before ++ c :: d :: broken c d after := by
    simp [broken]
  refine hblank (first ++ broken c d before).length ?_ ?_
  · simp only [hsplit, List.length_append, List.length_cons]
    omega
  · rw [hsplit, ← List.append_assoc, ← List.append_assoc, List.append_assoc (first ++ _),
      List.drop_left, List.cons_append, List.cons_append, ht]
    exact List.prefix_append [c, d, c, d] t

end CppAiService.Foundation.Lines
