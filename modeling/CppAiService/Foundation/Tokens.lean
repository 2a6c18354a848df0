import Mathlib.Data.List.Basic

namespace CppAiService.Foundation.Tokens

variable {α : Type} {p : α → Prop} {w x y s : List α} {c : α}

structure IsRun (p : α → Prop) (w s : List α) : Prop where
  ne_nil : w ≠ []
  letters : ∀ a ∈ w, p a
  within : ∃ before after, s = before ++ w ++ after ∧ (∀ a ∈ before.getLast?, ¬ p a) ∧
    ∀ a ∈ after.head?, ¬ p a

theorem isRun_of_letters (hs : ∀ a ∈ s, p a) : IsRun p w s ↔ w = s ∧ s ≠ [] := by
  constructor
  · rintro ⟨hw, -, before, after, rfl, hbefore, hafter⟩
    have hfront : before = [] := by
      by_contra hne
      refine hbefore _ (List.getLast?_eq_some_getLast hne) (hs _ ?_)
      simp [List.getLast_mem hne]
    have hback : after = [] := by
      by_contra hne
      refine hafter _ (List.head?_eq_some_head hne) (hs _ ?_)
      simp [List.head_mem hne]
    subst hfront hback
    simpa using hw
  · rintro ⟨rfl, hne⟩
    exact ⟨hne, hs, [], [], by simp, by simp, by simp⟩

theorem IsRun.append_right (h : IsRun p w x) (hc : ¬ p c) (y : List α) :
    IsRun p w (x ++ c :: y) := by
  obtain ⟨hne, hw, before, after, rfl, hbefore, hafter⟩ := h
  refine ⟨hne, hw, before, after ++ c :: y, by simp, hbefore, ?_⟩
  cases after with
  | nil => simpa using hc
  | cons a after => simpa using hafter

theorem IsRun.append_left (h : IsRun p w y) (hc : ¬ p c) (x : List α) :
    IsRun p w (x ++ c :: y) := by
  obtain ⟨hne, hw, before, after, rfl, hbefore, hafter⟩ := h
  refine ⟨hne, hw, x ++ c :: before, after, by simp, ?_, hafter⟩
  cases before with
  | nil => simpa using hc
  | cons b before => simpa [List.getLast?_append, List.getLast?_cons_cons] using hbefore

/-- A letter outside the class ends every run. -/
theorem isRun_append_cons (hc : ¬ p c) : IsRun p w (x ++ c :: y) ↔ IsRun p w x ∨ IsRun p w y := by
  constructor
  · rintro ⟨hne, hw, before, after, he, hbefore, hafter⟩
    have hcw : c ∉ w := fun h ↦ hc (hw c h)
    rw [List.append_assoc] at he
    obtain ⟨t, rfl, ht⟩ | ⟨t, rfl, ht⟩ := List.append_eq_append_iff.1 he
    · cases t with
      | nil =>
        cases w with
        | nil => exact absurd rfl hne
        | cons a w =>
          obtain ⟨rfl, -⟩ := List.cons_eq_cons.1 ht
          exact absurd List.mem_cons_self hcw
      | cons b t =>
        obtain ⟨rfl, rfl⟩ := List.cons_eq_cons.1 ht
        refine .inr ⟨hne, hw, t, after, by simp, ?_, hafter⟩
        cases t with
        | nil => simp
        | cons d t => simpa [List.getLast?_append, List.getLast?_cons_cons] using hbefore
    · obtain ⟨u, rfl, rfl⟩ | ⟨u, rfl, hu⟩ := List.append_eq_append_iff.1 ht
      · refine .inl ⟨hne, hw, before, u, by simp, hbefore, ?_⟩
        cases u with
        | nil => simp
        | cons a u => simpa using hafter
      · cases u with
        | nil => exact .inl ⟨hne, hw, before, [], by simp, hbefore, by simp⟩
        | cons a u =>
          obtain ⟨rfl, -⟩ := List.cons_eq_cons.1 hu
          exact absurd (by simp) hcw
  · rintro (h | h)
    · exact h.append_right hc y
    · exact h.append_left hc x

theorem isRun_map {β : Type} {q : β → Prop} {f : α → β} (hf : ∀ a, q (f a) ↔ p a) {w : List β} :
    IsRun q w (s.map f) ↔ ∃ run, IsRun p run s ∧ w = run.map f := by
  constructor
  · rintro ⟨hne, hw, before, after, he, hbefore, hafter⟩
    obtain ⟨front, back, rfl, hfront, rfl⟩ := List.map_eq_append_iff.1 he
    obtain ⟨first, run, rfl, rfl, rfl⟩ := List.map_eq_append_iff.1 hfront
    refine ⟨run, ⟨by simpa using hne, ?_, first, back, rfl, ?_, ?_⟩, rfl⟩
    · intro a ha
      exact (hf a).1 (hw _ (List.mem_map_of_mem ha))
    · intro a ha hpa
      exact hbefore (f a) (by simp [Option.mem_def.1 ha]) ((hf a).2 hpa)
    · intro a ha hpa
      exact hafter (f a) (by simp [Option.mem_def.1 ha]) ((hf a).2 hpa)
  · rintro ⟨run, ⟨hne, hw, before, after, rfl, hbefore, hafter⟩, rfl⟩
    refine ⟨by simpa using hne, ?_, before.map f, after.map f, by simp, ?_, ?_⟩
    · intro b hb
      obtain ⟨a, ha, rfl⟩ := List.mem_map.1 hb
      exact (hf a).2 (hw a ha)
    · intro b hb hqb
      rw [List.getLast?_map] at hb
      obtain ⟨a, ha, rfl⟩ := Option.map_eq_some_iff.1 hb
      exact hbefore a ha ((hf a).1 hqb)
    · intro b hb hqb
      rw [List.head?_map] at hb
      obtain ⟨a, ha, rfl⟩ := Option.map_eq_some_iff.1 hb
      exact hafter a ha ((hf a).1 hqb)

end CppAiService.Foundation.Tokens
