import Mathlib.Data.List.Basic

namespace CppAiService.Foundation.Threads

variable {α β : Type} {calls before after : List α} {c : α} {i : ℕ}

/-- One of the running calls, and what becomes of the list when it moves on or returns. -/
theorem pick (h : calls[i]? = some c) : ∃ before after, calls = before ++ c :: after ∧
    (∀ d, calls.set i d = before ++ d :: after) ∧ calls.eraseIdx i = before ++ after := by
  obtain ⟨hlt, rfl⟩ := List.getElem?_eq_some_iff.1 h
  refine ⟨calls.take i, calls.drop (i + 1), ?_, fun d ↦ ?_, List.eraseIdx_eq_take_drop_succ ..⟩
  · rw [List.getElem_cons_drop, List.take_append_drop]
  · rw [List.set_eq_take_append_cons_drop, if_pos hlt]

/-- A call that holds nothing adds nothing to what the calls hold. -/
theorem filterMap_idle {holds : α → Option β} (h : holds c = none) :
    (before ++ c :: after).filterMap holds = (before ++ after).filterMap holds := by
  rw [List.filterMap_append, List.filterMap_append, List.filterMap_cons_none h]

theorem filterMap_busy {holds : α → Option β} {b : β} (h : holds c = some b) :
    ((before ++ c :: after).filterMap holds).Perm (b :: (before ++ after).filterMap holds) := by
  rw [List.filterMap_append, List.filterMap_append, List.filterMap_cons_some h]
  exact List.perm_middle

theorem mem_middle {d : α} : d ∈ before ++ c :: after ↔ d = c ∨ d ∈ before ++ after := by
  rw [List.mem_append, List.mem_cons, List.mem_append, or_left_comm]

end CppAiService.Foundation.Threads
