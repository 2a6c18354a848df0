import Mathlib.Data.List.Basic

namespace CppAiService.Foundation.Mixing

variable {σ α : Type} {mix : σ → α → σ} {u v : List α}

def DifferOnce (u v : List α) : Prop := u.length = v.length ∧ ∃! i : ℕ, u[i]? ≠ v[i]?

theorem differOnce_iff : DifferOnce u v ↔ ∃ before x y after,
    u = before ++ x :: after ∧ v = before ++ y :: after ∧ x ≠ y := by
  constructor
  · rintro ⟨hlength, i, hi, honly⟩
    have hother : ∀ j, j ≠ i → u[j]? = v[j]? := fun j hj ↦ by_contra fun h ↦ hj (honly j h)
    have hu : i < u.length := by
      by_contra hge
      exact hi (by rw [List.getElem?_eq_none (by omega), List.getElem?_eq_none (by omega)])
    have hv : i < v.length := hlength ▸ hu
    refine ⟨u.take i, u[i], v[i], u.drop (i + 1), ?_, ?_, ?_⟩
    · rw [← List.drop_eq_getElem_cons hu, List.take_append_drop]
    · have htake : u.take i = v.take i := by
        refine List.ext_getElem? fun j ↦ ?_
        by_cases hj : j < i
        · rw [List.getElem?_take_of_lt hj, List.getElem?_take_of_lt hj, hother j (by omega)]
        · rw [List.getElem?_take_eq_none (by omega), List.getElem?_take_eq_none (by omega)]
      have hdrop : u.drop (i + 1) = v.drop (i + 1) := by
        refine List.ext_getElem? fun j ↦ ?_
        rw [List.getElem?_drop, List.getElem?_drop, hother _ (by omega)]
      rw [htake, hdrop, ← List.drop_eq_getElem_cons hv, List.take_append_drop]
    · intro he
      exact hi (by rw [List.getElem?_eq_getElem hu, List.getElem?_eq_getElem hv, he])
  · rintro ⟨before, x, y, after, rfl, rfl, hne⟩
    refine ⟨by simp, before.length, by simpa using hne, fun j hj ↦ ?_⟩
    by_contra hother
    refine hj ?_
    obtain hlt | hgt := Nat.lt_or_gt_of_ne hother
    · rw [List.getElem?_append_left hlt, List.getElem?_append_left hlt]
    · obtain ⟨k, rfl⟩ : ∃ k, j = before.length + (k + 1) := ⟨j - before.length - 1, by omega⟩
      rw [List.getElem?_append_right (by omega), List.getElem?_append_right (by omega),
        Nat.add_sub_cancel_left, List.getElem?_cons_succ, List.getElem?_cons_succ]

theorem foldl_injective (h : ∀ a, Function.Injective fun s ↦ mix s a) (as : List α) :
    Function.Injective fun s ↦ as.foldl mix s := by
  induction as with
  | nil => exact Function.injective_id
  | cons a as ih => exact ih.comp (h a)

/-- A change of one letter is never lost again: the states part there, and no later letter
brings two states together. -/
theorem foldl_ne (hstate : ∀ a, Function.Injective fun s ↦ mix s a)
    (hletter : ∀ s, Function.Injective (mix s)) (h : DifferOnce u v) (s : σ) :
    u.foldl mix s ≠ v.foldl mix s := by
  obtain ⟨before, x, y, after, rfl, rfl, hne⟩ := differOnce_iff.1 h
  rw [List.foldl_append, List.foldl_append, List.foldl_cons, List.foldl_cons]
  intro he
  exact hne (hletter _ (foldl_injective hstate after he))

end CppAiService.Foundation.Mixing
