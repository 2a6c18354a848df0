import Mathlib.Data.List.Basic
import Mathlib.Order.Lattice

namespace CppAiService.Foundation.OrderedSet

variable {α : Type} [LinearOrder α] {a b : α} {s : List α}

def Ordered (s : List α) : Prop := s.Pairwise (· < ·)

def insert (a : α) : List α → List α
  | [] => [a]
  | b :: s => if a < b then a :: b :: s else if b < a then b :: insert a s else b :: s

def below (a : α) (s : List α) : List α := s.takeWhile (· < a)

def notBelow (a : α) (s : List α) : List α := s.dropWhile (· < a)

theorem mem_insert : b ∈ insert a s ↔ b = a ∨ b ∈ s := by
  induction s with
  | nil => simp [insert]
  | cons c s ih =>
    rw [insert]
    split_ifs with hac hca
    · exact List.mem_cons
    · rw [List.mem_cons, ih, List.mem_cons]
      tauto
    · have hsame : a = c := le_antisymm (not_lt.1 hca) (not_lt.1 hac)
      rw [hsame, List.mem_cons]
      tauto

theorem insert_perm (h : a ∉ s) : (insert a s).Perm (a :: s) := by
  induction s with
  | nil => exact List.Perm.refl _
  | cons c s ih =>
    obtain ⟨hne, hs⟩ := not_or.1 (mt List.mem_cons.2 h)
    rw [insert]
    split_ifs with hac hca
    · exact List.Perm.refl _
    · exact ((ih hs).cons c).trans (List.Perm.swap a c s)
    · exact absurd (le_antisymm (not_lt.1 hca) (not_lt.1 hac)) hne

theorem Ordered.insert (h : Ordered s) (a : α) : Ordered (insert a s) := by
  induction s with
  | nil => exact List.pairwise_singleton _ a
  | cons c s ih =>
    obtain ⟨hc, hs⟩ := List.pairwise_cons.1 h
    rw [OrderedSet.insert]
    split_ifs with hac hca
    · refine List.pairwise_cons.2 ⟨fun b hb ↦ ?_, h⟩
      rcases List.mem_cons.1 hb with rfl | hb
      · exact hac
      · exact hac.trans (hc b hb)
    · refine List.pairwise_cons.2 ⟨fun b hb ↦ ?_, ih hs⟩
      rcases mem_insert.1 hb with rfl | hb
      · exact hca
      · exact hc b hb
    · exact h

theorem head_insert_cons (a b : α) (s : List α) :
    (insert a (b :: s)).head? = some (if a < b then a else b) := by
  rw [insert]
  split_ifs <;> rfl

theorem below_eq_filter (h : Ordered s) (a : α) : below a s = s.filter (· < a) := by
  induction s with
  | nil => rfl
  | cons c s ih =>
    obtain ⟨hc, hs⟩ := List.pairwise_cons.1 h
    rw [below, List.takeWhile_cons, List.filter_cons]
    split_ifs with hca
    · exact congrArg (c :: ·) (ih hs)
    · rw [eq_comm, List.filter_eq_nil_iff]
      intro b hb hba
      rw [decide_eq_true_eq] at hca hba
      exact hca ((hc b hb).trans hba)

theorem notBelow_eq_filter (h : Ordered s) (a : α) : notBelow a s = s.filter (¬ · < a) := by
  induction s with
  | nil => rfl
  | cons c s ih =>
    obtain ⟨hc, hs⟩ := List.pairwise_cons.1 h
    rw [notBelow, List.dropWhile_cons, List.filter_cons]
    by_cases hca : c < a
    · rw [if_pos (decide_eq_true hca), if_neg (by simp [hca])]
      exact ih hs
    · rw [if_neg (by simp [hca]), if_pos (decide_eq_true hca), eq_comm]
      refine congrArg (c :: ·) (List.filter_eq_self.2 fun b hb ↦ decide_eq_true fun hba ↦ ?_)
      exact hca ((hc b hb).trans hba)

theorem below_append_notBelow (a : α) (s : List α) : below a s ++ notBelow a s = s :=
  List.takeWhile_append_dropWhile

theorem Ordered.head_le {s : List α} (h : Ordered (a :: s)) (hb : b ∈ a :: s) : a ≤ b := by
  rcases List.mem_cons.1 hb with rfl | hb
  · exact le_refl b
  · exact le_of_lt (List.rel_of_pairwise_cons h hb)

end CppAiService.Foundation.OrderedSet
