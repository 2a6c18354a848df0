import Mathlib.Data.List.Pairwise
import Mathlib.Data.List.Perm.Subperm

namespace CppAiService.Foundation.Classes

variable {α κ : Type} [DecidableEq κ] {cls : α → κ} {R : α → α → Prop} {l l' : List α}

def ofClass (cls : α → κ) (k : κ) (l : List α) : List α := l.filter fun x ↦ cls x = k

theorem mem_ofClass {k : κ} {x : α} : x ∈ ofClass cls k l ↔ x ∈ l ∧ cls x = k := by
  rw [ofClass, List.mem_filter, decide_eq_true_eq]

theorem ofClass_cons_of_eq {k : κ} {x : α} (h : cls x = k) (l : List α) :
    ofClass cls k (x :: l) = x :: ofClass cls k l :=
  List.filter_cons_of_pos (decide_eq_true h)

theorem ofClass_cons_of_ne {k : κ} {x : α} (h : cls x ≠ k) (l : List α) :
    ofClass cls k (x :: l) = ofClass cls k l :=
  List.filter_cons_of_neg (by rwa [decide_eq_true_eq])

theorem ofClass_perm (cls : α → κ) (k : κ) (h : l.Perm l') :
    (ofClass cls k l).Perm (ofClass cls k l') :=
  h.filter _

/-- A relation of the members of each class, and between classes, is one of the whole list. -/
theorem pairwise_of_classes (cls : α → κ) (hsame : ∀ k, (ofClass cls k l).Pairwise R)
    (hother : ∀ x ∈ l, ∀ y ∈ l, cls x ≠ cls y → R x y) : l.Pairwise R := by
  induction l with
  | nil => exact .nil
  | cons x l ih =>
    refine .cons (fun y hy ↦ ?_) (ih (fun k ↦ ?_) fun y hy z hz ↦ hother y (.tail _ hy) z (.tail _ hz))
    · by_cases hcls : cls x = cls y
      · have hx := hsame (cls x)
        rw [ofClass_cons_of_eq rfl] at hx
        exact List.rel_of_pairwise_cons hx (mem_ofClass.2 ⟨hy, hcls.symm⟩)
      · exact hother x (.head _) y (.tail _ hy) hcls
    · exact (hsame k).sublist ((List.sublist_cons_self x l).filter _)

/-- A symmetric relation of a list is one of what it has among its members. -/
theorem pairwise_of_subperm [Std.Symm R] (h : l'.Pairwise R) (hsub : l.Subperm l') :
    l.Pairwise R := by
  obtain ⟨m, hperm, hm⟩ := hsub
  exact (hperm.pairwise_iff fun {_ _} ↦ Std.Symm.symm _ _).1 (h.sublist hm)

end CppAiService.Foundation.Classes
