import Mathlib.Data.List.Basic
import Mathlib.Logic.Function.Basic

namespace CppAiService.Foundation.FreeList

variable {α : Type} {null : α} {next : α → α} {p q : α} {nodes : List α}

/-- The nodes that a walk from `p` along the links comes by before it ends at `null`. -/
def Chain (null : α) (next : α → α) : α → List α → Prop
  | p, [] => p = null
  | p, q :: nodes => p = q ∧ q ≠ null ∧ Chain null next (next q) nodes

theorem chain_null (h : Chain null next null nodes) : nodes = [] := by
  cases nodes with
  | nil => rfl
  | cons q nodes => exact absurd h.1.symm h.2.1

/-- The first node can be taken off. -/
theorem Chain.pop (h : Chain null next p nodes) (hp : p ≠ null) :
    ∃ rest, nodes = p :: rest ∧ Chain null next (next p) rest := by
  cases nodes with
  | nil => exact absurd h hp
  | cons q rest =>
    obtain ⟨rfl, -, hrest⟩ := h
    exact ⟨rest, rfl, hrest⟩

theorem Chain.congr {next' : α → α} (h : Chain null next p nodes)
    (hsame : ∀ q ∈ nodes, next' q = next q) : Chain null next' p nodes := by
  induction nodes generalizing p with
  | nil => exact h
  | cons q nodes ih =>
    obtain ⟨hq, hnodes⟩ := List.forall_mem_cons.1 hsame
    exact ⟨h.1, h.2.1, ih (hq ▸ h.2.2) hnodes⟩

variable [DecidableEq α]

/-- A write that is not to one of the nodes leaves the list as it is. -/
theorem Chain.update (h : Chain null next p nodes) (hq : q ∉ nodes) (value : α) :
    Chain null (Function.update next q value) p nodes :=
  h.congr fun _ hr ↦ Function.update_of_ne (ne_of_mem_of_not_mem hr hq) _ _

/-- A new first node is linked to the old one. -/
theorem Chain.push (h : Chain null next p nodes) (hq : q ∉ nodes) (hnull : q ≠ null) :
    Chain null (Function.update next q p) q (q :: nodes) := by
  refine ⟨rfl, hnull, ?_⟩
  rw [Function.update_self]
  exact h.update hq p

end CppAiService.Foundation.FreeList
