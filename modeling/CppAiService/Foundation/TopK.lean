import Mathlib.Data.List.Nodup

namespace CppAiService.Foundation.TopK

variable {α : Type} {score : α → ℕ} {ranked candidates : List α} {limit : ℕ}

/-- What the front of a ranking leaves out is no better than what it holds, and is left out
for want of room only. -/
theorem left_out (hsorted : ranked.Pairwise fun a b ↦ score b ≤ score a)
    (hperm : ranked.Perm candidates) {c : α} (hc : c ∈ candidates) (hout : c ∉ ranked.take limit) :
    (∀ a ∈ ranked.take limit, score c ≤ score a) ∧ (ranked.take limit).length = limit := by
  have hdrop : c ∈ ranked.drop limit := by
    have h := hperm.mem_iff.2 hc
    rw [← List.take_append_drop limit ranked] at h
    exact (List.mem_append.1 h).resolve_left hout
  have hlength : limit ≤ ranked.length := by
    by_contra hlt
    rw [List.drop_eq_nil_of_le (by omega)] at hdrop
    exact absurd hdrop List.not_mem_nil
  rw [← List.take_append_drop limit ranked, List.pairwise_append] at hsorted
  exact ⟨fun a ha ↦ hsorted.2.2 a ha c hdrop, List.length_take_of_le hlength⟩

end CppAiService.Foundation.TopK
