import CppAiService.Foundation.Log
import Mathlib.Algebra.Order.Group.Defs
import Mathlib.Data.List.Basic
import Mathlib.Data.List.Induction

namespace CppAiService.Foundation.SlidingWindow

open Log

variable {τ : Type} [AddCommGroup τ] [LinearOrder τ] [IsOrderedAddMonoid τ]
  {limit : ℕ} {width t u : τ} {times : List τ}

def recent (width t : τ) (times : List τ) : List τ := times.filter fun r ↦ t - width ≤ r

def record (limit : ℕ) (width t : τ) (times : List τ) : List τ :=
  if (recent width t times).length < limit then recent width t times ++ [t]
  else recent width t times

/-- Each time was admitted while fewer than `limit` earlier ones counted. -/
def Admitted (limit : ℕ) (width : τ) (times : List τ) : Prop :=
  Every (fun earlier t ↦ (recent width t earlier).length < limit) times

omit [IsOrderedAddMonoid τ] in
theorem recent_append (times more : List τ) :
    recent width t (times ++ more) = recent width t times ++ recent width t more :=
  List.filter_append _ _

/-- What has been dropped at an earlier time does not count later. -/
theorem recent_recent (h : u ≤ t) :
    recent width t (recent width u times) = recent width t times := by
  rw [recent, recent, List.filter_filter]
  apply List.filter_congr
  intro r _
  rw [Bool.and_eq_left_iff_imp, decide_eq_true_eq, decide_eq_true_eq]
  intro hr
  exact (sub_le_sub_right h width).trans hr

/-- A record that agrees with the admitted times about what still counts goes on doing so. -/
theorem recent_record {admitted : List τ} (h : recent width u times = recent width u admitted)
    (hle : u ≤ t) : recent width t (record limit width u times) =
      recent width t (if (recent width u admitted).length < limit then admitted ++ [u]
        else admitted) := by
  have hrecent : recent width t (recent width u times) = recent width t admitted := by
    rw [h, recent_recent hle]
  rw [record, ← h]
  split_ifs
  · rw [recent_append, recent_append, hrecent]
  · exact hrecent

theorem length_closed_window_le (h : Admitted limit width times) (u : τ) :
    (times.filter fun r ↦ u ≤ r ∧ r ≤ u + width).length ≤ limit := by
  induction times using List.reverseRecOn with
  | nil => exact Nat.zero_le _
  | append_singleton times t ih =>
    rw [List.filter_append, List.length_append]
    have hearlier : Admitted limit width times := by
      intro before r between heq
      exact h before r (between ++ [t]) (by rw [heq, List.append_assoc, List.cons_append])
    by_cases hin : u ≤ t ∧ t ≤ u + width
    · have hlast := h times t [] rfl
      have hsub : (times.filter fun r ↦ u ≤ r ∧ r ≤ u + width).Sublist (recent width t times) := by
        refine List.monotone_filter_right times fun r hr ↦ ?_
        rw [decide_eq_true_eq] at hr ⊢
        exact (sub_le_iff_le_add.2 hin.2).trans hr.1
      have hle := hsub.length_le
      rw [List.filter_cons_of_pos (by simpa using hin), List.filter_nil, List.length_singleton]
      omega
    · rw [List.filter_cons_of_neg (by simpa using hin), List.filter_nil, List.length_nil]
      exact ih hearlier

end CppAiService.Foundation.SlidingWindow
