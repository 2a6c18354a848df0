import Mathlib.Algebra.Order.Ring.Nat
import Mathlib.Data.List.Forall2
import Mathlib.Data.UInt

namespace CppAiService.Foundation.FixedWidth

def digit (d : ℕ) : UInt8 := (Nat.digitChar d).toUInt8

def digits : ℕ → ℕ → List UInt8
  | 0, _ => []
  | width + 1, n => digits width (n / 10) ++ [digit (n % 10)]

structure Field where
  width : ℕ
  separator : List UInt8

/-- Numbers written in columns, each with what stands behind it. -/
def render : List Field → List ℕ → List UInt8
  | f :: fields, n :: ns => digits f.width n ++ (f.separator ++ render fields ns)
  | _, _ => []

abbrev Fits (fields : List Field) (ns : List ℕ) : Prop :=
  List.Forall₂ (fun f n ↦ n < 10 ^ f.width) fields ns

theorem append_lt_append {α : Type} [LT α] {s t : List α} (h : s < t) (hlen : s.length = t.length)
    (x y : List α) : s ++ x < t ++ y := by
  induction s generalizing t with
  | nil =>
    rw [List.length_eq_zero_iff.1 hlen.symm] at h
    cases h
  | cons a s ih =>
    cases t with
    | nil => cases hlen
    | cons b t =>
      rw [List.cons_append, List.cons_append, List.cons_lt_cons_iff]
      rcases List.cons_lt_cons_iff.1 h with hlt | ⟨rfl, hlt⟩
      · exact Or.inl hlt
      · exact Or.inr ⟨rfl, ih hlt (Nat.succ.inj hlen)⟩

theorem digit_lt {d e : ℕ} (h : d < e) (he : e < 10) : digit d < digit e := by
  have hall : ∀ e < 10, ∀ d < e, digit d < digit e := by decide
  exact hall e he d h

theorem digit_range {d : ℕ} (h : d < 10) : 48 ≤ digit d ∧ digit d ≤ 57 := by
  revert d
  decide

theorem length_digits (width n : ℕ) : (digits width n).length = width := by
  induction width generalizing n with
  | zero => rfl
  | succ width ih => rw [digits, List.length_append, ih, List.length_singleton]

theorem digits_range {width n : ℕ} : ∀ b ∈ digits width n, 48 ≤ b ∧ b ≤ 57 := by
  induction width generalizing n with
  | zero => exact fun b hb ↦ absurd hb List.not_mem_nil
  | succ width ih =>
    intro b hb
    rw [digits, List.mem_append, List.mem_singleton] at hb
    rcases hb with hb | rfl
    · exact ih b hb
    · exact digit_range (Nat.mod_lt n (by decide))

/-- Texts of one width are ordered as the numbers are. -/
theorem digits_lt {width n m : ℕ} (h : n < m) (h' : m < 10 ^ width) :
    digits width n < digits width m := by
  induction width generalizing n m with
  | zero =>
    rw [pow_zero] at h'
    omega
  | succ width ih =>
    rw [pow_succ] at h'
    rw [digits, digits]
    rcases Nat.lt_or_ge (n / 10) (m / 10) with hlt | hge
    · refine append_lt_append (ih hlt (by omega)) ?_ _ _
      rw [length_digits, length_digits]
    · have hsame : n / 10 = m / 10 := by omega
      rw [hsame]
      refine List.append_left_lt (List.cons_lt_cons_iff.2 (Or.inl ?_))
      exact digit_lt (by omega) (Nat.mod_lt m (by decide))

theorem digits_append_lt {width n m : ℕ} (h : n < m) (h' : m < 10 ^ width) (s t : List UInt8) :
    digits width n ++ s < digits width m ++ t := by
  refine append_lt_append (digits_lt h h') ?_ s t
  rw [length_digits, length_digits]

theorem render_lt {fields : List Field} {ns ms : List ℕ} (hn : Fits fields ns)
    (hm : Fits fields ms) (h : ns < ms) : render fields ns < render fields ms := by
  induction hn generalizing ms with
  | nil =>
    cases hm
    cases h
  | @cons f n fields ns _ _ ih =>
    cases hm with
    | @cons _ m _ ms hroom hrest =>
      rw [render, render]
      rcases List.cons_lt_cons_iff.1 h with hlt | ⟨rfl, hlt⟩
      · exact digits_append_lt hlt hroom _ _
      · exact List.append_left_lt (List.append_left_lt (ih hrest hlt))

theorem not_mem_render {fields : List Field} {ns : List ℕ} {b : UInt8} (hb : ¬48 ≤ b)
    (h : ∀ f ∈ fields, b ∉ f.separator) : b ∉ render fields ns := by
  induction fields generalizing ns with
  | nil =>
    have hnone : render [] ns = [] := by cases ns <;> rfl
    rw [hnone]
    exact List.not_mem_nil
  | cons f fields ih =>
    cases ns with
    | nil => exact List.not_mem_nil
    | cons n ns =>
      rw [render, List.mem_append, List.mem_append, not_or, not_or]
      exact ⟨fun hmem ↦ hb (digits_range b hmem).1, h f List.mem_cons_self,
        ih fun g hg ↦ h g (List.mem_cons_of_mem f hg)⟩

theorem digits_zero (width : ℕ) : digits width 0 = List.replicate width (digit 0) := by
  induction width with
  | zero => rfl
  | succ width ih => rw [digits, Nat.zero_div, ih, Nat.zero_mod, List.replicate_succ']

/-- A number filled with zeros up to the width. -/
theorem replicate_append_toDigits {width n : ℕ} (hw : 0 < width) (h : n < 10 ^ width) :
    List.replicate (width - (Nat.toDigits 10 n).length) (digit 0) ++
      (Nat.toDigits 10 n).map Char.toUInt8 = digits width n := by
  obtain ⟨width, rfl⟩ : ∃ w, width = w + 1 := ⟨width - 1, by omega⟩
  induction width generalizing n with
  | zero =>
    have hsmall : n < 10 := h
    rw [Nat.toDigits_of_lt_base hsmall, digits, Nat.mod_eq_of_lt hsmall]
    rfl
  | succ width ih =>
    rw [digits]
    rcases Nat.lt_or_ge n 10 with hsmall | hlarge
    · rw [Nat.toDigits_of_lt_base hsmall, Nat.div_eq_of_lt hsmall, Nat.mod_eq_of_lt hsmall,
        digits_zero]
      rfl
    · rw [pow_succ] at h
      rw [Nat.toDigits_of_base_le (by decide) hlarge, List.length_append, List.length_singleton,
        Nat.add_sub_add_right, List.map_append, ← List.append_assoc,
        ih (Nat.succ_pos width) (by omega)]
      rfl

theorem toDigits_eq {width n : ℕ} (hw : 0 < width) (h : 10 ^ (width - 1) ≤ n)
    (h' : n < 10 ^ width) : (Nat.toDigits 10 n).map Char.toUInt8 = digits width n := by
  have hlong : width - (Nat.toDigits 10 n).length = 0 := by
    rcases Nat.eq_zero_or_pos (width - 1) with hone | hpos
    · have hsome : 0 < (Nat.toDigits 10 n).length := Nat.length_toDigits_pos
      omega
    · have hlt := (not_congr (Nat.length_toDigits_le_iff (by decide) hpos)).2 (Nat.not_lt.2 h)
      omega
  have hfilled := replicate_append_toDigits hw h'
  rwa [hlong] at hfilled

end CppAiService.Foundation.FixedWidth
