import Mathlib.Algebra.BigOperators.Group.List.Basic
import Mathlib.Algebra.Order.Ring.Int

namespace CppAiService.Foundation.Calendar

structure Date where
  year : ℤ
  /-- The number of months before it in the year. -/
  month : ℕ
  /-- The number of days before it in the month. -/
  day : ℕ

def Leap (year : ℤ) : Prop := year % 4 = 0 ∧ year % 100 ≠ 0 ∨ year % 400 = 0

instance (year : ℤ) : Decidable (Leap year) := inferInstanceAs (Decidable (_ ∨ _))

def daysBeforeYear (year : ℤ) : ℤ :=
  365 * (year - 1) + (year - 1) / 4 - (year - 1) / 100 + (year - 1) / 400

def monthLengths (year : ℤ) : List ℕ :=
  [31, if Leap year then 29 else 28, 31, 30, 31, 30, 31, 31, 30, 31, 30, 31]

/-- The year by its mean length is the right one or the one before. -/
def yearOfDay (n : ℤ) : ℤ :=
  let year := 400 * n / 146097 + 1
  if daysBeforeYear (year + 1) ≤ n then year + 1 else year

def place : List ℕ → ℕ → ℕ × ℕ
  | [], d => (0, d)
  | len :: lens, d =>
    if d < len then (0, d)
    else ((place lens (d - len)).1 + 1, (place lens (d - len)).2)

def date (n : ℤ) : Date :=
  let year := yearOfDay n
  let (month, day) := place (monthLengths year) (n - daysBeforeYear year).toNat
  ⟨year, month, day⟩

def dayNumber (d : Date) : ℤ :=
  daysBeforeYear d.year + ((monthLengths d.year).take d.month).sum + d.day

theorem daysBeforeYear_mono {year year' : ℤ} (h : year ≤ year') :
    daysBeforeYear year ≤ daysBeforeYear year' := by
  simp only [daysBeforeYear]
  omega

theorem daysBeforeYear_add_one (year : ℤ) :
    daysBeforeYear (year + 1) = daysBeforeYear year + (monthLengths year).sum := by
  have hsum : ((monthLengths year).sum : ℤ) = if Leap year then 366 else 365 := by
    simp only [monthLengths]
    split <;> rfl
  rw [hsum]
  simp only [daysBeforeYear]
  split_ifs with h <;> simp only [Leap] at h <;> omega

theorem yearOfDay_spec (n : ℤ) :
    daysBeforeYear (yearOfDay n) ≤ n ∧ n < daysBeforeYear (yearOfDay n + 1) := by
  simp only [yearOfDay]
  split_ifs with h
  · refine ⟨h, ?_⟩
    simp only [daysBeforeYear] at h ⊢
    omega
  · refine ⟨?_, by omega⟩
    simp only [daysBeforeYear]
    omega

theorem yearOfDay_mono {n m : ℤ} (h : n ≤ m) : yearOfDay n ≤ yearOfDay m := by
  by_contra hlt
  have hbefore := daysBeforeYear_mono (show yearOfDay m + 1 ≤ yearOfDay n by omega)
  have hn := (yearOfDay_spec n).1
  have hm := (yearOfDay_spec m).2
  omega

theorem place_lt {lens : List ℕ} {d e : ℕ} (h : d < e) :
    (place lens d).1 < (place lens e).1 ∨
      (place lens d).1 = (place lens e).1 ∧ (place lens d).2 < (place lens e).2 := by
  induction lens generalizing d e with
  | nil => exact Or.inr ⟨rfl, h⟩
  | cons len lens ih =>
    simp only [place]
    split_ifs with hd he he
    · exact Or.inr ⟨rfl, h⟩
    · exact Or.inl (Nat.succ_pos _)
    · omega
    · have hrest := ih (show d - len < e - len by omega)
      simp only at hrest ⊢
      omega

theorem place_bounds {lens : List ℕ} {d : ℕ} (h : d < lens.sum) :
    (place lens d).1 < lens.length ∧ ∃ len ∈ lens, (place lens d).2 < len := by
  induction lens generalizing d with
  | nil => cases h
  | cons len lens ih =>
    rw [List.sum_cons] at h
    simp only [place]
    split_ifs with hd
    · exact ⟨Nat.succ_pos _, len, List.mem_cons_self, hd⟩
    · obtain ⟨hpart, len', hmem, hlt⟩ := ih (show d - len < lens.sum by omega)
      exact ⟨Nat.succ_lt_succ hpart, len', List.mem_cons_of_mem _ hmem, hlt⟩

theorem sum_take_place (lens : List ℕ) (d : ℕ) :
    (lens.take (place lens d).1).sum + (place lens d).2 = d := by
  induction lens generalizing d with
  | nil =>
    rw [List.take_nil]
    exact Nat.zero_add d
  | cons len lens ih =>
    simp only [place]
    split_ifs with hd
    · rw [List.take_zero]
      exact Nat.zero_add d
    · have hrest := ih (d - len)
      rw [List.take_succ_cons, List.sum_cons]
      omega

theorem date_year (n : ℤ) : (date n).year = yearOfDay n := rfl

/-- The date of a day is the date with its number. -/
theorem dayNumber_date (n : ℤ) : dayNumber (date n) = n := by
  have hplace := sum_take_place (monthLengths (yearOfDay n))
    (n - daysBeforeYear (yearOfDay n)).toNat
  have hstart := (yearOfDay_spec n).1
  simp only [dayNumber, date]
  omega

theorem date_bounds (n : ℤ) : (date n).month < 12 ∧ (date n).day < 31 := by
  obtain ⟨hstart, hend⟩ := yearOfDay_spec n
  rw [daysBeforeYear_add_one] at hend
  obtain ⟨hmonth, len, hmem, hday⟩ := place_bounds
    (show (n - daysBeforeYear (yearOfDay n)).toNat < (monthLengths (yearOfDay n)).sum by omega)
  have hlen : ∀ len ∈ monthLengths (yearOfDay n), len ≤ 31 := by
    simp only [monthLengths]
    split <;> decide
  exact ⟨hmonth, lt_of_lt_of_le hday (hlen len hmem)⟩

theorem date_lt {n m : ℤ} (h : n < m) :
    (date n).year < (date m).year ∨ (date n).year = (date m).year ∧
      ((date n).month < (date m).month ∨
        (date n).month = (date m).month ∧ (date n).day < (date m).day) := by
  rcases lt_or_eq_of_le (yearOfDay_mono h.le) with hlt | heq
  · exact Or.inl hlt
  · refine Or.inr ⟨heq, ?_⟩
    have hstart := (yearOfDay_spec n).1
    simp only [date, ← heq]
    exact place_lt (by omega)

end CppAiService.Foundation.Calendar
