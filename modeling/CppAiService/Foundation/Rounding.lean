import Mathlib.Algebra.Order.Ring.Nat
import Mathlib.Data.Nat.Log
import Mathlib.Tactic.Ring

namespace CppAiService.Foundation.Rounding

/-- The integer next to `n / d`, in a tie the even one. -/
def nearestEven (n d : ℕ) : ℕ :=
  if 2 * (n % d) < d then n / d
  else if d < 2 * (n % d) then n / d + 1
  else n / d + n / d % 2

def ulp (precision n : ℕ) : ℕ := 2 ^ (n.log2 + 1 - precision)

/-- `n / d` to so many significant bits; a smaller number is rounded to an integer. -/
def significant (precision n d : ℕ) : ℕ :=
  nearestEven n (d * ulp precision (n / d)) * ulp precision (n / d)

/-- The integer above `n / d` rounded to so many significant bits, behind the point as well. -/
def ceilQuotient (precision n d : ℕ) : ℕ :=
  let scale := 2 ^ (precision + d.log2)
  (significant precision (n * scale) d + scale - 1) / scale

variable {precision n d m : ℕ}

theorem div_le_nearestEven (n d : ℕ) : n / d ≤ nearestEven n d := by
  rw [nearestEven]
  split_ifs <;> omega

theorem nearestEven_of_dvd (hd : 0 < d) (h : d ∣ n) : nearestEven n d = n / d := by
  rw [nearestEven, Nat.mod_eq_zero_of_dvd h, if_pos (by omega)]

theorem nearestEven_le (hd : 0 < d) (h : n ≤ m * d) : nearestEven n d ≤ m := by
  have hsplit := Nat.div_add_mod n d
  have hlt := Nat.mod_lt n hd
  rcases Nat.lt_or_ge (n / d) m with hless | hmore
  · rw [nearestEven]
    split_ifs <;> omega
  · have heq : n = d * m := by
      have hmul := Nat.mul_le_mul_left d hmore
      rw [Nat.mul_comm m d] at h
      omega
    rw [heq, nearestEven_of_dvd hd (Nat.dvd_mul_right d m), Nat.mul_div_cancel_left m hd]

/-- Past the middle it is rounded up. -/
theorem lt_nearestEven (hd : 0 < d) (h : 2 * (m * d) + d < 2 * n) : m < nearestEven n d := by
  have hsplit := Nat.div_add_mod n d
  have hlt := Nat.mod_lt n hd
  have hle : m ≤ n / d := (Nat.le_div_iff_mul_le hd).2 (by omega)
  rcases Nat.lt_or_ge m (n / d) with hless | hmore
  · exact lt_of_lt_of_le hless (div_le_nearestEven n d)
  · have heq : n / d = m := le_antisymm hmore hle
    rw [heq, Nat.mul_comm d m] at hsplit
    rw [nearestEven, if_neg (by omega), if_pos (by omega), heq]
    exact Nat.lt_succ_self m

theorem ulp_pos (precision n : ℕ) : 0 < ulp precision n := Nat.two_pow_pos _

theorem ulp_eq_one (hp : 0 < precision) (h : n < 2 ^ precision) : ulp precision n = 1 := by
  have hlog : n.log2 + 1 - precision = 0 := by
    rcases Nat.eq_zero_or_pos n with rfl | hpos
    · rw [Nat.log2_zero]
      omega
    · have hlt := (Nat.log2_lt hpos.ne').2 h
      omega
  rw [ulp, hlog, pow_zero]

theorem ulp_dvd {k : ℕ} (hpos : 0 < n) (h : n < 2 ^ (precision + k)) : ulp precision n ∣ 2 ^ k := by
  have hlt := (Nat.log2_lt hpos.ne').2 h
  exact Nat.pow_dvd_pow 2 (by omega)

theorem ulp_mul_le (hp : 0 < precision) (h : 2 ^ (precision - 1) ≤ n) :
    ulp precision n * 2 ^ (precision - 1) ≤ n := by
  have hpos : 0 < n := lt_of_lt_of_le (Nat.two_pow_pos _) h
  have hlog : precision - 1 ≤ n.log2 := (Nat.le_log2 hpos.ne').2 h
  have hsum : n.log2 + 1 - precision + (precision - 1) = n.log2 := by omega
  rw [ulp, ← pow_add, hsum]
  exact Nat.log2_self_le hpos.ne'

theorem significant_of_dvd (hd : 0 < d) (h : d * ulp precision (n / d) ∣ n) :
    significant precision n d = n / d := by
  obtain ⟨t, ht⟩ := h
  have hpos : 0 < d * ulp precision (n / d) := Nat.mul_pos hd (ulp_pos _ _)
  rw [significant, nearestEven_of_dvd hpos ⟨t, ht⟩]
  generalize hu : ulp precision (n / d) = u at ht hpos ⊢
  rw [ht, Nat.mul_div_cancel_left t hpos, Nat.mul_assoc, Nat.mul_div_cancel_left _ hd,
    Nat.mul_comm]

theorem significant_one (hp : 0 < precision) (h : n < 2 ^ precision) :
    significant precision n 1 = n := by
  have hulp : ulp precision (n / 1) = 1 := by rw [Nat.div_one, ulp_eq_one hp h]
  rw [significant_of_dvd Nat.one_pos (by rw [hulp]; exact Nat.one_dvd n), Nat.div_one]

theorem ceil_eq {a c s : ℕ} (hlow : c * s < a + s) (hhigh : a ≤ c * s) : (a + s - 1) / s = c := by
  refine Nat.div_eq_of_lt_le (by omega) ?_
  rw [Nat.succ_mul]
  omega

theorem ceil_bounds (hd : 0 < d) (n : ℕ) :
    (n + d - 1) / d * d < n + d ∧ n ≤ (n + d - 1) / d * d := by
  have hsplit := Nat.div_add_mod' (n + d - 1) d
  have hlt := Nat.mod_lt (n + d - 1) hd
  omega

/-- The last place of a scaled quotient divides the scale, and is less than two of the parts that
`n` is counted in. -/
theorem ulp_scaled {scale k : ℕ} (hp : 0 < precision) (hn : n < 2 ^ precision) (hd : 0 < d)
    (hpos : 0 < n) (hscale : scale = 2 ^ k) (hlarge : 2 ^ (precision - 1) * d ≤ scale) :
    ulp precision (n * scale / d) ∣ scale ∧ d * ulp precision (n * scale / d) < 2 * scale := by
  have hhalf : 2 ^ precision = 2 * 2 ^ (precision - 1) := by
    rw [← Nat.pow_succ', Nat.succ_eq_add_one, Nat.sub_add_cancel hp]
  have hquotient : 2 ^ (precision - 1) ≤ n * scale / d :=
    (Nat.le_div_iff_mul_le hd).2 (hlarge.trans (Nat.le_mul_of_pos_left scale hpos))
  have hbelow : n * scale / d < 2 ^ (precision + k) := by
    refine lt_of_le_of_lt (Nat.div_le_self _ _) ?_
    rw [hscale, pow_add]
    exact Nat.mul_lt_mul_of_pos_right hn (Nat.two_pow_pos k)
  have hone : 0 < n * scale / d := lt_of_lt_of_le (Nat.two_pow_pos _) hquotient
  have hdvd := ulp_dvd hone hbelow
  rw [← hscale] at hdvd
  refine ⟨hdvd, ?_⟩
  have hle : d * ulp precision (n * scale / d) * 2 ^ (precision - 1) ≤ n * scale := by
    rw [Nat.mul_assoc]
    exact (Nat.mul_le_mul_left d (ulp_mul_le hp hquotient)).trans (Nat.mul_div_le _ _)
  have hlt : n * scale < 2 * scale * 2 ^ (precision - 1) := by
    rw [Nat.mul_right_comm, ← hhalf]
    exact Nat.mul_lt_mul_of_pos_right hn (hscale ▸ Nat.two_pow_pos k)
  exact Nat.lt_of_mul_lt_mul_right (hle.trans_lt hlt)

/-- Rounding a quotient of numbers that are held exactly does not move it past an integer. -/
theorem significant_bounds {scale c : ℕ} (hp : 0 < precision) (hn : n < 2 ^ precision) (hd : 0 < d)
    (hpos : 0 < n) {k : ℕ} (hscale : scale = 2 ^ k) (hlarge : 2 ^ (precision - 1) * d ≤ scale)
    (hlow : c * d < n + d) (hhigh : n ≤ c * d) :
    c * scale < significant precision (n * scale) d + scale ∧
      significant precision (n * scale) d ≤ c * scale := by
  obtain ⟨⟨v, hv⟩, hsmall⟩ := ulp_scaled hp hn hd hpos hscale hlarge
  have hupos := ulp_pos precision (n * scale / d)
  rw [significant]
  generalize ulp precision (n * scale / d) = u at hv hsmall hupos ⊢
  have hdu : 0 < d * u := Nat.mul_pos hd hupos
  obtain ⟨c, rfl⟩ : ∃ c', c = c' + 1 := Nat.exists_eq_succ_of_ne_zero (by rintro rfl; omega)
  have hparts (b : ℕ) : b * v * (d * u) = b * d * scale := by
    rw [hv]
    ring
  constructor
  · have hmiddle : 2 * (c * v * (d * u)) + d * u < 2 * (n * scale) := by
      have hnext : (c * d + 1) * scale ≤ n * scale := Nat.mul_le_mul_right _ (by
        rw [Nat.succ_mul] at hlow
        omega)
      rw [hparts]
      rw [Nat.succ_mul] at hnext
      omega
    have hup : (c * v + 1) * u ≤ nearestEven (n * scale) (d * u) * u :=
      Nat.mul_le_mul_right u (lt_nearestEven hdu hmiddle)
    have hbase : (c * v + 1) * u = c * scale + u := by
      rw [hv]
      ring
    rw [Nat.succ_mul]
    omega
  · have hle : n * scale ≤ (c + 1) * v * (d * u) := by
      rw [hparts]
      exact Nat.mul_le_mul_right scale hhigh
    have hdown := Nat.mul_le_mul_right u (nearestEven_le hdu hle)
    rwa [Nat.mul_assoc, Nat.mul_comm v u, ← hv] at hdown

theorem ceilQuotient_eq (hp : 0 < precision) (hn : n < 2 ^ precision) (hd : 0 < d) :
    ceilQuotient precision n d = (n + d - 1) / d := by
  obtain ⟨hlow, hhigh⟩ := ceil_bounds hd n
  rcases Nat.eq_zero_or_pos n with rfl | hpos
  · have hzero : significant precision (0 * 2 ^ (precision + d.log2)) d = 0 := by
      rw [Nat.zero_mul, significant_of_dvd hd (Nat.dvd_zero _), Nat.zero_div]
    have hnone : (0 + d - 1) / d = 0 := Nat.div_eq_of_lt (by omega)
    have hscale : 0 < 2 ^ (precision + d.log2) := Nat.two_pow_pos _
    rw [ceilQuotient, hzero, hnone]
    exact ceil_eq (by omega) (by omega)
  · have hlarge : 2 ^ (precision - 1) * d ≤ 2 ^ (precision + d.log2) := by
      have hlt : d < 2 ^ (d.log2 + 1) := Nat.lt_log2_self
      have hsum : precision - 1 + (d.log2 + 1) = precision + d.log2 := by omega
      rw [← hsum, pow_add]
      exact Nat.mul_le_mul_left _ hlt.le
    obtain ⟨hlow', hhigh'⟩ := significant_bounds hp hn hd hpos rfl hlarge hlow hhigh
    exact ceil_eq hlow' hhigh'

/-- A quotient by a power of two needs no more bits than the number itself. -/
theorem ceilQuotient_two_pow {t i j : ℕ} (ht : 0 < t) (ht' : t < 2 ^ precision) :
    ceilQuotient precision (t * 2 ^ j) (2 ^ i) = (t * 2 ^ j + 2 ^ i - 1) / 2 ^ i := by
  obtain ⟨hlow, hhigh⟩ := ceil_bounds (Nat.two_pow_pos i) (t * 2 ^ j)
  have hscale : 2 ^ (precision + i) = 2 ^ i * 2 ^ precision := by rw [Nat.add_comm, pow_add]
  have hproduct : t * 2 ^ j * 2 ^ (precision + i) = 2 ^ i * (t * 2 ^ (j + precision)) := by
    rw [hscale, pow_add]
    ring
  have hquotient : t * 2 ^ j * 2 ^ (precision + i) / 2 ^ i = t * 2 ^ (j + precision) := by
    rw [hproduct, Nat.mul_div_cancel_left _ (Nat.two_pow_pos i)]
  have hulp : ulp precision (t * 2 ^ (j + precision)) ∣ 2 ^ (j + precision) := by
    refine ulp_dvd (Nat.mul_pos ht (Nat.two_pow_pos _)) ?_
    rw [pow_add 2 precision]
    exact Nat.mul_lt_mul_of_pos_right ht' (Nat.two_pow_pos _)
  have hexact : significant precision (t * 2 ^ j * 2 ^ (precision + i)) (2 ^ i) =
      t * 2 ^ j * 2 ^ precision := by
    rw [significant_of_dvd (Nat.two_pow_pos i), hquotient, pow_add, Nat.mul_assoc]
    rw [hquotient, hproduct]
    exact Nat.mul_dvd_mul_left _ (hulp.mul_left t)
  rw [ceilQuotient, Nat.log2_two_pow, hexact]
  refine ceil_eq ?_ ?_
  · rw [hscale, ← Nat.mul_assoc, ← Nat.add_mul]
    exact Nat.mul_lt_mul_of_pos_right hlow (Nat.two_pow_pos _)
  · rw [hscale, ← Nat.mul_assoc]
    exact Nat.mul_le_mul_right _ hhigh

theorem ceilQuotient_two_pow_of_le {t i j : ℕ} (hp : 0 < precision) (ht : 0 < t)
    (ht' : t ≤ 2 ^ precision) :
    ceilQuotient precision (t * 2 ^ j) (2 ^ i) = (t * 2 ^ j + 2 ^ i - 1) / 2 ^ i := by
  rcases Nat.lt_or_eq_of_le ht' with hlt | rfl
  · exact ceilQuotient_two_pow ht hlt
  · rw [← pow_add, ← Nat.one_mul (2 ^ (precision + j))]
    exact ceilQuotient_two_pow Nat.one_pos (Nat.one_lt_two_pow hp.ne')

end CppAiService.Foundation.Rounding
