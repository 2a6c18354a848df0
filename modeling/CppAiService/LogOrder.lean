import CppAiService.Foundation.FixedWidth
import CppAiService.Logger

namespace CppAiService.Logger

open Bytes Foundation FixedWidth Timestamp

/-- What is known of the operator: it appends the first `n` bytes of `p`. -/
def Appends (insert : LogStream → GeneralTemplate → LogStream) : Prop :=
  ∀ stream g, g.len_ ≤ g.data_.length → insert stream g = stream.append g.data_ g.len_

def timePrefix (insert : LogStream → GeneralTemplate → LogStream) (offset : UtcOffset) (now : ℤ)
    (thread : ThreadInfo) : Bytes :=
  (formatTime insert offset now thread LogStream.create).2.buffer_.data

def InYears (offset : UtcOffset) (now : ℤ) : Prop :=
  let tm_timer := localtime offset (now / kMicroSecondsPerSecond)
  1000 ≤ tm_timer.tm_year + 1900 ∧ tm_timer.tm_year + 1900 ≤ 9999

/-- The local minute of the second that the instant is rounded to, toward zero. -/
def localMinute (offset : UtcOffset) (now : ℤ) : ℤ :=
  (now.tdiv kMicroSecondsPerSecond + offset.seconds) / 60

/-- The place of a microsecond part among the texts of seven characters: those with a sign come
first, and the blank behind five digits comes before a sixth digit. -/
def microRank (microseconds : ℤ) : ℕ :=
  if 0 ≤ microseconds then 1100000 + microseconds.toNat
  else if -100000 < microseconds then 11 * (-microseconds).toNat
  else 11 * ((-microseconds).toNat / 10) + ((-microseconds).toNat % 10 + 1)

def InOrder (offset : UtcOffset) (now now' : ℤ) : Prop :=
  localMinute offset now < localMinute offset now' ∨
    microRank (now.tmod kMicroSecondsPerSecond) < microRank (now'.tmod kMicroSecondsPerSecond)

instance (offset : UtcOffset) (now : ℤ) : Decidable (InYears offset now) :=
  inferInstanceAs (Decidable (_ ∧ _))

instance (offset : UtcOffset) (now now' : ℤ) : Decidable (InOrder offset now now') :=
  inferInstanceAs (Decidable (_ ∨ _))

section conversions

variable {width n : ℕ}

theorem decimal_eq (n : ℕ) : decimal n = (Nat.toDigits 10 n).map Char.toUInt8 := rfl

theorem length_decimal_le_iff (hw : 0 < width) :
    (decimal n).length ≤ width ↔ n < 10 ^ width := by
  rw [decimal, List.length_map]
  exact Nat.length_toDigits_le_iff (by decide) hw

theorem spaceFilled_eq (hw : 0 < width) (h : 10 ^ (width - 1) ≤ n) (h' : n < 10 ^ width) :
    spaceFilled width n = digits width n := by
  have htext : decimalInt n = digits width n := toDigits_eq hw h h'
  rw [spaceFilled, htext, length_digits, Nat.sub_self]
  rfl

theorem zeroFilled_eq (hw : 0 < width) (h : n < 10 ^ width) :
    zeroFilled width n = digits width n := by
  have hsign : ¬(n : ℤ) < 0 := by omega
  simp only [zeroFilled, if_neg hsign, Int.natAbs_natCast, List.nil_append, List.length_nil,
    Nat.sub_zero]
  rw [decimal_eq, List.length_map]
  exact replicate_append_toDigits hw h

theorem zeroFilled_two {x : ℤ} (hx : 0 ≤ x) (hx' : x < 100) :
    zeroFilled 2 x = digits 2 x.toNat := by
  obtain ⟨n, rfl⟩ := Int.eq_ofNat_of_zero_le hx
  exact zeroFilled_eq (by decide) (by omega)

theorem spaceFilled_four {x : ℤ} (hx : 1000 ≤ x) (hx' : x ≤ 9999) :
    spaceFilled 4 x = digits 4 x.toNat := by
  obtain ⟨n, rfl⟩ := Int.eq_ofNat_of_zero_le (show 0 ≤ x by omega)
  exact spaceFilled_eq (by decide) (by omega) (by omega)

theorem zeroFilled_neg (hn : 0 < n) :
    zeroFilled (width + 1) (-n) = ascii '-' ::
      (List.replicate (width - (decimal n).length) (ascii '0') ++ decimal n) := by
  have hsign : -(n : ℤ) < 0 := by omega
  simp only [zeroFilled, if_pos hsign, Int.natAbs_neg, Int.natAbs_natCast]
  rfl

theorem zeroFilled_neg_short (hw : 0 < width) (hn : 0 < n) (h : n < 10 ^ width) :
    zeroFilled (width + 1) (-n) = ascii '-' :: digits width n := by
  rw [zeroFilled_neg hn, decimal_eq, List.length_map]
  exact congrArg _ (replicate_append_toDigits hw h)

theorem zeroFilled_neg_long (hw : 0 < width) (h : 10 ^ width ≤ n) (h' : n < 10 ^ (width + 1)) :
    zeroFilled (width + 1) (-n) = ascii '-' :: digits (width + 1) n := by
  have hn : 0 < n := lt_of_lt_of_le (Nat.pow_pos (by decide)) h
  have hlong := (not_congr (length_decimal_le_iff hw)).2 (Nat.not_lt.2 h)
  have hfull : width - (decimal n).length = 0 := by omega
  rw [zeroFilled_neg hn, hfull, List.replicate_zero, List.nil_append, decimal_eq]
  exact congrArg _ (toDigits_eq (Nat.succ_pos width) h h')

theorem le_length_zeroFilled (width : ℕ) (x : ℤ) : width ≤ (zeroFilled width x).length := by
  simp only [zeroFilled, List.length_append, List.length_replicate]
  omega

end conversions

theorem take_snprintf {buf text : Bytes} {len : ℕ} (h : len ≤ text.length)
    (h' : len < buf.length) : (snprintf buf text).take len = text.take len := by
  have hwritten : len ≤ (text.take (buf.length - 1)).length := by
    rw [List.length_take]
    omega
  rw [snprintf, List.take_append_of_le_length hwritten, List.take_take]
  congr 1
  omega

theorem append_data {stream : LogStream} {buf : Bytes} {len : ℕ}
    (h : len + stream.buffer_.data.length < kSmallBufferSize) :
    (stream.append buf len).buffer_.data = stream.buffer_.data ++ buf.take len := by
  have hroom : len < stream.buffer_.avail := by
    rw [FixedBuffer.avail]
    omega
  rw [LogStream.append, FixedBuffer.append, dif_pos hroom]

theorem insert_snprintf {insert : LogStream → GeneralTemplate → LogStream}
    (hinsert : Appends insert) {stream : LogStream} {buf text : Bytes} {len : ℕ}
    (hbuf : len < buf.length) (htext : len ≤ text.length)
    (hroom : len + stream.buffer_.data.length < kSmallBufferSize) :
    (insert stream ⟨snprintf buf text, len⟩).buffer_.data =
      stream.buffer_.data ++ text.take len := by
  have hsome : buf ≠ [] := by
    rintro rfl
    cases hbuf
  have hlen : len ≤ (snprintf buf text).length := by
    rw [length_snprintf hsome]
    exact hbuf.le
  rw [hinsert stream ⟨snprintf buf text, len⟩ hlen, append_data hroom, take_snprintf htext hbuf]

def microText (microseconds : ℤ) : Bytes := (zeroFilled 6 microseconds ++ lit " ").take 7

/-- Only what is left of the cut reaches the stream, and nothing of the last line's text. -/
theorem timePrefix_eq {insert : LogStream → GeneralTemplate → LogStream} (hinsert : Appends insert)
    (offset : UtcOffset) (now : ℤ) (thread : ThreadInfo)
    (htimer : 17 ≤ (timerText (localtime offset (now.tdiv kMicroSecondsPerSecond))).length) :
    timePrefix insert offset now thread =
      (timerText (localtime offset (now.tdiv kMicroSecondsPerSecond))).take 17 ++
        microText (now.tmod kMicroSecondsPerSecond) := by
  have hsize : 17 < thread.t_timer.length := by
    rw [thread.size]
    decide
  have hempty : LogStream.create.buffer_.data = [] := rfl
  have hfirst := insert_snprintf hinsert hsize htimer
    (show 17 + LogStream.create.buffer_.data.length < kSmallBufferSize by decide)
  rw [hempty, List.nil_append] at hfirst
  have hspace : 7 ≤ (zeroFilled 6 (now.tmod kMicroSecondsPerSecond) ++ lit " ").length := by
    rw [List.length_append]
    exact Nat.succ_le_succ (le_length_zeroFilled 6 _)
  have hshort := List.length_take_le 17
    (timerText (localtime offset (now.tdiv kMicroSecondsPerSecond)))
  have hlarge : kSmallBufferSize = 4000 := rfl
  rw [timePrefix, formatTime, microText]
  rw [insert_snprintf hinsert (by decide) hspace, ThreadInfo.writeTimer, hfirst]
  rw [ThreadInfo.writeTimer, hfirst]
  omega

def column (j : ℕ) : Byte := if j = 0 then ascii ' ' else digit (j - 1)

def rankText (r : ℕ) : Bytes :=
  if r < 1100000 then ascii '-' :: (digits 5 (r / 11) ++ [column (r % 11)])
  else digits 6 (r - 1100000) ++ [ascii ' ']

theorem column_lt {j k : ℕ} (h : j < k) (hk : k < 11) : column j < column k := by
  have hall : ∀ k < 11, ∀ j < k, column j < column k := by decide
  exact hall k hk j h

theorem rankText_lt {r r' : ℕ} (h : r < r') (h' : r' < 2100000) : rankText r < rankText r' := by
  rw [rankText, rankText]
  split_ifs with hr hr' hr'
  · refine List.cons_lt_cons_iff.2 (Or.inr ⟨rfl, ?_⟩)
    rcases Nat.lt_or_ge (r / 11) (r' / 11) with hlt | hge
    · exact digits_append_lt hlt (by omega) _ _
    · have hsame : r / 11 = r' / 11 := by omega
      rw [hsame]
      refine List.append_left_lt (List.cons_lt_cons_iff.2 (Or.inl ?_))
      exact column_lt (by omega) (Nat.mod_lt r' (by decide))
  · -- a sign comes before every digit
    obtain ⟨b, bs, hbs⟩ := List.exists_cons_of_length_eq_add_one (length_digits 6 (r' - 1100000))
    have hb := (digits_range b (hbs ▸ List.mem_cons_self)).1
    have hsign : ascii '-' < 48 := by decide
    rw [hbs, List.cons_append]
    exact List.cons_lt_cons_iff.2 (Or.inl (UInt8.lt_of_lt_of_le hsign hb))
  · omega
  · exact digits_append_lt (by omega) (by omega) _ _

theorem microRank_lt {u : ℤ} (h : -1000000 < u) (h' : u < 1000000) : microRank u < 2100000 := by
  rw [microRank]
  split_ifs <;> omega

theorem microText_of_six {u : ℤ} (h : (zeroFilled 6 u).length = 6) :
    microText u = zeroFilled 6 u ++ lit " " := by
  refine List.take_of_length_le ?_
  rw [List.length_append, h]
  decide

theorem microText_eq {u : ℤ} (h : -1000000 < u) (h' : u < 1000000) :
    microText u = rankText (microRank u) := by
  rw [microRank]
  split_ifs with hpos hshort
  · obtain ⟨n, rfl⟩ := Int.eq_ofNat_of_zero_le hpos
    have htext : zeroFilled 6 n = digits 6 n := zeroFilled_eq (by decide) (by omega)
    have hrank : ¬1100000 + n < 1100000 := by omega
    rw [microText_of_six (by rw [htext, length_digits]), htext, Int.toNat_natCast, rankText,
      if_neg hrank, Nat.add_sub_cancel_left]
    rfl
  · obtain ⟨n, hn⟩ : ∃ n : ℕ, u = -n := ⟨u.natAbs, by omega⟩
    subst hn
    have htext : zeroFilled 6 (-n) = ascii '-' :: digits 5 n :=
      zeroFilled_neg_short (by decide) (by omega) (by omega)
    have hrank : 11 * n < 1100000 := by omega
    rw [microText_of_six (by rw [htext, List.length_cons, length_digits]), htext, Int.neg_neg,
      Int.toNat_natCast, rankText, if_pos hrank, Nat.mul_div_cancel_left n (by decide),
      Nat.mul_mod_right]
    rfl
  · obtain ⟨n, hn⟩ : ∃ n : ℕ, u = -n := ⟨u.natAbs, by omega⟩
    subst hn
    have htext : zeroFilled 6 (-n) = ascii '-' :: digits 6 n :=
      zeroFilled_neg_long (by decide) (by omega) (by omega)
    have hrank : 11 * (n / 10) + (n % 10 + 1) < 1100000 := by omega
    have hquotient : (11 * (n / 10) + (n % 10 + 1)) / 11 = n / 10 := by omega
    have hremainder : (11 * (n / 10) + (n % 10 + 1)) % 11 = n % 10 + 1 := by omega
    rw [microText, htext, Int.neg_neg, Int.toNat_natCast, rankText, if_pos hrank, hquotient,
      hremainder]
    exact List.take_left' (by rw [List.length_cons, length_digits])

def minuteColumns : List Field :=
  [⟨4, lit "/"⟩, ⟨2, lit "/"⟩, ⟨2, lit " "⟩, ⟨2, lit ":"⟩, ⟨2, lit ":"⟩]

def minuteDate (m : ℤ) : Calendar.Date := Calendar.date (m / 1440 + 719162)

def minuteFields (m : ℤ) : List ℕ :=
  [(minuteDate m).year.toNat, (minuteDate m).month + 1, (minuteDate m).day + 1,
    (m % 1440 / 60).toNat, (m % 60).toNat]

def FourDigits (m : ℤ) : Prop := 1000 ≤ (minuteDate m).year ∧ (minuteDate m).year ≤ 9999

theorem minuteFields_fits {m : ℤ} (h : FourDigits m) : Fits minuteColumns (minuteFields m) := by
  obtain ⟨hmonth, hday⟩ := Calendar.date_bounds (m / 1440 + 719162)
  obtain ⟨-, hyear⟩ := h
  simp only [Fits, minuteColumns, minuteFields, minuteDate, List.forall₂_cons,
    List.forall₂_nil_left_iff, and_true] at hyear ⊢
  omega

/-- Minutes are ordered as what their clocks show, read from the left. -/
theorem minuteFields_lt {m m' : ℤ} (h : m < m') (hm : FourDigits m) :
    minuteFields m < minuteFields m' := by
  have hyear : 1000 ≤ (minuteDate m).year := hm.1
  simp only [minuteFields, List.cons_lt_cons_iff]
  rcases lt_or_ge (m / 1440) (m' / 1440) with hlt | hge
  · have hdate := Calendar.date_lt (show m / 1440 + 719162 < m' / 1440 + 719162 by omega)
    simp only [minuteDate] at hyear ⊢
    omega
  · have hsame : minuteDate m = minuteDate m' := by
      rw [minuteDate, minuteDate, show m / 1440 = m' / 1440 by omega]
    rw [hsame]
    omega

theorem timerText_eq {offset : UtcOffset} {seconds : ℤ}
    (h : FourDigits ((seconds + offset.seconds) / 60)) :
    timerText (localtime offset seconds) =
      render minuteColumns (minuteFields ((seconds + offset.seconds) / 60)) ++
        digits 2 ((seconds + offset.seconds) % 60).toNat := by
  obtain ⟨hlow, hhigh⟩ := h
  obtain ⟨m, hm⟩ : ∃ m, m = (seconds + offset.seconds) / 60 := ⟨_, rfl⟩
  have hdays : (seconds + offset.seconds) / 86400 = m / 1440 := by omega
  obtain ⟨hmonth, hday⟩ := Calendar.date_bounds (m / 1440 + 719162)
  rw [← hm, minuteDate] at hlow hhigh
  have hclock : (seconds + offset.seconds) % 86400 / 3600 = m % 1440 / 60 ∧
      (seconds + offset.seconds) % 3600 / 60 = m % 60 := by omega
  simp only [timerText, localtime, ← hm, minuteColumns, minuteFields, minuteDate, render, hdays,
    hclock, Int.sub_add_cancel, List.append_assoc, List.nil_append]
  rw [spaceFilled_four hlow hhigh, zeroFilled_two (by omega) (by omega),
    zeroFilled_two (by omega) (by omega), zeroFilled_two (by omega) (by omega),
    zeroFilled_two (by omega) (by omega), zeroFilled_two (by omega) (by omega)]
  rfl

theorem length_minuteText (m : ℤ) : (render minuteColumns (minuteFields m)).length = 17 := by
  simp only [minuteColumns, minuteFields, render, List.length_append, length_digits]
  rfl

theorem localMinute_le (offset : UtcOffset) {now now' : ℤ} (h : now ≤ now') :
    localMinute offset now ≤ localMinute offset now' := by
  have hseconds : now.tdiv kMicroSecondsPerSecond ≤ now'.tdiv kMicroSecondsPerSecond :=
    Int.tdiv_le_tdiv (by decide) h
  simp only [localMinute]
  omega

theorem truncated (now : ℤ) :
    now = 1000000 * now.tdiv kMicroSecondsPerSecond + now.tmod kMicroSecondsPerSecond ∧
      -1000000 < now.tmod kMicroSecondsPerSecond ∧ now.tmod kMicroSecondsPerSecond < 1000000 :=
  ⟨(Int.mul_tdiv_add_tmod now kMicroSecondsPerSecond).symm, Int.lt_tmod_of_pos now (by decide),
    Int.tmod_lt_of_pos now (by decide)⟩

/-- Rounding to the later second before 1970 does not leave the years either. -/
theorem fourDigits_localMinute {offset : UtcOffset} {now : ℤ} (h : InYears offset now) :
    FourDigits (localMinute offset now) := by
  obtain ⟨hlow, hhigh⟩ := h
  obtain ⟨s, hs⟩ : ∃ s, s = now / kMicroSecondsPerSecond := ⟨_, rfl⟩
  obtain ⟨r, hr⟩ : ∃ r, r = now.tdiv kMicroSecondsPerSecond := ⟨_, rfl⟩
  rw [← hs] at hlow hhigh
  simp only [localtime, Calendar.date_year, Int.sub_add_cancel] at hlow hhigh
  have hdays : (r + offset.seconds) / 60 / 1440 = (r + offset.seconds) / 86400 := by omega
  rw [FourDigits, localMinute, minuteDate, ← hr, hdays, Calendar.date_year]
  rcases le_or_gt 0 now with hpos | hneg
  · have hsame : r = s := by rw [hr, hs, Int.tdiv_eq_ediv_of_nonneg hpos]
    rw [hsame]
    exact ⟨hlow, hhigh⟩
  · have hlate : s ≤ r ∧ r ≤ 0 := by
      obtain ⟨hsplit, hu, hu'⟩ := truncated now
      rw [← hr] at hsplit
      rw [kMicroSecondsPerSecond] at hs
      omega
    have hword := offset.word.2
    have hyear := Calendar.yearOfDay_mono
      (show (s + offset.seconds) / 86400 + 719162 ≤ (r + offset.seconds) / 86400 + 719162 by omega)
    have hyear' := Calendar.yearOfDay_mono
      (show (r + offset.seconds) / 86400 + 719162 ≤ 744018 by omega)
    have hlast : Calendar.yearOfDay 744018 = 2038 := by decide
    omega

theorem timePrefix_of_inYears {insert : LogStream → GeneralTemplate → LogStream}
    (hinsert : Appends insert) {offset : UtcOffset} {now : ℤ} (h : InYears offset now)
    (thread : ThreadInfo) :
    timePrefix insert offset now thread =
      render minuteColumns (minuteFields (localMinute offset now)) ++
        rankText (microRank (now.tmod kMicroSecondsPerSecond)) := by
  have htext := timerText_eq (fourDigits_localMinute h)
  have hlength := length_minuteText (localMinute offset now)
  obtain ⟨-, hlow, hhigh⟩ := truncated now
  rw [← localMinute] at htext
  rw [timePrefix_eq hinsert, microText_eq hlow hhigh, htext, List.take_left' hlength]
  rw [htext, List.length_append, hlength]
  exact Nat.le_add_right 17 _

theorem minuteText_lt {offset : UtcOffset} {now now' : ℤ} (h : InYears offset now)
    (h' : InYears offset now') (hless : localMinute offset now < localMinute offset now')
    (s t : Bytes) :
    render minuteColumns (minuteFields (localMinute offset now)) ++ s <
      render minuteColumns (minuteFields (localMinute offset now')) ++ t := by
  have hfields := minuteFields_lt hless (fourDigits_localMinute h)
  refine append_lt_append (render_lt (minuteFields_fits (fourDigits_localMinute h))
    (minuteFields_fits (fourDigits_localMinute h')) hfields) ?_ s t
  rw [length_minuteText, length_minuteText]

/-- A line's prefix comes before that of a later line exactly when the two are told apart by the
minute or, within a minute, by the microseconds. -/
theorem timePrefix_lt_iff {insert : LogStream → GeneralTemplate → LogStream}
    (hinsert : Appends insert) (offset : UtcOffset) {now now' : ℤ} (hlt : now < now')
    (h : InYears offset now) (h' : InYears offset now') (thread thread' : ThreadInfo) :
    timePrefix insert offset now thread < timePrefix insert offset now' thread' ↔
      InOrder offset now now' := by
  rw [timePrefix_of_inYears hinsert h, timePrefix_of_inYears hinsert h', InOrder]
  have hbound := microRank_lt (truncated now).2.1 (truncated now).2.2
  have hbound' := microRank_lt (truncated now').2.1 (truncated now').2.2
  rcases lt_or_eq_of_le (localMinute_le offset hlt.le) with hless | hsame
  · exact iff_of_true (minuteText_lt h h' hless _ _) (Or.inl hless)
  · rw [hsame]
    constructor
    · intro hless
      by_contra hnot
      obtain ⟨-, hge⟩ := not_or.1 hnot
      rcases lt_or_eq_of_le (Nat.not_lt.1 hge) with hreversed | hequal
      · exact List.lt_asymm hless (List.append_left_lt (rankText_lt hreversed hbound))
      · rw [hequal] at hless
        exact List.lt_irrefl _ hless
    · intro hin
      exact List.append_left_lt (rankText_lt (hin.resolve_left (lt_irrefl _)) hbound')

theorem next_minute_in_order :
    let insert (stream : LogStream) (g : GeneralTemplate) : LogStream :=
      stream.append g.data_ g.len_
    timePrefix insert ⟨28800, by decide⟩ 1700000039999999 ThreadInfo.create <
      timePrefix insert ⟨28800, by decide⟩ 1700000040000000 ThreadInfo.create :=
  (timePrefix_lt_iff (fun _ _ _ ↦ rfl) ⟨28800, by decide⟩ (by decide) (by decide +kernel)
    (by decide +kernel) ThreadInfo.create ThreadInfo.create).2 (by decide +kernel)

/-- A second later within a minute the prefix is the same one, a microsecond later a smaller one. -/
theorem seconds_cut_away :
    let insert (stream : LogStream) (g : GeneralTemplate) : LogStream :=
      stream.append g.data_ g.len_
    let utc : UtcOffset := ⟨0, by decide⟩
    let prefixAt (now : ℤ) : Bytes := timePrefix insert utc now ThreadInfo.create
    Appends insert ∧ InYears utc 1700000000000000 ∧ InYears utc 1700000001000000 ∧
      prefixAt 1700000000000000 = lit "2023/11/14 22:13:000000 " ∧
      prefixAt 1700000001000000 = lit "2023/11/14 22:13:000000 " ∧
      ¬prefixAt 1700000000000000 < prefixAt 1700000001000000 ∧
      prefixAt 1700000001000000 < prefixAt 1700000000999999 := by
  refine ⟨fun _ _ _ ↦ rfl, ?_⟩
  decide +kernel

def secondColumns : List Field := [⟨2, lit "."⟩, ⟨6, []⟩]

def secondFields (offset : UtcOffset) (now : ℤ) : List ℕ :=
  [((now.tdiv kMicroSecondsPerSecond + offset.seconds) % 60).toNat,
    (now.tmod kMicroSecondsPerSecond).toNat]

theorem secondFields_fits (offset : UtcOffset) (now : ℤ) :
    Fits secondColumns (secondFields offset now) := by
  obtain ⟨-, -, hmicro⟩ := truncated now
  simp only [Fits, secondColumns, secondFields, List.forall₂_cons, List.forall₂_nil_left_iff,
    and_true]
  omega

theorem toFormattedString_eq {offset : UtcOffset} {now : ℤ} (hpos : 0 ≤ now)
    (h : InYears offset now) :
    toFormattedString offset now true =
      render minuteColumns (minuteFields (localMinute offset now)) ++
        render secondColumns (secondFields offset now) := by
  obtain ⟨n, hn⟩ := Int.eq_ofNat_of_zero_le (Int.tmod_nonneg kMicroSecondsPerSecond hpos)
  have hmicro : zeroFilled 6 (now.tmod kMicroSecondsPerSecond) =
      digits 6 (now.tmod kMicroSecondsPerSecond).toNat := by
    have hbound := (truncated now).2.2
    rw [hn] at hbound ⊢
    exact zeroFilled_eq (by decide) (by omega)
  have htext : timerText (localtime offset (now.tdiv kMicroSecondsPerSecond)) ++
      (lit "." ++ zeroFilled 6 (now.tmod kMicroSecondsPerSecond)) =
      render minuteColumns (minuteFields (localMinute offset now)) ++
        render secondColumns (secondFields offset now) := by
    rw [timerText_eq (fourDigits_localMinute h), hmicro, List.append_assoc]
    simp only [secondColumns, secondFields, render, List.append_nil]
    rfl
  simp only [toFormattedString, if_true]
  rw [htext]
  refine cString_snprintf ?_ ?_
  · simp only [List.length_append, length_minuteText, secondColumns, secondFields, render,
      length_digits]
    decide
  · have hdigit : ¬(48 : Byte) ≤ 0 := by decide
    rw [List.mem_append, not_or]
    exact ⟨not_mem_render hdigit (by decide), not_mem_render hdigit (by decide)⟩

/-- The formatted timestamp, which keeps its seconds, is ordered from 1970 on as long as the offset
from UTC stays the same. -/
theorem toFormattedString_lt {offset : UtcOffset} {now now' : ℤ} (hpos : 0 ≤ now)
    (hlt : now < now') (h : InYears offset now) (h' : InYears offset now') :
    toFormattedString offset now true < toFormattedString offset now' true := by
  rw [toFormattedString_eq hpos h, toFormattedString_eq (hpos.trans hlt.le) h']
  rcases lt_or_eq_of_le (localMinute_le offset hlt.le) with hless | hsame
  · exact minuteText_lt h h' hless _ _
  · rw [hsame]
    refine List.append_left_lt
      (render_lt (secondFields_fits offset now) (secondFields_fits offset now') ?_)
    have hmicro := Int.tmod_nonneg kMicroSecondsPerSecond hpos
    have hmicro' := Int.tmod_nonneg kMicroSecondsPerSecond (hpos.trans hlt.le)
    obtain ⟨hsplit, -, -⟩ := truncated now
    obtain ⟨hsplit', -, hbound'⟩ := truncated now'
    simp only [localMinute] at hsame
    simp only [secondFields, List.cons_lt_cons_iff]
    omega

theorem next_second_in_order :
    toFormattedString ⟨0, by decide⟩ 1700000000999999 true <
      toFormattedString ⟨0, by decide⟩ 1700000001000000 true :=
  toFormattedString_lt (by decide) (by decide) (by decide +kernel) (by decide +kernel)

end CppAiService.Logger
