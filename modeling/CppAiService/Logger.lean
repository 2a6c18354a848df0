import CppAiService.Bytes
import CppAiService.Foundation.Calendar

namespace CppAiService

open Bytes Foundation

structure FixedBuffer (buffer_size : ℕ) where
  data : Bytes
  room : data.length < buffer_size

namespace FixedBuffer

variable {buffer_size : ℕ}

def avail (b : FixedBuffer buffer_size) : ℕ := buffer_size - b.data.length

def append (b : FixedBuffer buffer_size) (buf : Bytes) (len : ℕ) : FixedBuffer buffer_size :=
  if h : len < b.avail then
    { data := b.data ++ buf.take len
      room := by
        have htake : (buf.take len).length ≤ len := List.length_take_le len buf
        rw [avail] at h
        rw [List.length_append]
        omega }
  else b

end FixedBuffer

def kSmallBufferSize : ℕ := 4000

/-- A pointer, with the bytes from there to the end of their array, and a length. -/
structure GeneralTemplate where
  data_ : Bytes
  len_ : ℕ

structure LogStream where
  buffer_ : FixedBuffer kSmallBufferSize

namespace LogStream

def create : LogStream := ⟨⟨[], by decide⟩⟩

def append (s : LogStream) (buffer : Bytes) (len : ℕ) : LogStream :=
  ⟨s.buffer_.append buffer len⟩

end LogStream

/-- A fixed offset from UTC in seconds, of the width that time zone files have for it. -/
structure UtcOffset where
  seconds : ℤ
  word : -2 ^ 31 ≤ seconds ∧ seconds < 2 ^ 31

structure Tm where
  tm_year : ℤ
  tm_mon : ℤ
  tm_mday : ℤ
  tm_hour : ℤ
  tm_min : ℤ
  tm_sec : ℤ

/-- The first of January of 1970 is day 719162 of the calendar. -/
def localtime (offset : UtcOffset) (seconds : ℤ) : Tm :=
  let clock := seconds + offset.seconds
  let date := Calendar.date (clock / 86400 + 719162)
  { tm_year := date.year - 1900
    tm_mon := date.month
    tm_mday := date.day + 1
    tm_hour := clock % 86400 / 3600
    tm_min := clock % 3600 / 60
    tm_sec := clock % 60 }

def Tm.seconds (tm : Tm) : ℤ :=
  (Calendar.dayNumber ⟨tm.tm_year + 1900, tm.tm_mon.toNat, (tm.tm_mday - 1).toNat⟩ - 719162) *
    86400 + tm.tm_hour * 3600 + tm.tm_min * 60 + tm.tm_sec

theorem seconds_localtime (offset : UtcOffset) (seconds : ℤ) :
    (localtime offset seconds).seconds = seconds + offset.seconds := by
  have hday := Calendar.dayNumber_date ((seconds + offset.seconds) / 86400 + 719162)
  simp only [Tm.seconds, localtime, Int.sub_add_cancel, Int.add_sub_cancel, Int.toNat_natCast, hday]
  omega

/-- `%4d` at a width of four. -/
def spaceFilled (width : ℕ) (n : ℤ) : Bytes :=
  List.replicate (width - (decimalInt n).length) (ascii ' ') ++ decimalInt n

/-- `%02d` at a width of two: the zeros stand behind the sign. -/
def zeroFilled (width : ℕ) (n : ℤ) : Bytes :=
  let sign := if n < 0 then lit "-" else []
  let digits := decimal n.natAbs
  sign ++ (List.replicate (width - sign.length - digits.length) (ascii '0') ++ digits)

/-- `snprintf` into a whole array; what lies behind the terminating zero stays. -/
def snprintf (buf text : Bytes) : Bytes :=
  let written := text.take (buf.length - 1)
  written ++ 0 :: buf.drop (written.length + 1)

theorem length_snprintf {buf : Bytes} (h : buf ≠ []) (text : Bytes) :
    (snprintf buf text).length = buf.length := by
  have hpos := List.length_pos_of_ne_nil h
  rw [snprintf, List.length_append, List.length_cons, List.length_drop, List.length_take]
  omega

def cString (buf : Bytes) : Bytes := buf.takeWhile (· ≠ 0)

theorem cString_snprintf {buf text : Bytes} (h : text.length < buf.length) (h' : 0 ∉ text) :
    cString (snprintf buf text) = text := by
  have hall : ∀ ch ∈ text, decide (ch ≠ 0) = true := by
    intro ch hch
    rw [decide_eq_true_iff]
    rintro rfl
    exact h' hch
  rw [cString, snprintf, List.take_of_length_le (by omega), List.takeWhile_append_of_pos hall]
  exact List.append_nil text

/-- The variables of one thread, the array for error texts apart. -/
structure ThreadInfo where
  t_timer : Bytes
  t_lastSecond : ℤ
  size : t_timer.length = 64

namespace ThreadInfo

def create : ThreadInfo := ⟨List.replicate 64 0, 0, rfl⟩

def writeTimer (thread : ThreadInfo) (text : Bytes) (seconds : ℤ) : ThreadInfo where
  t_timer := snprintf thread.t_timer text
  t_lastSecond := seconds
  size := by
    have hsome : thread.t_timer ≠ [] := by
      intro hnone
      have hsize := thread.size
      rw [hnone] at hsize
      cases hsize
    exact (length_snprintf hsome text).trans thread.size

end ThreadInfo

/-- `"%4d/%02d/%02d %02d:%02d:%02d"`. -/
def timerText (tm_timer : Tm) : Bytes :=
  spaceFilled 4 (tm_timer.tm_year + 1900) ++ (lit "/" ++
    (zeroFilled 2 (tm_timer.tm_mon + 1) ++ (lit "/" ++
      (zeroFilled 2 tm_timer.tm_mday ++ (lit " " ++
        (zeroFilled 2 tm_timer.tm_hour ++ (lit ":" ++
          (zeroFilled 2 tm_timer.tm_min ++ (lit ":" ++ zeroFilled 2 tm_timer.tm_sec)))))))))

namespace Timestamp

def kMicroSecondsPerSecond : ℤ := 1000 * 1000

def toFormattedString (offset : UtcOffset) (microSecondsSinceEpoch : ℤ)
    (showMicroseconds : Bool) : Bytes :=
  let seconds := microSecondsSinceEpoch.tdiv kMicroSecondsPerSecond
  let tm_time := localtime offset seconds
  let text :=
    if showMicroseconds then
      let microseconds := microSecondsSinceEpoch.tmod kMicroSecondsPerSecond
      timerText tm_time ++ (lit "." ++ zeroFilled 6 microseconds)
    else timerText tm_time
  cString (snprintf (List.replicate 64 0) text)

end Timestamp

namespace Logger

open Timestamp

/-- The operator that inserts a `GeneralTemplate` is a parameter. -/
def formatTime (insert : LogStream → GeneralTemplate → LogStream) (offset : UtcOffset) (now : ℤ)
    (thread : ThreadInfo) (stream_ : LogStream) : ThreadInfo × LogStream :=
  let seconds := now.tdiv kMicroSecondsPerSecond
  let microseconds := now.tmod kMicroSecondsPerSecond
  let thread := thread.writeTimer (timerText (localtime offset seconds)) seconds
  let buf := snprintf (List.replicate 32 0) (zeroFilled 6 microseconds ++ lit " ")
  (thread, insert (insert stream_ ⟨thread.t_timer, 17⟩) ⟨buf, 7⟩)

end Logger

end CppAiService
