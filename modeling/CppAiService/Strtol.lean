import CppAiService.Bytes
import Mathlib.Data.List.TakeWhile
import Mathlib.Algebra.Order.Ring.Int

namespace CppAiService

open Bytes

namespace Strtol

inductive Sign
  | none
  | plus
  | minus

def Sign.text : Sign → Bytes
  | none => []
  | plus => lit "+"
  | minus => lit "-"

def Sign.apply : Sign → ℕ → ℤ
  | none, n | plus, n => n
  | minus, n => -n

def readSign : Bytes → Sign × Bytes
  | [] => (.none, [])
  | ch :: rest =>
    if ch = ascii '+' then (.plus, rest)
    else if ch = ascii '-' then (.minus, rest)
    else (.none, ch :: rest)

def decimalValue (digits : Bytes) : ℕ := digits.foldl (fun n ch ↦ 10 * n + (ch.toNat - 48)) 0

/-- `LONG_MIN` and `LONG_MAX` stand for what lies beyond them. -/
def clamp (n : ℤ) : ℤ := max (-2 ^ 63) (min n (2 ^ 63 - 1))

/-- `std::strtol(value, &end, 10)` on a 64-bit `long`, with the distance from `value` to `end`. -/
def strtol (value : Bytes) : ℤ × ℕ :=
  let (sign, rest) := readSign (value.dropWhile isspace)
  let digits := rest.takeWhile isdigit
  if digits = [] then (0, 0)
  else
    (clamp (sign.apply (decimalValue digits)),
      (value.takeWhile isspace).length + sign.text.length + digits.length)

structure Numeral where
  blanks : Bytes
  sign : Sign
  digits : Bytes
  rest : Bytes
  blank : ∀ ch ∈ blanks, isspace ch = true
  digit : ∀ ch ∈ digits, isdigit ch = true
  some : digits ≠ []
  ends : ∀ ch ∈ rest.head?, isdigit ch = false

namespace Numeral

def text (N : Numeral) : Bytes := N.blanks ++ (N.sign.text ++ (N.digits ++ N.rest))

def value (N : Numeral) : ℤ := N.sign.apply (decimalValue N.digits)

end Numeral

theorem takeWhile_stops {p : Byte → Bool} {s rest : Bytes} (hs : ∀ ch ∈ s, p ch = true)
    (hrest : ∀ ch ∈ rest.head?, p ch = false) :
    (s ++ rest).takeWhile p = s ∧ (s ++ rest).dropWhile p = rest := by
  rw [List.takeWhile_append_of_pos hs, List.dropWhile_append_of_pos hs]
  cases rest with
  | nil => exact ⟨List.append_nil s, rfl⟩
  | cons ch rest =>
    have hch := hrest ch rfl
    rw [List.takeWhile_cons_of_neg (by simp [hch]), List.dropWhile_cons_of_neg (by simp [hch])]
    exact ⟨List.append_nil s, rfl⟩

theorem not_isspace_of_isdigit {ch : Byte} (h : isdigit ch = true) : isspace ch = false := by
  have hall : ∀ b : Byte, isdigit b = true → isspace b = false := forall_byte (by decide +kernel)
  exact hall ch h

theorem readSign_numeral (sign : Sign) {ch : Byte} (h : isdigit ch = true) (rest : Bytes) :
    readSign (sign.text ++ ch :: rest) = (sign, ch :: rest) := by
  have hplus : ch ≠ ascii '+' := by
    rintro rfl
    cases h
  have hminus : ch ≠ ascii '-' := by
    rintro rfl
    cases h
  cases sign with
  | none =>
    rw [Sign.text, List.nil_append, readSign, if_neg hplus, if_neg hminus]
  | plus => rfl
  | minus => rfl

/-- All that is read of a text that begins with a number. -/
theorem strtol_text (N : Numeral) : strtol N.text =
    (clamp N.value, N.blanks.length + N.sign.text.length + N.digits.length) := by
  obtain ⟨ch, digits, hdigits⟩ := List.exists_cons_of_ne_nil N.some
  have hch : isdigit ch = true := N.digit ch (hdigits ▸ List.mem_cons_self)
  have hspace : ∀ b ∈ (N.sign.text ++ (N.digits ++ N.rest)).head?, isspace b = false := by
    intro b hb
    cases hsign : N.sign with
    | none =>
      rw [hsign, hdigits] at hb
      exact Option.some.inj hb ▸ not_isspace_of_isdigit hch
    | plus =>
      rw [hsign] at hb
      exact Option.some.inj hb ▸ by decide
    | minus =>
      rw [hsign] at hb
      exact Option.some.inj hb ▸ by decide
  obtain ⟨hblanks, hbehind⟩ := takeWhile_stops N.blank hspace
  have hsign : readSign (N.sign.text ++ (N.digits ++ N.rest)) = (N.sign, N.digits ++ N.rest) := by
    rw [hdigits, List.cons_append]
    exact readSign_numeral N.sign hch _
  simp only [strtol, Numeral.text, hblanks, hbehind, hsign, (takeWhile_stops N.digit N.ends).1,
    if_neg N.some, Numeral.value]

theorem readSign_text (value : Bytes) : (readSign value).1.text ++ (readSign value).2 = value := by
  cases value with
  | nil => rfl
  | cons ch rest =>
    rw [readSign]
    split_ifs with hplus hminus
    · rw [hplus]
      rfl
    · rw [hminus]
      rfl
    · rfl

theorem dropWhile_head (p : Byte → Bool) (s : Bytes) :
    ∀ ch ∈ (s.dropWhile p).head?, p ch = false := by
  intro ch hch
  have h := List.head?_dropWhile_not p s
  rw [hch] at h
  simpa using h

/-- What is read is a number. -/
theorem exists_numeral {value : Bytes} (h : (strtol value).2 ≠ 0) :
    ∃ N : Numeral, N.text = value := by
  let behind := (readSign (value.dropWhile isspace)).2
  have hsome : behind.takeWhile isdigit ≠ [] := by
    intro hnone
    refine h ?_
    simp only [strtol]
    rw [if_pos hnone]
  let N : Numeral :=
    { blanks := value.takeWhile isspace
      sign := (readSign (value.dropWhile isspace)).1
      digits := behind.takeWhile isdigit
      rest := behind.dropWhile isdigit
      blank := fun _ ↦ List.mem_takeWhile_imp
      digit := fun _ ↦ List.mem_takeWhile_imp
      some := hsome
      ends := dropWhile_head isdigit behind }
  refine ⟨N, ?_⟩
  calc N.text
      = value.takeWhile isspace ++ ((readSign (value.dropWhile isspace)).1.text ++
          (behind.takeWhile isdigit ++ behind.dropWhile isdigit)) := rfl
    _ = value.takeWhile isspace ++ value.dropWhile isspace := by
      rw [List.takeWhile_append_dropWhile, readSign_text]
    _ = value := List.takeWhile_append_dropWhile

end Strtol

end CppAiService
