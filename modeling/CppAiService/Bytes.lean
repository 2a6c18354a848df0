import CppAiService.Foundation.Search
import Mathlib.Data.List.AList
import Mathlib.Data.UInt

namespace CppAiService

open Foundation.Search

abbrev Byte := UInt8

abbrev Bytes := List Byte

/-- A `std::map` or `std::unordered_map` without its iteration order. -/
abbrev Map (K V : Type) := AList (fun _ : K ↦ V)

def ascii (ch : Char) : Byte := ch.toUInt8

def lit (s : String) : Bytes := s.toList.map ascii

theorem lit_ofList (cs : List Char) : lit (String.ofList cs) = cs.map ascii := by
  rw [lit, String.toList_ofList]

namespace Bytes

/-- The character classes are those of the C locale. -/
def isspace (ch : Byte) : Bool := ch == 32 || (9 ≤ ch && ch ≤ 13)

def isdigit (ch : Byte) : Bool := 48 ≤ ch && ch ≤ 57

def isupper (ch : Byte) : Bool := 65 ≤ ch && ch ≤ 90

def islower (ch : Byte) : Bool := 97 ≤ ch && ch ≤ 122

def isalnum (ch : Byte) : Bool := isdigit ch || isupper ch || islower ch

def tolower (ch : Byte) : Byte := if isupper ch then ch + 32 else ch

/-- `s.find(p, pos)`, with `none` for `npos`. -/
def find (s p : Bytes) (pos : ℕ) : Option ℕ :=
  if pos ≤ s.length then (indexOf p (s.drop pos)).map (· + pos) else none

def substr (s : Bytes) (pos len : ℕ) : Bytes := (s.drop pos).take len

def decimal (n : ℕ) : Bytes := (Nat.toDigits 10 n).map ascii

def decimalInt : ℤ → Bytes
  | .ofNat n => decimal n
  | .negSucc n => lit "-" ++ decimal (n + 1)

def commaSeparated (items : List Bytes) : Bytes := (items.intersperse (lit ",")).flatten

def hexDigit (n : ℕ) : Byte := (Nat.digitChar n).toUInt8

/-- `std::hex` output filled with zeros to a width that the number fits in. -/
def hexFilled : ℕ → ℕ → Bytes
  | 0, _ => []
  | width + 1, n => hexFilled width (n / 16) ++ [hexDigit (n % 16)]

theorem forall_byte {p : Byte → Prop} (h : ∀ n < 256, p (UInt8.ofNat n)) (ch : Byte) : p ch := by
  rw [← UInt8.ofNat_toNat (x := ch)]
  exact h ch.toNat ch.toNat_lt

theorem find_zero (s p : Bytes) : find s p 0 = indexOf p s := by
  simp [find]

theorem find_behind {s p : Bytes} {pos i : ℕ} (h : find s p pos = some i) (q : Bytes) :
    find s q (i + p.length) =
      (indexOf q (s.drop (i + p.length))).map (· + (i + p.length)) := by
  unfold find at h ⊢
  split at h
  · obtain ⟨j, hj, rfl⟩ := Option.map_eq_some_iff.1 h
    have hle := indexOf_length_le hj
    rw [List.length_drop] at hle
    exact if_pos (by omega)
  · cases h

theorem afterFirst_of_find {s p : Bytes} {pos i : ℕ} (h : find s p pos = some i) :
    afterFirst p (s.drop pos) = some (s.drop (i + p.length)) ∧ i + p.length ≤ s.length := by
  unfold find at h
  split at h
  · obtain ⟨j, hj, rfl⟩ := Option.map_eq_some_iff.1 h
    have hle := indexOf_length_le hj
    rw [List.length_drop] at hle
    simp only [afterFirst, hj, Option.map_some, List.drop_drop]
    exact ⟨by rw [Nat.add_left_comm, Nat.add_assoc], by omega⟩
  · cases h

theorem afterFirst_of_find_none {s p : Bytes} {pos : ℕ} (hpos : pos ≤ s.length)
    (h : find s p pos = none) : afterFirst p (s.drop pos) = none := by
  rw [find, if_pos hpos, Option.map_eq_none_iff] at h
  rw [afterFirst, h, Option.map_none]

theorem length_hexFilled (width n : ℕ) : (hexFilled width n).length = width := by
  induction width generalizing n with
  | zero => rfl
  | succ width ih => simp [hexFilled, ih]

theorem mem_hexFilled {width n : ℕ} {ch : Byte} (h : ch ∈ hexFilled width n) :
    ∃ d < 16, ch = hexDigit d := by
  induction width generalizing n with
  | zero => simp [hexFilled] at h
  | succ width ih =>
    rw [hexFilled, List.mem_append, List.mem_singleton] at h
    rcases h with h | h
    · exact ih h
    · exact ⟨n % 16, Nat.mod_lt n (by decide), h⟩

theorem isalnum_hexDigit {d : ℕ} (h : d < 16) : isalnum (hexDigit d) = true := by
  revert d
  decide

end Bytes

end CppAiService
