import Mathlib.Data.List.AList
import Mathlib.Data.List.Induction

namespace CppAiService.Foundation.LastWrite

variable {K V : Type} [DecidableEq K] {writes : List (K × V)} {k : K} {v : V}

abbrev Table (K V : Type) := AList fun _ : K ↦ V

def lastWrite (writes : List (K × V)) (k : K) : Option V :=
  ((writes.filter (·.1 = k)).getLast?).map Prod.snd

def writeAll (table : Table K V) (writes : List (K × V)) : Table K V :=
  writes.foldl (fun table write ↦ table.insert write.1 write.2) table

@[simp] theorem lastWrite_nil : lastWrite ([] : List (K × V)) k = none := rfl

theorem lastWrite_concat (write : K × V) : lastWrite (writes ++ [write]) k =
    if write.1 = k then some write.2 else lastWrite writes k := by
  rw [lastWrite, List.filter_append]
  split_ifs with hk
  · rw [List.filter_cons_of_pos (by simpa using hk), List.filter_nil, List.getLast?_concat,
      Option.map_some]
  · rw [List.filter_cons_of_neg (by simpa using hk), List.filter_nil, List.append_nil, lastWrite]

theorem lookup_writeAll (table : Table K V) (writes : List (K × V)) (k : K) :
    (writeAll table writes).lookup k = (lastWrite writes k).or (table.lookup k) := by
  induction writes using List.reverseRecOn with
  | nil => rfl
  | append_singleton writes write ih =>
    rw [writeAll, List.foldl_append, List.foldl_cons, List.foldl_nil, lastWrite_concat]
    split_ifs with hk
    · rw [← hk, AList.lookup_insert, Option.some_or]
    · rw [AList.lookup_insert_ne (Ne.symm hk)]
      exact ih

/-- Writes leave a table as it was exactly when it holds what they write last. -/
theorem lookup_writeAll_unchanged (table : Table K V) (writes : List (K × V)) :
    (∀ k, (writeAll table writes).lookup k = table.lookup k) ↔
      ∀ k v, lastWrite writes k = some v → table.lookup k = some v := by
  constructor
  · intro h k v hv
    rw [← h k, lookup_writeAll, hv, Option.some_or]
  · intro h k
    rw [lookup_writeAll]
    cases hv : lastWrite writes k with
    | none => exact Option.none_or
    | some v => rw [Option.some_or, h k v hv]

end CppAiService.Foundation.LastWrite
