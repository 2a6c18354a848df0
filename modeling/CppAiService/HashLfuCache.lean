import CppAiService.Foundation.Rounding
import CppAiService.LfuContents

namespace CppAiService

/-- `lfuSliceCaches_` owns its slices; `sliceNum_` is positive once constructed. -/
structure KHashLfuCache (K V : Type) where
  capacity_ : ℕ
  sliceNum_ : ℕ
  lfuSliceCaches_ : List (KLfuCache K V)

namespace KHashLfuCache

open Foundation

variable {K V : Type}

/-- A `size_t` converted to a double, which has 53 bits. -/
def doubleOfSizeT (n : ℕ) : ℕ := Rounding.significant 53 n 1

/-- `std::ceil` of the quotient of two doubles. -/
def sliceSize (capacity sliceNum : ℕ) : ℕ :=
  Rounding.ceilQuotient 53 (doubleOfSizeT capacity) sliceNum

def ceilSlice (capacity sliceNum : ℕ) : ℕ := (capacity + sliceNum - 1) / sliceNum

theorem sliceSize_eq {capacity sliceNum : ℕ} (hcap : capacity < 2 ^ 53) (hn : 0 < sliceNum) :
    sliceSize capacity sliceNum = ceilSlice capacity sliceNum := by
  rw [sliceSize, doubleOfSizeT, Rounding.significant_one (by decide) hcap,
    Rounding.ceilQuotient_eq (by decide) hcap hn, ceilSlice]

theorem one_le_ceilSlice {capacity sliceNum : ℕ} (hcap : 1 ≤ capacity) (hn : 1 ≤ sliceNum) :
    1 ≤ ceilSlice capacity sliceNum :=
  Nat.div_pos (by omega) hn

def create [Inhabited K] [Inhabited V] (capacity : ℕ) (sliceNum maxAverageNum : ℤ)
    (hardwareConcurrency : ℕ) : KHashLfuCache K V :=
  let sliceNum_ := if 0 < sliceNum then sliceNum.toNat else hardwareConcurrency
  { capacity_ := capacity
    sliceNum_ := sliceNum_
    lfuSliceCaches_ := List.replicate sliceNum_
      (KLfuCache.create (intOfSizeT (sliceSize capacity sliceNum_)) maxAverageNum) }

def sliceIndex (hash : K → ℕ) (c : KHashLfuCache K V) (key : K) : ℕ := hash key % c.sliceNum_

variable [DecidableEq K]

def put [Inhabited K] (hash : K → ℕ) (c : KHashLfuCache K V) (key : K) (value : V)
    (order : IterationOrder) : Option (KHashLfuCache K V) := do
  let slice ← c.lfuSliceCaches_[c.sliceIndex hash key]?
  let slice ← slice.put key value order
  return { c with lfuSliceCaches_ := c.lfuSliceCaches_.set (c.sliceIndex hash key) slice }

def get (hash : K → ℕ) (c : KHashLfuCache K V) (key : K) (order : IterationOrder) :
    Option (Option V × KHashLfuCache K V) := do
  let slice ← c.lfuSliceCaches_[c.sliceIndex hash key]?
  let (value, slice) ← slice.get key order
  return (value, { c with lfuSliceCaches_ := c.lfuSliceCaches_.set (c.sliceIndex hash key) slice })

omit [DecidableEq K] in
def purge (c : KHashLfuCache K V) : KHashLfuCache K V :=
  { c with lfuSliceCaches_ := c.lfuSliceCaches_.map KLfuCache.purge }

variable {hash : K → ℕ} {c : KHashLfuCache K V} {key : K} {slice : KLfuCache K V}

def contents (hash : K → ℕ) (c : KHashLfuCache K V) (key : K) : Option V :=
  c.lfuSliceCaches_[c.sliceIndex hash key]?.bind fun slice ↦ slice.contents key

structure Serving [Inhabited K] (c : KHashLfuCache K V) : Prop where
  sliceNum_pos : 0 < c.sliceNum_
  length : c.lfuSliceCaches_.length = c.sliceNum_
  slices : ∀ slice ∈ c.lfuSliceCaches_, slice.Serving

variable [Inhabited K]

theorem Serving.slice_eq (hc : c.Serving) (hash : K → ℕ) (key : K) :
    ∃ slice, c.lfuSliceCaches_[c.sliceIndex hash key]? = some slice ∧ slice.Serving ∧
      c.contents hash key = slice.contents key := by
  have hlt : c.sliceIndex hash key < c.lfuSliceCaches_.length := by
    rw [hc.length]
    exact Nat.mod_lt _ hc.sliceNum_pos
  obtain ⟨slice, hslice⟩ : ∃ slice, c.lfuSliceCaches_[c.sliceIndex hash key]? = some slice :=
    ⟨_, List.getElem?_eq_getElem hlt⟩
  refine ⟨slice, hslice, hc.slices slice (List.mem_of_getElem? hslice), ?_⟩
  simp only [contents, hslice, Option.bind_some]

def withSlice (hash : K → ℕ) (c : KHashLfuCache K V) (key : K) (slice : KLfuCache K V) :
    KHashLfuCache K V :=
  { c with lfuSliceCaches_ := c.lfuSliceCaches_.set (c.sliceIndex hash key) slice }

theorem Serving.withSlice (hc : c.Serving) (hslice : slice.Serving) (hash : K → ℕ) (key : K) :
    (c.withSlice hash key slice).Serving where
  sliceNum_pos := hc.sliceNum_pos
  length := (List.length_set ..).trans hc.length
  slices s hs := by
    rcases List.mem_or_eq_of_mem_set hs with h | rfl
    · exact hc.slices s h
    · exact hslice

theorem contents_withSlice (hc : c.Serving) (hash : K → ℕ)
    (key key' : K) (slice : KLfuCache K V) :
    (c.withSlice hash key slice).contents hash key' =
      if c.sliceIndex hash key' = c.sliceIndex hash key then slice.contents key'
      else c.contents hash key' := by
  have hlt : c.sliceIndex hash key < c.lfuSliceCaches_.length := by
    rw [hc.length]
    exact Nat.mod_lt _ hc.sliceNum_pos
  change ((c.lfuSliceCaches_.set (c.sliceIndex hash key) slice)[c.sliceIndex hash key']?.bind
    fun slice ↦ slice.contents key') = _
  rw [List.getElem?_set]
  split
  · next h => rw [if_pos h.symm, Option.bind_some]
  · next h =>
    rw [if_neg (Ne.symm h)]
    rfl

theorem get_spec (hc : c.Serving) (hash : K → ℕ) (key : K) (order : IterationOrder) :
    ∃ d, c.get hash key order = some (c.contents hash key, d) ∧ d.Serving ∧
      ∀ key', d.contents hash key' = c.contents hash key' := by
  obtain ⟨slice, hslice, hserving, hcontents⟩ := hc.slice_eq hash key
  obtain ⟨slice', hget, hserving', hsame⟩ := KLfuCache.get_spec hserving key order
  refine ⟨c.withSlice hash key slice', ?_, hc.withSlice hserving' hash key, fun key' ↦ ?_⟩
  · simp only [get, hslice, hget, hcontents, Option.bind_eq_bind, Option.bind_some]
    rfl
  · rw [contents_withSlice hc]
    split
    · next h => simp only [hsame, contents, h, hslice, Option.bind_some]
    · rfl

theorem put_spec (hc : c.Serving) (hash : K → ℕ) (hkey : key ≠ default) (value : V)
    (order : IterationOrder) :
    ∃ d, c.put hash key value order = some d ∧ d.Serving ∧
      ∀ key' v, d.contents hash key' = some v →
        if key' = key then v = value else c.contents hash key' = some v := by
  obtain ⟨slice, hslice, hserving, -⟩ := hc.slice_eq hash key
  obtain ⟨slice', hput, hserving', -, -, hother⟩ := KLfuCache.put_spec hserving hkey value order
  refine ⟨c.withSlice hash key slice', ?_, hc.withSlice hserving' hash key, fun key' v hv ↦ ?_⟩
  · simp only [put, hslice, hput, Option.bind_eq_bind, Option.bind_some]
    rfl
  · rw [contents_withSlice hc] at hv
    split at hv
    · next h =>
      have hold : c.contents hash key' = slice.contents key' := by
        simp only [contents, h, hslice, Option.bind_some]
      exact hold ▸ hother key' v hv
    · next h =>
      have hne : key' ≠ key := fun heq ↦ h (congrArg _ heq)
      rwa [if_neg hne]

theorem create_serving [Inhabited V] (capacity : ℕ) {sliceNum : ℤ} (hslice : 1 ≤ sliceNum)
    (maxAverageNum : ℤ) (hardwareConcurrency : ℕ) :
    (create capacity sliceNum maxAverageNum hardwareConcurrency : KHashLfuCache K V).Serving := by
  have hnum : 0 < sliceNum := hslice
  have hn : 0 < sliceNum.toNat := by omega
  simp only [create, if_pos hnum]
  refine ⟨hn, List.length_replicate, fun slice hmem ↦ ?_⟩
  rw [List.eq_of_mem_replicate hmem]
  apply KLfuCache.create_serving

theorem contents_create [Inhabited V] (hash : K → ℕ) (capacity : ℕ)
    (sliceNum maxAverageNum : ℤ) (hardwareConcurrency : ℕ) (key : K) :
    (create capacity sliceNum maxAverageNum hardwareConcurrency : KHashLfuCache K V).contents
      hash key = none := by
  simp only [contents, create, List.getElem?_replicate]
  split_ifs <;> rfl

end KHashLfuCache

end CppAiService
