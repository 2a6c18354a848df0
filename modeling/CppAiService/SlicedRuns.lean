import CppAiService.HashLfuCache
import CppAiService.LfuVictim

namespace CppAiService.KHashLfuCache

open KLfuCache (Op)

variable {K V : Type}

/-- A new cache whose slices have exactly the rounded-up share of the capacity. -/
def sliced [Inhabited K] [Inhabited V] (capacity sliceNum : ℕ) (maxAverageNum : ℤ) :
    KHashLfuCache K V where
  capacity_ := capacity
  sliceNum_ := sliceNum
  lfuSliceCaches_ := List.replicate sliceNum
    (KLfuCache.create (ceilSlice capacity sliceNum) maxAverageNum)

def step [DecidableEq K] [Inhabited K] (hash : K → ℕ) (c : KHashLfuCache K V) :
    Op K V → Option (KHashLfuCache K V)
  | .put key value order => c.put hash key value order
  | .get key order => (c.get hash key order).map Prod.snd
  | .purge => some c.purge

abbrev run [DecidableEq K] [Inhabited K] (hash : K → ℕ) (c : KHashLfuCache K V)
    (ops : List (Op K V)) : Option (KHashLfuCache K V) :=
  Foundation.Run.run (step hash) c ops

/-- The operation is on a key of this slice, or on all slices. -/
def ofSlice (hash : K → ℕ) (n i : ℕ) (op : Op K V) : Bool :=
  op.key?.all fun key ↦ hash key % n = i

def sliceOps (hash : K → ℕ) (n i : ℕ) (ops : List (Op K V)) : List (Op K V) :=
  ops.filter (ofSlice hash n i)

theorem create_eq_sliced [Inhabited K] [Inhabited V] {capacity sliceNum : ℕ} (hn : 1 ≤ sliceNum)
    (hcap : capacity < 2 ^ 53) (hsize : ceilSlice capacity sliceNum < 2 ^ 31) (maxAverageNum : ℤ)
    (hardwareConcurrency : ℕ) :
    (create capacity sliceNum maxAverageNum hardwareConcurrency : KHashLfuCache K V) =
      sliced capacity sliceNum maxAverageNum := by
  have hpos : (0 : ℤ) < sliceNum := by omega
  have hint : intOfSizeT (ceilSlice capacity sliceNum) = ceilSlice capacity sliceNum :=
    wrap32_eq_self (by omega) (by omega)
  simp only [create, sliced, if_pos hpos, Int.toNat_natCast, sliceSize_eq hcap hn, hint]

theorem one_le_ceilSlice_int {capacity sliceNum : ℕ} (hcap : 1 ≤ capacity) (hn : 1 ≤ sliceNum) :
    (1 : ℤ) ≤ ceilSlice capacity sliceNum := by
  exact_mod_cast one_le_ceilSlice hcap hn

theorem length_sliceOps_lt (hash : K → ℕ) (n i : ℕ) {ops : List (Op K V)} {bound : ℕ}
    (h : ops.length < bound) : (sliceOps hash n i ops).length < bound :=
  (List.length_filter_le ..).trans_lt h

theorem set_map_range {α : Type} {f g : ℕ → α} {n i : ℕ} (hi : i < n)
    (hother : ∀ j < n, j ≠ i → g j = f j) :
    ((List.range n).map f).set i (g i) = (List.range n).map g := by
  refine List.ext_getElem? fun j ↦ ?_
  rw [List.getElem?_set, List.getElem?_map, List.getElem?_map]
  split_ifs with hij hlt
  · subst hij
    rw [List.getElem?_range hi, Option.map_some]
  · simp only [List.length_map, List.length_range] at hlt
    omega
  · by_cases hj : j < n
    · rw [List.getElem?_range hj, Option.map_some, Option.map_some, hother j hj (Ne.symm hij)]
    · rw [List.getElem?_eq_none (by simpa using hj), Option.map_none, Option.map_none]

variable [DecidableEq K] [Inhabited K] {hash : K → ℕ} {c : KHashLfuCache K V} {n : ℕ}
  {f g : ℕ → KLfuCache K V}

/-- An operation changes the slice of its key as it would alone, and no other slice. -/
theorem step_of_slices (hpos : 0 < c.sliceNum_)
    (hc : c.lfuSliceCaches_ = (List.range c.sliceNum_).map f) {op : Op K V}
    (h : ∀ i < c.sliceNum_, if ofSlice hash c.sliceNum_ i op then
      KLfuCache.step (f i) op = some (g i) else g i = f i) :
    step hash c op = some { c with lfuSliceCaches_ := (List.range c.sliceNum_).map g } := by
  have hslice : ∀ key, c.lfuSliceCaches_[hash key % c.sliceNum_]? =
      some (f (hash key % c.sliceNum_)) := by
    intro key
    rw [hc, List.getElem?_map, List.getElem?_range (Nat.mod_lt _ hpos), Option.map_some]
  have hkeyed : ∀ key, op.key? = some key →
      KLfuCache.step (f (hash key % c.sliceNum_)) op = some (g (hash key % c.sliceNum_)) ∧
      ((List.range c.sliceNum_).map f).set (hash key % c.sliceNum_) (g (hash key % c.sliceNum_)) =
        (List.range c.sliceNum_).map g := by
    intro key hkey
    have hlt := Nat.mod_lt (hash key) hpos
    simp only [ofSlice, hkey, Option.all_some, decide_eq_true_eq] at h
    have hown := h _ hlt
    rw [if_pos rfl] at hown
    refine ⟨hown, set_map_range hlt fun j hj hne ↦ ?_⟩
    have hother := h j hj
    rwa [if_neg (Ne.symm hne)] at hother
  cases op with
  | put key value order =>
    obtain ⟨hput, hset⟩ := hkeyed key rfl
    simp only [step, put, sliceIndex, hslice, Option.bind_eq_bind, Option.bind_some]
    rw [KLfuCache.step] at hput
    rw [hput, Option.bind_some, hc, hset]
    rfl
  | get key order =>
    obtain ⟨hget, hset⟩ := hkeyed key rfl
    rw [KLfuCache.step, Option.map_eq_some_iff] at hget
    obtain ⟨⟨value, slice⟩, hget, hslice'⟩ := hget
    obtain rfl : slice = _ := hslice'
    simp only [step, get, sliceIndex, hslice, hget, Option.bind_eq_bind, Option.bind_some]
    rw [hc, hset]
    rfl
  | purge =>
    have hpurge : (List.range c.sliceNum_).map (KLfuCache.purge ∘ f) =
        (List.range c.sliceNum_).map g := by
      refine List.map_congr_left fun i hi ↦ ?_
      have hstep := h i (List.mem_range.1 hi)
      simp only [ofSlice, Op.key?, Option.all_none, if_true] at hstep
      exact Option.some.inj hstep
    rw [step, purge, hc, List.map_map, hpurge]

def sliceStep (hash : K → ℕ) (n : ℕ) (op : Op K V) (f : ℕ → KLfuCache K V) (i : ℕ) :
    KLfuCache K V :=
  if ofSlice hash n i op then (KLfuCache.step (f i) op).getD (f i) else f i

/-- The slices run apart, each on the operations of its own. -/
theorem run_of_slices (hpos : 0 < c.sliceNum_)
    (hc : c.lfuSliceCaches_ = (List.range c.sliceNum_).map f) {ops : List (Op K V)}
    (h : ∀ i < c.sliceNum_, KLfuCache.run (f i) (sliceOps hash c.sliceNum_ i ops) = some (g i)) :
    run hash c ops = some { c with lfuSliceCaches_ := (List.range c.sliceNum_).map g } := by
  induction ops generalizing c f with
  | nil =>
    have hsame : (List.range c.sliceNum_).map f = (List.range c.sliceNum_).map g :=
      List.map_congr_left fun i hi ↦ Option.some.inj (h i (List.mem_range.1 hi))
    rw [run, Foundation.Run.run_nil, ← hsame, ← hc]
  | cons op ops ih =>
    have hnext : ∀ i < c.sliceNum_, (if ofSlice hash c.sliceNum_ i op then
        KLfuCache.step (f i) op = some (sliceStep hash c.sliceNum_ op f i)
        else sliceStep hash c.sliceNum_ op f i = f i) ∧
        KLfuCache.run (sliceStep hash c.sliceNum_ op f i) (sliceOps hash c.sliceNum_ i ops) =
          some (g i) := by
      intro i hi
      have hrun := h i hi
      by_cases hop : ofSlice hash c.sliceNum_ i op
      · rw [sliceOps, List.filter_cons_of_pos hop, KLfuCache.run, Foundation.Run.run_cons,
          Option.bind_eq_some_iff] at hrun
        obtain ⟨d, hd, hrun⟩ := hrun
        simp only [sliceStep, hop, if_true, hd, Option.getD_some, true_and]
        exact hrun
      · rw [sliceOps, List.filter_cons_of_neg hop] at hrun
        simp only [sliceStep, hop, Bool.false_eq_true, if_false, true_and]
        exact hrun
    have hstep := step_of_slices hpos hc fun i hi ↦ (hnext i hi).1
    rw [run, Foundation.Run.run_cons, hstep, Option.bind_some]
    exact ih (c := { c with lfuSliceCaches_ := (List.range c.sliceNum_).map _ }) hpos rfl
      fun i hi ↦ (hnext i hi).2

variable [Inhabited V]

theorem slice_bounded (hash : K → ℕ) {capacity : ℕ} (hcap : 1 ≤ capacity) (hn : 1 ≤ n)
    {ops : List (Op K V)} (hlen : ops.length < 2 ^ 31) (i : ℕ) :
    ∃ slice, KLfuCache.run (KLfuCache.create (ceilSlice capacity n) 10) (sliceOps hash n i ops) =
      some slice ∧ slice.Bounded := by
  obtain ⟨slice, hslice, hbounded, -⟩ := KLfuCache.run_bounded (one_le_ceilSlice_int hcap hn)
    (by decide : (2 : ℤ) ≤ 10) (by decide) _ (length_sliceOps_lt hash n i hlen)
  exact ⟨slice, hslice, hbounded⟩

theorem run_sliced (hash : K → ℕ) {capacity : ℕ} (hcap : 1 ≤ capacity) (hn : 1 ≤ n)
    (ops : List (Op K V)) (hlen : ops.length < 2 ^ 31) : ∃ g : ℕ → KLfuCache K V,
      run hash (sliced capacity n 10) ops = some ⟨capacity, n, (List.range n).map g⟩ ∧
      ∀ i < n, KLfuCache.run (KLfuCache.create (ceilSlice capacity n) 10)
        (sliceOps hash n i ops) = some (g i) := by
  choose g hg hbounded using slice_bounded hash hcap hn hlen
  have hstart : (sliced capacity n 10 : KHashLfuCache K V).lfuSliceCaches_ =
      (List.range n).map fun _ ↦ KLfuCache.create (ceilSlice capacity n) 10 := by
    rw [List.map_const', List.length_range]
    rfl
  exact ⟨g, run_of_slices (c := sliced capacity n 10) hn hstart fun i _ ↦ hg i, fun i _ ↦ hg i⟩

end CppAiService.KHashLfuCache
