import CppAiService.CacheLookup
import CppAiService.LfuCapacity
import Mathlib.Data.Finset.Card

namespace CppAiService

namespace KLfuCache

variable {K V : Type}

def Op.putKey? : Op K V → Option K
  | .put key _ _ => some key
  | .get _ _ => none
  | .purge => none

def putKeys (ops : List (Op K V)) : List K := ops.filterMap Op.putKey?

variable [DecidableEq K] [Inhabited K] {c d : KLfuCache K V} {key : K} {value : V}
  {order : IterationOrder} {ops : List (Op K V)} {op : Op K V} {capacity : ℕ}

/-- A slice of this capacity after these puts and gets: it holds what was put, up to its
capacity. -/
structure Sized (capacity : ℕ) (ops : List (Op K V)) (c : KLfuCache K V) : Prop where
  bounded : c.Bounded
  configured : c.Configured capacity 10
  put : ∀ key, c.contents key ≠ none → key ∈ putKeys ops
  spare : c.size < capacity → ∀ key ∈ putKeys ops, c.contents key ≠ none

omit [Inhabited K] in
theorem size_eq_card (c : KLfuCache K V) : c.size = c.nodeMap_.keys.toFinset.card := by
  rw [List.toFinset_card_of_nodup c.nodeMap_.keys_nodup, size]

omit [Inhabited K] in
theorem mem_keys_iff : key ∈ c.nodeMap_.keys ↔ c.contents key ≠ none := by
  rw [ne_eq, contents_eq_none_iff, not_not]
  rfl

omit [Inhabited K] in
theorem size_congr (h : ∀ key, d.contents key = c.contents key) : d.size = c.size := by
  rw [size_eq_card, size_eq_card]
  congr 1
  ext key
  rw [List.mem_toFinset, List.mem_toFinset, mem_keys_iff, mem_keys_iff, h]

omit [DecidableEq K] [Inhabited K] in
theorem mem_putKeys_concat :
    key ∈ putKeys (ops ++ [op]) ↔ key ∈ putKeys ops ∨ op.putKey? = some key := by
  rw [putKeys, List.filterMap_append, List.mem_append]
  cases hop : op.putKey? with
  | none => simp [putKeys, hop]
  | some key' => simp [putKeys, hop, eq_comm]

omit [Inhabited K] in
theorem Sized.size_eq (h : Sized capacity ops c) :
    c.size = min capacity (putKeys ops).toFinset.card := by
  have hle : c.size ≤ capacity := by
    have hbound := h.bounded.ranked.size_le
    rw [h.configured.capacity_] at hbound
    exact_mod_cast hbound
  have hsub : c.nodeMap_.keys.toFinset ⊆ (putKeys ops).toFinset := by
    intro key hkey
    rw [List.mem_toFinset] at hkey ⊢
    exact h.put key (mem_keys_iff.1 hkey)
  have hcard := Finset.card_le_card hsub
  rw [← size_eq_card] at hcard
  by_cases hspare : c.size < capacity
  · have hsup : (putKeys ops).toFinset ⊆ c.nodeMap_.keys.toFinset := by
      intro key hkey
      rw [List.mem_toFinset] at hkey ⊢
      exact mem_keys_iff.2 (h.spare hspare key hkey)
    have hcard' := Finset.card_le_card hsup
    rw [← size_eq_card] at hcard'
    omega
  · omega

/-- A put never leaves fewer entries. -/
theorem Bounded.size_le_of_put (hc : c.Bounded) (hcap : 1 ≤ c.capacity_)
    (h : c.Stepped (.put key value order) d) : c.size ≤ d.size := by
  cases h with
  | hit key' node value' hop hlookup haccessed =>
    have hnode : node ∈ (c.setValue node value').ptrs := mem_ptrs.2 ⟨key', hlookup⟩
    have hset := hc.ranked.sound.linked.setValue node value'
    have hptrs := haccessed.reweighed.ptrs.trans (reweighed_touched hset hnode).ptrs
    have hsame : d.ptrs = c.ptrs := hptrs
    rw [← length_ptrs, ← length_ptrs, hsame]
  | @inserted e f key value order hkey hroom haccessed =>
    have hsize : f.size = e.size + 1 := by
      rw [← length_ptrs, haccessed.reweighed.ptrs, ptrs_insertNode (hroom.notMem hkey),
        List.length_cons, length_ptrs]
    change c.size ≤ f.size
    cases hroom with
    | spare => omega
    | evicted hfull node rest hlist =>
      have hevicted := size_evicted hc.ranked.sound.linked
        (kickOut_eq hc.ranked.sound.linked hlist).1
      omega
    | sentinel hfull hlist =>
      have hexact := hc.minUsable.exact_of_full hcap hfull
      exact absurd hlist (hexact.listAt_ne_nil hc.ranked.sound.linked)

theorem Sized.step (h : Sized capacity ops c) (hpurge : op ≠ .purge)
    (ht : c.curTotalNum_ < INT_MAX) :
    ∃ d, KLfuCache.step c op = some d ∧ Sized capacity (ops ++ [op]) d := by
  have ht' : c.curTotalNum_ + 1 < 2 ^ 31 := Int.add_lt_of_lt_sub_right ht
  have hcap : 1 ≤ c.capacity_ := h.configured.capacity_ ▸ h.configured.capacity_pos
  obtain ⟨d, hd, hstepped, hadv⟩ :=
    h.bounded.ranked.step h.bounded.minUsable h.configured ht' op
  have hbounded := hstepped.bounded h.bounded h.configured (by decide) (by decide) ht'
    hadv.ranked.sound
  refine ⟨d, hd, hbounded, h.configured.of_eq hadv.capacity_ hadv.maxAverageNum_, ?_, ?_⟩
  · intro key hkey
    rw [mem_putKeys_concat]
    cases op with
    | put key' value' order =>
      by_cases he : key = key'
      · exact .inr (congrArg some he.symm)
      · obtain hsame | ⟨hgone, -⟩ := (h.bounded.contents_of_put hcap hstepped).2 key he
        · exact .inl (h.put key (hsame ▸ hkey))
        · exact absurd hgone hkey
    | get key' order =>
      rw [hstepped.contents_of_get h.bounded.ranked.sound] at hkey
      exact .inl (h.put key hkey)
    | purge => exact absurd rfl hpurge
  · intro hspare key hkey
    rw [mem_putKeys_concat] at hkey
    cases op with
    | put key' value' order =>
      have hle := h.bounded.size_le_of_put hcap hstepped
      obtain ⟨hself, hother⟩ := h.bounded.contents_of_put hcap hstepped
      by_cases he : key = key'
      · rw [he, hself]
        exact Option.some_ne_none _
      · have hkey : key ∈ putKeys ops := hkey.resolve_right fun hput ↦
          he (Option.some.inj hput).symm
        obtain hsame | ⟨-, -, hfull⟩ := hother key he
        · rw [hsame]
          exact h.spare (by omega) key hkey
        · have hcapacity := h.configured.capacity_
          omega
    | get key' order =>
      have hsame := hstepped.contents_of_get h.bounded.ranked.sound
      rw [size_congr hsame] at hspare
      rw [hsame]
      exact h.spare hspare key (hkey.resolve_right (Option.some_ne_none _).symm)
    | purge => exact absurd rfl hpurge

theorem create_sized [Inhabited V] (hcap : 1 ≤ capacity) :
    Sized capacity [] (create capacity 10 : KLfuCache K V) where
  bounded := ⟨create_ranked (by omega) 10, fun hne ↦ absurd rfl hne, fun hne ↦ absurd rfl hne⟩
  configured := ⟨rfl, by omega, rfl, by decide, by decide⟩
  put _ h := absurd rfl h
  spare _ _ h := absurd h List.not_mem_nil

end KLfuCache

namespace KHashLfuCache

open KLfuCache (Op putKeys Sized INT_MAX)

variable {K V : Type}

def total (c : KHashLfuCache K V) : ℕ := (c.lfuSliceCaches_.map KLfuCache.size).sum

/-- No slice's counter is at its last value. -/
def Countable (c : KHashLfuCache K V) : Prop :=
  ∀ slice ∈ c.lfuSliceCaches_, slice.curTotalNum_ < INT_MAX

instance (c : KHashLfuCache K V) : Decidable c.Countable :=
  inferInstanceAs (Decidable (∀ slice ∈ _, _))

/-- For each slice the distinct keys put into it, as far as they fit, summed up. -/
def filled [DecidableEq K] (hash : K → ℕ) (capacity n : ℕ) (ops : List (Op K V)) : ℕ :=
  ((List.range n).map fun i ↦ min (ceilSlice capacity n)
    ((putKeys ops).filter fun key ↦ hash key % n = i).toFinset.card).sum

theorem putKeys_sliceOps (hash : K → ℕ) (n i : ℕ) (ops : List (Op K V)) :
    putKeys (sliceOps hash n i ops) = (putKeys ops).filter fun key ↦ hash key % n = i := by
  rw [putKeys, sliceOps, List.filterMap_filter, putKeys, List.filter_filterMap]
  congr 1
  funext op
  cases op with
  | put key value order => simp [ofSlice, Op.key?, Op.putKey?, Option.filter]
  | get key order => simp [ofSlice, Op.key?, Op.putKey?]
  | purge => simp [ofSlice, Op.key?, Op.putKey?]

variable [DecidableEq K] [Inhabited K] [Inhabited V] {hash : K → ℕ} {capacity n : ℕ}
  {ops : List (Op K V)}

omit [Inhabited K] [Inhabited V] in
theorem filled_mono (before after : List (Op K V)) :
    filled hash capacity n before ≤ filled hash capacity n (before ++ after) := by
  refine List.sum_le_sum fun i _ ↦ min_le_min_left _ (Finset.card_le_card ?_)
  intro key hkey
  rw [List.mem_toFinset, List.mem_filter] at hkey ⊢
  refine ⟨?_, hkey.2⟩
  rw [putKeys, List.filterMap_append]
  exact List.mem_append_left _ hkey.1

/-- A run of puts and gets, slice by slice. -/
theorem run_sized (hcap : 1 ≤ capacity) (hn : 1 ≤ n) (hops : ∀ op ∈ ops, op ≠ .purge)
    (hok : Foundation.Run.Along (step hash) (fun c _ ↦ c.Countable) (sliced capacity n 10) ops) :
    ∃ g : ℕ → KLfuCache K V, run hash (sliced capacity n 10) ops =
        some ⟨capacity, n, (List.range n).map g⟩ ∧
      ∀ i < n, Sized (ceilSlice capacity n) (sliceOps hash n i ops) (g i) := by
  induction ops using List.reverseRecOn with
  | nil =>
    refine ⟨fun _ ↦ KLfuCache.create (ceilSlice capacity n) 10, ?_, fun i _ ↦
      KLfuCache.create_sized (one_le_ceilSlice hcap hn)⟩
    rw [List.map_const', List.length_range]
    rfl
  | append_singleton ops op ih =>
    rw [Foundation.Run.along_concat] at hok
    obtain ⟨g, hg, hsized⟩ := ih (fun op hmem ↦ hops op (by simp [hmem])) hok.1
    have hcount := hok.2 _ hg
    have hnext : ∀ i < n, (if ofSlice hash n i op then
        KLfuCache.step (g i) op = some (sliceStep hash n op g i)
        else sliceStep hash n op g i = g i) ∧
        Sized (ceilSlice capacity n) (sliceOps hash n i (ops ++ [op])) (sliceStep hash n op g i) := by
      intro i hi
      have hmem : g i ∈ (List.range n).map g := List.mem_map_of_mem (List.mem_range.2 hi)
      by_cases hop : ofSlice hash n i op
      · obtain ⟨d, hd, hsize⟩ := (hsized i hi).step (hops op (by simp)) (hcount _ hmem)
        rw [sliceOps, List.filter_append, List.filter_cons_of_pos hop, List.filter_nil]
        simp only [sliceStep, hop, if_true, hd, Option.getD_some, true_and]
        exact hsize
      · rw [sliceOps, List.filter_append, List.filter_cons_of_neg hop, List.filter_nil,
          List.append_nil]
        simp only [sliceStep, hop, Bool.false_eq_true, if_false, true_and]
        exact hsized i hi
    refine ⟨sliceStep hash n op g, ?_, fun i hi ↦ (hnext i hi).2⟩
    have hstep := step_of_slices (c := ⟨capacity, n, (List.range n).map g⟩) hn rfl
      fun i hi ↦ (hnext i hi).1
    rw [run] at hg ⊢
    rw [Foundation.Run.run_append, hg, Option.bind_some, Foundation.Run.run_cons, hstep]
    rfl

theorem total_of_run (hcap : 1 ≤ capacity) (hn : 1 ≤ n) (hops : ∀ op ∈ ops, op ≠ .purge)
    (hok : Foundation.Run.Along (step hash) (fun c _ ↦ c.Countable) (sliced capacity n 10) ops) :
    ∃ c, run hash (sliced capacity n 10) ops = some c ∧
      c.total = filled hash capacity n ops := by
  obtain ⟨g, hg, hsized⟩ := run_sized hcap hn hops hok
  refine ⟨_, hg, ?_⟩
  rw [total, filled, List.map_map]
  congr 1
  refine List.map_congr_left fun i hi ↦ ?_
  rw [Function.comp_apply, (hsized i (List.mem_range.1 hi)).size_eq, putKeys_sliceOps]

/-- The configured capacity holds in every state of a run exactly when the slices, each
rounded up, have no more to take. -/
theorem capacity_bounds_iff (hcap : 1 ≤ capacity) (hint : capacity < 2 ^ 31) (hn : 1 ≤ n)
    (hardwareConcurrency : ℕ) (hops : ∀ op ∈ ops, op ≠ .purge)
    (hok : Foundation.Run.Along (step hash) (fun c _ ↦ c.Countable)
      (create capacity n 10 hardwareConcurrency) ops) :
    (∀ before after, ops = before ++ after →
      ∃ c : KHashLfuCache K V, run hash (create capacity n 10 hardwareConcurrency) before = some c ∧
        c.total ≤ capacity) ↔ filled hash capacity n ops ≤ capacity := by
  have hsize : ceilSlice capacity n < 2 ^ 31 := by
    rw [ceilSlice]
    refine lt_of_le_of_lt (Nat.div_le_of_le_mul ?_) hint
    obtain ⟨k, rfl⟩ := Nat.exists_eq_add_of_le' hcap
    obtain ⟨m, rfl⟩ := Nat.exists_eq_add_of_le' hn
    rw [Nat.add_mul, Nat.mul_add]
    omega
  rw [create_eq_sliced hn (hint.trans (by decide)) hsize] at hok ⊢
  constructor
  · intro h
    obtain ⟨c, hc, hle⟩ := h ops [] (List.append_nil ops).symm
    obtain ⟨c', hc', htotal⟩ := total_of_run hcap hn hops hok
    obtain rfl := Option.some.inj (hc.symm.trans hc')
    exact htotal ▸ hle
  · rintro h before after rfl
    obtain ⟨c, hc, htotal⟩ := total_of_run hcap hn
      (fun op hmem ↦ hops op (List.mem_append_left _ hmem)) hok.of_append
    exact ⟨c, hc, htotal ▸ (filled_mono before after).trans h⟩

omit [Inhabited K] [Inhabited V] in
/-- Equal slices do not exceed it. -/
theorem filled_le_of_dvd (hn : 1 ≤ n) (hdvd : n ∣ capacity) (hash : K → ℕ)
    (ops : List (Op K V)) : filled hash capacity n ops ≤ capacity := by
  obtain ⟨m, rfl⟩ := hdvd
  have hshare : ceilSlice (n * m) n = m := by
    rw [ceilSlice, Nat.add_sub_assoc hn, Nat.mul_add_div hn, Nat.div_eq_of_lt (by omega),
      Nat.add_zero]
  refine (List.sum_le_card_nsmul _ m fun k hk ↦ ?_).trans ?_
  · obtain ⟨i, -, rfl⟩ := List.mem_map.1 hk
    rw [hshare]
    exact min_le_left _ _
  · rw [List.length_map, List.length_range]
    exact le_rfl

def twoKeys : List (Op ℕ ℕ) := [.put 0 7 .stored, .put 1 8 .stored]

theorem capacity_one_exceeded : ¬ ∀ (capacity n : ℕ) (hash : ℕ → ℕ) (ops : List (Op ℕ ℕ))
    (hardwareConcurrency : ℕ) (c : KHashLfuCache ℕ ℕ), 1 ≤ capacity → 1 ≤ n →
    (∀ op ∈ ops, op ≠ .purge) →
    run hash (create capacity n 10 hardwareConcurrency) ops = some c → c.total ≤ capacity := by
  intro h
  have hsome : ((run id (create 1 4 10 1 : KHashLfuCache ℕ ℕ) twoKeys).map total) = some 2 := by
    decide +kernel
  obtain ⟨c, hc, htotal⟩ := Option.map_eq_some_iff.1 hsome
  have hle := h 1 4 id twoKeys 1 c (by decide) (by decide) (by simp [twoKeys]) hc
  omega

theorem capacity_of_four_kept :
    ∃ c : KHashLfuCache ℕ ℕ, run id (create 4 4 10 1) twoKeys = some c ∧ c.total ≤ 4 :=
  (capacity_bounds_iff (by decide) (by decide) (by decide) 1 (by simp [twoKeys])
    (by decide +kernel)).2 (filled_le_of_dvd (by decide) (by decide) id twoKeys) twoKeys [] rfl

end KHashLfuCache

end CppAiService
