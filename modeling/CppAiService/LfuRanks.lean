import CppAiService.LfuOperations
import Mathlib.Algebra.Order.BigOperators.Group.List

namespace CppAiService.KLfuCache

variable {K V : Type} [DecidableEq K] {c d : KLfuCache K V} {node : NodePtr} {key : K} {total : ℤ}
  {g : NodePtr → ℤ}

/-- The frequencies are positive and their sum is within a total that fits an `int`. -/
structure Weighed (c : KLfuCache K V) (total : ℤ) : Prop where
  pos : ∀ f ∈ c.freqs, 1 ≤ f
  sum_le : c.freqs.sum ≤ total
  total_lt : total < 2 ^ 31

omit [DecidableEq K] in
theorem Weighed.le_total (h : c.Weighed total) (hnode : node ∈ c.ptrs) :
    1 ≤ c.freq node ∧ c.freq node ≤ total := by
  have hmem : c.freq node ∈ c.freqs := mem_freqs.2 ⟨node, hnode, rfl⟩
  have hle := List.single_le_sum (fun f hf ↦ (zero_le_one.trans (h.pos f hf) : (0 : ℤ) ≤ f)) _ hmem
  exact ⟨h.pos _ hmem, hle.trans h.sum_le⟩

omit [DecidableEq K] in
theorem Weighed.total_nonneg (h : c.Weighed total) : 0 ≤ total :=
  (List.sum_nonneg fun f hf ↦ (zero_le_one.trans (h.pos f hf) : (0 : ℤ) ≤ f)).trans h.sum_le

theorem Reweighed.freqs (h : c.Reweighed d g) : d.freqs = c.ptrs.map g := by
  rw [KLfuCache.freqs, h.ptrs]
  exact List.map_congr_left fun x _ ↦ h.freq x

theorem aged_eq {m f : ℤ} (hm : 1 ≤ m) (hm' : m < 2 ^ 31) (hf : 1 ≤ f) (hf' : f < 2 ^ 31) :
    aged m f = max 1 (f - m / 2) := by
  have hdiv : m.tdiv 2 = m / 2 := Int.tdiv_eq_ediv_of_nonneg (by omega)
  unfold aged
  rw [hdiv, wrap32_eq_self (by omega) (by omega)]
  split <;> omega

omit [DecidableEq K] in
theorem over_iff (h : 0 ≤ c.curTotalNum_) (h' : c.curTotalNum_ + 1 < 2 ^ 31) (hne : c.ptrs ≠ []) :
    c.Over ↔ c.maxAverageNum_ < (c.curTotalNum_ + 1) / c.size := by
  have hsize : c.size ≠ 0 := by
    rw [← length_ptrs]
    exact fun h ↦ hne (List.eq_nil_of_length_eq_zero h)
  have havg : c.counted.curAverageNum_ = (c.curTotalNum_ + 1) / c.size := by
    change (if c.size = 0 then 0 else intOfSizeT (sizeTOfInt (wrap32 _) / c.size)) = _
    rw [if_neg hsize, wrap32_eq_self (by omega) h', intOfSizeT_div (by omega) h']
  rw [Over, havg]

section Hit

theorem sum_map_update {nodes : List NodePtr} (hnodup : nodes.Nodup) (h : node ∈ nodes)
    (g : NodePtr → ℤ) (f : ℤ) :
    (nodes.map (Function.update g node f)).sum = (nodes.map g).sum - g node + f := by
  have hperm := List.perm_cons_erase h
  have hrest : (nodes.erase node).map (Function.update g node f) = (nodes.erase node).map g := by
    refine List.map_congr_left fun x hx ↦ Function.update_of_ne ?_ _ _
    exact (hnodup.mem_erase_iff.1 hx).1
  rw [(hperm.map _).sum_eq, (hperm.map g).sum_eq, List.map_cons, List.map_cons, List.sum_cons,
    List.sum_cons, hrest, Function.update_self]
  omega

variable (hc : c.Linked) (h : node ∈ c.ptrs) (hw : c.Weighed total) (ht : total + 1 < 2 ^ 31)
include hc h hw ht

theorem Weighed.freq_touched (x : NodePtr) :
    (c.touched node).freq x = if x = node then c.freq node + 1 else c.freq x := by
  have hle := hw.le_total h
  rw [KLfuCache.freq_touched hc h, wrap32_eq_self (by omega) (by omega)]

theorem Weighed.sum_touched : (c.touched node).freqs.sum = c.freqs.sum + 1 := by
  have hle := hw.le_total h
  rw [(reweighed_touched hc h).freqs, sum_map_update hc.nodup_ptrs h,
    wrap32_eq_self (by omega) (by omega), KLfuCache.freqs]
  omega

theorem Weighed.touched : (c.touched node).Weighed (total + 1) := by
  refine ⟨fun f hf ↦ ?_, ?_, ht⟩
  · obtain ⟨x, hx, rfl⟩ := mem_freqs.1 hf
    rw [hw.freq_touched hc h ht]
    rw [(reweighed_touched hc h).ptrs] at hx
    split
    · have := (hw.le_total h).1
      omega
    · exact (hw.le_total hx).1
  · rw [hw.sum_touched hc h ht]
    have := hw.sum_le
    omega

theorem Weighed.minFreq_touched (hmin : 1 ≤ c.minFreq_) :
    (c.touched node).minFreq_ =
      if c.freq node = c.minFreq_ ∧ (c.touched node).listAt c.minFreq_ = [] then c.minFreq_ + 1
      else c.minFreq_ := by
  have hle := hw.le_total h
  have hf : (c.promoted node).freq node = c.freq node + 1 :=
    (hw.freq_touched hc h ht node).trans (if_pos rfl)
  change (c.promoted node).advancedMinFreq node = _
  unfold advancedMinFreq
  rw [hf, add_sub_cancel_right, wrap32_eq_self (by omega) (by omega)]
  change (if c.freq node = c.minFreq_ ∧ (c.touched node).listAt c.minFreq_ = [] then
    wrap32 (c.minFreq_ + 1) else c.minFreq_) = _
  split
  · next hadv => rw [wrap32_eq_self (by linarith only [hmin]) (by omega)]
  · rfl

theorem MinExact.touched (hmin : c.MinExact) : (c.touched node).MinExact := by
  have hw' := reweighed_touched hc h
  have hfreq := hw.freq_touched hc h ht
  have hlow : ∀ x ∈ c.ptrs, c.minFreq_ ≤ c.freq x := fun x hx ↦ hmin.2 (mem_freqs.2 ⟨x, hx, rfl⟩)
  obtain ⟨least, hleast, hf⟩ := mem_freqs.1 hmin.1
  have hpos := (hw.le_total hleast).1
  rw [MinExact, hw.minFreq_touched hc h ht (hf ▸ hpos)]
  split
  · next hadv =>
    refine ⟨mem_freqs.2 ⟨node, hw'.ptrs ▸ h, ?_⟩, fun f hf' ↦ ?_⟩
    · rw [hfreq, if_pos rfl, hadv.1]
    · obtain ⟨x, hx, rfl⟩ := mem_freqs.1 hf'
      have hne : (c.touched node).freq x ≠ c.minFreq_ := fun he ↦
        List.not_mem_nil (hadv.2 ▸ (hw'.linked.mem_listAt _ x).2 ⟨hx, he⟩)
      have hle := hlow x (hw'.ptrs ▸ hx)
      rw [hfreq] at hne ⊢
      split at hne <;> split <;> omega
  · next hadv =>
    refine ⟨?_, fun f hf' ↦ ?_⟩
    · by_cases he : c.freq node = c.minFreq_
      · obtain ⟨x, hx⟩ := List.exists_mem_of_ne_nil _ fun hnil ↦ hadv ⟨he, hnil⟩
        exact mem_freqs.2 ⟨x, (hw'.linked.mem_listAt _ x).1 hx⟩
      · refine mem_freqs.2 ⟨least, hw'.ptrs ▸ hleast, ?_⟩
        rw [hfreq, if_neg, hf]
        intro heq
        obtain rfl := heq
        exact he hf
    · obtain ⟨x, hx, rfl⟩ := mem_freqs.1 hf'
      have hle := hlow x (hw'.ptrs ▸ hx)
      rw [hfreq]
      split
      · next he =>
        subst he
        omega
      · exact hle

end Hit

section Access

variable (ha : c.Accessed d) (hw : c.Weighed (c.curTotalNum_ + 1)) (hm : 1 ≤ c.maxAverageNum_)
  (hm' : c.maxAverageNum_ < 2 ^ 31)
include ha hw hm hm'

theorem Accessed.freq (hnode : node ∈ c.ptrs) :
    d.freq node =
      if c.Over then max 1 (c.freq node - c.maxAverageNum_ / 2) else c.freq node := by
  have hle := hw.le_total hnode
  have hlt := hw.total_lt
  rw [ha.reweighed.freq]
  split
  · rw [agedFreq, if_pos hnode, aged_eq hm hm' hle.1 (by omega)]
  · rfl

theorem Accessed.freq_le (hnode : node ∈ c.ptrs) : 1 ≤ d.freq node ∧ d.freq node ≤ c.freq node := by
  have hle := hw.le_total hnode
  rw [ha.freq hw hm hm' hnode]
  split <;> omega

theorem Accessed.weighed (hnonneg : 0 ≤ c.curTotalNum_) : d.Weighed d.curTotalNum_ := by
  have hlt := hw.total_lt
  rw [ha.total, wrap32_eq_self (by omega) (by omega)]
  refine ⟨fun f hf ↦ ?_, le_trans ?_ hw.sum_le, hlt⟩
  · obtain ⟨x, hx, rfl⟩ := mem_freqs.1 hf
    exact (ha.freq_le hw hm hm' (ha.reweighed.ptrs ▸ hx)).1
  · rw [freqs, ha.reweighed.ptrs]
    exact List.sum_le_sum fun x hx ↦ (ha.freq_le hw hm hm' hx).2

theorem Accessed.minExact (hmin : c.MinExact)
    (hlow : c.Over → ∃ node ∈ c.ptrs, c.freq node - c.maxAverageNum_ / 2 < INT8_MAX) :
    d.MinExact := by
  by_cases ho : c.Over
  · obtain ⟨node, hnode, hf⟩ := hlow ho
    refine ha.exact ho ⟨_, mem_freqs.2 ⟨node, ha.reweighed.ptrs ▸ hnode, rfl⟩, ?_⟩
    rw [ha.freq hw hm hm' hnode, if_pos ho]
    exact max_lt (by decide) hf
  · have hfreqs : d.freqs = c.freqs := by
      rw [ha.reweighed.freqs, if_neg ho]
      rfl
    rwa [MinExact, hfreqs, ha.kept ho]

end Access

end CppAiService.KLfuCache
