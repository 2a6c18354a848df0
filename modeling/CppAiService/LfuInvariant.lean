import CppAiService.LfuRanks
import CppAiService.LfuTransitions

namespace CppAiService.KLfuCache

variable {K V : Type} [DecidableEq K] {c d : KLfuCache K V} {node : NodePtr} {key : K} {value : V}
  {total : ℤ}

structure Ranked (c : KLfuCache K V) : Prop where
  sound : c.Sound
  weighed : c.Weighed c.curTotalNum_
  minPos : 1 ≤ c.minFreq_
  size_le : (c.size : ℤ) ≤ c.capacity_

/-- `minFreq_` is exact unless a reset made it one in a cache with room left. -/
def MinUsable (c : KLfuCache K V) : Prop :=
  c.ptrs ≠ [] → c.MinExact ∨ (c.minFreq_ = 1 ∧ (c.size : ℤ) < c.capacity_)

structure Configured (c : KLfuCache K V) (capacity maxAverageNum : ℤ) : Prop where
  capacity_ : c.capacity_ = capacity
  capacity_pos : 1 ≤ capacity
  maxAverageNum_ : c.maxAverageNum_ = maxAverageNum
  maxAverageNum_pos : 1 ≤ maxAverageNum
  maxAverageNum_lt : maxAverageNum < 2 ^ 31

omit [DecidableEq K] in
theorem Configured.of_eq {capacity maxAverageNum : ℤ} (h : c.Configured capacity maxAverageNum)
    (hcap : d.capacity_ = c.capacity_) (hm : d.maxAverageNum_ = c.maxAverageNum_) :
    d.Configured capacity maxAverageNum :=
  ⟨hcap.trans h.capacity_, h.capacity_pos, hm.trans h.maxAverageNum_, h.maxAverageNum_pos,
    h.maxAverageNum_lt⟩

/-- A hit on this node ages every frequency, and none comes to lie below the sentinel
of `updateMinFreq`. -/
def ResetsAt (c : KLfuCache K V) (node : NodePtr) : Prop :=
  c.maxAverageNum_ < (c.curTotalNum_ + 1) / c.size ∧
    ∀ x ∈ c.ptrs, INT8_MAX ≤ (if x = node then c.freq x + 1 else c.freq x) - c.maxAverageNum_ / 2

instance (c : KLfuCache K V) (node : NodePtr) : Decidable (c.ResetsAt node) :=
  inferInstanceAs (Decidable (_ ∧ _))

omit [DecidableEq K] in
theorem minExact_of_one (hw : c.Weighed total) (hmin : c.minFreq_ = 1) (h : 1 ∈ c.freqs) :
    c.MinExact := by
  rw [MinExact, hmin]
  exact ⟨h, fun f hf ↦ hw.pos f hf⟩

section Hit

variable {capacity maxAverageNum : ℤ} (hc : c.Ranked) (hcfg : c.Configured capacity maxAverageNum)
  (ht : c.curTotalNum_ + 1 < 2 ^ 31) (h : node ∈ c.ptrs) (ha : (c.touched node).Accessed d)
include hc hcfg ht h ha

omit hcfg ha in
theorem over_touched_iff :
    (c.touched node).Over ↔ c.maxAverageNum_ < (c.curTotalNum_ + 1) / c.size := by
  have hw := reweighed_touched hc.sound.linked h
  have hne : (c.touched node).ptrs ≠ [] := List.ne_nil_of_mem (hw.ptrs ▸ h)
  exact over_iff (c := c.touched node) hc.weighed.total_nonneg ht hne

omit hcfg ha in
theorem Ranked.minFreq_touched : 1 ≤ (c.touched node).minFreq_ := by
  have hmin := hc.minPos
  rw [hc.weighed.minFreq_touched hc.sound.linked h ht hmin]
  split <;> omega

theorem Ranked.hit : d.Ranked := by
  have hw := hc.weighed.touched hc.sound.linked h ht
  have hd := ha.weighed hw (hcfg.maxAverageNum_ ▸ hcfg.maxAverageNum_pos)
    (hcfg.maxAverageNum_ ▸ hcfg.maxAverageNum_lt) hc.weighed.total_nonneg
  have hptrs := ha.reweighed.ptrs.trans (reweighed_touched hc.sound.linked h).ptrs
  refine ⟨ha.sound_of_touched hc.sound h, hd, ?_, ?_⟩
  · by_cases ho : (c.touched node).Over
    · rcases ha.exact_or_reset ho with hexact | hreset
      · exact hd.pos _ hexact.1
      · rw [hreset]
    · rw [ha.kept ho]
      exact hc.minFreq_touched ht h
  · rw [← length_ptrs, hptrs, length_ptrs, ha.reweighed.capacity_]
    exact hc.size_le

theorem Ranked.hit_minExact (hmin : c.MinExact) (hreset : ¬ c.ResetsAt node) : d.MinExact := by
  have hw := hc.weighed.touched hc.sound.linked h ht
  have htouched := reweighed_touched hc.sound.linked h
  refine ha.minExact hw (hcfg.maxAverageNum_ ▸ hcfg.maxAverageNum_pos)
    (hcfg.maxAverageNum_ ▸ hcfg.maxAverageNum_lt)
    (hmin.touched hc.sound.linked h hc.weighed ht) fun ho ↦ ?_
  by_contra hall
  refine hreset ⟨(over_touched_iff hc ht h).1 ho, fun x hx ↦ not_lt.1 fun hlt ↦ ?_⟩
  refine hall ⟨x, htouched.ptrs ▸ hx, ?_⟩
  rw [hc.weighed.freq_touched hc.sound.linked h ht, htouched.maxAverageNum_]
  by_cases he : x = node
  · subst he
    simpa using hlt
  · simpa [he] using hlt

theorem Ranked.hit_minUsable (hmin : c.MinUsable)
    (hreset : c.ResetsAt node → (c.size : ℤ) < c.capacity_) : d.MinUsable := by
  intro hne
  have hptrs := ha.reweighed.ptrs.trans (reweighed_touched hc.sound.linked h).ptrs
  have hsize : d.size = c.size := by rw [← length_ptrs, hptrs, length_ptrs]
  have hcap : d.capacity_ = c.capacity_ := ha.reweighed.capacity_
  rw [hsize, hcap]
  by_cases hr : c.ResetsAt node
  · have ho := (over_touched_iff hc ht h).2 hr.1
    exact (ha.exact_or_reset ho).imp_right fun h' ↦ ⟨h', hreset hr⟩
  · rcases hmin (List.ne_nil_of_mem h) with hmin | ⟨hone, hroom⟩
    · exact .inl (hc.hit_minExact hcfg ht h ha hmin hr)
    · by_cases hf : c.freq node = 1
      · have hexact := minExact_of_one hc.weighed hone (mem_freqs.2 ⟨node, h, hf⟩)
        exact .inl (hc.hit_minExact hcfg ht h ha hexact hr)
      · by_cases ho : (c.touched node).Over
        · exact (ha.exact_or_reset ho).imp_right fun h' ↦ ⟨h', hroom⟩
        · refine .inr ⟨?_, hroom⟩
          rw [ha.kept ho, hc.weighed.minFreq_touched hc.sound.linked h ht hc.minPos, hone,
            if_neg fun hadv ↦ hf hadv.1]

end Hit

section Insertion

variable {capacity maxAverageNum : ℤ}

theorem freqs_insertNode (hc : c.Linked) (hkey : key ∉ c.nodeMap_) (value : V) :
    (c.insertNode key value).freqs = 1 :: c.freqs := by
  have hold : ∀ x ∈ c.ptrs, (c.insertNode key value).freq x = c.freq x := by
    intro x hx
    rw [freq_insertNode, if_neg (hc.allocated x hx).ne]
  rw [freqs, ptrs_insertNode hkey, List.map_cons, freq_insertNode, if_pos rfl, freqs,
    List.map_congr_left hold]

theorem Weighed.insertNode (hc : c.Linked) (hkey : key ∉ c.nodeMap_) (hw : c.Weighed total)
    (ht : total + 1 < 2 ^ 31) : (c.insertNode key value).Weighed (total + 1) := by
  refine ⟨?_, ?_, ht⟩
  · rw [freqs_insertNode hc hkey]
    exact List.forall_mem_cons.2 ⟨le_rfl, hw.pos⟩
  · rw [freqs_insertNode hc hkey, List.sum_cons]
    linarith only [hw.sum_le]

theorem Ranked.insert (hc : c.Ranked) (hroom : (c.size : ℤ) < c.capacity_)
    (hcfg : c.Configured capacity maxAverageNum) (ht : c.curTotalNum_ + 1 < 2 ^ 31)
    (hkey : key ∉ c.nodeMap_) (ha : (c.insertNode key value).Accessed d)
    (hd : Sound { d with minFreq_ := min d.minFreq_ 1 }) :
    Ranked { d with minFreq_ := min d.minFreq_ 1 } ∧
      MinExact { d with minFreq_ := min d.minFreq_ 1 } ∧ min d.minFreq_ 1 = 1 := by
  have hw : (c.insertNode key value).Weighed (c.curTotalNum_ + 1) :=
    hc.weighed.insertNode hc.sound.linked hkey ht
  have hm := hcfg.maxAverageNum_ ▸ hcfg.maxAverageNum_pos
  have hm' := hcfg.maxAverageNum_ ▸ hcfg.maxAverageNum_lt
  have hd' := ha.weighed hw hm hm' hc.weighed.total_nonneg
  have hpos : 1 ≤ d.minFreq_ := by
    by_cases ho : (c.insertNode key value).Over
    · rcases ha.exact_or_reset ho with hexact | hreset
      · exact hd'.pos _ hexact.1
      · rw [hreset]
    · rw [ha.kept ho]
      exact hc.minPos
  have hone : min d.minFreq_ 1 = 1 := min_eq_right hpos
  have hnew : c.allocated ∈ (c.insertNode key value).ptrs := by
    rw [ptrs_insertNode hkey]
    exact List.mem_cons_self
  have hmem : 1 ∈ d.freqs := by
    refine mem_freqs.2 ⟨c.allocated, ha.reweighed.ptrs ▸ hnew, ?_⟩
    have hle := ha.freq_le hw hm hm' hnew
    rw [freq_insertNode, if_pos rfl] at hle
    omega
  have hsize : d.size = c.size + 1 := by
    rw [← length_ptrs, ha.reweighed.ptrs, ptrs_insertNode hkey, List.length_cons, length_ptrs]
  have hweighed : Weighed { d with minFreq_ := min d.minFreq_ 1 } d.curTotalNum_ :=
    ⟨hd'.pos, hd'.sum_le, hd'.total_lt⟩
  refine ⟨⟨hd, hweighed, hone.ge, ?_⟩, minExact_of_one hweighed hone hmem, hone⟩
  have hcap : d.capacity_ = c.capacity_ := ha.reweighed.capacity_
  change (d.size : ℤ) ≤ d.capacity_
  omega

theorem sum_evicted (hc : c.Linked) (h : node ∈ c.ptrs) :
    c.freqs.sum = c.freq node + (c.evicted node).freqs.sum := by
  rw [freqs, ((ptrs_evicted hc h).map c.freq).sum_eq, List.map_cons, List.sum_cons]
  rfl

theorem Ranked.curTotalNum_evicted (hc : c.Ranked) (h : node ∈ c.ptrs) :
    (c.evicted node).curTotalNum_ = c.curTotalNum_ - c.freq node := by
  have hle := hc.weighed.le_total h
  have hlt := hc.weighed.total_lt
  have heq : wrap32 (c.curTotalNum_ - c.freq node) = c.curTotalNum_ - c.freq node :=
    wrap32_eq_self (by omega) (by omega)
  exact heq

theorem Ranked.evicted (hc : c.Ranked) (h : node ∈ c.ptrs) : (c.evicted node).Ranked := by
  have hsum := sum_evicted hc.sound.linked h
  have hle := hc.weighed.le_total h
  have hsize := size_evicted hc.sound.linked h
  refine ⟨hc.sound.evicted h, ⟨fun f hf ↦ ?_, ?_, ?_⟩, hc.minPos, ?_⟩
  · obtain ⟨x, hx, rfl⟩ := mem_freqs.1 hf
    exact (hc.weighed.le_total ((mem_ptrs_evicted hc.sound.linked h x).1 hx).1).1
  · rw [hc.curTotalNum_evicted h]
    linarith only [hsum, hc.weighed.sum_le]
  · rw [hc.curTotalNum_evicted h]
    linarith only [hle.1, hc.weighed.total_lt]
  · have hbound := hc.size_le
    change ((c.evicted node).size : ℤ) ≤ c.capacity_
    omega

end Insertion

omit [DecidableEq K] in
theorem minExact_setValue (c : KLfuCache K V) (node : NodePtr) (value : V) :
    (c.setValue node value).MinExact ↔ c.MinExact := by
  rw [MinExact, freqs_setValue]
  rfl

omit [DecidableEq K] in
theorem resetsAt_setValue (c : KLfuCache K V) (node : NodePtr) (value : V) :
    (c.setValue node value).ResetsAt node ↔ c.ResetsAt node := by
  rw [ResetsAt, freq_setValue]
  rfl

theorem Ranked.setValue (hc : c.Ranked) (node : NodePtr) (value : V) :
    (c.setValue node value).Ranked := by
  refine ⟨hc.sound.setValue node value, ⟨?_, ?_, hc.weighed.total_lt⟩, hc.minPos, hc.size_le⟩
  · rw [freqs_setValue]
    exact hc.weighed.pos
  · rw [freqs_setValue]
    exact hc.weighed.sum_le

end CppAiService.KLfuCache
