import CppAiService.LfuRuns

namespace CppAiService.KLfuCache

variable {K V : Type} [DecidableEq K] {c d : KLfuCache K V} {node : NodePtr} {key : K}
  {capacity maxAverageNum : ℤ}

/-- While `maxAverageNum` is moderate, `minFreq_` is exact and below it. -/
structure Bounded (c : KLfuCache K V) : Prop where
  ranked : c.Ranked
  exact : c.ptrs ≠ [] → c.MinExact
  low : c.ptrs ≠ [] → c.minFreq_ ≤ c.maxAverageNum_

omit [DecidableEq K] in
theorem MinExact.mul_size_le_sum (h : c.MinExact) : c.size * c.minFreq_ ≤ c.freqs.sum := by
  have hle := List.card_nsmul_le_sum c.freqs c.minFreq_ h.2
  rwa [freqs, List.length_map, length_ptrs, nsmul_eq_mul] at hle

theorem Bounded.not_resetsAt (hc : c.Bounded) (hm : c.maxAverageNum_ ≤ 250) (hne : c.ptrs ≠ [])
    (node : NodePtr) : ¬ c.ResetsAt node := by
  intro hand
  obtain ⟨-, hall⟩ := hand
  obtain ⟨least, hleast, hf⟩ := mem_freqs.1 (hc.exact hne).1
  have hlow := hc.low hne
  have h := hall least hleast
  unfold INT8_MAX at h
  split at h <;> omega

theorem Bounded.hit (hc : c.Bounded) (hcfg : c.Configured capacity maxAverageNum)
    (hm : 2 ≤ c.maxAverageNum_) (hm' : c.maxAverageNum_ ≤ 250) (ht : c.curTotalNum_ + 1 < 2 ^ 31)
    (h : node ∈ c.ptrs) (ha : (c.touched node).Accessed d) : d.Bounded := by
  have hne := List.ne_nil_of_mem h
  have hranked := hc.ranked.hit hcfg ht h ha
  have hexact := hc.ranked.hit_minExact hcfg ht h ha (hc.exact hne) (hc.not_resetsAt hm' hne node)
  refine ⟨hranked, fun _ ↦ hexact, fun _ ↦ ?_⟩
  have htouched := reweighed_touched hc.ranked.sound.linked h
  have hw := hc.ranked.weighed.touched hc.ranked.sound.linked h ht
  have haverage : d.maxAverageNum_ = c.maxAverageNum_ := ha.reweighed.maxAverageNum_
  rw [haverage]
  by_cases ho : (c.touched node).Over
  · obtain ⟨least, hleast, hf⟩ := mem_freqs.1 (hc.exact hne).1
    have hlow := hc.low hne
    have hmem : least ∈ (c.touched node).ptrs := htouched.ptrs ▸ hleast
    have hd := ha.freq hw (by omega : 1 ≤ c.maxAverageNum_) (by omega : c.maxAverageNum_ < 2 ^ 31)
      hmem
    rw [if_pos ho, hc.ranked.weighed.freq_touched hc.ranked.sound.linked h ht] at hd
    have hle := hexact.2 (mem_freqs.2 ⟨least, ha.reweighed.ptrs ▸ hmem, rfl⟩)
    rw [hd, htouched.maxAverageNum_] at hle
    refine hle.trans (max_le (by omega) ?_)
    split
    · next he =>
      subst he
      omega
    · omega
  · rw [over_touched_iff hc.ranked ht h, not_lt] at ho
    have hsize : (0 : ℤ) < c.size := by
      rw [← length_ptrs]
      exact_mod_cast List.length_pos_iff.2 hne
    have hsize' : d.size = c.size := by
      rw [← length_ptrs, ha.reweighed.ptrs, htouched.ptrs, length_ptrs]
    have htotal : d.curTotalNum_ = c.curTotalNum_ + 1 := by
      have hnonneg := hc.ranked.weighed.total_nonneg
      exact ha.total.trans (wrap32_eq_self (x := c.curTotalNum_ + 1) (by omega) ht)
    have hsum := hexact.mul_size_le_sum.trans hranked.weighed.sum_le
    rw [hsize', htotal] at hsum
    have hlt := (Int.ediv_lt_iff_lt_mul hsize).1 (Int.lt_add_one_of_le ho)
    have hmul : (c.size : ℤ) * d.minFreq_ < c.size * (c.maxAverageNum_ + 1) := by
      rw [mul_comm _ (c.maxAverageNum_ + 1)]
      exact hsum.trans_lt hlt
    exact Int.lt_add_one_iff.1 (lt_of_mul_lt_mul_left hmul hsize.le)

theorem Bounded.setValue (hc : c.Bounded) (node : NodePtr) (value : V) :
    (c.setValue node value).Bounded :=
  ⟨hc.ranked.setValue node value, fun hne ↦ (minExact_setValue c node value).2 (hc.exact hne), hc.low⟩

theorem Bounded.minUsable (hc : c.Bounded) : c.MinUsable := fun hne ↦ .inl (hc.exact hne)

section Runs

variable [Inhabited K] {op : Op K V}

theorem Stepped.bounded (h : c.Stepped op d) (hc : c.Bounded)
    (hcfg : c.Configured capacity maxAverageNum) (hm : 2 ≤ maxAverageNum) (hm' : maxAverageNum ≤ 250)
    (ht : c.curTotalNum_ + 1 < 2 ^ 31) (hd : d.Sound) : d.Bounded := by
  obtain rfl := hcfg.maxAverageNum_
  cases h with
  | hit key node value hop hlookup haccessed =>
    exact (hc.setValue node value).hit (hcfg.of_eq rfl rfl) hm hm' ht (mem_ptrs.2 ⟨key, hlookup⟩)
      haccessed
  | missed key order hkey => exact hc
  | @inserted e f key value order hkey hroom haccessed =>
    have hcap : 1 ≤ c.capacity_ := hcfg.capacity_ ▸ hcfg.capacity_pos
    obtain ⟨hr, hcapacity, haverage, htotal, hlt⟩ := hc.ranked.roomMade hc.minUsable hcap hroom
    obtain ⟨hranked, hexact, hone⟩ := hr.insert hlt (hcfg.of_eq hcapacity haverage) (by omega)
      (hroom.notMem hkey) haccessed hd
    refine ⟨hranked, fun _ ↦ hexact, fun _ ↦ ?_⟩
    change min f.minFreq_ 1 ≤ f.maxAverageNum_
    have hf : f.maxAverageNum_ = c.maxAverageNum_ :=
      haccessed.reweighed.maxAverageNum_.trans haverage
    omega
  | purged =>
    have hranked := (Stepped.purged.advanced hc.ranked hc.minUsable hcfg ht hd).ranked
    exact ⟨hranked, fun hne ↦ absurd rfl hne, fun hne ↦ absurd rfl hne⟩

/-- A bounded run of moderate average keeps `minFreq_` exact. -/
theorem run_bounded [Inhabited V] (hcap : 1 ≤ capacity) (hm : 2 ≤ maxAverageNum)
    (hm' : maxAverageNum ≤ 250) (ops : List (Op K V)) (hlen : ops.length < 2 ^ 31) :
    ∃ c, run (create capacity maxAverageNum) ops = some c ∧ c.Bounded ∧
      c.Configured capacity maxAverageNum ∧ c.curTotalNum_ ≤ ops.length := by
  have hstep : ∀ (n : ℕ) (c : KLfuCache K V) (op : Op K V), n < 2 ^ 31 - 1 →
      (c.Bounded ∧ c.Configured capacity maxAverageNum ∧ c.curTotalNum_ ≤ n) →
      ∃ d, step c op = some d ∧ d.Bounded ∧ d.Configured capacity maxAverageNum ∧
        d.curTotalNum_ ≤ (n + 1 : ℕ) := by
    intro n c op hn hinv
    obtain ⟨hc, hcfg, ht⟩ := hinv
    obtain ⟨d, hd, hstepped, hadv⟩ := hc.ranked.step hc.minUsable hcfg (by omega) op
    refine ⟨d, hd, hstepped.bounded hc hcfg hm hm' (by omega) hadv.ranked.sound,
      hcfg.of_eq hadv.capacity_ hadv.maxAverageNum_, ?_⟩
    have := hadv.total_le
    push_cast
    omega
  have hstart : (create capacity maxAverageNum : KLfuCache K V).Bounded :=
    ⟨create_ranked (by omega) maxAverageNum, fun hne ↦ absurd rfl hne, fun hne ↦ absurd rfl hne⟩
  have hlen' : 0 + ops.length ≤ 2 ^ 31 - 1 := by omega
  obtain ⟨c, hc, hb, hcfg, ht⟩ := Foundation.Run.counted hstep
    ⟨hstart, ⟨rfl, hcap, rfl, by omega, by omega⟩, le_rfl⟩ hlen'
  exact ⟨c, hc, hb, hcfg, by simpa using ht⟩

end Runs

/-- What the map and the lists promise each other, read off the two tables. -/
structure Consistent (c : KLfuCache K V) : Prop where
  listed : ∀ key node, c.nodeMap_.lookup key = some node → 1 ≤ c.freq node ∧
    ∃ list, c.freqToFreqList_.lookup (c.freq node) = some list ∧ list.count node = 1 ∧
      ∀ f list', c.freqToFreqList_.lookup f = some list' → node ∈ list' → f = c.freq node
  cached : ∀ f list node, c.freqToFreqList_.lookup f = some list → node ∈ list →
    c.nodeMap_.lookup (c.nodes node).key = some node
  size_le : (c.size : ℤ) ≤ c.capacity_
  least : c.nodeMap_ ≠ ∅ →
    IsLeast {f | ∃ key node, c.nodeMap_.lookup key = some node ∧ c.freq node = f} c.minFreq_

/-- Eviction removes one entry of the map, of the least frequency there is. -/
def EvictsLeast [Inhabited K] (c : KLfuCache K V) : Prop :=
  ∃ key node d, c.nodeMap_.lookup key = some node ∧
    (∀ key' node', c.nodeMap_.lookup key' = some node' → c.freq node ≤ c.freq node') ∧
    c.kickOut = some d ∧ d.nodeMap_ = c.nodeMap_.erase key

omit [DecidableEq K] in
theorem ptrs_ne_nil (h : c.nodeMap_ ≠ ∅) : c.ptrs ≠ [] := by
  intro hnil
  exact h (AList.ext (List.map_eq_nil_iff.1 hnil))

omit [DecidableEq K] in
theorem listAt_of_lookup {f : ℤ} {list : List NodePtr}
    (h : c.freqToFreqList_.lookup f = some list) : c.listAt f = list := by
  rw [listAt, h, Option.getD_some]

theorem Bounded.consistent (hc : c.Bounded) : c.Consistent where
  listed key node h := by
    have hnode : node ∈ c.ptrs := mem_ptrs.2 ⟨key, h⟩
    have hmem := hc.ranked.sound.linked.mem_listAt
    refine ⟨(hc.ranked.weighed.le_total hnode).1, c.listAt (c.freq node),
      (hc.ranked.sound.linked.hasList hnode).lookup_eq, ?_, fun f list' hf hx ↦ ?_⟩
    · exact List.count_eq_one_of_mem (hc.ranked.sound.linked.nodup _) ((hmem _ _).2 ⟨hnode, rfl⟩)
    · rw [← listAt_of_lookup hf] at hx
      exact ((hmem _ _).1 hx).2.symm
  cached f list node hf hx := by
    rw [← listAt_of_lookup hf] at hx
    exact hc.ranked.sound.linked.lookup_key ((hc.ranked.sound.linked.mem_listAt _ _).1 hx).1
  size_le := hc.ranked.size_le
  least h := by
    have hset : {f | ∃ key node, c.nodeMap_.lookup key = some node ∧ c.freq node = f} =
        {f | f ∈ c.freqs} := by
      ext f
      simp only [Set.mem_ofPred_eq, mem_freqs, mem_ptrs]
      constructor
      · intro hand
        obtain ⟨key, node, hl, hf⟩ := hand
        exact ⟨node, ⟨key, hl⟩, hf⟩
      · intro hand
        obtain ⟨node, ⟨key, hl⟩, hf⟩ := hand
        exact ⟨key, node, hl, hf⟩
    rw [hset]
    exact hc.exact (ptrs_ne_nil h)

variable [Inhabited K]

theorem Bounded.evictsLeast (hc : c.Bounded) (h : c.nodeMap_ ≠ ∅) : c.EvictsLeast := by
  have hexact := hc.exact (ptrs_ne_nil h)
  obtain ⟨node, rest, hlist⟩ :=
    List.exists_cons_of_ne_nil (hexact.listAt_ne_nil hc.ranked.sound.linked)
  obtain ⟨hnode, hf, hkick⟩ := kickOut_eq hc.ranked.sound.linked hlist
  refine ⟨_, node, _, hc.ranked.sound.linked.lookup_key hnode, fun key' node' h' ↦ ?_, hkick, rfl⟩
  rw [hf]
  exact hexact.2 (mem_freqs.2 ⟨node', mem_ptrs.2 ⟨key', h'⟩, rfl⟩)

variable [Inhabited V]

theorem reachable_consistent (hcap : 1 ≤ capacity) (ops : List (Op K V))
    (hlen : ops.length < 2 ^ 31) :
    ∃ c, run (create capacity 10) ops = some c ∧ c.Consistent ∧
      (c.nodeMap_ ≠ ∅ → c.EvictsLeast) := by
  obtain ⟨c, hc, hb, -, -⟩ := run_bounded hcap (by decide : (2 : ℤ) ≤ 10) (by decide) ops hlen
  exact ⟨c, hc, hb.consistent, hb.evictsLeast⟩

theorem hit_then_purge_consistent :
    ∃ c, run (create 1 10)
        [.put 1 5 .stored, .get 1 .stored, .put 2 6 .stored, .purge, .put (3 : ℕ) (7 : ℕ) .stored] =
          some c ∧ c.Consistent ∧ (c.nodeMap_ ≠ ∅ → c.EvictsLeast) :=
  reachable_consistent (by decide) _ (by decide)

end CppAiService.KLfuCache
