import CppAiService.LfuInvariant

namespace CppAiService.KLfuCache

variable {K V : Type} [DecidableEq K] [Inhabited K] {c d : KLfuCache K V} {node : NodePtr}
  {key : K} {value : V} {op : Op K V} {capacity maxAverageNum : ℤ}

omit [DecidableEq K] [Inhabited K] in
theorem MinUsable.exact_of_full (h : c.MinUsable) (hcap : 1 ≤ c.capacity_)
    (hfull : (c.size : ℤ) = c.capacity_) : c.MinExact := by
  have hne : c.ptrs ≠ [] := by
    intro hnil
    rw [← length_ptrs, hnil, List.length_nil, Nat.cast_zero] at hfull
    omega
  rcases h hne with hexact | ⟨-, hroom⟩
  · exact hexact
  · omega

theorem Ranked.roomMade (hc : c.Ranked) (husable : c.MinUsable) (hcap : 1 ≤ c.capacity_)
    (h : c.RoomMade d) :
    d.Ranked ∧ d.capacity_ = c.capacity_ ∧ d.maxAverageNum_ = c.maxAverageNum_ ∧
      d.curTotalNum_ ≤ c.curTotalNum_ ∧ (d.size : ℤ) < d.capacity_ := by
  cases h with
  | spare hspare =>
    exact ⟨hc, rfl, rfl, le_rfl, lt_of_le_of_ne hc.size_le hspare⟩
  | evicted hfull node rest hlist =>
    obtain ⟨hnode, -, -⟩ := kickOut_eq hc.sound.linked hlist
    have hsize := size_evicted hc.sound.linked hnode
    have hle := hc.weighed.le_total hnode
    refine ⟨hc.evicted hnode, rfl, rfl, ?_, ?_⟩
    · rw [hc.curTotalNum_evicted hnode]
      omega
    · change ((c.evicted node).size : ℤ) < c.capacity_
      omega
  | sentinel hfull hlist =>
    exact absurd hlist ((husable.exact_of_full hcap hfull).listAt_ne_nil hc.sound.linked)

def Resets (c : KLfuCache K V) (op : Op K V) : Prop :=
  ∃ node ∈ op.key?.bind fun key ↦ c.nodeMap_.lookup key, c.ResetsAt node

instance (c : KLfuCache K V) (op : Op K V) : Decidable (c.Resets op) :=
  inferInstanceAs (Decidable (∃ node ∈ _, _))

/-- One operation on a ranked cache with a usable `minFreq_` and no full-cache reset. -/
structure Advanced (c : KLfuCache K V) (op : Op K V) (d : KLfuCache K V) : Prop where
  ranked : d.Ranked
  capacity_ : d.capacity_ = c.capacity_
  maxAverageNum_ : d.maxAverageNum_ = c.maxAverageNum_
  total_le : d.curTotalNum_ ≤ c.curTotalNum_ + 1
  usable : (c.Resets op → (c.size : ℤ) < c.capacity_) → d.MinUsable
  exact : ¬ c.Resets op → (c.ptrs ≠ [] → c.MinExact) → d.ptrs ≠ [] → d.MinExact

theorem Stepped.advanced (h : c.Stepped op d) (hc : c.Ranked) (husable : c.MinUsable)
    (hcfg : c.Configured capacity maxAverageNum) (ht : c.curTotalNum_ + 1 < 2 ^ 31)
    (hd : d.Sound) : c.Advanced op d := by
  cases h with
  | hit key node value hop hlookup haccessed =>
    have hnode : node ∈ (c.setValue node value).ptrs := mem_ptrs.2 ⟨key, hlookup⟩
    have hset := hc.setValue node value
    have hcfg' := hcfg.of_eq (d := c.setValue node value) rfl rfl
    have hlt := hc.weighed.total_lt
    have hnonneg := hc.weighed.total_nonneg
    have hkey : op.key? = some key := by
      rcases hop with ⟨order, rfl⟩ | ⟨order, rfl, -⟩ <;> rfl
    have hresets : (c.setValue node value).ResetsAt node → c.Resets op := by
      refine fun hr ↦ ⟨node, ?_, (resetsAt_setValue c node value).1 hr⟩
      rw [hkey]
      exact hlookup
    refine ⟨hset.hit hcfg' ht hnode haccessed, haccessed.reweighed.capacity_,
      haccessed.reweighed.maxAverageNum_, ?_, fun hreset ↦ ?_, fun hreset hexact _ ↦ ?_⟩
    · rw [haccessed.total]
      exact (wrap32_eq_self (x := c.curTotalNum_ + 1) (by omega) ht).le
    · refine hset.hit_minUsable hcfg' ht hnode haccessed (fun hne ↦ ?_) (hreset ∘ hresets)
      exact (husable hne).imp_left (minExact_setValue c node value).2
    · have hexact' := (minExact_setValue c node value).2 (hexact (List.ne_nil_of_mem hnode))
      exact hset.hit_minExact hcfg' ht hnode haccessed hexact' (hreset ∘ hresets)
  | missed key order hkey => exact ⟨hc, rfl, rfl, by omega, fun _ ↦ husable, fun _ ↦ id⟩
  | @inserted e f key value order hkey hroom haccessed =>
    have hcap : 1 ≤ c.capacity_ := hcfg.capacity_ ▸ hcfg.capacity_pos
    obtain ⟨hr, hcapacity, haverage, htotal, hlt⟩ := hc.roomMade husable hcap hroom
    have hnonneg := hr.weighed.total_nonneg
    obtain ⟨hranked, hexact, -⟩ := hr.insert hlt (hcfg.of_eq hcapacity haverage) (by omega)
      (hroom.notMem hkey) haccessed hd
    refine ⟨hranked, haccessed.reweighed.capacity_.trans hcapacity,
      haccessed.reweighed.maxAverageNum_.trans haverage, ?_, fun _ _ ↦ .inl hexact,
      fun _ _ _ ↦ hexact⟩
    change f.curTotalNum_ ≤ _
    have heq : f.curTotalNum_ = e.curTotalNum_ + 1 :=
      haccessed.total.trans (wrap32_eq_self (x := e.curTotalNum_ + 1) (by omega) (by omega))
    omega
  | purged =>
    have hnonneg := hc.weighed.total_nonneg
    refine ⟨⟨hd, ⟨fun f hf ↦ absurd hf List.not_mem_nil, hnonneg, hc.weighed.total_lt⟩,
      hc.minPos, ?_⟩, rfl, rfl, ?_, fun _ hne ↦ absurd rfl hne, fun _ _ hne ↦ absurd rfl hne⟩
    · change (0 : ℤ) ≤ c.capacity_
      exact zero_le_one.trans (hcfg.capacity_ ▸ hcfg.capacity_pos)
    · change c.curTotalNum_ ≤ _
      omega

theorem Ranked.step (hc : c.Ranked) (husable : c.MinUsable)
    (hcfg : c.Configured capacity maxAverageNum) (ht : c.curTotalNum_ + 1 < 2 ^ 31) (op : Op K V) :
    ∃ d, step c op = some d ∧ c.Stepped op d ∧ c.Advanced op d := by
  have hcap : 1 ≤ c.capacity_ := hcfg.capacity_ ▸ hcfg.capacity_pos
  have hdefault : c.listAt c.minFreq_ = [] → (c.size : ℤ) = c.capacity_ → default ∉ c.nodeMap_ :=
    fun hnil hfull ↦
      absurd hnil ((husable.exact_of_full hcap hfull).listAt_ne_nil hc.sound.linked)
  obtain ⟨d, hd, hsound, hstep⟩ := step_spec hc.sound (by omega) op hdefault fun _ ↦ hc.minPos
  exact ⟨d, hd, hstep, hstep.advanced hc husable hcfg ht hsound⟩

theorem create_ranked [Inhabited V] (hcap : 0 ≤ capacity) (maxAverageNum : ℤ) :
    (create capacity maxAverageNum : KLfuCache K V).Ranked := by
  refine ⟨create_sound capacity maxAverageNum,
    ⟨?_, le_rfl, (by decide : (0 : ℤ) < 2 ^ 31)⟩, (by decide : (1 : ℤ) ≤ INT8_MAX), hcap⟩
  intro f h
  cases h

end CppAiService.KLfuCache
