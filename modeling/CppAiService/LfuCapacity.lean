import CppAiService.LfuVictim

namespace CppAiService.KLfuCache

variable {K V : Type} [DecidableEq K] [Inhabited K] {c d : KLfuCache K V} {node : NodePtr}
  {key : K} {op : Op K V} {capacity maxAverageNum : ℤ}

def INT_MAX : ℤ := 2 ^ 31 - 1

/-- The counter has room and the operation does not reset `minFreq_` at a full cache. -/
def SafeAt (c : KLfuCache K V) (op : Op K V) : Prop :=
  c.curTotalNum_ < INT_MAX ∧ (c.Resets op → (c.size : ℤ) < c.capacity_)

instance (c : KLfuCache K V) (op : Op K V) : Decidable (c.SafeAt op) :=
  inferInstanceAs (Decidable (_ ∧ (_ → _)))

structure Usable (capacity maxAverageNum : ℤ) (c : KLfuCache K V) : Prop where
  ranked : c.Ranked
  minUsable : c.MinUsable
  configured : c.Configured capacity maxAverageNum

theorem Usable.step (hc : c.Usable capacity maxAverageNum) (hok : c.SafeAt op) :
    ∃ d, step c op = some d ∧ c.Stepped op d ∧ d.Usable capacity maxAverageNum := by
  have ht : c.curTotalNum_ + 1 < 2 ^ 31 := Int.add_lt_of_lt_sub_right hok.1
  obtain ⟨d, hd, hstepped, hadv⟩ := hc.ranked.step hc.minUsable hc.configured ht op
  exact ⟨d, hd, hstepped, hadv.ranked, hadv.usable hok.2,
    hc.configured.of_eq hadv.capacity_ hadv.maxAverageNum_⟩

theorem create_usable [Inhabited V] (hcap : 1 ≤ capacity) (hm : 1 ≤ maxAverageNum)
    (hm' : maxAverageNum < 2 ^ 31) :
    (create capacity maxAverageNum : KLfuCache K V).Usable capacity maxAverageNum :=
  ⟨create_ranked (by omega) maxAverageNum, fun hne ↦ absurd rfl hne, rfl, hcap, rfl, hm, hm'⟩

theorem Usable.evicts (hc : c.Usable capacity maxAverageNum) (hfull : (c.size : ℤ) = capacity) :
    ∃ victim ∈ c.nodeMap_, ∃ d, c.makeRoom = some d ∧ d.nodeMap_ = c.nodeMap_.erase victim := by
  have hcap := hc.configured.capacity_
  have hexact := hc.minUsable.exact_of_full (hcap ▸ hc.configured.capacity_pos)
    (hfull.trans hcap.symm)
  obtain ⟨node, rest, hlist⟩ :=
    List.exists_cons_of_ne_nil (hexact.listAt_ne_nil hc.ranked.sound.linked)
  obtain ⟨hnode, -, hkick⟩ := kickOut_eq hc.ranked.sound.linked hlist
  refine ⟨(c.nodes node).key, ?_, _, (if_pos (hfull.trans hcap.symm)).trans hkick, rfl⟩
  rw [← AList.lookup_isSome, hc.ranked.sound.linked.lookup_key hnode, Option.isSome_some]

section Runs

variable [Inhabited V]

theorem capacity_kept (hcap : 1 ≤ capacity) (hm : 1 ≤ maxAverageNum) (hm' : maxAverageNum ≤ INT_MAX)
    (ops : List (Op K V))
    (hok : Foundation.Run.Along step SafeAt (create capacity maxAverageNum) ops) :
    ∃ c, run (create capacity maxAverageNum) ops = some c ∧ (c.size : ℤ) ≤ capacity ∧
      ((c.size : ℤ) = capacity →
        ∃ victim ∈ c.nodeMap_, ∃ d, c.makeRoom = some d ∧ d.nodeMap_ = c.nodeMap_.erase victim) := by
  have hstart : (create capacity maxAverageNum : KLfuCache K V).Usable capacity maxAverageNum :=
    create_usable hcap hm (Int.lt_of_le_sub_one hm')
  obtain ⟨c, hc, husable⟩ := Foundation.Run.possible
    (fun c op hok hc ↦ (hc.step hok).imp fun d h ↦ ⟨h.1, h.2.2⟩) hstart hok
  exact ⟨c, hc, husable.configured.capacity_ ▸ husable.ranked.size_le, husable.evicts⟩

theorem second_put_evicts :
    ∃ c, run (create 1 1) [.put (lit "a") 1 .stored, .get (lit "a") .stored, .put (lit "b") 2 .stored] =
        some c ∧ (c.size : ℤ) ≤ 1 ∧
      ((c.size : ℤ) = 1 →
        ∃ victim ∈ c.nodeMap_, ∃ d, c.makeRoom = some d ∧ d.nodeMap_ = c.nodeMap_.erase victim) :=
  capacity_kept (by decide) (by decide) (by decide) _ (by decide +kernel)

def frequentUse : List (Op Bytes ℕ) :=
  .put (lit "a") 1 .stored :: List.replicate 126 (.get (lit "a") .stored) ++
    [.put (lit "b") 2 .stored]

theorem capacity_exceeded :
    ¬ ∀ (ops : List (Op Bytes ℕ)) (c : KLfuCache Bytes ℕ),
      run (create 1 1) ops = some c → (c.size : ℤ) ≤ 1 := by
  intro h
  have hsize : (run (create 1 1) frequentUse).map size = some 2 := by decide +kernel
  obtain ⟨c, hc, hs⟩ := Option.map_eq_some_iff.1 hsize
  have hle := h frequentUse c hc
  omega

end Runs

theorem Stepped.listAt_of_resets (h : c.Stepped op d) (hc : c.Usable capacity maxAverageNum)
    (ht : c.curTotalNum_ + 1 < 2 ^ 31) (hreset : c.Resets op) : d.listAt d.minFreq_ = [] := by
  obtain ⟨node, hnode, hr⟩ := hreset
  cases h with
  | hit key x value hop hlookup haccessed =>
    have hkey : op.key? = some key := by
      rcases hop with ⟨order, rfl⟩ | ⟨order, rfl, -⟩ <;> rfl
    rw [hkey] at hnode
    obtain rfl : x = node := Option.some.inj (hlookup.symm.trans hnode)
    have hset := hc.ranked.setValue x value
    have hx : x ∈ (c.setValue x value).ptrs := mem_ptrs.2 ⟨key, hlookup⟩
    have hr' := (resetsAt_setValue c x value).2 hr
    have hw := hset.weighed.touched hset.sound.linked hx ht
    have htouched := reweighed_touched hset.sound.linked hx
    have hm := hc.configured.maxAverageNum_ ▸ hc.configured.maxAverageNum_pos
    have hm' := hc.configured.maxAverageNum_ ▸ hc.configured.maxAverageNum_lt
    have ho := (over_touched_iff hset ht hx).2 hr'.1
    have hhigh : ∀ f ∈ d.freqs, INT8_MAX ≤ f := by
      intro f hf
      obtain ⟨y, hy, rfl⟩ := mem_freqs.1 hf
      rw [haccessed.reweighed.ptrs] at hy
      rw [haccessed.freq hw hm hm' hy, if_pos ho,
        hset.weighed.freq_touched hset.sound.linked hx ht, htouched.maxAverageNum_]
      refine le_max_of_le_right ?_
      have hy' := hr'.2 y (htouched.ptrs ▸ hy)
      by_cases he : y = x
      · subst he
        simpa using hy'
      · simpa [he] using hy'
    rw [haccessed.reset ho hhigh]
    refine List.eq_nil_iff_forall_not_mem.2 fun y hy ↦ ?_
    obtain ⟨hy, hf⟩ := (haccessed.reweighed.linked.mem_listAt 1 y).1 hy
    have hle := hhigh _ (mem_freqs.2 ⟨y, hy, hf⟩)
    exact absurd hle (by decide)
  | missed key order hkey => simp [Op.key?, AList.lookup_eq_none.2 hkey] at hnode
  | inserted key value order hkey hroom haccessed =>
    simp [Op.key?, AList.lookup_eq_none.2 hkey] at hnode
  | purged => simp [Op.key?] at hnode

/-- The condition on resets is needed: after a reset at a full cache the next new key
evicts nothing. -/
theorem reset_overflows (hc : c.Usable capacity maxAverageNum) (ht : c.curTotalNum_ < INT_MAX)
    (hreset : c.Resets op) (hd : step c op = some d) (hfull : (d.size : ℤ) = capacity)
    (hdefault : default ∉ d.nodeMap_) (hkey : key ∉ d.nodeMap_) (value : V)
    (order : IterationOrder) : ∃ e, d.put key value order = some e ∧ e.size = d.size + 1 := by
  have ht' : c.curTotalNum_ + 1 < 2 ^ 31 := Int.add_lt_of_lt_sub_right ht
  obtain ⟨d', hd', hstepped, hadv⟩ := hc.ranked.step hc.minUsable hc.configured ht' op
  obtain rfl := Option.some.inj (hd'.symm.trans hd)
  have hlist := hstepped.listAt_of_resets hc ht' hreset
  have hcfg := hc.configured.of_eq hadv.capacity_ hadv.maxAverageNum_
  have hcap : 1 ≤ d'.capacity_ := hcfg.capacity_ ▸ hcfg.capacity_pos
  obtain ⟨e, he, -, hput⟩ := step_spec hadv.ranked.sound (by omega) (.put key value order)
    (fun _ _ ↦ hdefault) (fun h ↦ nomatch h)
  refine ⟨e, he, ?_⟩
  cases hput with
  | hit key' node value' hop hlookup haccessed =>
    obtain ⟨order', heq⟩ | ⟨order', heq, -⟩ := hop
    · cases heq
      exact absurd hkey (not_not.2 (AList.lookup_isSome.1 (hlookup ▸ rfl)))
    · cases heq
  | @inserted r f key value order hkey' hroom haccessed =>
    change f.size = d'.size + 1
    rw [← length_ptrs f, haccessed.reweighed.ptrs, ptrs_insertNode (hroom.notMem hkey'),
      List.length_cons, length_ptrs]
    cases hroom with
    | spare h => exact absurd (hfull.trans hcfg.capacity_.symm) h
    | evicted h node rest hlist' => rw [hlist] at hlist'; cases hlist'
    | sentinel h hnil =>
      change (KLfuCache.size { d' with nodeMap_ := d'.nodeMap_.erase default }) + 1 = _
      rw [erase_of_notMem hdefault]

end CppAiService.KLfuCache
