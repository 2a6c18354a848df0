import CppAiService.LfuCapacity

namespace CppAiService.KLfuCache

variable {K V : Type} [DecidableEq K] [Inhabited K] {c d : KLfuCache K V} {node : NodePtr}
  {key : K} {value : V} {op : Op K V} {capacity maxAverageNum : ℤ}

/-- The average frequency of the entries goes above its limit by this operation. -/
def Ages (c : KLfuCache K V) : Op K V → Prop
  | .put key _ _ =>
    if key ∈ c.nodeMap_ then c.maxAverageNum_ < (c.freqs.sum + 1) / c.size
    else if (c.size : ℤ) = c.capacity_ then
      c.maxAverageNum_ < (c.freqs.sum - c.minFreq_ + 1) / c.size
    else c.maxAverageNum_ < (c.freqs.sum + 1) / (c.size + 1)
  | .get key _ => key ∈ c.nodeMap_ ∧ c.maxAverageNum_ < (c.freqs.sum + 1) / c.size
  | .purge => False

instance (c : KLfuCache K V) (op : Op K V) : Decidable (c.Ages op) :=
  match op with
  | .put key _ _ => inferInstanceAs (Decidable
      (ite (key ∈ c.nodeMap_) (_ < _) (ite ((c.size : ℤ) = c.capacity_) (_ < _) (_ < _))))
  | .get _ _ => inferInstanceAs (Decidable (_ ∧ _ < _))
  | .purge => isFalse id

omit [Inhabited K] in
/-- Aging breaks an exact account, and only aging does. -/
theorem Accessed.accounted_iff (ha : c.Accessed d) (hw : c.Weighed (c.curTotalNum_ + 1))
    (hm : 2 ≤ c.maxAverageNum_) (hm' : c.maxAverageNum_ < 2 ^ 31) (hnonneg : 0 ≤ c.curTotalNum_)
    (hsum : c.curTotalNum_ + 1 = c.freqs.sum) (hne : c.ptrs ≠ []) :
    d.curTotalNum_ = d.freqs.sum ↔ ¬ c.Over := by
  have htotal : d.curTotalNum_ = c.freqs.sum := by
    rw [ha.total, hsum]
    exact wrap32_eq_self (by omega) (hsum ▸ hw.total_lt)
  rw [htotal]
  constructor
  · intro heq ho
    have hover := (over_iff hnonneg hw.total_lt hne).1 ho
    have hbig : ∃ node ∈ c.ptrs, 2 ≤ c.freq node := by
      by_contra hall
      push Not at hall
      have hle : c.freqs.sum ≤ c.freqs.length • (1 : ℤ) :=
        List.sum_le_card_nsmul _ _ fun f hf ↦ by
          obtain ⟨x, hx, rfl⟩ := mem_freqs.1 hf
          exact Int.lt_add_one_iff.1 (hall x hx)
      rw [freqs, List.length_map, length_ptrs, nsmul_eq_mul, mul_one, ← freqs] at hle
      have hsize : (0 : ℤ) < c.size := by
        rw [← length_ptrs]
        exact_mod_cast List.length_pos_iff.2 hne
      rw [hsum] at hover
      have := (Int.ediv_lt_iff_lt_mul hsize).2 (by linarith : c.freqs.sum < 2 * c.size)
      omega
    obtain ⟨node, hnode, hbig⟩ := hbig
    have hlt : d.freqs.sum < c.freqs.sum := by
      rw [freqs, ha.reweighed.ptrs]
      refine List.sum_lt_sum _ _ (fun x hx ↦ (ha.freq_le hw (by omega) hm' hx).2) ⟨node, hnode, ?_⟩
      rw [ha.freq hw (by omega) hm' hnode, if_pos ho]
      exact max_lt (by omega) (by omega)
    omega
  · intro ho
    rw [freqs, ha.reweighed.freqs, if_neg ho]

structure Settled (capacity maxAverageNum : ℤ) (c : KLfuCache K V) : Prop where
  ranked : c.Ranked
  exact : c.ptrs ≠ [] → c.MinExact
  configured : c.Configured capacity maxAverageNum
  accounted : c.curTotalNum_ = c.freqs.sum
  bounded : c.curTotalNum_ ≤ (maxAverageNum + 1) * capacity
  average_le : c.curAverageNum_ ≤ maxAverageNum

omit [Inhabited K] in
theorem Accessed.bounded (ha : c.Accessed d) (hw : c.Weighed (c.curTotalNum_ + 1))
    (hnonneg : 0 ≤ c.curTotalNum_) (hne : c.ptrs ≠ []) (ho : ¬ c.Over) (hm : 1 ≤ c.maxAverageNum_)
    (hcap : (c.size : ℤ) ≤ capacity) : d.curTotalNum_ ≤ (c.maxAverageNum_ + 1) * capacity := by
  have hlt := hw.total_lt
  have hsize : (0 : ℤ) < c.size := by
    rw [← length_ptrs]
    exact_mod_cast List.length_pos_iff.2 hne
  rw [over_iff hnonneg hlt hne, not_lt] at ho
  rw [ha.total, wrap32_eq_self (by omega) hlt]
  have hlt' := (Int.ediv_lt_iff_lt_mul hsize).1 (Int.lt_add_one_of_le ho)
  exact hlt'.le.trans (mul_le_mul_of_nonneg_left hcap (by omega))

omit [Inhabited K] in
theorem Settled.minUsable (hc : c.Settled capacity maxAverageNum) : c.MinUsable :=
  fun hne ↦ .inl (hc.exact hne)

omit [Inhabited K] in
theorem ages_of_hit (hop : (∃ order, op = .put key value order) ∨ ∃ order, op = .get key order)
    (hkey : key ∈ c.nodeMap_) : c.Ages op ↔ c.maxAverageNum_ < (c.freqs.sum + 1) / c.size := by
  rcases hop with ⟨order, rfl⟩ | ⟨order, rfl⟩
  · rw [Ages, if_pos hkey]
  · exact and_iff_right hkey

omit [Inhabited K] in
theorem Settled.ages_of_resets (hc : c.Settled capacity maxAverageNum) (h : c.Resets op) :
    c.Ages op := by
  obtain ⟨node, hnode, hr⟩ := h
  have hmem : ∀ {key}, c.nodeMap_.lookup key = some node → key ∈ c.nodeMap_ :=
    fun h ↦ AList.lookup_isSome.1 (h ▸ rfl)
  have hover := hc.accounted ▸ hr.1
  cases op with
  | put key value order => exact (ages_of_hit (.inl ⟨order, rfl⟩) (hmem hnode)).2 hover
  | get key order => exact ⟨hmem hnode, hover⟩
  | purge => cases hnode

theorem Settled.roomMade (hc : c.Settled capacity maxAverageNum) (h : c.RoomMade d)
    (hkey : key ∉ c.nodeMap_) (value : V) (order : IterationOrder) :
    d.curTotalNum_ = d.freqs.sum ∧ (c.Ages (.put key value order) ↔
      d.maxAverageNum_ < (d.curTotalNum_ + 1) / (d.size + 1 : ℕ)) := by
  have hcap : 1 ≤ c.capacity_ := hc.configured.capacity_ ▸ hc.configured.capacity_pos
  rw [Ages, if_neg hkey]
  cases h with
  | spare hspare =>
    rw [if_neg hspare, hc.accounted]
    exact ⟨rfl, Iff.rfl⟩
  | evicted hfull node rest hlist =>
    obtain ⟨hnode, hf, -⟩ := kickOut_eq hc.ranked.sound.linked hlist
    have hsum := sum_evicted hc.ranked.sound.linked hnode
    have htotal : (c.evicted node).curTotalNum_ = c.freqs.sum - c.minFreq_ := by
      rw [hc.ranked.curTotalNum_evicted hnode, hf, hc.accounted]
    rw [if_pos hfull, htotal, ← size_evicted hc.ranked.sound.linked hnode]
    exact ⟨by omega, Iff.rfl⟩
  | sentinel hfull hlist =>
    exact absurd hlist
      ((hc.minUsable.exact_of_full hcap hfull).listAt_ne_nil hc.ranked.sound.linked)

omit [Inhabited K] in
/-- A step that ends with an access keeps the account exactly if the access does not age. -/
theorem Settled.of_accessed (hc : c.Settled capacity maxAverageNum) (hm : 2 ≤ maxAverageNum)
    (hadv : c.Advanced op d) {e f : KLfuCache K V} (ha : e.Accessed f)
    (htotal : d.curTotalNum_ = f.curTotalNum_)
    (haverage : d.curAverageNum_ = f.curAverageNum_) (hfreqs : d.freqs = f.freqs)
    (hmax : e.maxAverageNum_ = maxAverageNum) (hw : e.Weighed (e.curTotalNum_ + 1))
    (hnonneg : 0 ≤ e.curTotalNum_) (hsum : e.curTotalNum_ + 1 = e.freqs.sum) (hne : e.ptrs ≠ [])
    (hsize : (e.size : ℤ) ≤ capacity) (hages : c.Ages op ↔ e.Over) :
    (¬ c.Ages op → d.Settled capacity maxAverageNum) ∧
      (d.curTotalNum_ = d.freqs.sum → ¬ c.Ages op) := by
  have hlt := hc.configured.maxAverageNum_lt
  have haccounted := ha.accounted_iff hw (hmax ▸ hm) (hmax ▸ hlt) hnonneg hsum hne
  rw [← hages, ← htotal, ← hfreqs] at haccounted
  refine ⟨fun h ↦ ⟨hadv.ranked, ?_, ?_, haccounted.2 h, ?_, ?_⟩, haccounted.1⟩
  · exact hadv.exact (fun hr ↦ h (hc.ages_of_resets hr)) hc.exact
  · exact hc.configured.of_eq hadv.capacity_ hadv.maxAverageNum_
  · have hbounded := ha.bounded hw hnonneg hne (mt hages.2 h) (by omega) hsize
    rw [htotal]
    exact hmax ▸ hbounded
  · rw [haverage, ha.average, ← hmax]
    exact not_lt.1 (mt hages.2 h)

theorem Stepped.settled (h : c.Stepped op d) (hc : c.Settled capacity maxAverageNum)
    (hm : 2 ≤ maxAverageNum) (hop : op.key?.isSome) (ht : c.curTotalNum_ < INT_MAX) (hd : d.Sound) :
    (¬ c.Ages op → d.Settled capacity maxAverageNum) ∧
      (d.curTotalNum_ = d.freqs.sum → ¬ c.Ages op) := by
  have ht' : c.curTotalNum_ + 1 < 2 ^ 31 := Int.add_lt_of_lt_sub_right ht
  have hadv := h.advanced hc.ranked hc.minUsable hc.configured ht' hd
  have hmax := hc.configured.maxAverageNum_
  cases h with
  | hit key node value hop' hlookup haccessed =>
    have hkey : key ∈ c.nodeMap_ := AList.lookup_isSome.1 (hlookup ▸ rfl)
    have hset := hc.ranked.setValue node value
    have hnode : node ∈ (c.setValue node value).ptrs := mem_ptrs.2 ⟨key, hlookup⟩
    have hw := hset.weighed.touched hset.sound.linked hnode ht'
    have htouched := reweighed_touched hset.sound.linked hnode
    have hne : ((c.setValue node value).touched node).ptrs ≠ [] :=
      List.ne_nil_of_mem (htouched.ptrs ▸ hnode)
    have hsum : c.curTotalNum_ + 1 = ((c.setValue node value).touched node).freqs.sum := by
      rw [hset.weighed.sum_touched hset.sound.linked hnode ht', freqs_setValue, hc.accounted]
    have hages : c.Ages op ↔ ((c.setValue node value).touched node).Over := by
      rw [ages_of_hit (hop'.imp_right fun ⟨order, h⟩ ↦ ⟨order, h.1⟩) hkey,
        over_touched_iff hset ht' hnode, ← hc.accounted]
      rfl
    have hsize := hc.ranked.size_le
    rw [hc.configured.capacity_] at hsize
    exact hc.of_accessed hm hadv haccessed rfl rfl rfl hmax hw hc.ranked.weighed.total_nonneg hsum
      hne (htouched.size ▸ hsize) hages
  | missed key order hkey => exact ⟨fun _ ↦ hc, fun _ h ↦ hkey h.1⟩
  | @inserted e f key value order hkey hroom haccessed =>
    have hcap : 1 ≤ c.capacity_ := hc.configured.capacity_ ▸ hc.configured.capacity_pos
    obtain ⟨hr, hcapacity, haverage, htotal, hlt⟩ := hc.ranked.roomMade hc.minUsable hcap hroom
    obtain ⟨haccounted, hages⟩ := hc.roomMade hroom hkey value order
    have hkey' := hroom.notMem hkey
    have hnonneg := hr.weighed.total_nonneg
    have hw : (e.insertNode key value).Weighed (e.curTotalNum_ + 1) :=
      hr.weighed.insertNode hr.sound.linked hkey' (by omega)
    have hptrs := ptrs_insertNode hkey' value
    have hne : (e.insertNode key value).ptrs ≠ [] := hptrs ▸ List.cons_ne_nil _ _
    have hsize : (e.insertNode key value).size = e.size + 1 := by
      rw [← length_ptrs, hptrs, List.length_cons, length_ptrs]
    have hsum : e.curTotalNum_ + 1 = (e.insertNode key value).freqs.sum := by
      rw [freqs_insertNode hr.sound.linked hkey', List.sum_cons, haccounted, add_comm]
    have hover : c.Ages (.put key value order) ↔ (e.insertNode key value).Over := by
      have hiff := over_iff (c := e.insertNode key value) hnonneg hw.total_lt hne
      rw [hages, hiff, hsize]
      rfl
    have hbound : ((e.insertNode key value).size : ℤ) ≤ capacity := by
      rw [hsize, ← hc.configured.capacity_, ← hcapacity]
      exact_mod_cast hlt
    have hmax' : (e.insertNode key value).maxAverageNum_ = maxAverageNum := haverage.trans hmax
    exact hc.of_accessed hm hadv haccessed rfl rfl rfl hmax' hw hnonneg hsum hne hbound hover
  | purged => cases hop

theorem Settled.step (hc : c.Settled capacity maxAverageNum) (hm : 2 ≤ maxAverageNum)
    (hop : op.key?.isSome) (ht : c.curTotalNum_ < INT_MAX) :
    ∃ d, step c op = some d ∧ (¬ c.Ages op → d.Settled capacity maxAverageNum) ∧
      (d.curTotalNum_ = d.freqs.sum → ¬ c.Ages op) := by
  have ht' : c.curTotalNum_ + 1 < 2 ^ 31 := Int.add_lt_of_lt_sub_right ht
  obtain ⟨d, hd, hstepped, hadv⟩ := hc.ranked.step hc.minUsable hc.configured ht' op
  exact ⟨d, hd, hstepped.settled hc hm hop ht hadv.ranked.sound⟩

variable [Inhabited V]

theorem create_settled (hcap : 1 ≤ capacity) (hm : 2 ≤ maxAverageNum)
    (hm' : maxAverageNum ≤ INT_MAX) :
    (create capacity maxAverageNum : KLfuCache K V).Settled capacity maxAverageNum := by
  refine ⟨create_ranked (by omega) maxAverageNum, fun hne ↦ absurd rfl hne,
    ⟨rfl, hcap, rfl, by omega, Int.lt_of_le_sub_one hm'⟩, rfl, ?_, ?_⟩
  · exact mul_nonneg (by omega) (by omega)
  · exact zero_le_two.trans hm

/-- The account is exact after every operation of a run precisely when none of them ages. The
counter then stays below its bound, and the average that `addFreqNum` tests below its limit. -/
theorem accounting_iff (hcap : 1 ≤ capacity) (hm : 2 ≤ maxAverageNum)
    (hm' : maxAverageNum ≤ INT_MAX) (hmax : (maxAverageNum + 1) * capacity < INT_MAX)
    (ops : List (Op K V)) (hops : ∀ op ∈ ops, op.key?.isSome) :
    (∀ done rest, ops = done ++ rest → ∃ c, run (create capacity maxAverageNum) done = some c ∧
        c.curTotalNum_ = c.freqs.sum ∧ c.curTotalNum_ ≤ (maxAverageNum + 1) * capacity ∧
          c.curTotalNum_ < INT_MAX ∧ c.curAverageNum_ ≤ maxAverageNum) ↔
      Foundation.Run.Along step (fun c op ↦ ¬ c.Ages op) (create capacity maxAverageNum) ops := by
  refine Foundation.Run.prefixes_iff
    (fun c hc ↦ ⟨hc.accounted, hc.bounded, hc.bounded.trans_lt hmax, hc.average_le⟩) ?_
    (create_settled hcap hm hm')
    ((Foundation.Run.along_of_forall (fun _ _ ↦ trivial) _ ops).and_mem hops)
  intro c op hop hc
  obtain ⟨d, hd, hsettled, hages⟩ := hc.step hm hop.1 (hc.bounded.trans_lt hmax)
  exact ⟨d, hd, hsettled, fun h ↦ hages h.1⟩

theorem two_entries_accounted :
    (∀ done rest, [.put (lit "a") 1 .stored, .get (lit "a") .stored, .put (lit "b") 2 .stored] =
          done ++ rest →
        ∃ c, run (create 2 2 : KLfuCache Bytes ℕ) done = some c ∧
          c.curTotalNum_ = c.freqs.sum ∧ c.curTotalNum_ ≤ (2 + 1) * 2 ∧
            c.curTotalNum_ < INT_MAX ∧ c.curAverageNum_ ≤ 2) ↔
      Foundation.Run.Along step (fun c op ↦ ¬ c.Ages op) (create 2 2)
        [.put (lit "a") 1 .stored, .get (lit "a") .stored, .put (lit "b") 2 .stored] :=
  accounting_iff (by decide) (by decide) (by decide) (by decide) _ (by decide)

theorem aging_unaccounted :
    ¬ ∀ (ops : List (Op Bytes ℕ)) (c : KLfuCache Bytes ℕ),
      (∀ op ∈ ops, op.key?.isSome) → run (create 1 2) ops = some c →
        c.curTotalNum_ = c.freqs.sum := by
  intro h
  have hrun : (run (create 1 2) [.put (lit "a") 1 .stored, .get (lit "a") .stored,
      .get (lit "a") .stored]).map (fun c ↦ (c.curTotalNum_, c.freqs)) =
      some ((3 : ℤ), [(2 : ℤ)]) := by
    decide +kernel
  obtain ⟨c, hc, hpair⟩ := Option.map_eq_some_iff.1 hrun
  obtain ⟨htotal, hfreqs⟩ := Prod.mk.inj hpair
  have heq := h _ c (by decide) hc
  rw [htotal, hfreqs] at heq
  exact absurd heq (by decide)

end CppAiService.KLfuCache
