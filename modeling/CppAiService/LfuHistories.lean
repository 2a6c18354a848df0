import CppAiService.LfuRelocation
import CppAiService.LfuTransitions

namespace CppAiService.KLfuCache

open Foundation.Run

variable {K V : Type} {c d : KLfuCache K V} {node : NodePtr} {key : K} {n m : ℕ} {f : ℤ}
  {capacity maxAverageNum : ℤ}

section Cases

variable [DecidableEq K] [Inhabited K]

/-- What making room does to the tables, whichever entry has to go. -/
inductive Vacated (c : KLfuCache K V) : KLfuCache K V → Prop
  | spare : Vacated c c
  | erased {d : KLfuCache K V} (key : K) (total average : ℤ)
      (h : d = c ∨ ∃ node, c.removeFromFreqList node = some d) :
      Vacated c { d with
        nodeMap_ := d.nodeMap_.erase key
        curTotalNum_ := total
        curAverageNum_ := average }

/-- What one operation does to the tables, with nothing assumed of the cache. -/
inductive Taken (c : KLfuCache K V) : KLfuCache K V → Prop
  | idle : Taken c c
  | hit {d : KLfuCache K V} (node : NodePtr) (value : V) (read : V) (order : IterationOrder)
      (hnode : node ∈ c.ptrs)
      (hget : (c.setValue node value).getInternal node order = some (read, d)) : Taken c d
  | inserted {d e : KLfuCache K V} (key : K) (value : V) (order : IterationOrder)
      (hroom : c.Vacated d) (hadd : (d.insertNode key value).addFreqNum order = some e) :
      Taken c { e with minFreq_ := min e.minFreq_ 1 }
  | purged : Taken c c.purge

theorem vacated_of_makeRoom (h : c.makeRoom = some d) : c.Vacated d := by
  rw [makeRoom] at h
  split at h
  · rw [kickOut, Option.bind_eq_bind, Option.bind_eq_some_iff] at h
    obtain ⟨list, -, h⟩ := h
    cases list with
    | cons node rest =>
      dsimp only at h
      rw [Option.bind_eq_bind, Option.bind_eq_some_iff] at h
      obtain ⟨c', hremove, hsome⟩ := h
      obtain rfl := Option.some.inj hsome
      exact .erased _ _ _ (.inr ⟨node, hremove⟩)
    | nil =>
      rw [Option.bind_eq_some_iff] at h
      obtain ⟨first, -, hsome⟩ := h
      obtain rfl := Option.some.inj hsome
      exact .erased _ _ _ (.inl rfl)
  · exact Option.some.inj h ▸ .spare

theorem taken_of_put {value : V} {order : IterationOrder} (h : c.put key value order = some d) :
    c.Taken d := by
  by_cases hcap : c.capacity_ = 0
  · rw [put, if_pos hcap] at h
    exact Option.some.inj h ▸ .idle
  · cases hlookup : c.nodeMap_.lookup key with
    | some node =>
      rw [put_of_lookup_eq_some hcap hlookup, Option.map_eq_some_iff] at h
      obtain ⟨⟨read, d⟩, hget, rfl⟩ := h
      exact .hit node value read order (mem_ptrs.2 ⟨key, hlookup⟩) hget
    | none =>
      rw [put_of_notMem hcap (AList.lookup_eq_none.1 hlookup)] at h
      simp only [putInternal, Option.bind_eq_bind, Option.bind_eq_some_iff] at h
      obtain ⟨c₁, hroom, c₂, hadd, hsome⟩ := h
      obtain rfl := Option.some.inj hsome
      exact .inserted key value order (vacated_of_makeRoom hroom) hadd

omit [Inhabited K] in
theorem taken_of_get {order : IterationOrder} {found : Option V}
    (h : c.get key order = some (found, d)) : c.Taken d := by
  cases hlookup : c.nodeMap_.lookup key with
  | some node =>
    rw [get_of_lookup_eq_some hlookup, Option.map_eq_some_iff] at h
    obtain ⟨⟨read, d'⟩, hget, heq⟩ := h
    obtain ⟨-, rfl⟩ := Prod.mk.inj heq
    refine .hit node (c.nodes node).value read order (mem_ptrs.2 ⟨key, hlookup⟩) ?_
    rwa [setValue_self]
  | none =>
    rw [get_of_notMem (AList.lookup_eq_none.1 hlookup)] at h
    obtain ⟨-, rfl⟩ := Prod.mk.inj (Option.some.inj h)
    exact .idle

theorem taken_of_step {op : Op K V} (h : c.step op = some d) : c.Taken d := by
  cases op with
  | put key value order => exact taken_of_put h
  | get key order =>
    obtain ⟨⟨found, d⟩, hget, rfl⟩ := Option.map_eq_some_iff.1 h
    exact taken_of_get hget
  | purge =>
    obtain rfl := Option.some.inj h
    exact .purged

omit [Inhabited K] in
theorem mem_ptrs_of_erase (key : K)
    (hnode : node ∈ (c.nodeMap_.erase key).entries.map Sigma.snd) : node ∈ c.ptrs :=
  ((List.kerase_sublist key c.nodeMap_.entries).map Sigma.snd).subset hnode

omit [Inhabited K] in
theorem mem_ptrs_of_insertNode {value : V} (hnode : node ∈ (c.insertNode key value).ptrs) :
    node = c.allocated ∨ node ∈ c.ptrs := by
  change node ∈ (c.nodeMap_.insert key c.allocated).entries.map Sigma.snd at hnode
  rw [AList.entries_insert, List.map_cons, List.mem_cons] at hnode
  exact hnode.imp_right (mem_ptrs_of_erase key)

end Cases

/-- What holds of every cache that was constructed and used: unused memory is still unused. -/
structure Made [Inhabited K] [Inhabited V] (capacity maxAverageNum : ℤ) (c : KLfuCache K V) :
    Prop where
  capacity_ : c.capacity_ = capacity
  maxAverageNum_ : c.maxAverageNum_ = maxAverageNum
  cached : ∀ node ∈ c.ptrs, node < c.allocated
  unused : ∀ node, c.allocated ≤ node → c.nodes node = default

namespace Made

variable [Inhabited K] [Inhabited V]

section

variable (h : c.Made capacity maxAverageNum)
include h

theorem frame (hframe : c.Frame d) : d.Made capacity maxAverageNum where
  capacity_ := hframe.capacity_.trans h.capacity_
  maxAverageNum_ := hframe.maxAverageNum_.trans h.maxAverageNum_
  cached node hnode := hframe.allocated ▸ h.cached node (hframe.ptrs ▸ hnode)
  unused node hnode := by
    rw [hframe.allocated] at hnode
    have hfree : node ∉ c.ptrs := fun hmem ↦ absurd (h.cached node hmem) (Nat.not_lt.2 hnode)
    exact (hframe.nodes node hfree).trans (h.unused node hnode)

theorem addFreqNum {order : IterationOrder} (hadd : c.addFreqNum order = some d) :
    d.Made capacity maxAverageNum := by
  have hcounted : c.counted.Made capacity maxAverageNum :=
    ⟨h.capacity_, h.maxAverageNum_, h.cached, h.unused⟩
  exact hcounted.frame (addFreqNum_frame hadd)

theorem getInternal {order : IterationOrder} {value : V} (hnode : node ∈ c.ptrs)
    (hget : c.getInternal node order = some (value, d)) : d.Made capacity maxAverageNum := by
  simp only [KLfuCache.getInternal, Option.bind_eq_bind, Option.bind_eq_some_iff] at hget
  obtain ⟨c₁, hremove, c₃, hadvance, c₄, hadd, hsome⟩ := hget
  obtain ⟨-, rfl⟩ := Prod.mk.inj (Option.some.inj hsome)
  have hframe₁ := removeFromFreqList_frame hremove
  have hframe₂ := reweigh_frame (hframe₁.ptrs ▸ hnode) (wrap32 (c₁.freq node + 1))
  exact ((h.frame hframe₁).frame (hframe₂.trans (advanceMinFreq_frame hadvance))).addFreqNum hadd

variable [DecidableEq K]

theorem erase (key : K) (total average : ℤ) : Made capacity maxAverageNum
    { c with
      nodeMap_ := c.nodeMap_.erase key
      curTotalNum_ := total
      curAverageNum_ := average } := by
  refine ⟨h.capacity_, h.maxAverageNum_, fun node hnode ↦ ?_, h.unused⟩
  exact h.cached node (mem_ptrs_of_erase key hnode)

theorem vacated (hroom : c.Vacated d) : d.Made capacity maxAverageNum := by
  cases hroom with
  | spare => exact h
  | @erased c' key total average hremove =>
    rcases hremove with rfl | ⟨node, hremove⟩
    · exact h.erase ..
    · exact (h.frame (removeFromFreqList_frame hremove)).erase ..

theorem insertNode (key : K) (value : V) :
    (c.insertNode key value).Made capacity maxAverageNum := by
  refine ⟨h.capacity_, h.maxAverageNum_, fun node hnode ↦ ?_, fun node hnode ↦ ?_⟩
  · change node < c.allocated + 1
    rcases mem_ptrs_of_insertNode hnode with rfl | hmem
    · exact Nat.lt_succ_self _
    · exact (h.cached node hmem).trans (Nat.lt_succ_self _)
  · have hlt : c.allocated < node := hnode
    rw [nodes_insertNode, Function.update_of_ne hlt.ne']
    exact h.unused node hlt.le

theorem taken (htaken : c.Taken d) : d.Made capacity maxAverageNum := by
  cases htaken with
  | idle => exact h
  | hit node value read order hnode hget =>
    have hset := frame_update hnode { c.nodes node with value := value }
    exact (h.frame hset).getInternal hnode hget
  | inserted key value order hroom hadd =>
    have h' := ((h.vacated hroom).insertNode key value).addFreqNum hadd
    exact ⟨h'.capacity_, h'.maxAverageNum_, h'.cached, h'.unused⟩
  | purged =>
    exact ⟨h.capacity_, h.maxAverageNum_, fun _ hmem ↦ absurd hmem List.not_mem_nil, h.unused⟩

end

theorem create : (create capacity maxAverageNum : KLfuCache K V).Made capacity maxAverageNum :=
  ⟨rfl, rfl, fun _ hmem ↦ absurd hmem List.not_mem_nil, fun _ _ ↦ rfl⟩

end Made

/-- After so many accesses no frequency lies below one or has left the range of an `int`. -/
structure Floored (n : ℕ) (c : KLfuCache K V) : Prop where
  maxAverageNum_ : 0 ≤ c.maxAverageNum_ ∧ c.maxAverageNum_ < 2 ^ 31
  least : 1 ≤ c.minFreq_
  freq : ∀ node ∈ c.ptrs, 1 ≤ c.freq node ∧ c.freq node ≤ 1 + n
  lists : ∀ f list, c.freqToFreqList_.lookup f = some list → list ≠ [] → 1 ≤ f

namespace Floored

section

variable (h : c.Floored n)
include h

theorem mono (hnm : n ≤ m) : c.Floored m := by
  refine ⟨h.maxAverageNum_, h.least, fun node hnode ↦ ⟨(h.freq node hnode).1, ?_⟩, h.lists⟩
  have hfreq := (h.freq node hnode).2
  omega

theorem insert_list {list : List NodePtr} (hf : list ≠ [] → 1 ≤ f) :
    Floored n { c with freqToFreqList_ := c.freqToFreqList_.insert f list } := by
  refine ⟨h.maxAverageNum_, h.least, h.freq, fun f' list' hlookup hne ↦ ?_⟩
  by_cases heq : f' = f
  · subst heq
    rw [AList.lookup_insert, Option.some.injEq] at hlookup
    exact hf (hlookup ▸ hne)
  · rw [AList.lookup_insert_ne heq] at hlookup
    exact h.lists f' list' hlookup hne

theorem removeFromFreqList (hremove : c.removeFromFreqList node = some d) : d.Floored n := by
  rw [KLfuCache.removeFromFreqList, Option.bind_eq_bind, Option.bind_eq_some_iff] at hremove
  obtain ⟨list, hlookup, hsome⟩ := hremove
  obtain rfl := Option.some.inj hsome
  refine h.insert_list fun hne ↦ h.lists _ list hlookup ?_
  rintro rfl
  exact hne rfl

theorem addToFreqList (node : NodePtr) (hfreq : 1 ≤ c.freq node) :
    (c.addToFreqList node).Floored n :=
  h.insert_list fun _ ↦ hfreq

theorem update (node : NodePtr) (data : Node K V) (hf : 1 ≤ data.freq ∧ data.freq ≤ 1 + n) :
    Floored n { c with nodes := Function.update c.nodes node data } := by
  refine ⟨h.maxAverageNum_, h.least, fun x hx ↦ ?_, h.lists⟩
  change 1 ≤ (Function.update c.nodes node data x).freq ∧
    (Function.update c.nodes node data x).freq ≤ 1 + n
  rw [Function.update_apply]
  split
  · exact hf
  · exact h.freq x hx

theorem reweigh (node : NodePtr) (hf : 1 ≤ f ∧ f ≤ 1 + n) :
    ((c.setFreq node f).addToFreqList node).Floored n := by
  have hset : (c.setFreq node f).Floored n := h.update node _ hf
  refine hset.addToFreqList node ?_
  change 1 ≤ (Function.update c.nodes node { c.nodes node with freq := f } node).freq
  rw [Function.update_self]
  exact hf.1

theorem ageNode (hn : 1 + n < 2 ^ 31) (hnode : node ∈ c.ptrs) (hage : c.ageNode node = some d) :
    d.Floored n := by
  rw [KLfuCache.ageNode, Option.bind_eq_bind, Option.bind_eq_some_iff] at hage
  obtain ⟨c', hremove, hsome⟩ := hage
  obtain rfl := Option.some.inj hsome
  have h' := h.removeFromFreqList hremove
  have hnode' : node ∈ c'.ptrs := (removeFromFreqList_frame hremove).ptrs ▸ hnode
  refine h'.reweigh node ?_
  obtain ⟨hpos, hle⟩ := h'.freq node hnode'
  obtain ⟨hnonneg, hlt⟩ := h'.maxAverageNum_
  have hhalf : c'.maxAverageNum_.tdiv 2 = c'.maxAverageNum_ / 2 :=
    Int.tdiv_eq_ediv_of_nonneg hnonneg
  have hwrap : wrap32 (c'.freq node - c'.maxAverageNum_.tdiv 2) =
      c'.freq node - c'.maxAverageNum_ / 2 := by
    rw [hhalf]
    exact wrap32_eq_self (by omega) (by omega)
  rw [hwrap]
  split <;> omega

theorem updateMinFreq : c.updateMinFreq.Floored n := by
  obtain ⟨hfrom, -, -⟩ := foldl_least c.freqToFreqList_.entries INT8_MAX
  refine ⟨h.maxAverageNum_, ?_, h.freq, h.lists⟩
  rw [KLfuCache.updateMinFreq]
  dsimp only
  split
  · exact le_rfl
  case isFalse hne =>
    rcases hfrom with hmax | ⟨⟨f, list⟩, hmem, hnonempty, hmin⟩
    · exact absurd hmax hne
    · rw [hmin]
      exact h.lists f list (AList.mem_lookup_iff.2 hmem) hnonempty

theorem addFreqNum {order : IterationOrder} (hn : 1 + n < 2 ^ 31)
    (hadd : c.addFreqNum order = some d) : d.Floored n := by
  have hcounted : c.counted.Floored n := ⟨h.maxAverageNum_, h.least, h.freq, h.lists⟩
  have heq : c.addFreqNum order =
      if c.Over then c.counted.handleOverMaxAverageNum order else some c.counted := rfl
  rw [heq, handleOverMaxAverageNum] at hadd
  split_ifs at hadd
  · exact Option.some.inj hadd ▸ hcounted
  · rw [Option.bind_eq_bind, Option.bind_eq_some_iff] at hadd
    obtain ⟨c', hrun, hsome⟩ := hadd
    obtain rfl := Option.some.inj hsome
    have hmem : ∀ node ∈ order.arrange c.counted.ptrs, node ∈ c.counted.ptrs :=
      fun node hnode ↦ (order.perm c.counted.ptrs).subset hnode
    have hreaches : Reaches KLfuCache.ageNode (fun _ node ↦ node ∈ c.counted.ptrs ∧ True)
        c.counted (order.arrange c.counted.ptrs) c' :=
      ⟨(along_of_forall (fun _ _ ↦ trivial) ..).and_mem hmem, hrun⟩
    have hkeeps : ∀ s node t, node ∈ c.counted.ptrs ∧ True → s.Floored n ∧ c.counted.Frame s →
        s.ageNode node = some t → t.Floored n ∧ c.counted.Frame t := by
      intro s node t hnode hs hage
      have hnode' : node ∈ s.ptrs := hs.2.ptrs ▸ hnode.1
      exact ⟨hs.1.ageNode hn hnode' hage, hs.2.trans (ageNode_frame hnode' hage)⟩
    have hboth := hreaches.keeps hkeeps ⟨hcounted, Frame.refl _⟩
    exact hboth.1.updateMinFreq
  · exact Option.some.inj hadd ▸ hcounted

theorem advanceMinFreq (hn : 1 + n < 2 ^ 31) (hnode : node ∈ c.ptrs)
    (hadvance : c.advanceMinFreq node = some d) : d.Floored n := by
  obtain ⟨hpos, hle⟩ := h.freq node hnode
  rw [KLfuCache.advanceMinFreq, wrap32_eq_self (by omega) (by omega)] at hadvance
  split at hadvance
  case isTrue hmin =>
    rw [Option.bind_eq_bind, Option.bind_eq_some_iff] at hadvance
    obtain ⟨list, -, hsome⟩ := hadvance
    obtain rfl := Option.some.inj hsome
    split
    · refine ⟨h.maxAverageNum_, ?_, h.freq, h.lists⟩
      rw [← hmin, Int.sub_add_cancel, wrap32_eq_self (by omega) (by omega)]
      exact hpos
    · exact h
  case isFalse => exact Option.some.inj hadvance ▸ h

theorem getInternal {order : IterationOrder} {value : V} (hn : n + 2 < 2 ^ 31)
    (hnode : node ∈ c.ptrs) (hget : c.getInternal node order = some (value, d)) :
    d.Floored (n + 1) := by
  simp only [KLfuCache.getInternal, Option.bind_eq_bind, Option.bind_eq_some_iff] at hget
  obtain ⟨c₁, hremove, c₃, hadvance, c₄, hadd, hsome⟩ := hget
  obtain ⟨-, rfl⟩ := Prod.mk.inj (Option.some.inj hsome)
  have h₁ := h.removeFromFreqList hremove
  have hnode₁ : node ∈ c₁.ptrs := (removeFromFreqList_frame hremove).ptrs ▸ hnode
  obtain ⟨hpos, hle⟩ := h₁.freq node hnode₁
  have hwrap : wrap32 (c₁.freq node + 1) = c₁.freq node + 1 :=
    wrap32_eq_self (by omega) (by omega)
  have hframe := reweigh_frame hnode₁ (wrap32 (c₁.freq node + 1))
  have hnext : 1 ≤ wrap32 (c₁.freq node + 1) ∧ wrap32 (c₁.freq node + 1) ≤ 1 + (n + 1 : ℕ) := by
    rw [hwrap]
    omega
  have h₂ := (h₁.mono (Nat.le_add_right n 1)).reweigh node hnext
  have h₃ := h₂.advanceMinFreq (by omega) (hframe.ptrs ▸ hnode₁) hadvance
  exact h₃.addFreqNum (by omega) hadd

variable [DecidableEq K]

theorem erase (key : K) (total average : ℤ) : Floored n
    { c with
      nodeMap_ := c.nodeMap_.erase key
      curTotalNum_ := total
      curAverageNum_ := average } := by
  refine ⟨h.maxAverageNum_, h.least, fun node hnode ↦ ?_, h.lists⟩
  exact h.freq node (mem_ptrs_of_erase key hnode)

theorem vacated (hroom : c.Vacated d) : d.Floored n := by
  cases hroom with
  | spare => exact h
  | @erased c' key total average hremove =>
    rcases hremove with rfl | ⟨node, hremove⟩
    · exact h.erase ..
    · exact (h.removeFromFreqList hremove).erase ..

theorem insertNode (key : K) (value : V) : (c.insertNode key value).Floored n := by
  have hentered : Floored n { c with
      nodes := Function.update c.nodes c.allocated ⟨1, key, value⟩
      nodeMap_ := c.nodeMap_.insert key c.allocated } := by
    refine ⟨h.maxAverageNum_, h.least, fun node hnode ↦ ?_, h.lists⟩
    change node ∈ (c.insertNode key value).ptrs at hnode
    change 1 ≤ (c.insertNode key value).freq node ∧ (c.insertNode key value).freq node ≤ 1 + n
    rw [freq_insertNode]
    split
    · omega
    case isFalse hold => exact h.freq node ((mem_ptrs_of_insertNode hnode).resolve_left hold)
  have hnew : 1 ≤ (c.insertNode key value).freq c.allocated := by
    rw [freq_insertNode, if_pos rfl]
  have hadded := hentered.addToFreqList c.allocated hnew
  exact ⟨hadded.maxAverageNum_, hadded.least, hadded.freq, hadded.lists⟩

theorem taken (hn : n + 2 < 2 ^ 31) (htaken : c.Taken d) : d.Floored (n + 1) := by
  cases htaken with
  | idle => exact h.mono (Nat.le_add_right n 1)
  | hit node value read order hnode hget =>
    have hset : (c.setValue node value).Floored n := h.update node _ (h.freq node hnode)
    exact hset.getInternal hn hnode hget
  | inserted key value order hroom hadd =>
    have h' := ((h.vacated hroom).insertNode key value).addFreqNum (by omega) hadd
    refine Floored.mono ⟨h'.maxAverageNum_, ?_, h'.freq, h'.lists⟩ (Nat.le_add_right n 1)
    exact le_min h'.least le_rfl
  | purged =>
    refine ⟨h.maxAverageNum_, h.least, fun _ hmem ↦ absurd hmem List.not_mem_nil, ?_⟩
    intro f list hlookup
    rw [KLfuCache.purge, AList.lookup_empty] at hlookup
    cases hlookup

end

theorem create [Inhabited K] [Inhabited V] (hm : 0 ≤ maxAverageNum ∧ maxAverageNum < 2 ^ 31) :
    (create capacity maxAverageNum : KLfuCache K V).Floored 0 := by
  have hleast : (1 : ℤ) ≤ INT8_MAX := by decide
  refine ⟨hm, hleast, fun _ hmem ↦ absurd hmem List.not_mem_nil, ?_⟩
  intro f list hlookup
  rw [KLfuCache.create, AList.lookup_empty] at hlookup
  cases hlookup

end Floored

/-- Only an overflow of a frequency can bring the least one below one. -/
theorem one_le_minFreq [DecidableEq K] [Inhabited K] [Inhabited V]
    (hm : 0 ≤ maxAverageNum ∧ maxAverageNum < 2 ^ 31) {ops : List (Op K V)}
    (hshort : ops.length + 1 < 2 ^ 31) (hrun : run (create capacity maxAverageNum) ops = some c) :
    1 ≤ c.minFreq_ := by
  have hstep : ∀ (n : ℕ) (s : KLfuCache K V) (op : Op K V) (t : KLfuCache K V), n < 2 ^ 31 - 2 →
      s.Floored n → s.step op = some t → t.Floored (n + 1) := by
    intro n s op t hn hs hstep
    exact hs.taken (by omega) (taken_of_step hstep)
  have hc := run_inv_counted hstep (Floored.create hm) (by omega) hrun
  exact hc.least

end CppAiService.KLfuCache
