import CppAiService.LfuSteps

namespace CppAiService.KLfuCache

variable {K V : Type} [DecidableEq K] {c d : KLfuCache K V} {node : NodePtr} {key : K}

/-- The lists that eviction looks at exist once a node has been inserted. -/
def HasHeads (c : KLfuCache K V) : Prop :=
  (c.HasList c.minFreq_ ∧ c.HasList 1) ∨ (1 ≤ c.minFreq_ ∧ c.ptrs = [])

/-- What makes every operation possible. -/
structure Sound (c : KLfuCache K V) : Prop where
  linked : c.Linked
  heads : c.HasHeads
  ranged : ∀ node ∈ c.ptrs, wrap32 (c.freq node) = c.freq node

theorem Accessed.ranged (h : c.Accessed d)
    (hc : ∀ node ∈ c.ptrs, wrap32 (c.freq node) = c.freq node) :
    ∀ node ∈ d.ptrs, wrap32 (d.freq node) = d.freq node := by
  intro node hnode
  rw [h.reweighed.ptrs] at hnode
  rw [h.reweighed.freq]
  split
  · rw [agedFreq, if_pos hnode, aged]
    split
    · rfl
    · exact wrap32_wrap32 _
  · exact hc node hnode

theorem Accessed.hasHeads (h : c.Accessed d) (hmin : c.HasList c.minFreq_) (hone : c.HasList 1) :
    d.HasHeads := by
  refine .inl ⟨?_, h.reweighed.hasList 1 hone⟩
  by_cases ho : c.Over
  · rcases h.exact_or_reset ho with hexact | hreset
    · obtain ⟨node, hnode, hf⟩ := mem_freqs.1 hexact.1
      exact hf ▸ h.reweighed.linked.hasList hnode
    · rw [hreset]
      exact h.reweighed.hasList 1 hone
  · rw [h.kept ho]
    exact h.reweighed.hasList _ hmin

def touched (c : KLfuCache K V) (node : NodePtr) : KLfuCache K V :=
  { c.promoted node with minFreq_ := (c.promoted node).advancedMinFreq node }

theorem reweighed_touched (hc : c.Linked) (h : node ∈ c.ptrs) :
    c.Reweighed (c.touched node) (Function.update c.freq node (wrap32 (c.freq node + 1))) := by
  have hw := reweighed_relinked hc h (wrap32 (c.freq node + 1))
  exact ⟨rfl, rfl, rfl, hw.nodes, hw.linked.withCounters _ _ _, hw.hasList⟩

theorem freq_touched (hc : c.Linked) (h : node ∈ c.ptrs) (x : NodePtr) :
    (c.touched node).freq x = if x = node then wrap32 (c.freq node + 1) else c.freq x := by
  rw [(reweighed_touched hc h).freq, Function.update_apply]

theorem hasHeads_touched (hc : c.Sound) (h : node ∈ c.ptrs) :
    (c.touched node).HasList (c.touched node).minFreq_ ∧ (c.touched node).HasList 1 := by
  have hw := reweighed_touched hc.linked h
  obtain ⟨hmin, hone⟩ | ⟨-, hnil⟩ := hc.heads
  · refine ⟨?_, hw.hasList 1 hone⟩
    change (c.touched node).HasList ((c.promoted node).advancedMinFreq node)
    unfold advancedMinFreq
    split
    · next hadv =>
      have hnew : wrap32 ((c.promoted node).minFreq_ + 1) = wrap32 (c.freq node + 1) := by
        have hf : (c.promoted node).freq node = wrap32 (c.freq node + 1) := by
          rw [promoted, KLfuCache.freq, nodes_relinked, Function.update_self]
        rw [← hadv.1, wrap32_sub_one_add_one, hf, wrap32_wrap32]
      rw [hnew]
      exact hasList_relinked c node _
    · exact hw.hasList _ hmin
  · exact absurd h (hnil ▸ List.not_mem_nil)

theorem getInternal_spec (hc : c.Sound) (h : node ∈ c.ptrs) (order : IterationOrder) :
    ∃ d, c.getInternal node order = some ((c.nodes node).value, d) ∧ (c.touched node).Accessed d := by
  have hw := reweighed_touched hc.linked h
  have hold : (c.promoted node).HasList (wrap32 ((c.promoted node).freq node - 1)) := by
    have hf : (c.promoted node).freq node = wrap32 (c.freq node + 1) :=
      (freq_touched hc.linked h node).trans (if_pos rfl)
    have he : wrap32 (wrap32 (c.freq node + 1) - 1) = c.freq node := by
      rw [sub_eq_add_neg, wrap32_add_wrap32, add_neg_cancel_right, hc.ranged node h]
    rw [hf, he]
    exact hw.hasList _ (hc.linked.hasList h)
  have hne : (c.touched node).ptrs ≠ [] := List.ne_nil_of_mem (hw.ptrs ▸ h)
  obtain ⟨d, hd, ha⟩ := addFreqNum_spec hw.linked hne order
  refine ⟨d, ?_, ha⟩
  unfold getInternal
  rw [removeFromFreqList_eq (hc.linked.hasList h)]
  change (do
    let c' ← (c.promoted node).advanceMinFreq node
    let c' ← c'.addFreqNum order
    return ((c.nodes node).value, c')) = _
  rw [advanceMinFreq_eq hold]
  change (do
    let c' ← (c.touched node).addFreqNum order
    return ((c.nodes node).value, c')) = _
  rw [hd]
  rfl

theorem Accessed.sound_of_touched (hc : c.Sound) (h : node ∈ c.ptrs)
    (ha : (c.touched node).Accessed d) : d.Sound where
  linked := ha.reweighed.linked
  heads := ha.hasHeads (hasHeads_touched hc h).1 (hasHeads_touched hc h).2
  ranged := by
    refine ha.ranged fun x hx ↦ ?_
    rw [freq_touched hc.linked h]
    split
    · exact wrap32_wrap32 _
    · exact hc.ranged x ((reweighed_touched hc.linked h).ptrs ▸ hx)

section Insertion

omit [DecidableEq K] in
theorem nodes_insertNode [DecidableEq K] (c : KLfuCache K V) (key : K) (value : V) :
    (c.insertNode key value).nodes = Function.update c.nodes c.allocated ⟨1, key, value⟩ := rfl

theorem ptrs_insertNode (hkey : key ∉ c.nodeMap_) (value : V) :
    (c.insertNode key value).ptrs = c.allocated :: c.ptrs := by
  change (c.nodeMap_.insert key c.allocated).entries.map Sigma.snd = _
  rw [AList.entries_insert_of_notMem hkey]
  rfl

theorem freq_insertNode (c : KLfuCache K V) (key : K) (value : V) (x : NodePtr) :
    (c.insertNode key value).freq x = if x = c.allocated then 1 else c.freq x := by
  rw [KLfuCache.freq, nodes_insertNode, Function.update_apply, apply_ite Node.freq]
  rfl

theorem listAt_insertNode (c : KLfuCache K V) (key : K) (value : V) (f : ℤ) :
    (c.insertNode key value).listAt f =
      if f = 1 then c.listAt f ++ [c.allocated] else c.listAt f := by
  refine (listAt_addToFreqList _ c.allocated f).trans ?_
  have hone : ({ c with
      nodes := Function.update c.nodes c.allocated ⟨1, key, value⟩
      nodeMap_ := c.nodeMap_.insert key c.allocated } : KLfuCache K V).freq c.allocated = 1 := by
    change (Function.update c.nodes c.allocated _ c.allocated).freq = 1
    rw [Function.update_self]
  rw [hone]
  rfl

theorem hasList_insertNode (c : KLfuCache K V) (key : K) (value : V) :
    (c.insertNode key value).HasList 1 := by
  have hmem : c.allocated ∈ (c.insertNode key value).listAt 1 := by
    rw [listAt_insertNode, if_pos rfl]
    exact List.mem_append_right _ (List.mem_singleton_self _)
  exact hasList_of_mem_listAt hmem

theorem HasList.insertNode {f : ℤ} (h : c.HasList f) (key : K) (value : V) :
    (c.insertNode key value).HasList f := HasList.insert _ _ h

theorem Linked.insertNode (hc : c.Linked) (hkey : key ∉ c.nodeMap_) (value : V) :
    (c.insertNode key value).Linked := by
  have hnew : c.allocated ∉ c.ptrs := fun h ↦ lt_irrefl _ (hc.allocated _ h)
  have hlist : ∀ f, c.allocated ∉ c.listAt f := fun f h ↦ hnew ((hc.mem_listAt f _).1 h).1
  refine ⟨fun k x hx ↦ ?_, fun f x ↦ ?_, fun f ↦ ?_, fun x hx ↦ ?_⟩
  · change (c.nodeMap_.insert key c.allocated).lookup k = some x at hx
    by_cases hk : k = key
    · subst hk
      rw [AList.lookup_insert, Option.some.injEq] at hx
      rw [nodes_insertNode, ← hx, Function.update_self]
    · rw [AList.lookup_insert_ne hk] at hx
      have hne : x ≠ c.allocated := fun h ↦ hnew (h ▸ mem_ptrs.2 ⟨k, hx⟩)
      rw [nodes_insertNode, Function.update_of_ne hne]
      exact hc.keyed k x hx
  · rw [listAt_insertNode, ptrs_insertNode hkey, freq_insertNode, List.mem_cons]
    by_cases hx : x = c.allocated
    · subst hx
      by_cases hf : f = 1
      · simp [hf]
      · simp [hf, hlist, Ne.symm hf]
    · by_cases hf : f = 1 <;> simp [hf, hx, hc.mem_listAt]
  · rw [listAt_insertNode]
    split
    · exact (hc.nodup f).append (List.nodup_singleton _)
        (List.disjoint_singleton.2 (hlist f))
    · exact hc.nodup f
  · rw [ptrs_insertNode hkey, List.mem_cons] at hx
    change x < c.allocated + 1
    rcases hx with rfl | hx
    · exact Nat.lt_succ_self _
    · exact Nat.lt_succ_of_lt (hc.allocated x hx)

end Insertion

section Eviction

def evicted (c : KLfuCache K V) (node : NodePtr) : KLfuCache K V :=
  { c with
    freqToFreqList_ := c.freqToFreqList_.insert (c.freq node) ((c.listAt (c.freq node)).erase node)
    nodeMap_ := c.nodeMap_.erase (c.nodes node).key }.decreaseFreqNum (c.freq node)

theorem ptrs_evicted (hc : c.Linked) (h : node ∈ c.ptrs) :
    c.ptrs.Perm (node :: (c.evicted node).ptrs) := by
  have hmem : (c.nodes node).key ∈ c.nodeMap_.entries.keys := by
    rw [← AList.keys, ← AList.mem_keys, ← AList.lookup_isSome, hc.lookup_key h]
    rfl
  obtain ⟨x, l₁, l₂, -, he, hk⟩ := List.exists_of_kerase hmem
  have hx : x = node := by
    have hlook : c.nodeMap_.lookup (c.nodes node).key = some x := by
      refine AList.mem_lookup_iff.2 ?_
      rw [he]
      exact List.mem_append_right _ List.mem_cons_self
    exact Option.some.inj (hlook.symm.trans (hc.lookup_key h))
  subst hx
  have hrest : (c.evicted x).ptrs = (l₁ ++ l₂).map Sigma.snd := by
    rw [← hk]
    rfl
  rw [hrest, KLfuCache.ptrs, he, List.map_append, List.map_append, List.map_cons]
  exact List.perm_middle

theorem mem_ptrs_evicted (hc : c.Linked) (h : node ∈ c.ptrs) (x : NodePtr) :
    x ∈ (c.evicted node).ptrs ↔ x ∈ c.ptrs ∧ x ≠ node := by
  have hperm := ptrs_evicted hc h
  have hnodup := List.nodup_cons.1 (hperm.nodup_iff.1 hc.nodup_ptrs)
  rw [hperm.mem_iff, List.mem_cons]
  constructor
  · intro hx
    exact ⟨.inr hx, fun he ↦ hnodup.1 (he ▸ hx)⟩
  · intro hand
    obtain ⟨hx | hx, hne⟩ := hand
    · exact absurd hx hne
    · exact hx

theorem size_evicted (hc : c.Linked) (h : node ∈ c.ptrs) : c.size = (c.evicted node).size + 1 := by
  rw [← length_ptrs, (ptrs_evicted hc h).length_eq, List.length_cons, length_ptrs]

theorem listAt_evicted (c : KLfuCache K V) (node : NodePtr) (f : ℤ) :
    (c.evicted node).listAt f =
      if f = c.freq node then (c.listAt f).erase node else c.listAt f := by
  refine (listAt_insert c (c.freq node) f _).trans ?_
  split
  · next h => rw [h]
  · rfl

theorem Linked.evicted (hc : c.Linked) (h : node ∈ c.ptrs) : (c.evicted node).Linked := by
  have hperm := ptrs_evicted hc h
  refine ⟨fun k x hx ↦ ?_, fun f x ↦ ?_, fun f ↦ ?_, fun x hx ↦ ?_⟩
  · change (c.nodeMap_.erase (c.nodes node).key).lookup k = some x at hx
    by_cases hk : k = (c.nodes node).key
    · rw [hk, AList.lookup_erase] at hx
      cases hx
    · rw [AList.lookup_erase_ne hk] at hx
      exact hc.keyed k x hx
  · have hfreq : (c.evicted node).freq x = c.freq x := rfl
    rw [listAt_evicted, mem_ptrs_evicted hc h, hfreq]
    split
    · rw [(hc.nodup f).mem_erase_iff, hc.mem_listAt]
      tauto
    · next hne =>
      rw [hc.mem_listAt]
      constructor
      · intro hand
        obtain ⟨hx, rfl⟩ := hand
        exact ⟨⟨hx, fun he ↦ hne (he ▸ rfl)⟩, rfl⟩
      · intro hand
        obtain ⟨⟨hx, -⟩, rfl⟩ := hand
        exact ⟨hx, rfl⟩
  · rw [listAt_evicted]
    split
    · exact (hc.nodup f).erase node
    · exact hc.nodup f
  · exact hc.allocated x ((mem_ptrs_evicted hc h x).1 hx).1

theorem MinExact.listAt_ne_nil (hc : c.Linked) (h : c.MinExact) : c.listAt c.minFreq_ ≠ [] := by
  obtain ⟨node, hnode, hf⟩ := mem_freqs.1 h.1
  exact List.ne_nil_of_mem ((hc.mem_listAt _ _).2 ⟨hnode, hf⟩)

variable [Inhabited K]

/-- Eviction takes the oldest node of the list of `minFreq_`. -/
theorem kickOut_eq (hc : c.Linked) {rest : List NodePtr} (h : c.listAt c.minFreq_ = node :: rest) :
    node ∈ c.ptrs ∧ c.freq node = c.minFreq_ ∧ c.kickOut = some (c.evicted node) := by
  have hmem : node ∈ c.listAt c.minFreq_ := h ▸ List.mem_cons_self
  obtain ⟨hnode, hf⟩ := (hc.mem_listAt _ _).1 hmem
  refine ⟨hnode, hf, ?_⟩
  unfold kickOut
  rw [(hasList_of_mem_listAt hmem).lookup_eq, h]
  change (do
    let c' ← c.removeFromFreqList node
    return KLfuCache.decreaseFreqNum { c' with nodeMap_ := c'.nodeMap_.erase (c'.nodes node).key }
      (c'.freq node)) = _
  rw [removeFromFreqList_eq (hc.hasList hnode)]
  rfl

/-- On an empty list it takes the tail sentinel for a node. -/
theorem kickOut_sentinel (hmin : c.HasList c.minFreq_) (hone : c.HasList 1)
    (h : c.listAt c.minFreq_ = []) :
    c.kickOut = some ({ c with nodeMap_ := c.nodeMap_.erase default }.decreaseFreqNum 1) := by
  unfold kickOut
  rw [hmin.lookup_eq, h]
  change (do
    let _ ← c.freqToFreqList_.lookup 1
    return KLfuCache.decreaseFreqNum { c with nodeMap_ := c.nodeMap_.erase default } 1) = _
  rw [hone.lookup_eq]
  rfl

end Eviction

end CppAiService.KLfuCache
