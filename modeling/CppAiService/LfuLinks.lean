import CppAiService.LfuCache

namespace CppAiService.KLfuCache

variable {K V : Type} {c d e : KLfuCache K V} {node : NodePtr} {g g' : NodePtr → ℤ} {f : ℤ}

def listAt (c : KLfuCache K V) (f : ℤ) : List NodePtr := (c.freqToFreqList_.lookup f).getD []

def HasList (c : KLfuCache K V) (f : ℤ) : Prop := (c.freqToFreqList_.lookup f).isSome

theorem HasList.lookup_eq (h : c.HasList f) : c.freqToFreqList_.lookup f = some (c.listAt f) := by
  obtain ⟨list, hl⟩ := Option.isSome_iff_exists.1 h
  rw [listAt, hl, Option.getD_some]

theorem hasList_of_mem_listAt (h : node ∈ c.listAt f) : c.HasList f := by
  unfold listAt at h
  unfold HasList
  cases hl : c.freqToFreqList_.lookup f with
  | none => simp [hl] at h
  | some list => rfl

variable [DecidableEq K]

/-- The map and the lists hold the same nodes, each under its own key and its own frequency. -/
structure Linked (c : KLfuCache K V) : Prop where
  keyed : ∀ key node, c.nodeMap_.lookup key = some node → (c.nodes node).key = key
  mem_listAt : ∀ f node, node ∈ c.listAt f ↔ node ∈ c.ptrs ∧ c.freq node = f
  nodup : ∀ f, (c.listAt f).Nodup
  allocated : ∀ node ∈ c.ptrs, node < c.allocated

theorem mem_ptrs : node ∈ c.ptrs ↔ ∃ key, c.nodeMap_.lookup key = some node := by
  constructor
  · intro h
    obtain ⟨⟨key, node⟩, hmem, rfl⟩ := List.mem_map.1 h
    exact ⟨key, AList.mem_lookup_iff.2 hmem⟩
  · intro hand
    obtain ⟨key, h⟩ := hand
    exact List.mem_map.2 ⟨⟨key, node⟩, AList.mem_lookup_iff.1 h, rfl⟩

omit [DecidableEq K] in
theorem length_ptrs (c : KLfuCache K V) : c.ptrs.length = c.size := by
  simp [ptrs, size, AList.keys, List.keys]

theorem Linked.lookup_key (hc : c.Linked) (h : node ∈ c.ptrs) :
    c.nodeMap_.lookup (c.nodes node).key = some node := by
  obtain ⟨key, hk⟩ := mem_ptrs.1 h
  rwa [hc.keyed key node hk]

theorem Linked.nodup_ptrs (hc : c.Linked) : c.ptrs.Nodup := by
  have hkeys : c.ptrs.map (fun node ↦ (c.nodes node).key) = c.nodeMap_.keys := by
    rw [ptrs, AList.keys, List.keys, List.map_map]
    refine List.map_congr_left fun entry he ↦ ?_
    exact hc.keyed entry.1 entry.2 (AList.mem_lookup_iff.2 he)
  exact List.Nodup.of_map _ (hkeys ▸ c.nodeMap_.keys_nodup)

theorem Linked.hasList (hc : c.Linked) (h : node ∈ c.ptrs) : c.HasList (c.freq node) :=
  hasList_of_mem_listAt ((hc.mem_listAt _ _).2 ⟨h, rfl⟩)

/-- `d` holds the entries of `c` under new frequencies; the counters are left open. -/
structure Reweighed (c d : KLfuCache K V) (g : NodePtr → ℤ) : Prop where
  capacity_ : d.capacity_ = c.capacity_
  maxAverageNum_ : d.maxAverageNum_ = c.maxAverageNum_
  nodeMap_ : d.nodeMap_ = c.nodeMap_
  nodes : ∀ node, d.nodes node = { c.nodes node with freq := g node }
  linked : d.Linked
  hasList : ∀ f, c.HasList f → d.HasList f

namespace Reweighed

theorem ptrs (h : c.Reweighed d g) : d.ptrs = c.ptrs := by
  rw [KLfuCache.ptrs, h.nodeMap_, KLfuCache.ptrs]

theorem size (h : c.Reweighed d g) : d.size = c.size := by
  rw [KLfuCache.size, h.nodeMap_, KLfuCache.size]

theorem freq (h : c.Reweighed d g) (node : NodePtr) : d.freq node = g node := by
  rw [KLfuCache.freq, h.nodes]

theorem value (h : c.Reweighed d g) (node : NodePtr) :
    (d.nodes node).value = (c.nodes node).value := by
  rw [h.nodes]

theorem refl (hc : c.Linked) : c.Reweighed c c.freq :=
  ⟨rfl, rfl, rfl, fun _ ↦ rfl, hc, fun _ h ↦ h⟩

theorem trans (h : c.Reweighed d g) (h' : d.Reweighed e g') : c.Reweighed e g' where
  capacity_ := h'.capacity_.trans h.capacity_
  maxAverageNum_ := h'.maxAverageNum_.trans h.maxAverageNum_
  nodeMap_ := h'.nodeMap_.trans h.nodeMap_
  nodes node := by rw [h'.nodes, h.nodes]
  linked := h'.linked
  hasList f hf := h'.hasList f (h.hasList f hf)

theorem congr (h : c.Reweighed d g) (hg : ∀ node, g node = g' node) : c.Reweighed d g' :=
  funext hg ▸ h

end Reweighed

def relinked (c : KLfuCache K V) (node : NodePtr) (f : ℤ) : KLfuCache K V :=
  let c := { c with
    freqToFreqList_ :=
      c.freqToFreqList_.insert (c.freq node) ((c.listAt (c.freq node)).erase node) }
  (c.setFreq node f).addToFreqList node

omit [DecidableEq K] in
theorem removeFromFreqList_eq (h : c.HasList (c.freq node)) :
    c.removeFromFreqList node = some { c with
      freqToFreqList_ :=
        c.freqToFreqList_.insert (c.freq node) ((c.listAt (c.freq node)).erase node) } := by
  rw [removeFromFreqList, h.lookup_eq]
  rfl

omit [DecidableEq K] in
theorem listAt_insert (c : KLfuCache K V) (f f' : ℤ) (list : List NodePtr) :
    ({ c with freqToFreqList_ := c.freqToFreqList_.insert f list } : KLfuCache K V).listAt f' =
      if f' = f then list else c.listAt f' := by
  unfold listAt
  split
  · next h => rw [h, AList.lookup_insert, Option.getD_some]
  · next h => rw [AList.lookup_insert_ne h]

omit [DecidableEq K] in
theorem HasList.insert (f : ℤ) (list : List NodePtr) {f' : ℤ} (h : c.HasList f') :
    HasList { c with freqToFreqList_ := c.freqToFreqList_.insert f list } f' := by
  unfold HasList at h ⊢
  by_cases he : f' = f
  · rw [he, AList.lookup_insert, Option.isSome_some]
  · rwa [AList.lookup_insert_ne he]

omit [DecidableEq K] in
theorem listAt_addToFreqList (c : KLfuCache K V) (node : NodePtr) (f : ℤ) :
    (c.addToFreqList node).listAt f =
      if f = c.freq node then c.listAt f ++ [node] else c.listAt f := by
  unfold addToFreqList
  rw [listAt_insert]
  split
  · next h => rw [h, listAt]
  · rfl

omit [DecidableEq K] in
theorem nodes_relinked (c : KLfuCache K V) (node : NodePtr) (f : ℤ) (x : NodePtr) :
    (c.relinked node f).nodes x =
      { c.nodes x with freq := Function.update c.freq node f x } := by
  by_cases h : x = node
  · subst h
    simp [relinked, addToFreqList, setFreq]
  · simp [relinked, addToFreqList, setFreq, h, KLfuCache.freq]

omit [DecidableEq K] in
theorem listAt_relinked (c : KLfuCache K V) (node : NodePtr) (f f' : ℤ) :
    (c.relinked node f).listAt f' =
      (if f' = c.freq node then (c.listAt f').erase node else c.listAt f') ++
        if f' = f then [node] else [] := by
  have hnew : ∀ d : KLfuCache K V, (d.setFreq node f).freq node = f := by
    intro d
    simp [setFreq, KLfuCache.freq]
  have hold : ∀ d : KLfuCache K V, (d.setFreq node f).listAt f' = d.listAt f' := fun _ ↦ rfl
  rw [relinked, listAt_addToFreqList, hnew, hold, listAt_insert]
  have hlist : (if f' = c.freq node then (c.listAt (c.freq node)).erase node else c.listAt f') =
      if f' = c.freq node then (c.listAt f').erase node else c.listAt f' := by
    split
    · next h => rw [h]
    · rfl
  rw [hlist]
  by_cases h : f' = f
  · rw [if_pos h, if_pos h]
  · rw [if_neg h, if_neg h, List.append_nil]

theorem Linked.relinked (hc : c.Linked) (h : node ∈ c.ptrs) (f : ℤ) :
    (c.relinked node f).Linked := by
  have hfreq : ∀ x, (c.relinked node f).freq x = Function.update c.freq node f x := by
    intro x
    rw [KLfuCache.freq, nodes_relinked]
  have hself : ∀ f', node ∈ c.listAt f' ↔ f' = c.freq node := by
    intro f'
    rw [hc.mem_listAt, eq_comm]
    exact and_iff_right h
  have herase : ∀ f' x, x ∈ (if f' = c.freq node then (c.listAt f').erase node else c.listAt f') ↔
      x ∈ c.listAt f' ∧ x ≠ node := by
    intro f' x
    split
    · rw [(hc.nodup f').mem_erase_iff, and_comm]
    · next hne =>
      refine ⟨fun hx ↦ ⟨hx, ?_⟩, And.left⟩
      intro heq
      obtain rfl := heq
      exact hne ((hself f').1 hx)
  refine ⟨fun key x hx ↦ ?_, fun f' x ↦ ?_, fun f' ↦ ?_, hc.allocated⟩
  · rw [nodes_relinked]
    exact hc.keyed key x hx
  · rw [listAt_relinked, List.mem_append, herase, hc.mem_listAt, hfreq]
    change _ ↔ x ∈ c.ptrs ∧ _
    by_cases hx : x = node
    · subst hx
      by_cases hf : f' = f
      · simp [hf, h]
      · simp [hf, Ne.symm hf]
    · by_cases hf : f' = f <;> simp [hf, hx]
  · rw [listAt_relinked]
    refine List.nodup_append.2 ⟨?_, by split <;> simp, ?_⟩
    · split
      · exact (hc.nodup f').erase node
      · exact hc.nodup f'
    · intro a ha b hb hab
      have hne := ((herase f' a).1 ha).2
      split at hb
      · exact hne (hab.trans (List.mem_singleton.1 hb))
      · simp at hb

omit [DecidableEq K] in
theorem hasList_relinked (c : KLfuCache K V) (node : NodePtr) (f : ℤ) :
    (c.relinked node f).HasList f := by
  have hmem : node ∈ (c.relinked node f).listAt f := by
    rw [listAt_relinked, if_pos (rfl : f = f)]
    exact List.mem_append_right _ (List.mem_singleton_self node)
  exact hasList_of_mem_listAt hmem

theorem reweighed_relinked (hc : c.Linked) (h : node ∈ c.ptrs) (f : ℤ) :
    c.Reweighed (c.relinked node f) (Function.update c.freq node f) :=
  ⟨rfl, rfl, rfl, nodes_relinked c node f, hc.relinked h f, fun _ hf ↦ (hf.insert _ _).insert _ _⟩

end CppAiService.KLfuCache
