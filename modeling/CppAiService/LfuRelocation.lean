import CppAiService.Foundation.MapValues
import CppAiService.Foundation.Related
import CppAiService.LfuSteps

namespace CppAiService

open Foundation.MapValues Foundation.Run

/-- The same choice for nodes that lie further up in the heap. -/
def IterationOrder.moved (a : ℕ) (order : IterationOrder) : IterationOrder where
  arrange ptrs :=
    if ∀ node ∈ ptrs, a ≤ node then (order.arrange (ptrs.map (· - a))).map (· + a) else ptrs
  perm ptrs := by
    split
    · next h =>
      have hback : (ptrs.map (· - a)).map (· + a) = ptrs := by
        rw [List.map_map]
        exact (List.map_congr_left fun node hnode ↦ Nat.sub_add_cancel (h node hnode)).trans
          (List.map_id ptrs)
      have hperm := (order.perm (ptrs.map (· - a))).map (· + a)
      rwa [hback] at hperm
    · exact .refl ptrs

theorem IterationOrder.arrange_moved (a : ℕ) (order : IterationOrder) (ptrs : List NodePtr) :
    (order.moved a).arrange (ptrs.map (· + a)) = (order.arrange ptrs).map (· + a) := by
  have hall : ∀ node ∈ ptrs.map (· + a), a ≤ node := by
    intro node hnode
    obtain ⟨x, -, rfl⟩ := List.mem_map.1 hnode
    exact Nat.le_add_left a x
  have hback : (ptrs.map (· + a)).map (· - a) = ptrs := by
    rw [List.map_map]
    exact (List.map_congr_left fun node _ ↦ Nat.add_sub_cancel node a).trans (List.map_id ptrs)
  change (if ∀ node ∈ ptrs.map (· + a), a ≤ node then _ else _) = _
  rw [if_pos hall, hback]

namespace KLfuCache

variable {K V : Type} {R : ℤ → ℤ → Prop} {a : ℕ} {leftover : ℤ} {c d : KLfuCache K V}

/-- The cache `c` further up in the heap, with a total that is off by what is left over, and with
a related least frequency. -/
structure Moved (R : ℤ → ℤ → Prop) (a : ℕ) (leftover : ℤ) (c d : KLfuCache K V) : Prop where
  capacity_ : d.capacity_ = c.capacity_
  minFreq_ : R c.minFreq_ d.minFreq_
  maxAverageNum_ : d.maxAverageNum_ = c.maxAverageNum_
  curTotalNum_ : wrap32 d.curTotalNum_ = wrap32 (c.curTotalNum_ + leftover)
  nodes : ∀ node, d.nodes (node + a) = c.nodes node
  allocated : d.allocated = c.allocated + a
  nodeMap_ : d.nodeMap_ = mapValues (· + a) c.nodeMap_
  freqToFreqList_ : d.freqToFreqList_ = mapValues (List.map (· + a)) c.freqToFreqList_

namespace Moved

variable (h : Moved R a leftover c d)
include h

theorem freq (node : NodePtr) : d.freq (node + a) = c.freq node := by
  rw [KLfuCache.freq, h.nodes, KLfuCache.freq]

theorem size : d.size = c.size := by
  rw [KLfuCache.size, h.nodeMap_, keys_mapValues, KLfuCache.size]

theorem ptrs : d.ptrs = c.ptrs.map (· + a) := by
  rw [KLfuCache.ptrs, h.nodeMap_, values_mapValues, KLfuCache.ptrs]

theorem lookup_list (f : ℤ) :
    d.freqToFreqList_.lookup f = (c.freqToFreqList_.lookup f).map (List.map (· + a)) := by
  rw [h.freqToFreqList_, lookup_mapValues]

theorem insert_list (f : ℤ) (list : List NodePtr) :
    Moved R a leftover { c with freqToFreqList_ := c.freqToFreqList_.insert f list }
      { d with freqToFreqList_ := d.freqToFreqList_.insert f (list.map (· + a)) } := by
  refine ⟨h.capacity_, h.minFreq_, h.maxAverageNum_, h.curTotalNum_, h.nodes, h.allocated,
    h.nodeMap_, ?_⟩
  rw [h.freqToFreqList_]
  exact insert_mapValues ..

theorem update (node : NodePtr) (data : Node K V) :
    Moved R a leftover { c with nodes := Function.update c.nodes node data }
      { d with nodes := Function.update d.nodes (node + a) data } := by
  refine ⟨h.capacity_, h.minFreq_, h.maxAverageNum_, h.curTotalNum_, fun x ↦ ?_, h.allocated,
    h.nodeMap_, h.freqToFreqList_⟩
  change Function.update d.nodes (node + a) data (x + a) = Function.update c.nodes node data x
  rw [Function.update_apply, Function.update_apply, h.nodes]
  simp only [Nat.add_right_cancel_iff]

theorem setFreq (node : NodePtr) (freq : ℤ) :
    Moved R a leftover (c.setFreq node freq) (d.setFreq (node + a) freq) := by
  rw [KLfuCache.setFreq, KLfuCache.setFreq, h.nodes]
  exact h.update node _

theorem setValue (node : NodePtr) (value : V) :
    Moved R a leftover (c.setValue node value) (d.setValue (node + a) value) := by
  rw [KLfuCache.setValue, KLfuCache.setValue, h.nodes]
  exact h.update node _

theorem removeFromFreqList (node : NodePtr) :
    Option.Rel (Moved R a leftover) (c.removeFromFreqList node)
      (d.removeFromFreqList (node + a)) := by
  rw [KLfuCache.removeFromFreqList, KLfuCache.removeFromFreqList, h.freq, h.lookup_list]
  cases c.freqToFreqList_.lookup (c.freq node) with
  | none => exact .none
  | some list =>
    have hmoved := h.insert_list (c.freq node) (list.erase node)
    rw [List.map_erase (add_left_injective a)] at hmoved
    exact .some hmoved

theorem addToFreqList (node : NodePtr) :
    Moved R a leftover (c.addToFreqList node) (d.addToFreqList (node + a)) := by
  have hlist : (d.freqToFreqList_.lookup (c.freq node)).getD [] ++ [node + a] =
      ((c.freqToFreqList_.lookup (c.freq node)).getD [] ++ [node]).map (· + a) := by
    rw [h.lookup_list, List.map_append, List.map_singleton]
    cases c.freqToFreqList_.lookup (c.freq node) with
    | none => rfl
    | some list => rfl
  rw [KLfuCache.addToFreqList, KLfuCache.addToFreqList, h.freq, hlist]
  exact h.insert_list _ _

theorem ageNode (node : NodePtr) :
    Option.Rel (Moved R a leftover) (c.ageNode node) (d.ageNode (node + a)) := by
  refine Foundation.Related.bind (h.removeFromFreqList node) fun c' d' _ h ↦ .some ?_
  rw [h.freq, h.maxAverageNum_]
  exact (h.setFreq node _).addToFreqList node

theorem withMinFreq {R' : ℤ → ℤ → Prop} {f f' : ℤ} (hf : R' f f') :
    Moved R' a leftover { c with minFreq_ := f } { d with minFreq_ := f' } :=
  ⟨h.capacity_, hf, h.maxAverageNum_, h.curTotalNum_, h.nodes, h.allocated, h.nodeMap_,
    h.freqToFreqList_⟩

theorem updateMinFreq (hR : ∀ f, R f f) :
    Moved R a leftover c.updateMinFreq d.updateMinFreq := by
  have hfold : d.freqToFreqList_.entries.foldl
      (fun least entry ↦ if entry.2.isEmpty then least else min least entry.1) INT8_MAX =
      c.freqToFreqList_.entries.foldl
        (fun least entry ↦ if entry.2.isEmpty then least else min least entry.1) INT8_MAX := by
    rw [h.freqToFreqList_, entries_mapValues, List.foldl_map]
    simp only [Sigma.map, List.isEmpty_map, id_eq]
  rw [KLfuCache.updateMinFreq, KLfuCache.updateMinFreq, hfold]
  exact h.withMinFreq (hR _)

theorem handleOverMaxAverageNum (hR : ∀ f, R f f) (order : IterationOrder) :
    Option.Rel (Moved R a leftover) (c.handleOverMaxAverageNum order)
      (d.handleOverMaxAverageNum (order.moved a)) := by
  rw [KLfuCache.handleOverMaxAverageNum, KLfuCache.handleOverMaxAverageNum, h.size, h.ptrs,
    IterationOrder.arrange_moved]
  split
  · exact .some h
  · have halong : Along KLfuCache.ageNode (fun _ _ ↦ True) c (order.arrange c.ptrs) :=
      along_of_forall (fun _ _ ↦ trivial) ..
    have hruns := Foundation.Related.runs (fun _ _ node _ h ↦ Moved.ageNode h node) h halong
    exact Foundation.Related.bind hruns fun c' d' _ h ↦ .some (Moved.updateMinFreq h hR)

theorem total (x : ℤ) : wrap32 (d.curTotalNum_ + x) = wrap32 (c.curTotalNum_ + leftover + x) := by
  rw [← wrap32_add_wrap32, h.curTotalNum_, wrap32_add_wrap32]

theorem withTotal (x average average' : ℤ) :
    Moved R a leftover { c with curTotalNum_ := wrap32 (c.curTotalNum_ + x), curAverageNum_ := average }
      { d with curTotalNum_ := wrap32 (d.curTotalNum_ + x), curAverageNum_ := average' } := by
  refine ⟨h.capacity_, h.minFreq_, h.maxAverageNum_, ?_, h.nodes, h.allocated, h.nodeMap_,
    h.freqToFreqList_⟩
  change wrap32 (wrap32 (d.curTotalNum_ + x)) = wrap32 (wrap32 (c.curTotalNum_ + x) + leftover)
  rw [wrap32_wrap32, wrap32_add_wrap32, h.total, add_right_comm]

theorem decreaseFreqNum (num : ℤ) :
    Moved R a leftover (c.decreaseFreqNum num) (d.decreaseFreqNum num) :=
  h.withTotal (-num) _ _

end Moved

/-- One more access ages the nodes, or does not, with the leftover as without it. -/
def AgesAlike (leftover : ℤ) (c : KLfuCache K V) : Prop :=
  Over { c with curTotalNum_ := c.curTotalNum_ + leftover } ↔ c.Over

instance (leftover : ℤ) (c : KLfuCache K V) : Decidable (c.AgesAlike leftover) :=
  inferInstanceAs (Decidable (_ ↔ _))

/-- What a loop over the frequency lists leaves alone: all but the lists and the cached nodes. -/
structure Frame (c d : KLfuCache K V) : Prop where
  capacity_ : d.capacity_ = c.capacity_
  maxAverageNum_ : d.maxAverageNum_ = c.maxAverageNum_
  curTotalNum_ : d.curTotalNum_ = c.curTotalNum_
  allocated : d.allocated = c.allocated
  nodeMap_ : d.nodeMap_ = c.nodeMap_
  nodes : ∀ node ∉ c.ptrs, d.nodes node = c.nodes node

section Frames

variable {e : KLfuCache K V} {node : NodePtr}

theorem Frame.refl (c : KLfuCache K V) : c.Frame c := ⟨rfl, rfl, rfl, rfl, rfl, fun _ _ ↦ rfl⟩

theorem Frame.ptrs (h : c.Frame d) : d.ptrs = c.ptrs := by
  rw [KLfuCache.ptrs, h.nodeMap_, KLfuCache.ptrs]

theorem Frame.trans (h : c.Frame d) (h' : d.Frame e) : c.Frame e where
  capacity_ := h'.capacity_.trans h.capacity_
  maxAverageNum_ := h'.maxAverageNum_.trans h.maxAverageNum_
  curTotalNum_ := h'.curTotalNum_.trans h.curTotalNum_
  allocated := h'.allocated.trans h.allocated
  nodeMap_ := h'.nodeMap_.trans h.nodeMap_
  nodes node hnode := (h'.nodes node (h.ptrs ▸ hnode)).trans (h.nodes node hnode)

theorem frame_update (hnode : node ∈ c.ptrs) (data : Node K V) :
    c.Frame { c with nodes := Function.update c.nodes node data } := by
  refine ⟨rfl, rfl, rfl, rfl, rfl, fun x hx ↦ ?_⟩
  have hne : x ≠ node := fun heq ↦ hx (heq ▸ hnode)
  exact Function.update_of_ne hne ..

theorem removeFromFreqList_frame (h : c.removeFromFreqList node = some d) : c.Frame d := by
  rw [removeFromFreqList, Option.bind_eq_bind, Option.bind_eq_some_iff] at h
  obtain ⟨list, -, h⟩ := h
  obtain rfl := Option.some.inj h
  exact ⟨rfl, rfl, rfl, rfl, rfl, fun _ _ ↦ rfl⟩

theorem reweigh_frame (hnode : node ∈ c.ptrs) (freq : ℤ) :
    c.Frame ((c.setFreq node freq).addToFreqList node) := by
  have hset : c.Frame (c.setFreq node freq) := frame_update hnode _
  exact ⟨rfl, rfl, rfl, rfl, rfl, hset.nodes⟩

theorem ageNode_frame (hnode : node ∈ c.ptrs) (h : c.ageNode node = some d) : c.Frame d := by
  rw [ageNode, Option.bind_eq_bind, Option.bind_eq_some_iff] at h
  obtain ⟨c', hremove, h⟩ := h
  obtain rfl := Option.some.inj h
  have hframe := removeFromFreqList_frame hremove
  exact hframe.trans (reweigh_frame (hframe.ptrs ▸ hnode) _)

theorem handleOverMaxAverageNum_frame {order : IterationOrder}
    (h : c.handleOverMaxAverageNum order = some d) : c.Frame d := by
  rw [handleOverMaxAverageNum] at h
  split at h
  · exact Option.some.inj h ▸ Frame.refl c
  · rw [Option.bind_eq_bind, Option.bind_eq_some_iff] at h
    obtain ⟨c', hrun, h⟩ := h
    obtain rfl := Option.some.inj h
    have hmem : ∀ node ∈ order.arrange c.ptrs, node ∈ c.ptrs := fun node hnode ↦
      (order.perm c.ptrs).subset hnode
    have hreaches : Reaches ageNode (fun _ node ↦ node ∈ c.ptrs ∧ True) c
        (order.arrange c.ptrs) c' :=
      ⟨(along_of_forall (fun _ _ ↦ trivial) ..).and_mem hmem, hrun⟩
    have hframe : c.Frame c' := by
      refine hreaches.keeps (fun s node t hnode hs hstep ↦ ?_) (Frame.refl c)
      exact hs.trans (ageNode_frame (hs.ptrs ▸ hnode.1) hstep)
    exact ⟨hframe.capacity_, hframe.maxAverageNum_, hframe.curTotalNum_, hframe.allocated,
      hframe.nodeMap_, hframe.nodes⟩

theorem advanceMinFreq_frame (h : c.advanceMinFreq node = some d) : c.Frame d := by
  rw [advanceMinFreq] at h
  split at h
  · rw [Option.bind_eq_bind, Option.bind_eq_some_iff] at h
    obtain ⟨list, -, h⟩ := h
    obtain rfl := Option.some.inj h
    split
    · exact ⟨rfl, rfl, rfl, rfl, rfl, fun _ _ ↦ rfl⟩
    · exact Frame.refl c
  · exact Option.some.inj h ▸ Frame.refl c

theorem addFreqNum_frame {order : IterationOrder} (h : c.addFreqNum order = some d) :
    c.counted.Frame d := by
  have heq : c.addFreqNum order =
      if c.Over then c.counted.handleOverMaxAverageNum order else some c.counted := rfl
  rw [heq] at h
  split at h
  · exact handleOverMaxAverageNum_frame h
  · exact Option.some.inj h ▸ Frame.refl _

theorem AgesAlike.frame (h : c.AgesAlike leftover) (hframe : c.Frame d) :
    d.AgesAlike leftover := by
  have hsize : d.size = c.size := by rw [size, hframe.nodeMap_, size]
  have hover : ∀ total, Over { d with curTotalNum_ := total } ↔
      Over { c with curTotalNum_ := total } := by
    intro total
    change d.maxAverageNum_ < (if d.size = 0 then 0 else intOfSizeT (_ / d.size)) ↔ _
    rw [hsize, hframe.maxAverageNum_]
    rfl
  have hsame := hover (c.curTotalNum_ + leftover)
  have hsame' := hover c.curTotalNum_
  rw [← hframe.curTotalNum_] at hsame hsame'
  exact hsame.trans ((hframe.curTotalNum_ ▸ h : _ ↔ _).trans hsame'.symm)

end Frames

namespace Moved

theorem over_iff (h : Moved R a leftover c d) (hages : c.AgesAlike leftover) :
    d.Over ↔ c.Over := by
  refine Iff.trans ?_ hages
  change d.maxAverageNum_ <
      (if d.size = 0 then 0 else intOfSizeT (sizeTOfInt (wrap32 (d.curTotalNum_ + 1)) / d.size)) ↔ _
  rw [h.size, h.maxAverageNum_, h.total]
  rfl

theorem addFreqNum (h : Moved R a leftover c d) (hR : ∀ f, R f f) (hages : c.AgesAlike leftover)
    (order : IterationOrder) :
    Option.Rel (Moved R a leftover) (c.addFreqNum order) (d.addFreqNum (order.moved a)) := by
  have heq : ∀ (c : KLfuCache K V) order, c.addFreqNum order =
      if c.Over then c.counted.handleOverMaxAverageNum order else some c.counted := fun _ _ ↦ rfl
  have hcounted : Moved R a leftover c.counted d.counted := h.withTotal 1 _ _
  rw [heq, heq]
  by_cases hover : c.Over
  · rw [if_pos hover, if_pos ((h.over_iff hages).2 hover)]
    exact hcounted.handleOverMaxAverageNum hR order
  · rw [if_neg hover, if_neg (mt (h.over_iff hages).1 hover)]
    exact .some hcounted

section Least

variable (h : Moved (· = ·) a leftover c d)
include h

theorem advanceMinFreq (node : NodePtr) :
    Option.Rel (Moved (· = ·) a leftover) (c.advanceMinFreq node)
      (d.advanceMinFreq (node + a)) := by
  rw [KLfuCache.advanceMinFreq, KLfuCache.advanceMinFreq, h.freq, h.minFreq_, h.lookup_list]
  split
  · cases c.freqToFreqList_.lookup (wrap32 (c.freq node - 1)) with
    | none => exact .none
    | some list =>
      refine .some ?_
      rw [List.isEmpty_map]
      split
      · exact h.withMinFreq rfl
      · exact h
  · exact .some h

theorem getInternal {node : NodePtr} (hnode : node ∈ c.ptrs) (hages : c.AgesAlike leftover)
    (order : IterationOrder) :
    Option.Rel (fun x y ↦ x.1 = y.1 ∧ Moved (· = ·) a leftover x.2 y.2)
      (c.getInternal node order) (d.getInternal (node + a) (order.moved a)) := by
  refine Foundation.Related.bind (h.removeFromFreqList node) fun c₁ d₁ hremove h₁ ↦ ?_
  have hframe₁ := removeFromFreqList_frame hremove
  have hframe₂ := hframe₁.trans (reweigh_frame (hframe₁.ptrs ▸ hnode) (wrap32 (c₁.freq node + 1)))
  have h₂ := (h₁.setFreq node (wrap32 (c₁.freq node + 1))).addToFreqList node
  rw [h₁.freq]
  refine Foundation.Related.bind (h₂.advanceMinFreq node) fun c₃ d₃ hadvance h₃ ↦ ?_
  have hages₃ := hages.frame (hframe₂.trans (advanceMinFreq_frame hadvance))
  refine Foundation.Related.bind (h₃.addFreqNum (fun _ ↦ rfl) hages₃ order) fun c₄ d₄ _ h₄ ↦ ?_
  exact .some ⟨congrArg Node.value (h.nodes node).symm, h₄⟩

variable [DecidableEq K]

theorem erase (key : K) :
    Moved (· = ·) a leftover { c with nodeMap_ := c.nodeMap_.erase key }
      { d with nodeMap_ := d.nodeMap_.erase key } := by
  refine ⟨h.capacity_, h.minFreq_, h.maxAverageNum_, h.curTotalNum_, h.nodes, h.allocated, ?_,
    h.freqToFreqList_⟩
  rw [h.nodeMap_]
  exact erase_mapValues ..

variable [Inhabited K]

theorem kickOut : Option.Rel (Moved (· = ·) a leftover) c.kickOut d.kickOut := by
  have hlist : d.freqToFreqList_.lookup d.minFreq_ =
      (c.freqToFreqList_.lookup c.minFreq_).map (List.map (· + a)) := by
    rw [h.lookup_list, h.minFreq_]
  rw [KLfuCache.kickOut, KLfuCache.kickOut, hlist, h.lookup_list]
  cases c.freqToFreqList_.lookup c.minFreq_ with
  | none => exact .none
  | some list =>
    cases list with
    | cons node rest =>
      refine Foundation.Related.bind (h.removeFromFreqList node) fun c' d' _ h' ↦ .some ?_
      rw [h'.nodes, h'.freq]
      exact (h'.erase _).decreaseFreqNum _
    | nil =>
      change Option.Rel _ (c.freqToFreqList_.lookup 1 >>= _)
        ((c.freqToFreqList_.lookup 1).map _ >>= _)
      cases c.freqToFreqList_.lookup 1 with
      | none => exact .none
      | some first => exact .some ((h.erase default).decreaseFreqNum 1)

theorem makeRoom : Option.Rel (Moved (· = ·) a leftover) c.makeRoom d.makeRoom := by
  rw [KLfuCache.makeRoom, KLfuCache.makeRoom, h.size, h.capacity_]
  split
  · exact h.kickOut
  · exact .some h

end Least

theorem insertNode [DecidableEq K] (h : Moved R a leftover c d) (key : K) (value : V) :
    Moved R a leftover (c.insertNode key value) (d.insertNode key value) := by
  have hnode := h.update c.allocated ⟨1, key, value⟩
  have hinserted : Moved R a leftover
      { c with
        nodes := Function.update c.nodes c.allocated ⟨1, key, value⟩
        nodeMap_ := c.nodeMap_.insert key c.allocated }
      { d with
        nodes := Function.update d.nodes (c.allocated + a) ⟨1, key, value⟩
        nodeMap_ := d.nodeMap_.insert key (c.allocated + a) } := by
    refine ⟨h.capacity_, h.minFreq_, h.maxAverageNum_, h.curTotalNum_, hnode.nodes, h.allocated, ?_,
      h.freqToFreqList_⟩
    rw [h.nodeMap_]
    exact insert_mapValues (· + a) c.nodeMap_ key c.allocated
  have hlisted := hinserted.addToFreqList c.allocated
  rw [KLfuCache.insertNode, KLfuCache.insertNode, h.allocated]
  exact ⟨hlisted.capacity_, hlisted.minFreq_, hlisted.maxAverageNum_, hlisted.curTotalNum_,
    hlisted.nodes, Nat.add_right_comm .., hlisted.nodeMap_, hlisted.freqToFreqList_⟩

end Moved

end KLfuCache

end CppAiService
