import CppAiService.LfuTransitions

namespace CppAiService.KLfuCache

variable {K V : Type} [DecidableEq K] {c d : KLfuCache K V} {node : NodePtr} {key : K} {value : V}

def contents (c : KLfuCache K V) (key : K) : Option V :=
  (c.nodeMap_.lookup key).map fun node ↦ (c.nodes node).value

theorem contents_eq_none_iff : c.contents key = none ↔ key ∉ c.nodeMap_ := by
  simp only [contents, Option.map_eq_none_iff, AList.lookup_eq_none]

theorem contents_of_nodeMap_eq (hmap : d.nodeMap_ = c.nodeMap_)
    (hvalue : ∀ node ∈ c.ptrs, (d.nodes node).value = (c.nodes node).value) (key : K) :
    d.contents key = c.contents key := by
  unfold contents
  rw [hmap]
  apply Option.map_congr
  intro node hnode
  exact hvalue node (mem_ptrs.2 ⟨key, hnode⟩)

theorem Accessed.contents (h : c.Accessed d) (key : K) : d.contents key = c.contents key :=
  contents_of_nodeMap_eq h.reweighed.nodeMap_ (fun node _ ↦ h.reweighed.value node) key

theorem contents_touched (hc : c.Linked) (h : node ∈ c.ptrs) (key : K) :
    (c.touched node).contents key = c.contents key :=
  contents_of_nodeMap_eq (reweighed_touched hc h).nodeMap_
    (fun x _ ↦ (reweighed_touched hc h).value x) key

theorem contents_setValue (hc : c.Linked) (h : c.nodeMap_.lookup key = some node) (value : V)
    (key' : K) :
    (c.setValue node value).contents key' = if key' = key then some value else c.contents key' := by
  change (c.nodeMap_.lookup key').map (fun x ↦ ((c.setValue node value).nodes x).value) = _
  split
  · next heq =>
    subst heq
    simp only [h, Option.map_some, nodes_setValue, if_true]
  · next hne =>
    apply Option.map_congr
    intro x hx
    have hnode : x ≠ node := by
      intro heq
      obtain rfl := heq
      exact hne ((hc.keyed _ _ hx).symm.trans (hc.keyed _ _ h))
    simp only [nodes_setValue, hnode, if_false]

theorem contents_insertNode (hc : c.Linked) (key : K) (value : V) (key' : K) :
    (c.insertNode key value).contents key' =
      if key' = key then some value else c.contents key' := by
  change ((c.nodeMap_.insert key c.allocated).lookup key').map
    (fun x ↦ (Function.update c.nodes c.allocated ⟨1, key, value⟩ x).value) = _
  split
  · next heq =>
    subst heq
    simp only [AList.lookup_insert, Option.map_some, Function.update_self]
  · next hne =>
    rw [AList.lookup_insert_ne hne]
    apply Option.map_congr
    intro x hx
    have hx' : x ≠ c.allocated := (hc.allocated x (mem_ptrs.2 ⟨key', hx⟩)).ne
    rw [Function.update_of_ne hx']

/-- After a hit the entry holds what was written. -/
theorem Accessed.contents_of_hit (h : ((c.setValue node value).touched node).Accessed d)
    (hc : c.Linked) (hlookup : c.nodeMap_.lookup key = some node) (key' : K) :
    d.contents key' = if key' = key then some value else c.contents key' := by
  have hnode : node ∈ (c.setValue node value).ptrs := mem_ptrs.2 ⟨key, hlookup⟩
  rw [h.contents, contents_touched (hc.setValue node value) hnode,
    contents_setValue hc hlookup]

theorem Accessed.contents_of_insert (h : (c.insertNode key value).Accessed d) (hc : c.Linked)
    (key' : K) : d.contents key' = if key' = key then some value else c.contents key' := by
  rw [h.contents, contents_insertNode hc]

theorem contents_erase (key : K) (hmap : d.nodeMap_ = c.nodeMap_.erase key)
    (hnodes : d.nodes = c.nodes) (key' : K) :
    d.contents key' = c.contents key' ∨ d.contents key' = none := by
  unfold contents
  rw [hmap, hnodes]
  by_cases h : key' = key
  · right
    rw [h, AList.lookup_erase, Option.map_none]
  · left
    rw [AList.lookup_erase_ne h]

variable [Inhabited K]

theorem RoomMade.contents (h : c.RoomMade d) (key : K) :
    d.contents key = c.contents key ∨ d.contents key = none := by
  cases h with
  | spare => exact .inl rfl
  | evicted hfull node rest hlist =>
    exact contents_erase (d := c.evicted node) (c.nodes node).key rfl rfl key
  | sentinel hfull hlist =>
    let d := { c with nodeMap_ := c.nodeMap_.erase default }.decreaseFreqNum 1
    exact contents_erase (d := d) default rfl rfl key

/-- A cache that any number of operations has kept usable: it never evicts through the
sentinel an entry that is there. -/
structure Serving (c : KLfuCache K V) : Prop where
  sound : c.Sound
  closed : c.capacity_ = 0 → ∀ key, c.contents key = none
  default_absent : c.contents default = none

theorem get_spec (hc : c.Serving) (key : K) (order : IterationOrder) :
    ∃ d, c.get key order = some (c.contents key, d) ∧ d.Serving ∧
      ∀ key', d.contents key' = c.contents key' := by
  cases hlookup : c.nodeMap_.lookup key with
  | some node =>
    have hnode : node ∈ c.ptrs := mem_ptrs.2 ⟨key, hlookup⟩
    obtain ⟨d, hd, ha⟩ := getInternal_spec hc.sound hnode order
    have hcontents : ∀ key', d.contents key' = c.contents key' := fun key' ↦
      (ha.contents key').trans (contents_touched hc.sound.linked hnode key')
    have hcap : d.capacity_ = c.capacity_ := ha.reweighed.capacity_
    refine ⟨d, ?_, ⟨ha.sound_of_touched hc.sound hnode, fun h key' ↦ ?_, ?_⟩, hcontents⟩
    · rw [get_of_lookup_eq_some hlookup, hd, contents, hlookup]
      rfl
    · exact (hcontents key').trans (hc.closed (hcap.symm.trans h) key')
    · exact (hcontents default).trans hc.default_absent
  | none =>
    refine ⟨c, ?_, hc, fun _ ↦ rfl⟩
    rw [get_of_notMem (AList.lookup_eq_none.1 hlookup), contents, hlookup]
    rfl

/-- The value written is found again, unless nothing is cached at all. -/
theorem Stepped.contents_of_put {order : IterationOrder} (h : c.Stepped (.put key value order) d)
    (hc : c.Serving) :
    d.capacity_ = c.capacity_ ∧ d.contents key = some value ∧
      ∀ key' ≠ key, d.contents key' = c.contents key' ∨ d.contents key' = none := by
  cases h with
  | hit key' node value' hop hlookup haccessed =>
    obtain ⟨order', heq⟩ | ⟨order', heq, -⟩ := hop
    · cases heq
      have hcontents := haccessed.contents_of_hit hc.sound.linked hlookup
      refine ⟨haccessed.reweighed.capacity_, ?_, fun k hk ↦ .inl ?_⟩
      · exact (hcontents key).trans (if_pos rfl)
      · exact (hcontents k).trans (if_neg hk)
    · cases heq
  | @inserted e f key value order hkey' hroom haccessed =>
    have hdefault : default ∉ c.nodeMap_ := contents_eq_none_iff.1 hc.default_absent
    have hlinked := (hroom.sound hc.sound fun _ _ ↦ hdefault).linked
    have hcontents := haccessed.contents_of_insert hlinked
    have hcap : e.capacity_ = c.capacity_ := by cases hroom <;> rfl
    refine ⟨haccessed.reweighed.capacity_.trans hcap, ?_, fun k hk ↦ ?_⟩
    · exact (hcontents key).trans (if_pos rfl)
    · have hk' : f.contents k = e.contents k := (hcontents k).trans (if_neg hk)
      exact (hroom.contents k).imp (hk'.trans ·) (hk'.trans ·)

theorem put_spec (hc : c.Serving) (hkey : key ≠ default) (value : V) (order : IterationOrder) :
    ∃ d, c.put key value order = some d ∧ d.Serving ∧ d.capacity_ = c.capacity_ ∧
      (c.capacity_ ≠ 0 → d.contents key = some value) ∧
      ∀ key' v, d.contents key' = some v →
        if key' = key then v = value else c.contents key' = some v := by
  have hdefault : default ∉ c.nodeMap_ := contents_eq_none_iff.1 hc.default_absent
  by_cases hzero : c.capacity_ = 0
  · refine ⟨c, if_pos hzero, hc, rfl, fun h ↦ absurd hzero h, fun key' v hv ↦ ?_⟩
    rw [hc.closed hzero key'] at hv
    cases hv
  · obtain ⟨d, hd, hsound, hstep⟩ := step_spec hc.sound hzero (.put key value order)
      (fun _ _ ↦ hdefault) (fun h ↦ nomatch h)
    obtain ⟨hcap, hself, hother⟩ := hstep.contents_of_put hc
    refine ⟨d, hd, ⟨hsound, fun h ↦ absurd (hcap.symm.trans h) hzero, ?_⟩, hcap, fun _ ↦ hself,
      fun key' v hv ↦ ?_⟩
    · exact (hother default hkey.symm).elim (·.trans hc.default_absent) id
    · split
      · next heq => exact Option.some.inj (hv.symm.trans (heq ▸ hself))
      · next hne =>
        rcases hother key' hne with h | h
        · exact h.symm.trans hv
        · rw [h] at hv
          cases hv

theorem create_serving [Inhabited V] (capacity maxAverageNum : ℤ) :
    (create capacity maxAverageNum : KLfuCache K V).Serving :=
  ⟨create_sound capacity maxAverageNum, fun _ _ ↦ rfl, rfl⟩

end CppAiService.KLfuCache
