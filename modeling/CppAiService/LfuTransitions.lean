import CppAiService.LfuOperations

namespace CppAiService.KLfuCache

variable {K V : Type} [DecidableEq K] {c d e : KLfuCache K V} {node : NodePtr} {key : K} {value : V}

section Values

omit [DecidableEq K] in
theorem setValue_self (c : KLfuCache K V) (node : NodePtr) :
    c.setValue node (c.nodes node).value = c := by
  rw [setValue, Function.update_eq_self]

omit [DecidableEq K] in
theorem nodes_setValue (c : KLfuCache K V) (node : NodePtr) (value : V) (x : NodePtr) :
    (c.setValue node value).nodes x =
      { c.nodes x with value := if x = node then value else (c.nodes x).value } := by
  by_cases h : x = node
  · subst h
    simp [setValue]
  · simp [setValue, h]

omit [DecidableEq K] in
theorem freq_setValue (c : KLfuCache K V) (node : NodePtr) (value : V) :
    (c.setValue node value).freq = c.freq := by
  funext x
  rw [KLfuCache.freq, nodes_setValue]
  rfl

omit [DecidableEq K] in
theorem freqs_setValue (c : KLfuCache K V) (node : NodePtr) (value : V) :
    (c.setValue node value).freqs = c.freqs := by
  rw [freqs, freq_setValue]
  rfl

theorem Linked.setValue (hc : c.Linked) (node : NodePtr) (value : V) :
    (c.setValue node value).Linked := by
  refine ⟨fun k x hx ↦ ?_, fun f x ↦ ?_, hc.nodup, hc.allocated⟩
  · rw [nodes_setValue]
    exact hc.keyed k x hx
  · rw [freq_setValue]
    exact hc.mem_listAt f x

theorem Sound.setValue (hc : c.Sound) (node : NodePtr) (value : V) :
    (c.setValue node value).Sound := by
  refine ⟨hc.linked.setValue node value, hc.heads, fun x hx ↦ ?_⟩
  rw [freq_setValue]
  exact hc.ranged x hx

end Values

inductive RoomMade [Inhabited K] (c : KLfuCache K V) : KLfuCache K V → Prop
  | spare (h : (c.size : ℤ) ≠ c.capacity_) : RoomMade c c
  | evicted (h : (c.size : ℤ) = c.capacity_) (node : NodePtr) (rest : List NodePtr)
      (hlist : c.listAt c.minFreq_ = node :: rest) : RoomMade c (c.evicted node)
  | sentinel (h : (c.size : ℤ) = c.capacity_) (hlist : c.listAt c.minFreq_ = []) :
      RoomMade c ({ c with nodeMap_ := c.nodeMap_.erase default }.decreaseFreqNum 1)

def Op.key? : Op K V → Option K
  | .put key _ _ => some key
  | .get key _ => some key
  | .purge => none

/-- What one operation can do; a `get` writes the value that was there. -/
inductive Stepped [Inhabited K] (c : KLfuCache K V) : Op K V → KLfuCache K V → Prop
  | hit {op : Op K V} {d : KLfuCache K V} (key : K) (node : NodePtr) (value : V)
      (hop : (∃ order, op = .put key value order) ∨
        ∃ order, op = .get key order ∧ value = (c.nodes node).value)
      (hlookup : c.nodeMap_.lookup key = some node)
      (haccessed : ((c.setValue node value).touched node).Accessed d) : Stepped c op d
  | missed (key : K) (order : IterationOrder) (hkey : key ∉ c.nodeMap_) : Stepped c (.get key order) c
  | inserted {d e : KLfuCache K V} (key : K) (value : V) (order : IterationOrder)
      (hkey : key ∉ c.nodeMap_) (hroom : c.RoomMade d)
      (haccessed : (d.insertNode key value).Accessed e) :
      Stepped c (.put key value order) { e with minFreq_ := min e.minFreq_ 1 }
  | purged : Stepped c .purge c.purge

theorem insert_spec (hc : c.Sound) (hkey : key ∉ c.nodeMap_) (value : V)
    (order : IterationOrder) :
    ∃ d, (c.insertNode key value).addFreqNum order = some d ∧
      (c.insertNode key value).Accessed d ∧ Sound { d with minFreq_ := min d.minFreq_ 1 } := by
  have hne : (c.insertNode key value).ptrs ≠ [] := by
    rw [ptrs_insertNode hkey]
    exact List.cons_ne_nil _ _
  obtain ⟨d, hd, ha⟩ := addFreqNum_spec (hc.linked.insertNode hkey value) hne order
  refine ⟨d, hd, ha, ha.reweighed.linked.withCounters _ _ _, .inl ⟨?_, ?_⟩, ?_⟩
  · change d.HasList (min d.minFreq_ 1)
    have hone := ha.reweighed.hasList 1 (hasList_insertNode c key value)
    rcases min_choice d.minFreq_ 1 with hm | hm
    · rw [hm]
      obtain ⟨hmin, h1⟩ | ⟨hpos, hnil⟩ := hc.heads
      · obtain ⟨hmin, -⟩ | ⟨-, hnil⟩ :=
          ha.hasHeads (hmin.insertNode key value) (hasList_insertNode c key value)
        · exact hmin
        · rw [ha.reweighed.ptrs] at hnil
          exact absurd hnil hne
      · by_cases ho : (c.insertNode key value).Over
        · rcases ha.exact_or_reset ho with hexact | hreset
          · obtain ⟨x, hx, hf⟩ := mem_freqs.1 hexact.1
            exact hf ▸ ha.reweighed.linked.hasList hx
          · rwa [hreset]
        · have hkept : d.minFreq_ = c.minFreq_ := ha.kept ho
          have heq : d.minFreq_ = 1 := le_antisymm (min_eq_left_iff.1 hm) (hkept ▸ hpos)
          rwa [heq]
    · rwa [hm]
  · exact ha.reweighed.hasList 1 (hasList_insertNode c key value)
  · refine ha.ranged fun x hx ↦ ?_
    rw [ptrs_insertNode hkey, List.mem_cons] at hx
    rw [freq_insertNode]
    split
    · rfl
    · next hne => exact hc.ranged x (hx.resolve_left hne)

theorem Sound.evicted (hc : c.Sound) (h : node ∈ c.ptrs) : (c.evicted node).Sound := by
  refine ⟨hc.linked.evicted h, ?_, fun x hx ↦ ?_⟩
  · obtain ⟨hmin, hone⟩ | ⟨-, hnil⟩ := hc.heads
    · exact .inl ⟨hmin.insert _ _, hone.insert _ _⟩
    · exact absurd h (hnil ▸ List.not_mem_nil)
  · exact hc.ranged x ((mem_ptrs_evicted hc.linked h x).1 hx).1

theorem erase_of_notMem (h : key ∉ c.nodeMap_) : c.nodeMap_.erase key = c.nodeMap_ :=
  AList.ext (List.kerase_of_notMem_keys h)

variable [Inhabited K]

theorem create_sound [Inhabited V] (capacity maxAverageNum : ℤ) :
    (create capacity maxAverageNum : KLfuCache K V).Sound := by
  refine ⟨⟨?_, ?_, fun f ↦ List.nodup_nil, ?_⟩, .inr ⟨(by decide : (1 : ℤ) ≤ INT8_MAX), rfl⟩, ?_⟩
  · intro key node h
    cases h
  · intro f node
    simp [create, listAt, ptrs]
  · intro node h
    cases h
  · intro node h
    cases h

/-- Room can be made, and cleanly unless an entry under the default key meets the sentinel. -/
theorem roomMade_spec (hc : c.Sound) (hcap : c.capacity_ ≠ 0) :
    ∃ d, c.makeRoom = some d ∧ c.RoomMade d := by
  unfold makeRoom
  by_cases hfull : (c.size : ℤ) = c.capacity_
  · rw [if_pos hfull]
    obtain ⟨hmin, hone⟩ | ⟨-, hnil⟩ := hc.heads
    · cases hlist : c.listAt c.minFreq_ with
      | nil => exact ⟨_, kickOut_sentinel hmin hone hlist, .sentinel hfull hlist⟩
      | cons node rest =>
        exact ⟨_, (kickOut_eq hc.linked hlist).2.2, .evicted hfull node rest hlist⟩
    · rw [← length_ptrs, hnil] at hfull
      exact absurd hfull.symm hcap
  · rw [if_neg hfull]
    exact ⟨c, rfl, .spare hfull⟩

theorem RoomMade.sound (h : c.RoomMade d) (hc : c.Sound)
    (hdefault : c.listAt c.minFreq_ = [] → (c.size : ℤ) = c.capacity_ → default ∉ c.nodeMap_) :
    d.Sound := by
  cases h with
  | spare => exact hc
  | evicted hfull node rest hlist => exact hc.evicted (kickOut_eq hc.linked hlist).1
  | sentinel hfull hlist =>
    rw [erase_of_notMem (hdefault hlist hfull)]
    exact ⟨hc.linked.withCounters _ _ _, hc.heads, hc.ranged⟩

theorem RoomMade.notMem (h : c.RoomMade d) (hkey : key ∉ c.nodeMap_) : key ∉ d.nodeMap_ := by
  cases h with
  | spare => exact hkey
  | evicted hfull node rest hlist => exact fun h ↦ hkey (AList.mem_erase.1 h).2
  | sentinel hfull hlist => exact fun h ↦ hkey (AList.mem_erase.1 h).2

theorem put_of_lookup_eq_some (hcap : c.capacity_ ≠ 0) (h : c.nodeMap_.lookup key = some node)
    (value : V) (order : IterationOrder) :
    c.put key value order = ((c.setValue node value).getInternal node order).map Prod.snd := by
  rw [put, if_neg hcap, h]

theorem put_of_notMem (hcap : c.capacity_ ≠ 0) (h : key ∉ c.nodeMap_) (value : V)
    (order : IterationOrder) : c.put key value order = c.putInternal key value order := by
  rw [put, if_neg hcap, AList.lookup_eq_none.2 h]

omit [Inhabited K] in
theorem get_of_lookup_eq_some (h : c.nodeMap_.lookup key = some node) (order : IterationOrder) :
    c.get key order = (c.getInternal node order).map fun (value, c) ↦ (some value, c) := by
  rw [get, h]

omit [Inhabited K] in
theorem get_of_notMem (h : key ∉ c.nodeMap_) (order : IterationOrder) :
    c.get key order = some (none, c) := by
  rw [get, AList.lookup_eq_none.2 h]

/-- Every operation on a sound cache is possible, leaves a sound cache and does one of
the things listed. -/
theorem step_spec (hc : c.Sound) (hcap : c.capacity_ ≠ 0) (op : Op K V)
    (hdefault : c.listAt c.minFreq_ = [] → (c.size : ℤ) = c.capacity_ → default ∉ c.nodeMap_)
    (hpurge : op = .purge → 1 ≤ c.minFreq_) : ∃ d, step c op = some d ∧ d.Sound ∧ c.Stepped op d := by
  cases op with
  | put key value order =>
    change ∃ d, c.put key value order = some d ∧ _
    cases hlookup : c.nodeMap_.lookup key with
    | some node =>
      have hnode : node ∈ c.ptrs := mem_ptrs.2 ⟨key, hlookup⟩
      have hset := hc.setValue node value
      have hnode' : node ∈ (c.setValue node value).ptrs := hnode
      obtain ⟨d, hd, ha⟩ := getInternal_spec hset hnode' order
      refine ⟨d, ?_, ha.sound_of_touched hset hnode,
        .hit key node value (.inl ⟨order, rfl⟩) hlookup ha⟩
      rw [put_of_lookup_eq_some hcap hlookup, hd, Option.map_some]
    | none =>
      have hkey : key ∉ c.nodeMap_ := AList.lookup_eq_none.1 hlookup
      obtain ⟨d, hd, hroom⟩ := roomMade_spec hc hcap
      obtain ⟨e, he, ha, hsound⟩ :=
        insert_spec (hroom.sound hc hdefault) (hroom.notMem hkey) value order
      refine ⟨_, ?_, hsound, .inserted key value order hkey hroom ha⟩
      rw [put_of_notMem hcap hkey, putInternal, hd, Option.bind_eq_bind, Option.bind_some, he]
      rfl
  | get key order =>
    change ∃ d, (c.get key order).map Prod.snd = some d ∧ _
    cases hlookup : c.nodeMap_.lookup key with
    | some node =>
      have hnode : node ∈ c.ptrs := mem_ptrs.2 ⟨key, hlookup⟩
      obtain ⟨d, hd, ha⟩ := getInternal_spec hc hnode order
      refine ⟨d, ?_, ha.sound_of_touched hc hnode, .hit key node (c.nodes node).value
        (.inr ⟨order, rfl, rfl⟩) hlookup ?_⟩
      · rw [get_of_lookup_eq_some hlookup, hd, Option.map_some, Option.map_some]
      · rwa [setValue_self]
    | none =>
      have hkey : key ∉ c.nodeMap_ := AList.lookup_eq_none.1 hlookup
      refine ⟨c, ?_, hc, .missed key order hkey⟩
      rw [get_of_notMem hkey, Option.map_some]
  | purge =>
    refine ⟨c.purge, rfl, ⟨⟨?_, ?_, ?_, ?_⟩, .inr ⟨hpurge rfl, rfl⟩, ?_⟩, .purged⟩
    · intro key node h
      cases h
    · intro f node
      simp [purge, listAt, ptrs]
    · intro f
      exact List.nodup_nil
    · intro node h
      cases h
    · intro node h
      cases h

end CppAiService.KLfuCache
