import CppAiService.LfuLinks

namespace CppAiService.KLfuCache

variable {K V : Type} {c d : KLfuCache K V} {node : NodePtr}

def aged (maxAverageNum f : ℤ) : ℤ :=
  if wrap32 (f - maxAverageNum.tdiv 2) < 1 then 1 else wrap32 (f - maxAverageNum.tdiv 2)

def agedFreq (c : KLfuCache K V) (node : NodePtr) : ℤ :=
  if node ∈ c.ptrs then aged c.maxAverageNum_ (c.freq node) else c.freq node

def freqs (c : KLfuCache K V) : List ℤ := c.ptrs.map c.freq

def MinExact (c : KLfuCache K V) : Prop := IsLeast {f | f ∈ c.freqs} c.minFreq_

theorem mem_freqs {f : ℤ} : f ∈ c.freqs ↔ ∃ node ∈ c.ptrs, c.freq node = f := List.mem_map

section Aging

variable [DecidableEq K]

theorem ageNode_eq (hc : c.Linked) (h : node ∈ c.ptrs) :
    c.ageNode node = some (c.relinked node (aged c.maxAverageNum_ (c.freq node))) := by
  unfold ageNode
  rw [removeFromFreqList_eq (hc.hasList h)]
  rfl

theorem run_ageNode (hc : c.Linked) {nodes : List NodePtr} (hsub : ∀ x ∈ nodes, x ∈ c.ptrs)
    (hnodup : nodes.Nodup) :
    ∃ d, Foundation.Run.run ageNode c nodes = some d ∧
      (d.curTotalNum_ = c.curTotalNum_ ∧ d.curAverageNum_ = c.curAverageNum_) ∧
      c.Reweighed d fun x ↦ if x ∈ nodes then aged c.maxAverageNum_ (c.freq x) else c.freq x := by
  induction nodes generalizing c with
  | nil => exact ⟨c, rfl, ⟨rfl, rfl⟩, (Reweighed.refl hc).congr fun x ↦ by simp⟩
  | cons node nodes ih =>
    have hnode : node ∈ c.ptrs := hsub node List.mem_cons_self
    obtain ⟨hnotMem, hnodup⟩ := List.nodup_cons.1 hnodup
    have hw := reweighed_relinked hc hnode (aged c.maxAverageNum_ (c.freq node))
    have hsub' : ∀ x ∈ nodes, x ∈ (c.relinked node (aged c.maxAverageNum_ (c.freq node))).ptrs :=
      fun x hx ↦ hw.ptrs ▸ hsub x (List.mem_cons_of_mem _ hx)
    obtain ⟨d, hd, hcounters, hw'⟩ := ih hw.linked hsub' hnodup
    refine ⟨d, ?_, hcounters, (hw.trans hw').congr fun x ↦ ?_⟩
    · rw [Foundation.Run.run_cons, ageNode_eq hc hnode, Option.bind_some, hd]
    · change (if x ∈ nodes then aged c.maxAverageNum_ _ else _) = _
      rw [hw.freq]
      by_cases hx : x = node
      · subst hx
        simp [hnotMem]
      · simp [hx]

theorem handleOverMaxAverageNum_eq (hc : c.Linked) (hne : c.ptrs ≠ []) (order : IterationOrder) :
    ∃ d, c.Reweighed d c.agedFreq ∧
      (d.curTotalNum_ = c.curTotalNum_ ∧ d.curAverageNum_ = c.curAverageNum_) ∧
      c.handleOverMaxAverageNum order = some d.updateMinFreq := by
  have hperm := order.perm c.ptrs
  obtain ⟨d, hd, hcounters, hw⟩ := run_ageNode hc (fun x hx ↦ hperm.subset hx)
    (hperm.nodup_iff.2 hc.nodup_ptrs)
  refine ⟨d, hw.congr fun x ↦ by simp only [agedFreq, hperm.mem_iff], hcounters, ?_⟩
  have hsize : c.size ≠ 0 := by
    rw [← length_ptrs]
    exact fun h ↦ hne (List.eq_nil_of_length_eq_zero h)
  rw [handleOverMaxAverageNum, if_neg hsize, hd]
  rfl

theorem foldl_least (entries : List (Σ _ : ℤ, List NodePtr)) (b : ℤ) :
    let r := entries.foldl (fun least entry ↦ if entry.2.isEmpty then least else min least entry.1) b
    (r = b ∨ ∃ entry ∈ entries, entry.2 ≠ [] ∧ r = entry.1) ∧ r ≤ b ∧
      ∀ entry ∈ entries, entry.2 ≠ [] → r ≤ entry.1 := by
  induction entries generalizing b with
  | nil => simp
  | cons entry entries ih =>
    obtain ⟨hfrom, hle, hall⟩ := ih (if entry.2.isEmpty then b else min b entry.1)
    rw [List.foldl_cons]
    by_cases he : entry.2 = []
    · simp only [he, List.isEmpty_nil, if_true] at hfrom hle hall ⊢
      refine ⟨hfrom.imp_right ?_, hle, ?_⟩
      · intro hand
        obtain ⟨e, hmem, h⟩ := hand
        exact ⟨e, List.mem_cons_of_mem _ hmem, h⟩
      · intro e hmem hne
        rcases List.mem_cons.1 hmem with rfl | hmem
        · exact absurd he hne
        · exact hall e hmem hne
    · simp only [List.isEmpty_iff, he, if_false] at hfrom hle hall ⊢
      refine ⟨?_, hle.trans (min_le_left _ _), ?_⟩
      · rcases hfrom with h | ⟨e, hmem, h⟩
        · rcases min_choice b entry.1 with hm | hm
          · exact .inl (h.trans hm)
          · exact .inr ⟨entry, List.mem_cons_self, he, h.trans hm⟩
        · exact .inr ⟨e, List.mem_cons_of_mem _ hmem, h⟩
      · intro e hmem hne
        rcases List.mem_cons.1 hmem with rfl | hmem
        · exact hle.trans (min_le_right _ _)
        · exact hall e hmem hne

theorem Linked.mem_freqs_iff (hc : c.Linked) {f : ℤ} :
    f ∈ c.freqs ↔ ∃ list, ⟨f, list⟩ ∈ c.freqToFreqList_.entries ∧ list ≠ [] := by
  rw [mem_freqs]
  constructor
  · intro hand
    obtain ⟨node, hnode, rfl⟩ := hand
    have hmem := (hc.mem_listAt _ node).2 ⟨hnode, rfl⟩
    exact ⟨_, AList.mem_lookup_iff.1 (hc.hasList hnode).lookup_eq, List.ne_nil_of_mem hmem⟩
  · intro hand
    obtain ⟨list, hmem, hne⟩ := hand
    obtain ⟨node, hnode⟩ := List.exists_mem_of_ne_nil list hne
    refine ⟨node, (hc.mem_listAt f node).1 ?_⟩
    rwa [listAt, AList.mem_lookup_iff.2 hmem, Option.getD_some]

/-- `updateMinFreq` finds the least frequency when it is below its sentinel. -/
theorem updateMinFreq_minExact (hc : c.Linked) (h : ∃ f ∈ c.freqs, f < INT8_MAX) :
    c.updateMinFreq.MinExact := by
  obtain ⟨hfrom, hle, hall⟩ := foldl_least c.freqToFreqList_.entries INT8_MAX
  have hlt : c.freqToFreqList_.entries.foldl
      (fun least entry ↦ if entry.2.isEmpty then least else min least entry.1) INT8_MAX <
      INT8_MAX := by
    obtain ⟨f, hf, hlt⟩ := h
    obtain ⟨list, hmem, hne⟩ := hc.mem_freqs_iff.1 hf
    exact (hall _ hmem hne).trans_lt hlt
  have hmin : c.updateMinFreq.minFreq_ = c.freqToFreqList_.entries.foldl
      (fun least entry ↦ if entry.2.isEmpty then least else min least entry.1) INT8_MAX :=
    if_neg hlt.ne
  rw [MinExact, hmin]
  constructor
  · rcases hfrom with h | ⟨entry, hmem, hne, h⟩
    · exact absurd h hlt.ne
    · exact h ▸ hc.mem_freqs_iff.2 ⟨entry.2, hmem, hne⟩
  · intro f hf
    obtain ⟨list, hmem, hne⟩ := hc.mem_freqs_iff.1 hf
    exact hall _ hmem hne

theorem updateMinFreq_minFreq_ (hc : c.Linked) (h : ∀ f ∈ c.freqs, INT8_MAX ≤ f) :
    c.updateMinFreq.minFreq_ = 1 := by
  obtain ⟨hfrom, hle, -⟩ := foldl_least c.freqToFreqList_.entries INT8_MAX
  refine if_pos (hfrom.elim id ?_)
  intro hand
  obtain ⟨entry, hmem, hne, h'⟩ := hand
  exact le_antisymm hle (h' ▸ h _ (hc.mem_freqs_iff.2 ⟨entry.2, hmem, hne⟩))

end Aging

def counted (c : KLfuCache K V) : KLfuCache K V :=
  let c := { c with curTotalNum_ := wrap32 (c.curTotalNum_ + 1) }
  { c with curAverageNum_ := c.average }

/-- One more access raises the average over its limit. -/
def Over (c : KLfuCache K V) : Prop := c.maxAverageNum_ < c.counted.curAverageNum_

instance : Decidable c.Over := inferInstanceAs (Decidable (_ < _))

variable [DecidableEq K]

theorem Linked.withCounters (hc : c.Linked) (minFreq average total : ℤ) :
    Linked { c with minFreq_ := minFreq, curAverageNum_ := average, curTotalNum_ := total } :=
  ⟨hc.keyed, hc.mem_listAt, hc.nodup, hc.allocated⟩

structure Accessed (c d : KLfuCache K V) : Prop where
  reweighed : c.Reweighed d (if c.Over then c.agedFreq else c.freq)
  total : d.curTotalNum_ = wrap32 (c.curTotalNum_ + 1)
  average : d.curAverageNum_ = c.counted.curAverageNum_
  kept : ¬ c.Over → d.minFreq_ = c.minFreq_
  exact : c.Over → (∃ f ∈ d.freqs, f < INT8_MAX) → d.MinExact
  reset : c.Over → (∀ f ∈ d.freqs, INT8_MAX ≤ f) → d.minFreq_ = 1

theorem Accessed.exact_or_reset (h : c.Accessed d) (ho : c.Over) : d.MinExact ∨ d.minFreq_ = 1 := by
  by_cases hlow : ∃ f ∈ d.freqs, f < INT8_MAX
  · exact .inl (h.exact ho hlow)
  · exact .inr (h.reset ho fun f hf ↦ not_lt.1 fun hlt ↦ hlow ⟨f, hf, hlt⟩)

theorem addFreqNum_spec (hc : c.Linked) (hne : c.ptrs ≠ []) (order : IterationOrder) :
    ∃ d, c.addFreqNum order = some d ∧ c.Accessed d := by
  by_cases h : c.Over
  · obtain ⟨d, hw, ⟨htotal, haverage⟩, hd⟩ :=
      handleOverMaxAverageNum_eq (hc.withCounters _ c.counted.curAverageNum_ _) hne order
    have hw' : c.Reweighed d.updateMinFreq c.agedFreq :=
      ⟨hw.capacity_, hw.maxAverageNum_, hw.nodeMap_, hw.nodes, hw.linked.withCounters _ _ _,
        hw.hasList⟩
    refine ⟨d.updateMinFreq, (if_pos h).trans hd, ?_, htotal, haverage,
      fun h' ↦ absurd h h', fun _ h ↦ updateMinFreq_minExact hw.linked h,
      fun _ h ↦ updateMinFreq_minFreq_ hw.linked h⟩
    rwa [if_pos h]
  · refine ⟨c.counted, if_neg h, ?_, rfl, rfl, fun _ ↦ rfl, fun h' ↦ absurd h' h,
      fun h' ↦ absurd h' h⟩
    rw [if_neg h]
    exact ⟨rfl, rfl, rfl, fun _ ↦ rfl, hc.withCounters _ _ _, fun _ h ↦ h⟩

def promoted (c : KLfuCache K V) (node : NodePtr) : KLfuCache K V :=
  c.relinked node (wrap32 (c.freq node + 1))

def advancedMinFreq (c : KLfuCache K V) (node : NodePtr) : ℤ :=
  if wrap32 (c.freq node - 1) = c.minFreq_ ∧ c.listAt c.minFreq_ = [] then
    wrap32 (c.minFreq_ + 1)
  else c.minFreq_

omit [DecidableEq K] in
theorem advanceMinFreq_eq (h : c.HasList (wrap32 (c.freq node - 1))) :
    c.advanceMinFreq node = some { c with minFreq_ := c.advancedMinFreq node } := by
  unfold advanceMinFreq advancedMinFreq
  by_cases hm : wrap32 (c.freq node - 1) = c.minFreq_
  · rw [if_pos hm, hm, (hm ▸ h : c.HasList c.minFreq_).lookup_eq]
    by_cases he : c.listAt c.minFreq_ = [] <;> simp [he]
  · simp [hm]

end CppAiService.KLfuCache
