import CppAiService.LfuContents
import CppAiService.LfuHistories

namespace CppAiService.KLfuCache

open Foundation.Run

variable {K V : Type}

def Op.moved (a : ℕ) : Op K V → Op K V
  | .put key value order => .put key value (order.moved a)
  | .get key order => .get key (order.moved a)
  | .purge => .purge

variable [DecidableEq K]

def answer (c : KLfuCache K V) : Op K V → List (Option V)
  | .get key order => ((c.get key order).map Prod.fst).toList
  | .put .. | .purge => []

variable [Inhabited K]

/-- The entries and counters that an operation finds when it counts its access, if it makes one. -/
def accessed (c : KLfuCache K V) : Op K V → Option (KLfuCache K V)
  | .put key value _ =>
    if c.capacity_ = 0 then none
    else
      match c.nodeMap_.lookup key with
      | some _ => some c
      | none => c.makeRoom.map fun c ↦ c.insertNode key value
  | .get key _ => (c.nodeMap_.lookup key).map fun _ ↦ c
  | .purge => none

/-- What is left over in the total changes no decision to age. -/
def Unaffected (leftover : ℤ) (c : KLfuCache K V) (op : Op K V) : Prop :=
  ∀ d ∈ c.accessed op, d.AgesAlike leftover

instance (leftover : ℤ) (c : KLfuCache K V) (op : Op K V) : Decidable (c.Unaffected leftover op) :=
  inferInstanceAs (Decidable (∀ d ∈ c.accessed op, _))

variable {a : ℕ} {leftover : ℤ} {c d : KLfuCache K V} {key : K} {node : NodePtr}
  {capacity maxAverageNum : ℤ}

/-- A least frequency from before a purge is of no account once something has been put. -/
def SameFloor (f f' : ℤ) : Prop := min f 1 = min f' 1

structure Twin (a : ℕ) (leftover : ℤ) (c d : KLfuCache K V) : Prop where
  moved : Moved SameFloor a leftover c d
  least : c.ptrs ≠ [] → c.minFreq_ = d.minFreq_

omit [DecidableEq K] [Inhabited K] in
theorem Moved.twin (h : Moved (· = ·) a leftover c d) : Twin a leftover c d :=
  ⟨h.withMinFreq (congrArg (min · 1) h.minFreq_), fun _ ↦ h.minFreq_⟩

namespace Twin

variable (h : Twin a leftover c d)
include h

omit [DecidableEq K] [Inhabited K] in
theorem exact (hne : c.ptrs ≠ []) : Moved (· = ·) a leftover c d :=
  h.moved.withMinFreq (h.least hne)

omit [Inhabited K] in
theorem lookup (key : K) : d.nodeMap_.lookup key = (c.nodeMap_.lookup key).map (· + a) := by
  rw [h.moved.nodeMap_, Foundation.MapValues.lookup_mapValues]

theorem get {order : IterationOrder} (hok : c.Unaffected leftover (.get key order)) :
    Option.Rel (fun x y ↦ x.1 = y.1 ∧ Twin a leftover x.2 y.2) (c.get key order)
      (d.get key (order.moved a)) := by
  rw [KLfuCache.get, KLfuCache.get, h.lookup]
  cases hlookup : c.nodeMap_.lookup key with
  | none => exact .some ⟨rfl, h⟩
  | some node =>
    have hnode : node ∈ c.ptrs := mem_ptrs.2 ⟨key, hlookup⟩
    have hexact := h.exact (List.ne_nil_of_mem hnode)
    have hages : c.AgesAlike leftover := hok c (by rw [accessed, hlookup]; rfl)
    have hrel := hexact.getInternal hnode hages order
    exact Foundation.Related.map hrel fun x y hxy ↦ ⟨congrArg some hxy.1, hxy.2.twin⟩

theorem makeRoom (hcap : c.capacity_ ≠ 0) :
    Option.Rel (Moved SameFloor a leftover) c.makeRoom d.makeRoom := by
  by_cases hfull : (c.size : ℤ) = c.capacity_
  · have hne : c.ptrs ≠ [] := by
      intro hnil
      rw [← length_ptrs, hnil] at hfull
      exact hcap hfull.symm
    exact Foundation.Related.mono (h.exact hne).makeRoom fun _ _ h ↦ h.twin.moved
  · have hfull' : ¬ (d.size : ℤ) = d.capacity_ := by rwa [h.moved.size, h.moved.capacity_]
    rw [KLfuCache.makeRoom, KLfuCache.makeRoom, if_neg hfull, if_neg hfull']
    exact .some h.moved

theorem put {value : V} {order : IterationOrder}
    (hok : c.Unaffected leftover (.put key value order)) :
    Option.Rel (Twin a leftover) (c.put key value order) (d.put key value (order.moved a)) := by
  by_cases hcap : c.capacity_ = 0
  · have hcap' : d.capacity_ = 0 := h.moved.capacity_.trans hcap
    rw [KLfuCache.put, KLfuCache.put, if_pos hcap, if_pos hcap']
    exact .some h
  · have hcap' : d.capacity_ ≠ 0 := h.moved.capacity_.symm ▸ hcap
    rw [Unaffected, accessed, if_neg hcap] at hok
    cases hlookup : c.nodeMap_.lookup key with
    | some node =>
      rw [hlookup] at hok
      have hnode : node ∈ c.ptrs := mem_ptrs.2 ⟨key, hlookup⟩
      have hset := (h.exact (List.ne_nil_of_mem hnode)).setValue node value
      have hages := (hok c rfl).frame (frame_update hnode { c.nodes node with value := value })
      have hlookup' : d.nodeMap_.lookup key = some (node + a) := by rw [h.lookup, hlookup]; rfl
      rw [put_of_lookup_eq_some hcap hlookup, put_of_lookup_eq_some hcap' hlookup']
      exact Foundation.Related.map (hset.getInternal hnode hages order) fun _ _ h ↦ h.2.twin
    | none =>
      rw [hlookup] at hok
      have hkey : key ∉ c.nodeMap_ := AList.lookup_eq_none.1 hlookup
      have hkey' : key ∉ d.nodeMap_ := by
        rw [← AList.lookup_eq_none, h.lookup, hlookup]
        rfl
      rw [put_of_notMem hcap hkey, put_of_notMem hcap' hkey']
      refine Foundation.Related.bind (h.makeRoom hcap) fun c₁ d₁ hroom h₁ ↦ ?_
      have hages : (c₁.insertNode key value).AgesAlike leftover :=
        hok _ (by rw [hroom]; rfl)
      have hadd := (h₁.insertNode key value).addFreqNum (fun _ ↦ rfl) hages order
      refine Foundation.Related.bind hadd fun c₂ d₂ _ h₂ ↦ .some ?_
      have hexact : Moved (· = ·) a leftover { c₂ with minFreq_ := min c₂.minFreq_ 1 }
          { d₂ with minFreq_ := min d₂.minFreq_ 1 } := h₂.withMinFreq h₂.minFreq_
      exact hexact.twin

omit [DecidableEq K] [Inhabited K] in
theorem purge : Twin a leftover c.purge d.purge :=
  ⟨⟨h.moved.capacity_, h.moved.minFreq_, h.moved.maxAverageNum_, h.moved.curTotalNum_,
    h.moved.nodes, h.moved.allocated, rfl, rfl⟩, fun hne ↦ absurd rfl hne⟩

theorem step {op : Op K V} (hok : c.Unaffected leftover op) :
    Option.Rel (Twin a leftover) (c.step op) (d.step (op.moved a)) := by
  cases op with
  | put key value order => exact h.put hok
  | get key order =>
    exact Foundation.Related.map (h.get hok) fun _ _ h ↦ h.2
  | purge => exact .some h.purge

theorem answer {op : Op K V} (hok : c.Unaffected leftover op) :
    c.answer op = d.answer (op.moved a) := by
  cases op with
  | put key value order => rfl
  | get key order =>
    exact congrArg Option.toList (Foundation.Related.map_eq (h.get hok) fun _ _ h ↦ h.1)
  | purge => rfl

end Twin

omit [DecidableEq K] in
/-- A purged cache is a new one, but for the total and the least frequency. -/
theorem Made.purged [Inhabited V] (h : c.Made capacity maxAverageNum) (hmin : 1 ≤ c.minFreq_) :
    Twin c.allocated c.curTotalNum_ (KLfuCache.create capacity maxAverageNum) c.purge := by
  refine ⟨⟨h.capacity_, ?_, h.maxAverageNum_, ?_, fun node ↦ ?_, ?_, rfl, rfl⟩, ?_⟩
  · change min INT8_MAX 1 = min c.minFreq_ 1
    rw [min_eq_right hmin]
    rfl
  · exact congrArg wrap32 (zero_add _).symm
  · exact h.unused _ (Nat.le_add_left ..)
  · exact (Nat.zero_add _).symm
  · exact fun hne ↦ absurd rfl hne

/-- After a purge the cache answers as a new one does, as long as what is left over in the total
does not change when the nodes are aged. -/
theorem purge_resets [Inhabited V] (capacity maxAverageNum : ℤ) (earlier later : List (Op K V))
    {c : KLfuCache K V} (hc : run (create capacity maxAverageNum) earlier = some c)
    (hmin : 1 ≤ c.minFreq_)
    (hok : Along step (Unaffected c.curTotalNum_) (create capacity maxAverageNum) later) :
    (run (create capacity maxAverageNum) later).isSome =
        (run c.purge (later.map (Op.moved c.allocated))).isSome ∧
      outputs step answer (create capacity maxAverageNum) later =
        outputs step answer c.purge (later.map (Op.moved c.allocated)) := by
  have hmade : c.Made capacity maxAverageNum :=
    run_inv (fun _ _ _ h hstep ↦ h.taken (taken_of_step hstep)) Made.create hc
  have htwin := hmade.purged hmin
  have hstep : ∀ (s t : KLfuCache K V) (op : Op K V), s.Unaffected c.curTotalNum_ op →
      Twin c.allocated c.curTotalNum_ s t →
      Option.Rel (Twin c.allocated c.curTotalNum_) (step s op) (step t (op.moved c.allocated)) :=
    fun s t op hop h ↦ h.step hop
  constructor
  · exact Foundation.Related.isSome_eq (Foundation.Related.runs hstep htwin hok)
  · exact Foundation.Related.outputs_eq hstep (fun s t op hop h ↦ h.answer hop) htwin hok

theorem purged_while_young :
    ∃ c, run (create 2 2) [.put (lit "z") 0 .stored] = some c ∧
      let later : List (Op Bytes ℕ) := [.put (lit "a") 1 .stored, .put (lit "b") 2 .stored,
        .put (lit "c") 3 .stored, .get (lit "b") .stored, .get (lit "a") .stored]
      (run (create 2 2) later).isSome = (run c.purge (later.map (Op.moved c.allocated))).isSome ∧
        outputs step answer (create 2 2) later =
          outputs step answer c.purge (later.map (Op.moved c.allocated)) := by
  refine ⟨_, rfl, ?_⟩
  apply purge_resets 2 2 [.put (lit "z") 0 .stored]
  · rfl
  · decide +kernel
  · decide +kernel

/-- The one access left over ages a node early, and another entry is evicted. -/
theorem purge_ages_early :
    ∃ c, run (create 2 2) [.put (lit "z") 0 .stored] = some c ∧
      let later : List (Op Bytes ℕ) := [.put (lit "a") 1 .stored, .get (lit "a") .stored,
        .put (lit "b") 2 .stored, .put (lit "c") 3 .stored, .get (lit "a") .stored]
      outputs step answer (create 2 2) later = [some 1, some 1] ∧
        outputs step answer c.purge (later.map (Op.moved c.allocated)) = [some 1, none] :=
  ⟨_, rfl, by decide +kernel, by decide +kernel⟩

end CppAiService.KLfuCache
