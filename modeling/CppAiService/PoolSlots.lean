import CppAiService.PoolLayout
import CppAiService.Foundation.Run

namespace CppAiService.PoolSlots

open Foundation MemoryPool

inductive Action
  | allocate (newBlock : ℕ)
  | deallocate (ptr : ℕ)
  | write (a value : ℕ)

def step (pool : MemoryPool) : Action → Option MemoryPool
  | .allocate newBlock =>
    let (ptr, pool) := pool.allocate newBlock
    some (pool.handOut ptr)
  | .deallocate ptr => some (pool.free ptr)
  | .write a value => some (pool.write a value)

/-- A block is new if one is taken, what is freed is owned, and callers keep to their slots. -/
def Lawful (pool : MemoryPool) : Action → Prop
  | .allocate newBlock => pool.freeList_ = 0 → pool.needsBlock = true → pool.Fresh newBlock
  | .deallocate ptr => ptr = 0 ∨ ptr ∈ pool.owned
  | .write a _ => pool.Writable a

instance (pool : MemoryPool) (a : Action) : Decidable (Lawful pool a) := by
  cases a <;> unfold Lawful <;> infer_instance

structure SlotsApart (pool : MemoryPool) : Prop where
  apart : pool.owned.Pairwise (Apart pool.SlotSize_)
  within : ∀ p ∈ pool.owned, 8 ∣ p ∧ ∃ b ∈ pool.blocks, Within pool.SlotSize_ b p
  free : ∃ free, FreeList.Chain 0 pool.next pool.freeList_ free ∧ free.Nodup ∧
    List.Disjoint pool.owned free ∧ ∀ f ∈ free, ∀ p ∈ pool.owned, Apart pool.SlotSize_ f p

variable {pool : MemoryPool}

theorem slotsApart (h : Accounted [] pool) : SlotsApart pool := by
  obtain ⟨free, hchain, hplaces⟩ := h.places
  have hnodup := h.nodup hplaces
  rw [List.append_nil] at hplaces hnodup
  have hall : (pool.owned ++ free).Pairwise (Apart pool.SlotSize_) :=
    (hplaces.pairwise_iff Or.symm).2 h.layout.apart
  obtain ⟨howned, -, hcross⟩ := List.pairwise_append.1 hall
  refine ⟨howned, fun p hp ↦ h.layout.inside p ?_, free, hchain, hnodup.of_append_right,
    List.disjoint_of_nodup_append hnodup, fun f hf p hp ↦ (hcross p hp f hf).symm⟩
  exact hplaces.mem_iff.1 (List.mem_append_left _ hp)

theorem not_mem_owned (h : Accounted [] pool) : 0 ∉ pool.owned := by
  intro hmem
  obtain ⟨-, b, -, hwithin⟩ := (slotsApart h).within 0 hmem
  rw [Within] at hwithin
  omega

theorem allocate_accounted (h : Accounted [] pool) {newBlock : ℕ}
    (hfresh : pool.freeList_ = 0 → pool.needsBlock = true → pool.Fresh newBlock) :
    Accounted [(pool.allocate newBlock).1] (pool.allocate newBlock).2 := by
  rw [allocate]
  split_ifs with hfree
  · obtain ⟨pool', hpop, h', -⟩ := h.pop hfree
    rw [hpop]
    exact h'
  · rw [not_not] at hfree
    exact h.carve (hfresh hfree) fun _ ↦ hfree

theorem allocate_frame (pool : MemoryPool) (newBlock : ℕ) :
    (pool.allocate newBlock).2.SlotSize_ = pool.SlotSize_ ∧
      (pool.allocate newBlock).2.owned = pool.owned := by
  have hcarve : (pool.carve newBlock).2.SlotSize_ = pool.SlotSize_ ∧
      (pool.carve newBlock).2.owned = pool.owned := by
    rw [carve]
    split_ifs <;> exact ⟨rfl, rfl⟩
  rw [allocate, popFree]
  split_ifs
  · exact ⟨rfl, rfl⟩
  · exact hcarve

theorem deallocate_size (pool : MemoryPool) (ptr : ℕ) :
    (pool.free ptr).SlotSize_ = pool.SlotSize_ := by
  rw [free, deallocate]
  split_ifs <;> rfl

structure Kept (m : ℕ) (pool : MemoryPool) : Prop where
  accounted : Accounted [] pool
  size : pool.SlotSize_ = 8 * m

theorem kept_step {m : ℕ} (pool : MemoryPool) (a : Action) (ha : Lawful pool a)
    (h : Kept m pool) : ∃ pool', step pool a = some pool' ∧ Kept m pool' := by
  cases a with
  | allocate newBlock =>
    refine ⟨_, rfl, (allocate_accounted h.accounted ha).handOut, ?_⟩
    exact (allocate_frame pool newBlock).1.trans h.size
  | deallocate ptr =>
    refine ⟨_, rfl, ?_, (deallocate_size pool ptr).trans h.size⟩
    rcases ha with rfl | hptr
    · rw [free, deallocate, if_neg (not_not.2 rfl),
        List.erase_of_not_mem (not_mem_owned h.accounted)]
      exact h.accounted
    · exact h.accounted.free hptr
  | write a value => exact ⟨_, rfl, h.accounted.write ha value, h.size⟩

/-- The slots of the callers are apart from each other and from those on the free list, in their
blocks and aligned, whatever the slot size and however the operations follow each other. -/
theorem slots_never_overlap {m : ℕ} (hm : 0 < m) (hm' : m ≤ 64) (next : ℕ → ℕ)
    (actions : List Action) (hlawful : Run.Along step Lawful (init (8 * m) next) actions) :
    ∃ pool, Run.run step (init (8 * m) next) actions = some pool ∧ pool.SlotSize_ = 8 * m ∧
      SlotsApart pool ∧
      ∀ newBlock, (pool.freeList_ = 0 → pool.needsBlock = true → pool.Fresh newBlock) →
        8 ∣ (pool.allocate newBlock).1 ∧
        ∀ p ∈ pool.owned, Apart (8 * m) p (pool.allocate newBlock).1 := by
  obtain ⟨pool, hrun, h⟩ := Run.possible kept_step ⟨accounted_init hm hm' next, rfl⟩ hlawful
  refine ⟨pool, hrun, h.size, slotsApart h.accounted, fun newBlock hfresh ↦ ?_⟩
  have hslots := slotsApart (allocate_accounted h.accounted hfresh).handOut
  obtain ⟨hsize, howned⟩ := allocate_frame pool newBlock
  have hwithin := hslots.within (pool.allocate newBlock).1
    (List.mem_append_right _ (List.mem_singleton_self _))
  have hapart := hslots.apart
  rw [handOut, howned, hsize, h.size] at hapart
  exact ⟨hwithin.1, fun p hp ↦
    (List.pairwise_append.1 hapart).2.2 p hp _ (List.mem_singleton_self _)⟩

/-- A block of 24-byte slots, of which the first is padded; a freed slot comes back. -/
theorem first_slots :
    let actions : List Action := [.allocate 4096, .allocate 8192, .write 4152 7,
      .deallocate 4120, .allocate 8192]
    ∃ pool, Run.run step (init 24 fun _ ↦ 0) actions = some pool ∧ SlotsApart pool ∧
      pool.owned = [4144, 4120] := by
  intro actions
  obtain ⟨pool, hrun, -, hslots, -⟩ :=
    slots_never_overlap (m := 3) (by decide) (by decide) (fun _ ↦ 0) actions (by decide)
  refine ⟨pool, hrun, hslots, ?_⟩
  obtain rfl := Option.some.inj hrun
  decide

end CppAiService.PoolSlots
