import CppAiService.HashBucket
import CppAiService.Foundation.Classes
import CppAiService.Foundation.Threads

namespace CppAiService.LiveMemory

open Foundation Foundation.Classes HashBucket MemoryPool
open PoolSharing (AllocateAt)

variable {pools : ℕ → MemoryPool} {memory : ℕ → ℕ} {held held' : List (ℕ × ℕ)} {index : ℕ}

def RangesApart (x y : ℕ × ℕ) : Prop := x.1 + x.2 ≤ y.1 ∨ y.1 + y.2 ≤ x.1

instance : Std.Symm RangesApart := ⟨fun _ _ h ↦ h.symm⟩

def sizeClass (x : ℕ × ℕ) : Option ℕ := poolIndex x.2

theorem poolIndex_spec {size : ℕ} (hpos : 0 < size) :
    (poolIndex size = none ∧ MAX_SLOT_SIZE < size) ∨
      ∃ i < MEMORY_POOL_NUM, poolIndex size = some i ∧ size ≤ 8 * (i + 1) := by
  rw [poolIndex]
  split_ifs with hlarge
  · exact .inl ⟨rfl, hlarge⟩
  · rw [MAX_SLOT_SIZE] at hlarge
    refine .inr ⟨(size + 7) / 8 - 1, ?_, ?_, by omega⟩
    · rw [MEMORY_POOL_NUM]
      omega
    · rw [SLOT_BASE_SIZE, wrap64, Option.some.injEq]
      omega

/-- What is held of a pool and what is on its free list are different slots that were cut; all else
that is held is memory of its own. Slots may be lost, but none is in two places. -/
structure Sound (pools : ℕ → MemoryPool) (memory : ℕ → ℕ) (held : List (ℕ × ℕ)) : Prop where
  size : ∀ i < MEMORY_POOL_NUM, (pools i).SlotSize_ = 8 * (i + 1)
  layout : ∀ i < MEMORY_POOL_NUM, Layout (pools i)
  slots : ∀ i < MEMORY_POOL_NUM, ∃ free, FreeList.Chain 0 memory (pools i).freeList_ free ∧
    ((ofClass sizeClass (some i) held).map Prod.fst ++ free).Subperm (pools i).carved
  apart : ∀ i < MEMORY_POOL_NUM, ∀ j < MEMORY_POOL_NUM, i ≠ j →
    ∀ b ∈ (pools i).blocks, ∀ c ∈ (pools j).blocks, Apart BlockSize_ b c
  sizes : ∀ x ∈ held, 0 < x.2
  large : ∀ x ∈ ofClass sizeClass none held, 8 ∣ x.1 ∧ 0 < x.1 ∧ x.1 + x.2 < 2 ^ 64 ∧
    ∀ i < MEMORY_POOL_NUM, ∀ b ∈ (pools i).blocks, b + BlockSize_ ≤ x.1 ∨ x.1 + x.2 ≤ b
  largeApart : (ofClass sizeClass none held).Pairwise RangesApart

theorem sound_init (memory : ℕ → ℕ) : Sound (initMemoryPool memory).memoryPool memory [] where
  size i _ := Nat.mul_comm _ _
  layout i hi := by
    change Layout (init ((i + 1) * 8) memory)
    rw [Nat.mul_comm]
    exact layout_init (Nat.succ_pos i) hi memory
  slots i _ := ⟨[], rfl, List.nil_subperm⟩
  apart := fun _ _ _ _ _ _ hb ↦ absurd hb List.not_mem_nil
  sizes := fun _ hx ↦ absurd hx List.not_mem_nil
  large := fun _ hx ↦ absurd hx List.not_mem_nil
  largeApart := .nil

theorem Sound.perm (h : Sound pools memory held) (hperm : held.Perm held') :
    Sound pools memory held' where
  size := h.size
  layout := h.layout
  slots i hi := by
    obtain ⟨free, hchain, hslots⟩ := h.slots i hi
    have hclass := ((ofClass_perm sizeClass (some i) hperm).map Prod.fst).append_right free
    exact ⟨free, hchain, hclass.symm.subperm.trans hslots⟩
  apart := h.apart
  sizes x hx := h.sizes x (hperm.mem_iff.2 hx)
  large x hx := h.large x ((ofClass_perm sizeClass none hperm).mem_iff.2 hx)
  largeApart :=
    ((ofClass_perm sizeClass none hperm).pairwise_iff fun {_ _} ↦ Std.Symm.symm _ _).1 h.largeApart

/-- Where something that is held lies. -/
theorem Sound.place (h : Sound pools memory held) {x : ℕ × ℕ} (hx : x ∈ held) :
    (sizeClass x = none ∧ x ∈ ofClass sizeClass none held) ∨
      ∃ i < MEMORY_POOL_NUM, sizeClass x = some i ∧ x.1 ∈ (pools i).carved ∧ x.2 ≤ 8 * (i + 1) := by
  obtain ⟨hnone, -⟩ | ⟨i, hi, hindex, hle⟩ := poolIndex_spec (h.sizes x hx)
  · exact .inl ⟨hnone, mem_ofClass.2 ⟨hx, hnone⟩⟩
  · obtain ⟨free, -, hslots⟩ := h.slots i hi
    refine .inr ⟨i, hi, hindex, hslots.subset (List.mem_append_left _ ?_), hle⟩
    exact List.mem_map_of_mem (mem_ofClass.2 ⟨hx, hindex⟩)

/-- What is held has no byte in another slot, of whichever pool. -/
theorem Sound.apart_slot (h : Sound pools memory held) {x : ℕ × ℕ} (hx : x ∈ held) {j c : ℕ}
    (hj : j < MEMORY_POOL_NUM) (hc : c ∈ (pools j).carved) (hne : sizeClass x = some j → x.1 ≠ c) :
    RangesApart x (c, 8 * (j + 1)) := by
  have hsize := h.size j hj
  obtain ⟨-, b, hb, hwithin⟩ := (h.layout j hj).inside c hc
  rw [Within, hsize] at hwithin
  rw [RangesApart]
  obtain ⟨-, hlarge⟩ | ⟨i, hi, hindex, hcarved, hle⟩ := h.place hx
  · obtain ⟨-, -, -, hblocks⟩ := h.large x hlarge
    rcases hblocks j hj b hb with hb | hb <;> dsimp only <;> omega
  · by_cases hij : i = j
    · subst hij
      have hapart := (h.layout i hi).apart.forall hcarved hc (hne hindex)
      rw [Apart, hsize] at hapart
      dsimp only
      omega
    · obtain ⟨-, b', hb', hwithin'⟩ := (h.layout i hi).inside x.1 hcarved
      have hapart := h.apart i hi j hj hij b' hb' b hb
      rw [Within, h.size i hi] at hwithin'
      rw [Apart] at hapart
      dsimp only
      omega

/-- All that is held is apart, whatever the sizes. -/
theorem Sound.pairwise (h : Sound pools memory held) : held.Pairwise RangesApart := by
  refine pairwise_of_classes sizeClass (fun k ↦ ?_) fun x hx y hy hne ↦ ?_
  · cases k with
    | none => exact h.largeApart
    | some i =>
      by_cases hi : i < MEMORY_POOL_NUM
      · obtain ⟨free, -, hslots⟩ := h.slots i hi
        have hsub := (List.sublist_append_left _ free).subperm.trans hslots
        have hapart := List.pairwise_map.1 (pairwise_of_subperm (h.layout i hi).apart hsub)
        refine hapart.imp_of_mem fun {x y} hx hy hxy ↦ ?_
        have hle : ∀ z ∈ ofClass sizeClass (some i) held, z.2 ≤ 8 * (i + 1) := by
          intro z hz
          obtain ⟨hz, hclass⟩ := mem_ofClass.1 hz
          obtain ⟨hnone, -⟩ | ⟨j, -, hj, -, hle⟩ := h.place hz
          · cases hnone.symm.trans hclass
          · obtain rfl := Option.some.inj (hj.symm.trans hclass)
            exact hle
        have hxle := hle x hx
        have hyle := hle y hy
        rw [Apart, h.size i hi] at hxy
        rw [RangesApart]
        omega
      · have hnil : ofClass sizeClass (some i) held = [] := by
          refine List.eq_nil_iff_forall_not_mem.2 fun z hz ↦ ?_
          obtain ⟨hz, hclass⟩ := mem_ofClass.1 hz
          obtain ⟨hnone, -⟩ | ⟨j, hj, hindex, -⟩ := h.place hz
          · cases hnone.symm.trans hclass
          · obtain rfl := Option.some.inj (hindex.symm.trans hclass)
            exact hi hj
        rw [hnil]
        exact .nil
  · obtain ⟨hnone, hlarge⟩ | ⟨i, hi, hindex, hcarved, hle⟩ := h.place hy
    · obtain ⟨hnone', -⟩ | ⟨j, hj, hindex, hcarved, hle⟩ := h.place hx
      · exact absurd (hnone'.trans hnone.symm) hne
      · have hapart := h.apart_slot hy hj hcarved fun hsome ↦ by cases hnone.symm.trans hsome
        rw [RangesApart] at *
        dsimp only at hapart
        omega
    · have hapart := h.apart_slot hx hi hcarved fun hsome ↦ absurd (hsome.trans hindex.symm) hne
      rw [RangesApart] at *
      dsimp only at hapart
      omega

theorem Sound.ne_free (h : Sound pools memory held) {x : ℕ × ℕ} (hx : x ∈ held) {i f : ℕ}
    {free : List ℕ} (hi : i < MEMORY_POOL_NUM)
    (hslots : ((ofClass sizeClass (some i) held).map Prod.fst ++ free).Subperm (pools i).carved)
    (hf : f ∈ free) (hclass : sizeClass x = some i) : x.1 ≠ f := by
  intro heq
  obtain ⟨l, hperm, hl⟩ := hslots
  have hnodup := hperm.nodup_iff.1 ((h.layout i hi).carved_nodup.sublist hl)
  refine List.disjoint_of_nodup_append hnodup ?_ (heq ▸ hf)
  exact List.mem_map_of_mem (mem_ofClass.2 ⟨hx, hclass⟩)

/-- A write to what is held changes no link of a free list. -/
theorem Sound.write (h : Sound pools memory held) {x : ℕ × ℕ} (hx : x ∈ held) {a : ℕ}
    (hle : x.1 ≤ a) (hlt : a < x.1 + x.2) (value : ℕ) :
    Sound pools (Function.update memory a value) held where
  size := h.size
  layout := h.layout
  slots i hi := by
    obtain ⟨free, hchain, hslots⟩ := h.slots i hi
    refine ⟨free, hchain.update (fun ha ↦ ?_) value, hslots⟩
    have hcarved := hslots.subset (List.mem_append_right _ ha)
    have hapart := h.apart_slot hx hi hcarved fun hclass ↦
      (h.ne_free hx hi hslots ha hclass)
    rw [RangesApart] at hapart
    dsimp only at hapart
    omega
  apart := h.apart
  sizes := h.sizes
  large := h.large
  largeApart := h.largeApart

/-- A block that no other pool and nothing large overlaps. -/
def Own (pools : ℕ → MemoryPool) (held : List (ℕ × ℕ)) (index b : ℕ) : Prop :=
  (∀ j < MEMORY_POOL_NUM, j ≠ index → ∀ c ∈ (pools j).blocks, Apart BlockSize_ b c) ∧
    ∀ x ∈ ofClass sizeClass none held, b + BlockSize_ ≤ x.1 ∨ x.1 + x.2 ≤ b

/-- A step of one pool that leaves the slots and the memory of the others alone. -/
theorem Sound.replace (h : Sound pools memory held) (hindex : index < MEMORY_POOL_NUM)
    {pool : MemoryPool} (hlayout : Layout pool) (hsize : pool.SlotSize_ = (pools index).SlotSize_)
    (hblocks : ∀ b ∈ pool.blocks, b ∈ (pools index).blocks ∨ Own pools held index b)
    (hmemory : ∀ j < MEMORY_POOL_NUM, j ≠ index → ∀ c ∈ (pools j).carved, pool.next c = memory c)
    (hother : ∀ k, k ≠ some index → ofClass sizeClass k held' = ofClass sizeClass k held)
    (hsizes : ∀ x ∈ held', 0 < x.2)
    (hslots : ∃ free, FreeList.Chain 0 pool.next pool.freeList_ free ∧
      ((ofClass sizeClass (some index) held').map Prod.fst ++ free).Subperm pool.carved) :
    Sound (Function.update pools index pool) pool.next held' := by
  have hown : ∀ b ∈ pool.blocks, Own pools held index b := by
    intro b hb
    obtain hb | hb := hblocks b hb
    · refine ⟨fun j hj hne c hc ↦ h.apart index hindex j hj hne.symm b hb c hc, fun x hx ↦ ?_⟩
      exact (h.large x hx).2.2.2 index hindex b hb
    · exact hb
  refine ⟨fun i hi ↦ ?_, fun i hi ↦ ?_, fun i hi ↦ ?_, fun i hi j hj hij ↦ ?_, hsizes, ?_, ?_⟩
  · by_cases heq : i = index
    · subst heq
      rw [Function.update_self, hsize, h.size i hi]
    · rw [Function.update_of_ne heq, h.size i hi]
  · by_cases heq : i = index
    · rwa [heq, Function.update_self]
    · rw [Function.update_of_ne heq]
      exact h.layout i hi
  · by_cases heq : i = index
    · rwa [heq, Function.update_self]
    · obtain ⟨free, hchain, hsub⟩ := h.slots i hi
      rw [Function.update_of_ne heq, hother _ fun h ↦ heq (Option.some.inj h)]
      refine ⟨free, hchain.congr fun c hc ↦ hmemory i hi heq c ?_, hsub⟩
      exact hsub.subset (List.mem_append_right _ hc)
  · by_cases hi' : i = index
    · subst hi'
      rw [Function.update_self, Function.update_of_ne (Ne.symm hij)]
      exact fun b hb c hc ↦ (hown b hb).1 j hj (Ne.symm hij) c hc
    · rw [Function.update_of_ne hi']
      by_cases hj' : j = index
      · subst hj'
        rw [Function.update_self]
        exact fun b hb c hc ↦ ((hown c hc).1 i hi hi' b hb).symm
      · rw [Function.update_of_ne hj']
        exact h.apart i hi j hj hij
  · rw [hother none nofun]
    intro x hx
    obtain ⟨haligned, hpos, hbound, hblocks⟩ := h.large x hx
    refine ⟨haligned, hpos, hbound, fun i hi b hb ↦ ?_⟩
    by_cases heq : i = index
    · rw [heq, Function.update_self] at hb
      exact (hown b hb).2 x hx
    · rw [Function.update_of_ne heq] at hb
      exact hblocks i hi b hb
  · rw [hother none nofun]
    exact h.largeApart

/-- What is held can be let go of. -/
theorem Sound.drop {x : ℕ × ℕ} (h : Sound pools memory (x :: held)) : Sound pools memory held where
  size := h.size
  layout := h.layout
  slots i hi := by
    obtain ⟨free, hchain, hslots⟩ := h.slots i hi
    have hsub := (((List.sublist_cons_self x held).filter fun y ↦ sizeClass y = some i).map
      Prod.fst).append_right free
    exact ⟨free, hchain, hsub.subperm.trans hslots⟩
  apart := h.apart
  sizes y hy := h.sizes y (.tail _ hy)
  large y hy := h.large y (List.Sublist.subset ((List.sublist_cons_self x held).filter _) hy)
  largeApart := h.largeApart.sublist ((List.sublist_cons_self x held).filter _)

theorem Sound.addLarge (h : Sound pools memory held) {ptr size : ℕ} (hpos : 0 < size)
    (hlarge : poolIndex size = none) (haligned : 8 ∣ ptr) (hptr : 0 < ptr)
    (hbound : ptr + size < 2 ^ 64)
    (hblocks : ∀ i < MEMORY_POOL_NUM, ∀ b ∈ (pools i).blocks, b + BlockSize_ ≤ ptr ∨ ptr + size ≤ b)
    (hapart : ∀ x ∈ ofClass sizeClass none held, RangesApart (ptr, size) x) :
    Sound pools memory ((ptr, size) :: held) where
  size := h.size
  layout := h.layout
  slots i hi := by
    rw [ofClass_cons_of_ne (show sizeClass (ptr, size) ≠ some i by rw [sizeClass, hlarge]; nofun)]
    exact h.slots i hi
  apart := h.apart
  sizes := List.forall_mem_cons.2 ⟨hpos, h.sizes⟩
  large := by
    rw [ofClass_cons_of_eq (show sizeClass (ptr, size) = none from hlarge)]
    exact List.forall_mem_cons.2 ⟨⟨haligned, hptr, hbound, hblocks⟩, h.large⟩
  largeApart := by
    rw [ofClass_cons_of_eq (show sizeClass (ptr, size) = none from hlarge)]
    exact .cons hapart h.largeApart

def view (pools : ℕ → MemoryPool) (memory : ℕ → ℕ) (index : ℕ) : MemoryPool :=
  { pools index with next := memory }

theorem Sound.view_layout (h : Sound pools memory held) (hindex : index < MEMORY_POOL_NUM) :
    Layout (view pools memory index) := (h.layout index hindex).frame memory _ _

theorem Sound.take (h : Sound pools memory held) (hindex : index < MEMORY_POOL_NUM) {size : ℕ}
    (hpos : 0 < size) (hsize : poolIndex size = some index)
    {temp : ℕ} {pool : MemoryPool}
    (hpop : (view pools memory index).popFree = some (temp, pool)) :
    Sound (Function.update pools index pool) pool.next ((temp, size) :: held) ∧
      pool.next = memory := by
  rw [popFree] at hpop
  split_ifs at hpop with hfree
  obtain ⟨rfl, rfl⟩ := Prod.mk.inj (Option.some.inj hpop)
  refine ⟨?_, rfl⟩
  refine h.replace hindex ((h.layout index hindex).frame _ _ _) rfl (fun b hb ↦ .inl hb)
    (fun _ _ _ _ _ ↦ rfl) (fun k hk ↦ ofClass_cons_of_ne ?_ held)
    (List.forall_mem_cons.2 ⟨hpos, h.sizes⟩) ?_
  · exact fun h ↦ hk (h.symm.trans hsize)
  · obtain ⟨free, hchain, hslots⟩ := h.slots index hindex
    obtain ⟨rest, rfl, hrest⟩ := hchain.pop hfree
    refine ⟨rest, hrest, ?_⟩
    have hclass : sizeClass ((view pools memory index).freeList_, size) = some index := hsize
    rw [ofClass_cons_of_eq hclass, List.map_cons, List.cons_append]
    exact List.perm_middle.symm.subperm.trans hslots

/-- Where the section that cuts slots writes and what it takes, with a new block or without. -/
theorem carve_frame (pool : MemoryPool) (newBlock : ℕ) :
    (∀ b ∈ (pool.carve newBlock).2.blocks,
      b ∈ pool.blocks ∨ (b = newBlock ∧ pool.needsBlock = true)) ∧
    ∀ a, (pool.carve newBlock).2.next a = pool.next a ∨
      (a = newBlock ∧ pool.needsBlock = true) := by
  cases hneeds : pool.needsBlock with
  | false =>
    rw [carve, hneeds]
    exact ⟨fun b hb ↦ .inl hb, fun a ↦ .inl rfl⟩
  | true =>
    rw [carve, hneeds]
    refine ⟨fun b hb ↦ ?_, fun a ↦ ?_⟩
    · obtain rfl | hb := List.mem_cons.1 hb
      · exact .inr ⟨rfl, rfl⟩
      · exact .inl hb
    · by_cases ha : a = newBlock
      · exact .inr ⟨ha, rfl⟩
      · exact .inl (Function.update_of_ne ha _ _)

theorem Sound.cut (h : Sound pools memory held) (hindex : index < MEMORY_POOL_NUM) {size : ℕ}
    (hpos : 0 < size) (hsize : poolIndex size = some index) {newBlock : ℕ}
    (hfresh : (view pools memory index).needsBlock = true →
      (view pools memory index).Fresh newBlock ∧ Own pools held index newBlock) {temp : ℕ}
    {pool : MemoryPool} (hcarve : (view pools memory index).carve newBlock = (temp, pool)) :
    Sound (Function.update pools index pool) pool.next ((temp, size) :: held) := by
  obtain ⟨hlayout, hcarves⟩ := (h.view_layout hindex).carve fun hneeds ↦ (hfresh hneeds).1
  obtain ⟨hblocks, hnext⟩ := carve_frame (view pools memory index) newBlock
  rw [hcarve] at hlayout hcarves hblocks hnext
  have hclass : sizeClass (temp, size) = some index := hsize
  refine h.replace hindex hlayout hcarves.size (fun b hb ↦ ?_) (fun j hj hne c hc ↦ ?_)
    (fun k hk ↦ ofClass_cons_of_ne (fun h ↦ hk (h.symm.trans hclass)) held)
    (List.forall_mem_cons.2 ⟨hpos, h.sizes⟩) ?_
  · obtain hb | ⟨rfl, hneeds⟩ := hblocks b hb
    · exact .inl hb
    · exact .inr (hfresh hneeds).2
  · obtain hsame | ⟨rfl, hneeds⟩ := hnext c
    · exact hsame
    · obtain ⟨-, b, hb, hwithin⟩ := (h.layout j hj).inside c hc
      have hapart := (hfresh hneeds).2.1 j hj hne b hb
      rw [Within, h.size j hj] at hwithin
      rw [Apart, BlockSize_] at *
      omega
  · obtain ⟨free, hchain, hslots⟩ := h.slots index hindex
    rw [ofClass_cons_of_eq hclass, List.map_cons, hcarves.carved]
    by_cases hneeds : (view pools memory index).needsBlock = true
    · -- the slots of the free list are lost here
      refine ⟨[], by rw [hcarves.freeList, if_pos hneeds]; rfl, ?_⟩
      rw [List.append_nil]
      have hsub := (List.sublist_append_left _ free).subperm.trans hslots
      exact (List.perm_append_singleton _ _).symm.subperm.trans
        ((List.subperm_append_right _).2 hsub)
    · refine ⟨free, ?_, ?_⟩
      · rw [hcarves.freeList, if_neg hneeds]
        refine hchain.congr fun c hc ↦ ?_
        exact hcarves.next c (hslots.subset (List.mem_append_right _ hc))
      · exact (List.perm_append_singleton _ _).symm.subperm.trans
          ((List.subperm_append_right _).2 hslots)

theorem Sound.give {x : ℕ × ℕ} (h : Sound pools memory (x :: held))
    (hindex : index < MEMORY_POOL_NUM) (hsize : poolIndex x.2 = some index) :
    Sound (Function.update pools index ((view pools memory index).deallocate x.1))
      ((view pools memory index).deallocate x.1).next held := by
  obtain ⟨free, hchain, hslots⟩ := h.slots index hindex
  have hclass : sizeClass x = some index := hsize
  have hne : ∀ f ∈ free, x.1 ≠ f := fun f hf ↦ h.ne_free (.head _) hindex hslots hf hclass
  rw [ofClass_cons_of_eq hclass, List.map_cons, List.cons_append] at hslots
  have hcarved : x.1 ∈ (pools index).carved := hslots.subset (.head _)
  have hnonnull : x.1 ≠ 0 := by
    obtain ⟨-, b, -, hwithin⟩ := (h.layout index hindex).inside x.1 hcarved
    rw [Within] at hwithin
    omega
  rw [deallocate, if_pos hnonnull]
  refine h.drop.replace hindex ((h.layout index hindex).frame _ _ _) rfl (fun b hb ↦ .inl hb)
    (fun j hj hij c hc ↦ Function.update_of_ne ?_ _ _) (fun _ _ ↦ rfl) h.drop.sizes ?_
  · have hapart := h.apart_slot (.head _) hj hc fun hsome ↦
      absurd (Option.some.inj (hsome.symm.trans hclass)) hij
    have hpos := h.sizes x (.head _)
    rw [RangesApart] at hapart
    dsimp only at hapart
    omega
  · refine ⟨x.1 :: free, ?_, ?_⟩
    · exact hchain.push (fun hmem ↦ hne _ hmem rfl) hnonnull
    · exact List.perm_middle.subperm.trans hslots

theorem Sound.same (h : Sound pools memory held) (hindex : index < MEMORY_POOL_NUM) :
    Sound (Function.update pools index (view pools memory index)) memory held :=
  h.replace hindex (h.view_layout hindex) rfl (fun _ hb ↦ .inl hb) (fun _ _ _ _ _ ↦ rfl)
    (fun _ _ ↦ rfl) h.sizes (h.slots index hindex)

def taken : ℕ × AllocateAt → Option (ℕ × ℕ)
  | (size, .done temp) => some (temp, size)
  | _ => none

theorem Sound.advance (h : Sound pools memory held) (hindex : index < MEMORY_POOL_NUM) {size : ℕ}
    (hpos : 0 < size) (hsize : poolIndex size = some index) {newBlock : ℕ} {at_ : AllocateAt}
    (hidle : taken (size, at_) = none)
    (hfresh : at_ = .block → (view pools memory index).needsBlock = true →
      (view pools memory index).Fresh newBlock ∧ Own pools held index newBlock)
    {pool : MemoryPool} {next : AllocateAt}
    (hstep : PoolSharing.advance (view pools memory index) newBlock at_ = (pool, next)) :
    Sound (Function.update pools index pool) pool.next ((taken (size, next)).toList ++ held) ∧
      ∀ a, pool.next a = memory a ∨
        (a = newBlock ∧ at_ = .block ∧ (view pools memory index).needsBlock = true) := by
  cases at_ with
  | test =>
    rw [PoolSharing.advance, Prod.mk.injEq] at hstep
    obtain ⟨rfl, rfl⟩ := hstep
    refine ⟨?_, fun _ ↦ .inl rfl⟩
    split
    · exact h.same hindex
    · exact h.same hindex
  | freeList =>
    rw [PoolSharing.advance] at hstep
    cases hpop : (view pools memory index).popFree with
    | none =>
      rw [hpop, Prod.mk.injEq] at hstep
      obtain ⟨rfl, rfl⟩ := hstep
      exact ⟨h.same hindex, fun _ ↦ .inl rfl⟩
    | some popped =>
      obtain ⟨temp, popped⟩ := popped
      rw [hpop, Prod.mk.injEq] at hstep
      obtain ⟨rfl, rfl⟩ := hstep
      obtain ⟨hsound, hmemory⟩ := h.take hindex hpos hsize hpop
      exact ⟨hsound, fun _ ↦ .inl (congrFun hmemory _)⟩
  | block =>
    rw [PoolSharing.advance] at hstep
    cases hcarve : (view pools memory index).carve newBlock with | mk temp carved =>
    rw [hcarve, Prod.mk.injEq] at hstep
    obtain ⟨rfl, rfl⟩ := hstep
    refine ⟨h.cut hindex hpos hsize (hfresh rfl) hcarve, fun a ↦ ?_⟩
    obtain hsame | ⟨ha, hneeds⟩ := (carve_frame (view pools memory index) newBlock).2 a
    · rw [hcarve] at hsame
      exact .inl hsame
    · exact .inr ⟨ha, rfl, hneeds⟩
  | done temp => cases hidle

def allHeld (h : HashBucket) : List (ℕ × ℕ) := h.live ++ h.calls.filterMap taken

structure Kept (h : HashBucket) : Prop where
  sound : Sound h.memoryPool h.memory (allHeld h)
  calls : ∀ call ∈ h.calls, 0 < call.1 ∧ ∃ i < MEMORY_POOL_NUM, poolIndex call.1 = some i

variable {h : HashBucket} {size i newBlock : ℕ} {at_ : AllocateAt}

theorem Kept.large_live (hk : Kept h) {x : ℕ × ℕ}
    (hx : x ∈ ofClass sizeClass none (allHeld h)) : x ∈ h.live ∧ poolIndex x.2 = none := by
  obtain ⟨hmem, hlarge⟩ := mem_ofClass.1 hx
  obtain hlive | hhand := List.mem_append.1 hmem
  · exact ⟨hlive, hlarge⟩
  · obtain ⟨⟨size, at_⟩, hcall, htaken⟩ := List.mem_filterMap.1 hhand
    cases at_ with
    | done temp =>
      obtain rfl := Option.some.inj htaken
      obtain ⟨-, i, -, hindex⟩ := hk.calls _ hcall
      cases hindex.symm.trans hlarge
    | _ => cases htaken

theorem Kept.own (hk : Kept h) (hfresh : h.Fresh newBlock BlockSize_)
    (hindex : index < MEMORY_POOL_NUM) :
    (view h.memoryPool h.memory index).Fresh newBlock ∧
      Own h.memoryPool (allHeld h) index newBlock := by
  obtain ⟨haligned, hpos, hbound, hblocks, hlarge⟩ := hfresh
  refine ⟨⟨haligned, hpos, hbound, hblocks index hindex⟩, fun j hj _ c hc ↦ ?_, fun x hx ↦ ?_⟩
  · exact (hblocks j hj c hc).symm
  · obtain ⟨hlive, hnone⟩ := hk.large_live hx
    exact (hlarge x hlive hnone).symm

/-- A block that was just taken has no byte that is held. -/
theorem Kept.fresh_apart (hk : Kept h) (hfresh : h.Fresh newBlock BlockSize_) {x : ℕ × ℕ}
    (hx : x ∈ h.live) : RangesApart x (newBlock, BlockSize_) := by
  obtain ⟨-, -, -, hblocks, hlarge⟩ := hfresh
  obtain ⟨hnone, -⟩ | ⟨j, hj, -, hcarved, hle⟩ := hk.sound.place (List.mem_append_left _ hx)
  · exact hlarge x hx hnone
  · obtain ⟨-, b, hb, hwithin⟩ := (hk.sound.layout j hj).inside x.1 hcarved
    have hapart := hblocks j hj b hb
    rw [Within, hk.sound.size j hj] at hwithin
    rw [RangesApart]
    dsimp only
    omega

/-- What was held stays held with its words, in a step that frees and writes nothing. -/
def Leaves (h h' : HashBucket) : Prop :=
  (∀ x ∈ h.live, x ∈ h'.live) ∧
    ∀ x ∈ h.live, ∀ a, x.1 ≤ a → a < x.1 + x.2 → h'.memory a = h.memory a

theorem Kept.return (hk : Kept h) {temp : ℕ} (hi : h.calls[i]? = some (size, .done temp))
    (newBlock : ℕ) : ∃ h', h.advance i newBlock = some h' ∧ Kept h' ∧ Leaves h h' := by
  obtain ⟨before, after, hcalls, -, herase⟩ := Threads.pick hi
  refine ⟨{ h with calls := h.calls.eraseIdx i, live := h.live ++ [(temp, size)] }, ?_,
    ⟨hk.sound.perm ?_, fun call hcall ↦ ?_⟩, fun x hx ↦ List.mem_append_left _ hx,
    fun _ _ _ _ _ ↦ rfl⟩
  · rw [HashBucket.advance, hi]
  · rw [allHeld, allHeld]
    dsimp only
    rw [herase, hcalls, List.append_assoc]
    have hslot : taken (size, .done temp) = some (temp, size) := rfl
    exact (Threads.filterMap_busy hslot).append_left _
  · dsimp only at hcall
    rw [herase] at hcall
    exact hk.calls call (hcalls ▸ Threads.mem_middle.2 (.inr hcall))

theorem Kept.advance (hk : Kept h) (hi : h.calls[i]? = some (size, at_))
    (hfresh : h.opens i = true → h.Fresh newBlock BlockSize_) :
    ∃ h', h.advance i newBlock = some h' ∧ Kept h' ∧ Leaves h h' := by
  cases hidle : taken (size, at_) with
  | some slot =>
    cases at_ with
    | done temp => exact hk.return hi newBlock
    | _ => cases hidle
  | none =>
    obtain ⟨before, after, hcalls, hset, -⟩ := Threads.pick hi
    obtain ⟨hpos, index, hindex, hsize⟩ := hk.calls _ (List.mem_of_getElem? hi)
    have hopens : at_ = .block → (view h.memoryPool h.memory index).needsBlock = true →
        h.Fresh newBlock BlockSize_ := by
      rintro rfl hneeds
      refine hfresh ?_
      rw [HashBucket.opens, hi]
      dsimp only
      rw [show poolIndex size = some index from hsize]
      exact hneeds
    cases hstep : PoolSharing.advance (view h.memoryPool h.memory index) newBlock at_ with
    | mk pool next =>
    obtain ⟨hsound, hnext⟩ := hk.sound.advance hindex hpos hsize hidle
      (fun hblock hneeds ↦ hk.own (hopens hblock hneeds) hindex) hstep
    refine ⟨{ h.setMemoryPool index pool with calls := h.calls.set i (size, next) }, ?_,
      ⟨hsound.perm ?_, fun call hcall ↦ ?_⟩, fun x hx ↦ hx, fun x hx a hle hlt ↦ ?_⟩
    · cases at_ with
      | done temp => cases hidle
      | _ =>
        rw [HashBucket.advance, hi]
        dsimp only
        rw [show poolIndex size = some index from hsize]
        dsimp only
        rw [show PoolSharing.advance (h.getMemoryPool index) newBlock _ = _ from hstep]
    · rw [allHeld, allHeld]
      dsimp only
      rw [hset, hcalls, Threads.filterMap_idle hidle]
      cases htaken : taken (size, next) with
      | none =>
        rw [Threads.filterMap_idle htaken]
        exact .refl _
      | some slot =>
        have hmiddle : (slot :: (h.live ++ (before ++ after).filterMap taken)).Perm
            (h.live ++ slot :: (before ++ after).filterMap taken) := List.perm_middle.symm
        exact hmiddle.trans ((Threads.filterMap_busy htaken).symm.append_left _)
    · dsimp only at hcall
      rw [hset, Threads.mem_middle] at hcall
      obtain rfl | hcall := hcall
      · exact ⟨hpos, index, hindex, hsize⟩
      · exact hk.calls call (hcalls ▸ Threads.mem_middle.2 (.inr hcall))
    · obtain hsame | ⟨rfl, hblock, hneeds⟩ := hnext a
      · exact hsame
      · have hapart := hk.fresh_apart (hopens hblock hneeds) hx
        rw [RangesApart, BlockSize_] at hapart
        dsimp only at hapart
        omega

theorem Kept.use (hk : Kept h) {size newMemory : ℕ}
    (hfresh : poolIndex size = none → h.Fresh newMemory size) :
    Kept (h.useMemory size newMemory) ∧ Leaves h (h.useMemory size newMemory) := by
  rw [useMemory]
  split_ifs with hzero
  · exact ⟨hk, fun _ hx ↦ hx, fun _ _ _ _ _ ↦ rfl⟩
  have hpos := Nat.pos_of_ne_zero hzero
  obtain ⟨hlarge, -⟩ | ⟨index, hindex, hsize, -⟩ := poolIndex_spec hpos
  · obtain ⟨haligned, hptr, hbound, hblocks, hheld⟩ := hfresh hlarge
    rw [hlarge]
    refine ⟨⟨?_, hk.calls⟩, fun x hx ↦ List.mem_append_left _ hx, fun _ _ _ _ _ ↦ rfl⟩
    refine (hk.sound.addLarge hpos hlarge haligned hptr hbound hblocks fun x hx ↦ ?_).perm ?_
    · obtain ⟨hlive, hnone⟩ := hk.large_live hx
      exact (hheld x hlive hnone).symm
    · rw [allHeld, allHeld, List.append_assoc]
      exact List.perm_middle.symm
  · rw [hsize]
    refine ⟨⟨?_, List.forall_mem_cons.2 ⟨⟨hpos, index, hindex, hsize⟩, hk.calls⟩⟩,
      fun _ hx ↦ hx, fun _ _ _ _ _ ↦ rfl⟩
    exact hk.sound.perm (.refl _)

theorem Kept.apart (hk : Kept h) {x y : ℕ × ℕ} (hx : x ∈ h.live) (hy : y ∈ h.live) (hne : x ≠ y) :
    RangesApart x y :=
  (hk.sound.pairwise.sublist (List.sublist_append_left _ _)).forall hx hy hne

theorem Kept.free (hk : Kept h) {ptr size : ℕ} (hlive : (ptr, size) ∈ h.live) :
    ∃ h', h.freeMemory ptr size = some h' ∧ Kept h' ∧ ∀ x ∈ h.live, x ≠ (ptr, size) →
      x ∈ h'.live ∧ ∀ a, x.1 ≤ a → a < x.1 + x.2 → h'.memory a = h.memory a := by
  have hheld : (allHeld h).Perm
      ((ptr, size) :: (h.live.erase (ptr, size) ++ h.calls.filterMap taken)) :=
    (List.perm_cons_erase hlive).append_right _
  have hsound := hk.sound.perm hheld
  have hpos := hsound.sizes _ (.head _)
  have hnonnull : ptr ≠ 0 := by
    rintro rfl
    obtain ⟨-, hlarge⟩ | ⟨j, hj, -, hcarved, -⟩ := hsound.place (.head _)
    · exact absurd (hsound.large _ hlarge).2.1 (Nat.lt_irrefl 0)
    · obtain ⟨-, b, -, hwithin⟩ := (hsound.layout j hj).inside 0 hcarved
      rw [Within] at hwithin
      omega
  rw [freeMemory, if_neg hnonnull]
  obtain ⟨hlarge, -⟩ | ⟨index, hindex, hsize, -⟩ := poolIndex_spec hpos
  · rw [show poolIndex size = none from hlarge]
    exact ⟨_, rfl, ⟨hsound.drop, hk.calls⟩, fun x hx hne ↦
      ⟨(List.mem_erase_of_ne hne).2 hx, fun _ _ _ ↦ rfl⟩⟩
  · rw [show poolIndex size = some index from hsize]
    dsimp only
    rw [if_neg (Nat.not_le.2 hindex)]
    refine ⟨_, rfl, ⟨hsound.give hindex hsize, hk.calls⟩, fun x hx hne ↦
      ⟨(List.mem_erase_of_ne hne).2 hx, fun a hle hlt ↦ ?_⟩⟩
    have hapart := hk.apart hx hlive hne
    rw [RangesApart] at hapart
    dsimp only [setMemoryPool]
    rw [deallocate, if_pos hnonnull]
    exact Function.update_of_ne (by omega) _ _

/-- A step keeps what is held, but for what it frees, and all its words, but for one it writes. -/
theorem kept_step (h : HashBucket) (a : Action) (ha : h.Lawful a) (hk : Kept h) :
    ∃ h', h.step a = some h' ∧ Kept h' ∧ ∀ x ∈ h.live, a ≠ .freeMemory x.1 x.2 →
      x ∈ h'.live ∧ ∀ w, x.1 ≤ w → w < x.1 + x.2 → (∀ value, a ≠ .write w value) →
        h'.memory w = h.memory w := by
  cases a with
  | useMemory size newMemory =>
    obtain ⟨hkept, hlive, hmemory⟩ := hk.use ha
    exact ⟨_, rfl, hkept, fun x hx _ ↦ ⟨hlive x hx, fun w hle hlt _ ↦ hmemory x hx w hle hlt⟩⟩
  | advance i newBlock =>
    obtain ⟨h', hstep, hkept, hlive, hmemory⟩ := hk.advance (List.getElem?_eq_getElem ha.1) ha.2
    exact ⟨h', hstep, hkept, fun x hx _ ↦ ⟨hlive x hx, fun w hle hlt _ ↦ hmemory x hx w hle hlt⟩⟩
  | freeMemory ptr size =>
    obtain rfl | hheld := ha
    · exact ⟨h, by rw [step, freeMemory, if_pos rfl], hk, fun x hx _ ↦ ⟨hx, fun _ _ _ _ ↦ rfl⟩⟩
    · obtain ⟨h', hstep, hkept, hothers⟩ := hk.free hheld
      refine ⟨h', hstep, hkept, fun x hx hne ↦ ?_⟩
      obtain ⟨hlive, hmemory⟩ := hothers x hx fun heq ↦ hne (by rw [heq])
      exact ⟨hlive, fun w hle hlt _ ↦ hmemory w hle hlt⟩
  | write w value =>
    obtain ⟨-, x, hx, hle, hlt⟩ := ha
    refine ⟨_, rfl, ⟨hk.sound.write (List.mem_append_left _ hx) hle hlt value, hk.calls⟩,
      fun y hy _ ↦ ⟨hy, fun w' _ _ hne ↦ Function.update_of_ne ?_ _ _⟩⟩
    rintro rfl
    exact hne value rfl

/-- What no step of a run frees stays, and so does each word that none writes. -/
theorem Kept.run {actions : List Action} (hk : Kept h)
    (hlawful : Run.Along step Lawful h actions) :
    ∃ h', Run.run step h actions = some h' ∧ Kept h' ∧
      ∀ x ∈ h.live, .freeMemory x.1 x.2 ∉ actions → x ∈ h'.live ∧
        ∀ w, x.1 ≤ w → w < x.1 + x.2 → (∀ value, .write w value ∉ actions) →
          h'.memory w = h.memory w := by
  induction actions generalizing h with
  | nil => exact ⟨h, rfl, hk, fun x hx _ ↦ ⟨hx, fun _ _ _ _ ↦ rfl⟩⟩
  | cons a actions ih =>
    obtain ⟨t, hstep, ht, hframe⟩ := kept_step h a hlawful.1 hk
    obtain ⟨h', hrun, hk', hlater⟩ := ih ht (hlawful.2 t hstep)
    refine ⟨h', by rw [Run.run_cons, hstep, Option.bind_some, hrun], hk', fun x hx hfree ↦ ?_⟩
    rw [List.mem_cons, not_or] at hfree
    obtain ⟨hlive, hwords⟩ := hframe x hx (Ne.symm hfree.1)
    obtain ⟨hlive', hwords'⟩ := hlater x hlive hfree.2
    refine ⟨hlive', fun w hle hlt hwrite ↦ ?_⟩
    rw [hwords' w hle hlt fun value hmem ↦ hwrite value (.tail _ hmem)]
    exact hwords w hle hlt fun value heq ↦ hwrite value (heq ▸ .head _)

theorem kept_init (memory : ℕ → ℕ) : Kept (initMemoryPool memory) :=
  ⟨sound_init memory, fun _ hcall ↦ absurd hcall List.not_mem_nil⟩

/-- Any threads, any sizes: what callers hold is aligned and apart, and a word that a caller wrote
is there until it is written again or its memory is freed. -/
theorem live_memory_kept (memory : ℕ → ℕ) (actions : List Action)
    (hlawful : Run.Along step Lawful (initMemoryPool memory) actions) :
    ∃ h, Run.run step (initMemoryPool memory) actions = some h ∧
      h.live.Pairwise RangesApart ∧ (∀ x ∈ h.live, 8 ∣ x.1 ∧ 0 < x.1) ∧
      ∀ before a value after, actions = before ++ .write a value :: after →
        ∀ s, Run.run step (initMemoryPool memory) before = some s →
        ∀ x ∈ s.live, x.1 ≤ a → a < x.1 + x.2 → .freeMemory x.1 x.2 ∉ after →
        (∀ later, .write a later ∉ after) → x ∈ h.live ∧ h.memory a = value := by
  obtain ⟨h, hrun, hk, -⟩ := (kept_init memory).run hlawful
  refine ⟨h, hrun, hk.sound.pairwise.sublist (List.sublist_append_left _ _), fun x hx ↦ ?_, ?_⟩
  · obtain ⟨-, hlarge⟩ | ⟨i, hi, -, hcarved, -⟩ := hk.sound.place (List.mem_append_left _ hx)
    · obtain ⟨haligned, hpos, -⟩ := hk.sound.large x hlarge
      exact ⟨haligned, hpos⟩
    · obtain ⟨haligned, b, -, hwithin⟩ := (hk.sound.layout i hi).inside x.1 hcarved
      rw [Within] at hwithin
      exact ⟨haligned, by omega⟩
  · rintro before a value after rfl s hs x hx hle hlt hfree hwrite
    obtain ⟨s', hs', hks, -⟩ := (kept_init memory).run hlawful.of_append
    obtain rfl := Option.some.inj (hs.symm.trans hs')
    rw [Run.run_append, hs, Option.bind_some, Run.run_cons] at hrun
    have hwritten := hlawful.after hs
    obtain ⟨t, ht, hkt, hframe⟩ := kept_step s (.write a value) hwritten.1 hks
    obtain ⟨h', hrun', -, hlater⟩ := hkt.run (hwritten.2 t ht)
    rw [ht, Option.bind_some, hrun', Option.some.injEq] at hrun
    obtain rfl := hrun
    have hother : Action.write a value ≠ .freeMemory x.1 x.2 := by simp
    obtain ⟨hlive, hwords⟩ := hlater x (hframe x hx hother).1 hfree
    refine ⟨hlive, (hwords a hle hlt hwrite).trans ?_⟩
    obtain rfl := Option.some.inj ht
    exact Function.update_self ..

/-- Slots of 24 and 8 bytes and a buffer of 1000 bytes, which is freed. -/
theorem written_word_kept :
    let actions : List Action := [.useMemory 24 0, .advance 0 0, .advance 0 4096, .advance 0 0,
      .useMemory 1000 16384, .write 4120 7, .useMemory 8 0, .advance 0 0, .write 16392 9,
      .advance 0 32768, .advance 0 0, .freeMemory 16384 1000]
    ∃ h, Run.run step (initMemoryPool fun _ ↦ 0) actions = some h ∧
      h.live = [(4120, 24), (32776, 8)] ∧ h.live.Pairwise RangesApart ∧ h.memory 4120 = 7 := by
  intro actions
  obtain ⟨h, hrun, hapart, -, hkept⟩ :=
    live_memory_kept (fun _ ↦ 0) actions (by decide +kernel)
  refine ⟨h, hrun, ?_, hapart, ?_⟩
  · obtain rfl := Option.some.inj hrun
    decide +kernel
  · exact (hkept (actions.take 5) 4120 7 (actions.drop 6) rfl _ rfl (4120, 24) (by decide +kernel)
      (by decide) (by decide) (by decide +kernel) (by simp [actions])).2

end CppAiService.LiveMemory
