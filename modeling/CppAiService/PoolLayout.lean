import CppAiService.MemoryPool
import Mathlib.Data.List.Nodup
import Mathlib.Data.List.Pairwise

namespace CppAiService.MemoryPool

open Foundation

variable {pool : MemoryPool} {newBlock : ℕ}

def Apart (size a b : ℕ) : Prop := a + size ≤ b ∨ b + size ≤ a

instance (size : ℕ) : Std.Symm (Apart size) := ⟨fun _ _ h ↦ h.symm⟩

def Within (size block slot : ℕ) : Prop := block + 8 ≤ slot ∧ slot + size ≤ block + BlockSize_

structure Layout (pool : MemoryPool) : Prop where
  size : ∃ m, pool.SlotSize_ = 8 * m ∧ 0 < m ∧ m ≤ 64
  blocks : ∀ b ∈ pool.blocks, 8 ∣ b ∧ 0 < b ∧ b + BlockSize_ < 2 ^ 64
  blocksApart : pool.blocks.Pairwise (Apart BlockSize_)
  inside : ∀ c ∈ pool.carved, 8 ∣ c ∧ ∃ b ∈ pool.blocks, Within pool.SlotSize_ b c
  apart : pool.carved.Pairwise (Apart pool.SlotSize_)
  start : pool.blocks = [] → pool.curSlot_ = 0 ∧ pool.lastSlot_ = 0
  current : ∀ b rest, pool.blocks = b :: rest → 8 ∣ pool.curSlot_ ∧ b + 8 ≤ pool.curSlot_ ∧
    pool.curSlot_ ≤ b + BlockSize_ ∧ pool.lastSlot_ = b + BlockSize_ - pool.SlotSize_ + 1
  behind : ∀ b rest, pool.blocks = b :: rest → ∀ c ∈ pool.carved, b ≤ c → c < b + BlockSize_ →
    c + pool.SlotSize_ ≤ pool.curSlot_

theorem layout_init {m : ℕ} (hm : 0 < m) (hm' : m ≤ 64) (next : ℕ → ℕ) :
    Layout (init (8 * m) next) where
  size := ⟨m, rfl, hm, hm'⟩
  blocks := nofun
  blocksApart := List.Pairwise.nil
  inside := nofun
  apart := List.Pairwise.nil
  start := fun _ ↦ ⟨rfl, rfl⟩
  current := nofun
  behind := nofun

/-- The subtraction wraps around, and still the padding is some words, fewer than a slot's. -/
theorem padPointer_spec {p m : ℕ} (hp : 8 ∣ p) (hm : 0 < m) :
    8 ∣ padPointer p (8 * m) ∧ padPointer p (8 * m) + 8 ≤ 8 * m := by
  have hdvd : 8 ∣ padPointer p (8 * m) := by
    rw [padPointer, Nat.dvd_mod_iff (Nat.dvd_mul_right 8 m), wrap64]
    omega
  have hpad : padPointer p (8 * m) < 8 * m := Nat.mod_lt _ (by omega)
  omega

/-- The sum that makes `curSlot_` does not leave 64 bits. -/
theorem Layout.curSlot_allocateNewBlock (h : Layout pool) (hfresh : pool.Fresh newBlock) :
    (pool.allocateNewBlock newBlock).curSlot_ =
      newBlock + 8 + padPointer (newBlock + 8) pool.SlotSize_ := by
  obtain ⟨m, hsize, hm, hm'⟩ := h.size
  have hbound := hfresh.2.2.1
  rw [BlockSize_] at hbound
  have hbody : wrap64 (newBlock + 8) = newBlock + 8 := Nat.mod_eq_of_lt (by omega)
  have hpad : padPointer (newBlock + 8) pool.SlotSize_ < pool.SlotSize_ := Nat.mod_lt _ (by omega)
  rw [allocateNewBlock, hbody]
  exact Nat.mod_eq_of_lt (by omega)

theorem Layout.openBlock (h : Layout pool) (hfresh : pool.Fresh newBlock) :
    Layout (pool.allocateNewBlock newBlock) ∧
      (pool.allocateNewBlock newBlock).needsBlock = false := by
  obtain ⟨m, hsize, hm, hm'⟩ := h.size
  obtain ⟨haligned, hpos, hbound, hapart⟩ := hfresh
  rw [BlockSize_] at hbound hapart
  obtain ⟨hpad, hpad'⟩ := padPointer_spec (p := newBlock + 8) (m := m) (by omega) hm
  have hcur := h.curSlot_allocateNewBlock ⟨haligned, hpos, hbound, hapart⟩
  rw [hsize] at hcur
  have hlast : (pool.allocateNewBlock newBlock).lastSlot_ = newBlock + 4096 - 8 * m + 1 := by
    rw [allocateNewBlock, hsize]
    change (newBlock + 4096 + 2 ^ 64 - 8 * m + 1) % 2 ^ 64 = _
    omega
  refine ⟨⟨h.size, ?_, ?_, ?_, h.apart, nofun, ?_, ?_⟩, ?_⟩
  · exact List.forall_mem_cons.2 ⟨⟨haligned, hpos, hbound⟩, h.blocks⟩
  · exact List.pairwise_cons.2 ⟨fun b hb ↦ (hapart b hb).symm, h.blocksApart⟩
  · intro c hc
    obtain ⟨hc, b, hb, hwithin⟩ := h.inside c hc
    exact ⟨hc, b, List.mem_cons_of_mem _ hb, hwithin⟩
  · intro b rest hblocks
    obtain ⟨rfl, -⟩ := List.cons.inj hblocks
    rw [hcur, hlast, BlockSize_]
    exact ⟨by omega, by omega, by omega, by rw [← hsize]; rfl⟩
  · intro b rest hblocks c hc hle hlt
    obtain ⟨rfl, -⟩ := List.cons.inj hblocks
    obtain ⟨-, b, hb, hwithin⟩ := h.inside c hc
    rw [Within, BlockSize_] at hwithin
    rw [BlockSize_] at hlt
    rcases hapart b hb with hb | hb <;> omega
  · rw [needsBlock, decide_eq_false_iff_not, hcur, hlast]
    omega

/-- While no block is needed, the next slot lies in the newest one. -/
theorem Layout.room (h : Layout pool) (hroom : pool.needsBlock = false) :
    ∃ b rest, pool.blocks = b :: rest ∧ Within pool.SlotSize_ b pool.curSlot_ := by
  rw [needsBlock, decide_eq_false_iff_not] at hroom
  have hne : pool.blocks ≠ [] := by
    intro hnil
    obtain ⟨hcur, hlast⟩ := h.start hnil
    omega
  obtain ⟨b, rest, hblocks⟩ := List.exists_cons_of_ne_nil hne
  obtain ⟨-, hlow, hhigh, hlast⟩ := h.current b rest hblocks
  have hbound := (h.blocks b (hblocks ▸ List.mem_cons_self)).2.2
  obtain ⟨m, hsize, -, hm⟩ := h.size
  refine ⟨b, rest, hblocks, hlow, ?_⟩
  rw [BlockSize_] at *
  omega

theorem Layout.apart_current (h : Layout pool) {b : ℕ} {rest : List ℕ}
    (hblocks : pool.blocks = b :: rest) (hwithin : Within pool.SlotSize_ b pool.curSlot_) :
    ∀ c ∈ pool.carved, Apart pool.SlotSize_ c pool.curSlot_ := by
  intro c hc
  obtain ⟨-, b', hb', hc'⟩ := h.inside c hc
  rw [hblocks] at hb'
  rcases List.mem_cons.1 hb' with rfl | hb'
  · left
    obtain ⟨m, hsize, hm, -⟩ := h.size
    rw [Within] at hc'
    exact h.behind b' rest hblocks c hc (by omega) (by omega)
  · have hblocksApart := h.blocksApart
    rw [hblocks] at hblocksApart
    have hbb' := List.rel_of_pairwise_cons hblocksApart hb'
    rw [Apart, Within] at *
    omega

/-- The number of words in a slot is not rounded, and the sum does not leave 64 bits. -/
theorem Layout.next_slot (h : Layout pool) (hroom : pool.needsBlock = false) :
    wrap64 (pool.curSlot_ + pool.SlotSize_ / 8 * 8) = pool.curSlot_ + pool.SlotSize_ := by
  obtain ⟨b, rest, hblocks, hwithin⟩ := h.room hroom
  obtain ⟨-, -, hbound⟩ := h.blocks b (hblocks ▸ List.mem_cons_self)
  obtain ⟨m, hsize, -, -⟩ := h.size
  rw [hsize, Nat.mul_div_cancel_left m (by omega), Nat.mul_comm m 8, ← hsize]
  rw [Within] at hwithin
  exact Nat.mod_eq_of_lt (by omega)

theorem Layout.cut (h : Layout pool) (hroom : pool.needsBlock = false) :
    Layout
      { pool with
        curSlot_ := wrap64 (pool.curSlot_ + pool.SlotSize_ / 8 * 8)
        carved := pool.carved ++ [pool.curSlot_] } ∧
    8 ∣ pool.curSlot_ ∧ pool.curSlot_ ≠ 0 ∧
    ∀ c ∈ pool.carved, Apart pool.SlotSize_ c pool.curSlot_ := by
  obtain ⟨b, rest, hblocks, hwithin⟩ := h.room hroom
  obtain ⟨haligned, hlow, -, hlast⟩ := h.current b rest hblocks
  have hmem : b ∈ pool.blocks := hblocks ▸ List.mem_cons_self
  obtain ⟨-, hpos, hbound⟩ := h.blocks b hmem
  have hapart := h.apart_current hblocks hwithin
  obtain ⟨m, hsize, hm, hm'⟩ := h.size
  have hnext := h.next_slot hroom
  refine ⟨⟨⟨m, hsize, hm, hm'⟩, h.blocks, h.blocksApart, ?_, ?_, ?_, ?_, ?_⟩, haligned,
    by omega, hapart⟩
  · intro c hc
    rcases List.mem_append.1 hc with hc | hc
    · exact h.inside c hc
    · obtain rfl := List.mem_singleton.1 hc
      exact ⟨haligned, b, hmem, hwithin⟩
  · refine List.pairwise_append.2 ⟨h.apart, List.pairwise_singleton _ _, fun c hc d hd ↦ ?_⟩
    rw [List.mem_singleton.1 hd]
    exact hapart c hc
  · intro hnil
    cases hblocks.symm.trans hnil
  · intro b' rest' hblocks'
    obtain ⟨rfl, -⟩ := List.cons.inj (hblocks.symm.trans hblocks')
    dsimp only
    rw [hnext]
    rw [Within] at hwithin
    exact ⟨by omega, by omega, hwithin.2, hlast⟩
  · intro b' rest' hblocks' c hc hle hlt
    obtain ⟨rfl, -⟩ := List.cons.inj (hblocks.symm.trans hblocks')
    dsimp only
    rw [hnext]
    rcases List.mem_append.1 hc with hc | hc
    · exact (h.behind b rest hblocks c hc hle hlt).trans (Nat.le_add_right _ _)
    · rw [List.mem_singleton.1 hc]

/-- What the section that cuts slots does, with a new block or without. -/
structure Carves (temp : ℕ) (pool pool' : MemoryPool) : Prop where
  size : pool'.SlotSize_ = pool.SlotSize_
  carved : pool'.carved = pool.carved ++ [temp]
  owned : pool'.owned = pool.owned
  aligned : 8 ∣ temp
  nonnull : temp ≠ 0
  apart : ∀ c ∈ pool.carved, Apart pool.SlotSize_ c temp
  freeList : pool'.freeList_ = if pool.needsBlock then 0 else pool.freeList_
  next : ∀ c ∈ pool.carved, pool'.next c = pool.next c

theorem Layout.carve (h : Layout pool) (hfresh : pool.needsBlock = true → pool.Fresh newBlock) :
    Layout (pool.carve newBlock).2 ∧
      Carves (pool.carve newBlock).1 pool (pool.carve newBlock).2 := by
  cases hneeds : pool.needsBlock with
  | false =>
    obtain ⟨hlayout, haligned, hnonnull, hapart⟩ := h.cut hneeds
    rw [MemoryPool.carve, hneeds]
    exact ⟨hlayout, rfl, rfl, rfl, haligned, hnonnull, hapart, by rw [hneeds]; rfl,
      fun _ _ ↦ rfl⟩
  | true =>
    have hfresh := hfresh hneeds
    obtain ⟨hopen, hroom⟩ := h.openBlock hfresh
    obtain ⟨hlayout, haligned, hnonnull, hapart⟩ := hopen.cut hroom
    rw [MemoryPool.carve, hneeds]
    refine ⟨hlayout, rfl, rfl, rfl, haligned, hnonnull, hapart, by rw [hneeds]; rfl,
      fun c hc ↦ Function.update_of_ne ?_ _ _⟩
    obtain ⟨-, b, hb, hwithin⟩ := h.inside c hc
    have hbn := hfresh.2.2.2 b hb
    obtain ⟨m, hsize, hm, -⟩ := h.size
    rw [Within] at hwithin
    rw [BlockSize_] at *
    omega

theorem Layout.frame (h : Layout pool) (next : ℕ → ℕ) (freeList : ℕ) (owned : List ℕ) :
    Layout { pool with next := next, freeList_ := freeList, owned := owned } :=
  ⟨h.size, h.blocks, h.blocksApart, h.inside, h.apart, h.start, h.current, h.behind⟩

theorem Layout.carved_nodup (h : Layout pool) : pool.carved.Nodup := by
  obtain ⟨m, hsize, hm, -⟩ := h.size
  refine h.apart.imp fun {a b} hab heq ↦ ?_
  rw [Apart] at hab
  omega

/-- Every slot that was cut is a caller's, in the hands of a running `allocate`, or on the free
list, and at one of these places only. -/
structure Accounted (hands : List ℕ) (pool : MemoryPool) : Prop where
  layout : Layout pool
  places : ∃ free, FreeList.Chain 0 pool.next pool.freeList_ free ∧
    (pool.owned ++ hands ++ free).Perm pool.carved

variable {hands : List ℕ} {ptr a : ℕ}

theorem accounted_init {m : ℕ} (hm : 0 < m) (hm' : m ≤ 64) (next : ℕ → ℕ) :
    Accounted [] (init (8 * m) next) :=
  ⟨layout_init hm hm' next, [], rfl, List.Perm.refl _⟩

theorem Accounted.pop (h : Accounted hands pool) (hfree : pool.freeList_ ≠ 0) :
    ∃ pool', pool.popFree = some (pool.freeList_, pool') ∧
      Accounted (hands ++ [pool.freeList_]) pool' ∧
      pool'.owned = pool.owned ∧ pool'.carved = pool.carved := by
  obtain ⟨free, hchain, hplaces⟩ := h.places
  obtain ⟨rest, rfl, hrest⟩ := hchain.pop hfree
  refine ⟨_, if_pos hfree, ⟨h.layout.frame _ _ _, rest, hrest, ?_⟩, rfl, rfl⟩
  rwa [← List.append_assoc, List.append_assoc (pool.owned ++ hands)]

theorem Accounted.carve (h : Accounted hands pool)
    (hfresh : pool.needsBlock = true → pool.Fresh newBlock)
    (hempty : pool.needsBlock = true → pool.freeList_ = 0) :
    Accounted (hands ++ [(pool.carve newBlock).1]) (pool.carve newBlock).2 := by
  obtain ⟨hlayout, hcarves⟩ := h.layout.carve hfresh
  obtain ⟨free, hchain, hplaces⟩ := h.places
  refine ⟨hlayout, free, ?_, ?_⟩
  · have hfreeList : (pool.carve newBlock).2.freeList_ = pool.freeList_ := by
      rw [hcarves.freeList]
      split_ifs with hneeds
      · exact (hempty hneeds).symm
      · rfl
    rw [hfreeList]
    refine hchain.congr fun q hq ↦ hcarves.next q ?_
    exact hplaces.mem_iff.1 (List.mem_append_right _ hq)
  · rw [hcarves.owned, hcarves.carved, ← List.append_assoc, List.append_assoc]
    refine (List.perm_append_comm.append_left (pool.owned ++ hands)).trans ?_
    rw [← List.append_assoc]
    exact hplaces.append_right _

theorem Accounted.perm {hands' : List ℕ} (h : Accounted hands pool) (hperm : hands.Perm hands') :
    Accounted hands' pool := by
  obtain ⟨free, hchain, hplaces⟩ := h.places
  exact ⟨h.layout, free, hchain,
    (((hperm.append_left pool.owned).append_right free).symm).trans hplaces⟩

theorem Accounted.handOut (h : Accounted (ptr :: hands) pool) :
    Accounted hands (pool.handOut ptr) := by
  obtain ⟨free, hchain, hplaces⟩ := h.places
  refine ⟨h.layout.frame _ _ _, free, hchain, ?_⟩
  rwa [MemoryPool.handOut, List.append_assoc pool.owned [ptr]]

theorem Accounted.nodup {free : List ℕ} (h : Accounted hands pool)
    (hplaces : (pool.owned ++ hands ++ free).Perm pool.carved) :
    (pool.owned ++ hands ++ free).Nodup := hplaces.nodup_iff.2 h.layout.carved_nodup

theorem Accounted.free (h : Accounted hands pool) (hptr : ptr ∈ pool.owned) :
    Accounted hands (pool.free ptr) := by
  obtain ⟨free, hchain, hplaces⟩ := h.places
  have hnodup := h.nodup hplaces
  have hnonnull : ptr ≠ 0 := by
    have hcarved := hplaces.mem_iff.1 (List.mem_append_left _ (List.mem_append_left _ hptr))
    obtain ⟨-, b, -, hwithin⟩ := h.layout.inside ptr hcarved
    rw [Within] at hwithin
    omega
  have hfree : ptr ∉ free := fun hmem ↦
    List.disjoint_of_nodup_append hnodup (List.mem_append_left _ hptr) hmem
  rw [MemoryPool.free, deallocate, if_pos hnonnull]
  refine ⟨h.layout.frame _ _ _, ptr :: free, hchain.push hfree hnonnull, ?_⟩
  refine List.perm_middle.trans (List.Perm.trans ?_ hplaces)
  rw [← List.cons_append, ← List.cons_append]
  exact ((List.perm_cons_erase hptr).symm.append_right hands).append_right free

theorem Accounted.write (h : Accounted hands pool) (ha : pool.Writable a) (value : ℕ) :
    Accounted hands (pool.write a value) := by
  obtain ⟨free, hchain, hplaces⟩ := h.places
  obtain ⟨-, p, hp, hle, hlt⟩ := ha
  refine ⟨h.layout.frame _ _ _, free, hchain.update (fun hfree ↦ ?_) value, hplaces⟩
  -- a word of one slot is not the link of another
  have hne : p ≠ a := by
    rintro rfl
    exact List.disjoint_of_nodup_append (h.nodup hplaces) (List.mem_append_left _ hp) hfree
  have hpc := hplaces.mem_iff.1 (List.mem_append_left _ (List.mem_append_left _ hp))
  have hac := hplaces.mem_iff.1 (List.mem_append_right _ hfree)
  have hapart := h.layout.apart.forall hpc hac hne
  rw [Apart] at hapart
  obtain ⟨m, hsize, hm, -⟩ := h.layout.size
  omega

end CppAiService.MemoryPool
