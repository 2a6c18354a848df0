import CppAiService.Foundation.Outputs
import CppAiService.PoolSharing
import Mathlib.Data.Nat.ModEq

namespace CppAiService.SlotAlignment

open Foundation MemoryPool PoolSharing

/-- The size divides what the subtraction wraps around at, or it does not wrap around. -/
def Aligns (p align : ℕ) : Prop := align ∣ 2 ^ 64 ∨ p ≤ align

instance (p align : ℕ) : Decidable (Aligns p align) := inferInstanceAs (Decidable (_ ∨ _))

/-- `operator new` returns a block of its own to the call that opens one. -/
def FreshBlocks (s : Shared) : Action → Prop
  | .advance i newBlock =>
    s.calls[i]? = some .block → s.pool.needsBlock = true → s.pool.Fresh newBlock
  | .call | .deallocate _ | .write .. => True

instance (s : Shared) (a : Action) : Decidable (FreshBlocks s a) :=
  match a with
  | .advance i newBlock => inferInstanceAs (Decidable
      (s.calls[i]? = some .block → s.pool.needsBlock = true → s.pool.Fresh newBlock))
  | .call | .deallocate _ | .write .. => inferInstanceAs (Decidable True)

def firstSlot (size block : ℕ) : ℕ := block + 8 + padPointer (block + 8) size

theorem padPointer_lt (p : ℕ) {align : ℕ} (h : 0 < align) : padPointer p align < align :=
  Nat.mod_lt _ h

theorem dvd_add_padPointer_iff {p align : ℕ} (hp : p < 2 ^ 64) (h : 0 < align)
    (h' : align < 2 ^ 64) : align ∣ p + padPointer p align ↔ Aligns p align := by
  have hsum : align ∣ p + padPointer p align ↔ align ∣ p + wrap64 (align + 2 ^ 64 - p) := by
    rw [Nat.dvd_iff_mod_eq_zero, padPointer, Nat.add_mod_mod, ← Nat.dvd_iff_mod_eq_zero]
  rw [hsum, wrap64]
  by_cases hle : p ≤ align
  · have hmultiple : align ∣ p + (align + 2 ^ 64 - p) % 2 ^ 64 := by
      rcases Nat.eq_zero_or_pos p with rfl | hpos
      · rw [Nat.sub_zero, Nat.add_mod_right, Nat.mod_eq_of_lt h', Nat.zero_add]
      · have hback : (align + 2 ^ 64 - p) % 2 ^ 64 = align - p := by omega
        rw [hback, Nat.add_sub_of_le hle]
    exact iff_of_true hmultiple (.inr hle)
  · have hwrapped : p + (align + 2 ^ 64 - p) % 2 ^ 64 = 2 ^ 64 + align := by omega
    rw [hwrapped, Nat.dvd_add_left (Nat.dvd_refl align), Aligns]
    exact ⟨.inl, fun haligns ↦ haligns.resolve_right hle⟩

structure Spaced (size : ℕ) (pool : MemoryPool) : Prop where
  layout : Layout pool
  size : pool.SlotSize_ = size
  current : ∀ b rest, pool.blocks = b :: rest →
    pool.curSlot_ ≡ firstSlot pool.SlotSize_ b [MOD pool.SlotSize_]
  carved : ∀ c ∈ pool.carved, ∃ b ∈ pool.blocks,
    c ≡ firstSlot pool.SlotSize_ b [MOD pool.SlotSize_]
  first : ∀ b ∈ pool.blocks, firstSlot pool.SlotSize_ b ∈ pool.carved

variable {pool : MemoryPool} {size newBlock : ℕ} {s t : Shared}

theorem spaced_init {m : ℕ} (hm : 0 < m) (hm' : m ≤ 64) (next : ℕ → ℕ) :
    Spaced (8 * m) (init (8 * m) next) where
  layout := layout_init hm hm' next
  size := rfl
  current b rest hblocks := by cases hblocks
  carved c hc := by cases hc
  first b hb := by cases hb

theorem Spaced.frame (h : Spaced size pool) (next : ℕ → ℕ) (freeList : ℕ) (owned : List ℕ) :
    Spaced size { pool with next := next, freeList_ := freeList, owned := owned } :=
  ⟨h.layout.frame next freeList owned, h.size, h.current, h.carved, h.first⟩

/-- The slot that is cut off is the first of its block, or follows another one. -/
theorem spaced_cut (hlayout : Layout pool) (hroom : pool.needsBlock = false)
    (hcurrent : ∀ b rest, pool.blocks = b :: rest →
      pool.curSlot_ ≡ firstSlot pool.SlotSize_ b [MOD pool.SlotSize_])
    (hcarved : ∀ c ∈ pool.carved, ∃ b ∈ pool.blocks,
      c ≡ firstSlot pool.SlotSize_ b [MOD pool.SlotSize_])
    (hfirst : ∀ b ∈ pool.blocks, firstSlot pool.SlotSize_ b ∈ pool.carved ++ [pool.curSlot_]) :
    Spaced pool.SlotSize_
      { pool with
        curSlot_ := wrap64 (pool.curSlot_ + pool.SlotSize_ / 8 * 8)
        carved := pool.carved ++ [pool.curSlot_] } := by
  obtain ⟨b, rest, hblocks, -⟩ := hlayout.room hroom
  have hcur := hcurrent b rest hblocks
  refine ⟨(hlayout.cut hroom).1, rfl, ?_, ?_, hfirst⟩
  · intro b' rest' hblocks'
    dsimp only
    rw [hlayout.next_slot hroom]
    exact (Nat.add_mod_right ..).trans (hcurrent b' rest' hblocks')
  · intro c hc
    rcases List.mem_append.1 hc with hc | hc
    · exact hcarved c hc
    · obtain rfl := List.mem_singleton.1 hc
      exact ⟨b, hblocks ▸ List.mem_cons_self, hcur⟩

theorem Spaced.carve (h : Spaced size pool)
    (hfresh : pool.needsBlock = true → pool.Fresh newBlock) :
    Spaced size (pool.carve newBlock).2 := by
  obtain rfl := h.size
  cases hneeds : pool.needsBlock with
  | false =>
    rw [MemoryPool.carve, hneeds]
    exact spaced_cut h.layout hneeds h.current h.carved fun b hb ↦
      List.mem_append_left _ (h.first b hb)
  | true =>
    have hfresh := hfresh hneeds
    obtain ⟨hopen, hroom⟩ := h.layout.openBlock hfresh
    have hcur := h.layout.curSlot_allocateNewBlock hfresh
    rw [MemoryPool.carve, hneeds]
    refine spaced_cut hopen hroom ?_ ?_ ?_
    · intro b rest hblocks
      obtain ⟨rfl, -⟩ := List.cons.inj hblocks
      exact congrArg (· % pool.SlotSize_) hcur
    · intro c hc
      obtain ⟨b, hb, hmod⟩ := h.carved c hc
      exact ⟨b, List.mem_cons_of_mem _ hb, hmod⟩
    · intro b hb
      rcases List.mem_cons.1 hb with rfl | hb
      · exact List.mem_append_right _ (List.mem_singleton.2 hcur.symm)
      · exact List.mem_append_left _ (h.first b hb)

theorem Spaced.free (h : Spaced size pool) (ptr : ℕ) : Spaced size (pool.free ptr) := by
  rw [MemoryPool.free, deallocate]
  split
  · exact h.frame ..
  · exact h.frame ..

theorem Spaced.advance (h : Spaced size pool) {at_ : AllocateAt}
    (hfresh : at_ = .block → pool.needsBlock = true → pool.Fresh newBlock) :
    Spaced size (advance pool newBlock at_).1 := by
  cases at_ with
  | test => exact h
  | freeList =>
    rw [PoolSharing.advance, popFree]
    split_ifs
    · exact h.frame ..
    · exact h
  | block => exact h.carve (hfresh rfl)
  | done temp => exact h

theorem Spaced.step {a : Action} (h : Spaced size s.pool) (ha : FreshBlocks s a)
    (hstep : step s a = some t) : Spaced size t.pool := by
  cases a with
  | call => exact Option.some.inj hstep ▸ h
  | advance i newBlock =>
    rw [PoolSharing.step] at hstep
    split at hstep
    · exact Option.some.inj hstep ▸ h.frame ..
    · next at_ hne hi =>
      obtain rfl := Option.some.inj hstep
      exact h.advance fun hblock ↦ ha (hblock ▸ hi)
    · cases hstep
  | deallocate ptr => exact Option.some.inj hstep ▸ h.free ptr
  | write a value => exact Option.some.inj hstep ▸ h.frame ..

/-- All slots are aligned exactly if the padding of each block is. -/
theorem Spaced.aligned_iff (h : Spaced size pool) :
    (∀ c ∈ pool.carved, size ∣ c) ↔ ∀ b ∈ pool.blocks, Aligns (b + 8) size := by
  obtain rfl := h.size
  have hblock : ∀ b ∈ pool.blocks,
      (pool.SlotSize_ ∣ firstSlot pool.SlotSize_ b ↔ Aligns (b + 8) pool.SlotSize_) := by
    intro b hb
    obtain ⟨-, -, hbound⟩ := h.layout.blocks b hb
    obtain ⟨m, hsize, hm, hm'⟩ := h.layout.size
    rw [BlockSize_] at hbound
    exact dvd_add_padPointer_iff (by omega) (by omega) (by omega)
  constructor
  · intro hall b hb
    exact (hblock b hb).1 (hall _ (h.first b hb))
  · intro haligns c hc
    obtain ⟨b, hb, hmod⟩ := h.carved c hc
    exact (hmod.dvd_iff (Nat.dvd_refl _)).2 ((hblock b hb).2 (haligns b hb))

/-- The padding reaches a multiple of the slot size exactly where the subtraction stays in range or
the size divides `2 ^ 64`; so do the slots of every block, with any threads at the pool and
whatever they write and give back. -/
theorem padPointer_aligns_iff {m : ℕ} (hm : 0 < m) (hm' : m ≤ 64) :
    (∀ p < 2 ^ 64, padPointer p (8 * m) < 8 * m ∧
      (8 * m ∣ p + padPointer p (8 * m) ↔ Aligns p (8 * m))) ∧
    ∀ (next : ℕ → ℕ) (actions : List Action) (s : Shared),
      Run.Along step FreshBlocks ⟨init (8 * m) next, []⟩ actions →
      Run.run step ⟨init (8 * m) next, []⟩ actions = some s →
      ((∀ c ∈ s.pool.carved, 8 * m ∣ c) ↔ ∀ b ∈ s.pool.blocks, Aligns (b + 8) (8 * m)) := by
  constructor
  · intro p hp
    exact ⟨padPointer_lt p (by omega), dvd_add_padPointer_iff hp (by omega) (by omega)⟩
  · intro next actions s hfresh hrun
    have hkept : ∀ s a t, FreshBlocks s a → Spaced (8 * m) s.pool → step s a = some t →
        Spaced (8 * m) t.pool := fun s a t ha h hstep ↦ h.step ha hstep
    have hreaches : Run.Reaches step FreshBlocks ⟨init (8 * m) next, []⟩ actions s :=
      ⟨hfresh, hrun⟩
    exact (hreaches.keeps hkept (spaced_init hm hm' next)).aligned_iff

/-- Slots of sixteen bytes. -/
theorem sixteen_bytes_aligned :
    16 ∣ 4104 + padPointer 4104 16 ∧
    ∃ s, Run.run step ⟨init 16 fun _ ↦ 0, []⟩ [.call, .advance 0 0, .advance 0 4096,
      .advance 0 0, .call, .advance 0 0, .advance 0 0] = some s ∧
      s.pool.carved = [4112, 4128] ∧ ∀ c ∈ s.pool.carved, 16 ∣ c := by
  obtain ⟨hpad, hslots⟩ := padPointer_aligns_iff (m := 2) (by decide) (by decide)
  refine ⟨(hpad 4104 (by decide)).2.2 (by decide), _, rfl, rfl, ?_⟩
  exact (hslots (fun _ ↦ 0) [.call, .advance 0 0, .advance 0 4096, .advance 0 0, .call,
    .advance 0 0, .advance 0 0] _ (by decide) rfl).2 (by decide)

/-- Slots of 24 bytes: the body of the block at 4096 is a multiple of the size, and its padding
leads away from one. -/
theorem body_padded_away :
    24 ∣ 4104 ∧ padPointer 4104 24 = 16 ∧ ¬ 24 ∣ 4104 + padPointer 4104 24 ∧
    ∃ s, Run.run step ⟨init 24 fun _ ↦ 0, []⟩ [.call, .advance 0 0, .advance 0 4096] = some s ∧
      s.pool.carved = [4120] ∧ ¬ 24 ∣ 4120 :=
  ⟨by decide, rfl, by decide, _, rfl, rfl, by decide⟩

end CppAiService.SlotAlignment
