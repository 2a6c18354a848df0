import CppAiService.Foundation.FreeList
import Mathlib.Algebra.Order.Ring.Int

namespace CppAiService

def BlockSize_ : ℕ := 4096

/-- Addresses are the numbers below `2 ^ 64`, and `0` is `nullptr`. `next` is the word at an
address, which `Slot` reads as a link. `blocks` and `carved` record what `operator new` returned,
the last block first, and the slots cut out of the blocks; `owned` is what callers hold. -/
structure MemoryPool where
  SlotSize_ : ℕ
  firstBlock_ : ℕ
  curSlot_ : ℕ
  freeList_ : ℕ
  lastSlot_ : ℕ
  next : ℕ → ℕ
  blocks : List ℕ
  carved : List ℕ
  owned : List ℕ

def wrap64 (n : ℕ) : ℕ := n % 2 ^ 64

namespace MemoryPool

def init (size : ℕ) (next : ℕ → ℕ) : MemoryPool where
  SlotSize_ := size
  firstBlock_ := 0
  curSlot_ := 0
  freeList_ := 0
  lastSlot_ := 0
  next := next
  blocks := []
  carved := []
  owned := []

def padPointer (p align : ℕ) : ℕ := wrap64 (align + 2 ^ 64 - p) % align

variable (pool : MemoryPool)

def allocateNewBlock (newBlock : ℕ) : MemoryPool :=
  let body := wrap64 (newBlock + 8)
  { pool with
    next := Function.update pool.next newBlock pool.firstBlock_
    firstBlock_ := newBlock
    curSlot_ := wrap64 (body + padPointer body pool.SlotSize_)
    lastSlot_ := wrap64 (newBlock + BlockSize_ + 2 ^ 64 - pool.SlotSize_ + 1)
    freeList_ := 0
    blocks := newBlock :: pool.blocks }

/-- The section under `mutexForFreeList_` of `allocate`. -/
def popFree : Option (ℕ × MemoryPool) :=
  if pool.freeList_ ≠ 0 then
    some (pool.freeList_, { pool with freeList_ := pool.next pool.freeList_ })
  else none

def needsBlock : Bool := pool.lastSlot_ ≤ pool.curSlot_

/-- The section under `mutexForBlock_`; `newBlock` is what `operator new` returns. -/
def carve (newBlock : ℕ) : ℕ × MemoryPool :=
  let pool := if pool.needsBlock then pool.allocateNewBlock newBlock else pool
  (pool.curSlot_,
    { pool with
      curSlot_ := wrap64 (pool.curSlot_ + pool.SlotSize_ / 8 * 8)
      carved := pool.carved ++ [pool.curSlot_] })

/-- `allocate` where nothing comes between its sections. -/
def allocate (newBlock : ℕ) : ℕ × MemoryPool :=
  if pool.freeList_ ≠ 0 then
    match pool.popFree with
    | some popped => popped
    | none => pool.carve newBlock
  else pool.carve newBlock

def deallocate (ptr : ℕ) : MemoryPool :=
  if ptr ≠ 0 then
    { pool with next := Function.update pool.next ptr pool.freeList_, freeList_ := ptr }
  else pool

def handOut (ptr : ℕ) : MemoryPool := { pool with owned := pool.owned ++ [ptr] }

def free (ptr : ℕ) : MemoryPool := { pool.deallocate ptr with owned := pool.owned.erase ptr }

def write (a value : ℕ) : MemoryPool := { pool with next := Function.update pool.next a value }

def Writable (a : ℕ) : Prop := 8 ∣ a ∧ ∃ p ∈ pool.owned, p ≤ a ∧ a < p + pool.SlotSize_

/-- What `operator new` returns: a block of its own, aligned, with a pointer past its end. -/
def Fresh (newBlock : ℕ) : Prop :=
  8 ∣ newBlock ∧ 0 < newBlock ∧ newBlock + BlockSize_ < 2 ^ 64 ∧
    ∀ b ∈ pool.blocks, b + BlockSize_ ≤ newBlock ∨ newBlock + BlockSize_ ≤ b

instance (a : ℕ) : Decidable (pool.Writable a) :=
  inferInstanceAs (Decidable (8 ∣ a ∧ ∃ p ∈ pool.owned, p ≤ a ∧ a < p + pool.SlotSize_))

instance (newBlock : ℕ) : Decidable (pool.Fresh newBlock) :=
  inferInstanceAs (Decidable (_ ∧ _ ∧ _ ∧ ∀ b ∈ pool.blocks, _ ∨ _))

end MemoryPool

end CppAiService
