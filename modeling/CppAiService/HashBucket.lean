import CppAiService.PoolSharing

namespace CppAiService

open PoolSharing

def MEMORY_POOL_NUM : ℕ := 64

def SLOT_BASE_SIZE : ℕ := 8

def MAX_SLOT_SIZE : ℕ := 512

/-- The array of pools over the one memory of the process, the running calls of `useMemory` with
the sizes they are for, and what callers hold: pointers with the sizes they asked for. -/
structure HashBucket where
  memoryPool : ℕ → MemoryPool
  memory : ℕ → ℕ
  calls : List (ℕ × AllocateAt)
  live : List (ℕ × ℕ)

namespace HashBucket

def initMemoryPool (memory : ℕ → ℕ) : HashBucket where
  memoryPool i := MemoryPool.init ((i + 1) * SLOT_BASE_SIZE) memory
  memory := memory
  calls := []
  live := []

/-- The pool for a size, if it is not one for `operator new`. Size `0` gives the index `-1`. -/
def poolIndex (size : ℕ) : Option ℕ :=
  if MAX_SLOT_SIZE < size then none
  else some (wrap64 ((size + 7) / SLOT_BASE_SIZE + 2 ^ 64 - 1))

variable (h : HashBucket)

def getMemoryPool (index : ℕ) : MemoryPool := { h.memoryPool index with next := h.memory }

def setMemoryPool (index : ℕ) (pool : MemoryPool) : HashBucket :=
  { h with memoryPool := Function.update h.memoryPool index pool, memory := pool.next }

/-- `newMemory` is what `operator new` returns for a large size. -/
def useMemory (size newMemory : ℕ) : HashBucket :=
  if size = 0 then h
  else
    match poolIndex size with
    | none => { h with live := h.live ++ [(newMemory, size)] }
    | some _ => { h with calls := (size, .test) :: h.calls }

/-- One atomic step of the running call at this place, up to its return. -/
def advance (i newBlock : ℕ) : Option HashBucket :=
  match h.calls[i]? with
  | none => none
  | some (size, .done temp) =>
    some { h with calls := h.calls.eraseIdx i, live := h.live ++ [(temp, size)] }
  | some (size, at_) =>
    match poolIndex size with
    | none => none
    | some index =>
      let (pool, next) := PoolSharing.advance (h.getMemoryPool index) newBlock at_
      some { h.setMemoryPool index pool with calls := h.calls.set i (size, next) }

/-- `none` where the index lies outside the array. -/
def freeMemory (ptr size : ℕ) : Option HashBucket :=
  if ptr = 0 then some h
  else
    match poolIndex size with
    | none => some { h with live := h.live.erase (ptr, size) }
    | some index =>
      if MEMORY_POOL_NUM ≤ index then none
      else
        some
          { h.setMemoryPool index ((h.getMemoryPool index).deallocate ptr) with
            live := h.live.erase (ptr, size) }

def write (a value : ℕ) : HashBucket := { h with memory := Function.update h.memory a value }

def Writable (a : ℕ) : Prop := 8 ∣ a ∧ ∃ held ∈ h.live, held.1 ≤ a ∧ a < held.1 + held.2

/-- What `operator new` returns: memory of its own, aligned, with a pointer past its end. -/
def Fresh (newMemory size : ℕ) : Prop :=
  8 ∣ newMemory ∧ 0 < newMemory ∧ newMemory + size < 2 ^ 64 ∧
    (∀ i < MEMORY_POOL_NUM, ∀ b ∈ (h.memoryPool i).blocks,
      b + BlockSize_ ≤ newMemory ∨ newMemory + size ≤ b) ∧
    ∀ held ∈ h.live, poolIndex held.2 = none →
      held.1 + held.2 ≤ newMemory ∨ newMemory + size ≤ held.1

inductive Action
  | useMemory (size newMemory : ℕ)
  | advance (i newBlock : ℕ)
  | freeMemory (ptr size : ℕ)
  | write (a value : ℕ)
  deriving DecidableEq

def step : Action → Option HashBucket
  | .useMemory size newMemory => some (h.useMemory size newMemory)
  | .advance i newBlock => h.advance i newBlock
  | .freeMemory ptr size => h.freeMemory ptr size
  | .write a value => some (h.write a value)

def opens (i : ℕ) : Bool :=
  match h.calls[i]? with
  | some (size, .block) => (poolIndex size).any fun index ↦ (h.memoryPool index).needsBlock
  | _ => false

/-- Memory from `operator new` is fresh, there is such a call, what is freed is held and freed with
its size, and callers keep to their memory. -/
def Lawful : Action → Prop
  | .useMemory size newMemory => poolIndex size = none → h.Fresh newMemory size
  | .advance i newBlock => i < h.calls.length ∧ (h.opens i = true → h.Fresh newBlock BlockSize_)
  | .freeMemory ptr size => ptr = 0 ∨ (ptr, size) ∈ h.live
  | .write a _ => h.Writable a

instance (newMemory size : ℕ) : Decidable (h.Fresh newMemory size) :=
  inferInstanceAs (Decidable (_ ∧ _ ∧ _ ∧ (∀ i < MEMORY_POOL_NUM,
    ∀ b ∈ (h.memoryPool i).blocks, _ ∨ _) ∧ ∀ held ∈ h.live, poolIndex held.2 = none → _ ∨ _))

instance (a : Action) : Decidable (h.Lawful a) :=
  match a with
  | .useMemory size newMemory =>
    inferInstanceAs (Decidable (poolIndex size = none → h.Fresh newMemory size))
  | .advance i newBlock =>
    inferInstanceAs (Decidable (i < h.calls.length ∧
      (h.opens i = true → h.Fresh newBlock BlockSize_)))
  | .freeMemory ptr size => inferInstanceAs (Decidable (ptr = 0 ∨ (ptr, size) ∈ h.live))
  | .write a _ =>
    inferInstanceAs (Decidable (8 ∣ a ∧ ∃ held ∈ h.live, held.1 ≤ a ∧ a < held.1 + held.2))

end HashBucket

end CppAiService
