import CppAiService.PoolLayout
import CppAiService.Foundation.Run
import CppAiService.Foundation.Threads

namespace CppAiService.PoolSharing

open Foundation MemoryPool

/-- Where a running `allocate` is: before the test of `freeList_`, before either of the two
sections, or with a slot that it is about to return. -/
inductive AllocateAt
  | test
  | freeList
  | block
  | done (temp : ℕ)
  deriving DecidableEq

/-- The pool with the running calls of `allocate`, in no order and of any threads. -/
structure Shared where
  pool : MemoryPool
  calls : List AllocateAt

inductive Action
  | call
  | advance (i newBlock : ℕ)
  | deallocate (ptr : ℕ)
  | write (a value : ℕ)

def advance (pool : MemoryPool) (newBlock : ℕ) : AllocateAt → MemoryPool × AllocateAt
  | .test => (pool, if pool.freeList_ ≠ 0 then .freeList else .block)
  | .freeList =>
    match pool.popFree with
    | some (temp, pool) => (pool, .done temp)
    | none => (pool, .block)
  | .block =>
    let (temp, pool) := pool.carve newBlock
    (pool, .done temp)
  | .done temp => (pool, .done temp)

def step (s : Shared) : Action → Option Shared
  | .call => some { s with calls := .test :: s.calls }
  | .advance i newBlock =>
    match s.calls[i]? with
    | some (.done temp) => some ⟨s.pool.handOut temp, s.calls.eraseIdx i⟩
    | some at_ =>
      let (pool, next) := advance s.pool newBlock at_
      some ⟨pool, s.calls.set i next⟩
    | none => none
  | .deallocate ptr => some { s with pool := s.pool.free ptr }
  | .write a value => some { s with pool := s.pool.write a value }

/-- There is such a call, a block is new if one is taken, what is freed is owned, and callers
keep to their slots. -/
def Lawful (s : Shared) : Action → Prop
  | .call => True
  | .advance i newBlock =>
    i < s.calls.length ∧
      (s.calls[i]? = some .block → s.pool.needsBlock = true → s.pool.Fresh newBlock)
  | .deallocate ptr => ptr ∈ s.pool.owned
  | .write a _ => s.pool.Writable a

def hands (calls : List AllocateAt) : List ℕ :=
  calls.filterMap fun
    | .done temp => some temp
    | _ => none

instance (s : Shared) (a : Action) : Decidable (Lawful s a) := by
  cases a <;> unfold Lawful <;> infer_instance

def NoneLost (s : Shared) : Prop :=
  ∃ free, FreeList.Chain 0 s.pool.next s.pool.freeList_ free ∧
    (s.pool.owned ++ hands s.calls ++ free).Perm s.pool.carved ∧
    (s.pool.owned ++ hands s.calls ++ free).Nodup

/-- A new block is opened only while the free list is empty. -/
def OpensWhenEmpty (s : Shared) : Action → Prop
  | .advance i _ =>
    s.calls[i]? = some .block → s.pool.needsBlock = true → s.pool.freeList_ = 0
  | _ => True

instance (s : Shared) (a : Action) : Decidable (OpensWhenEmpty s a) := by
  cases a <;> unfold OpensWhenEmpty <;> infer_instance

variable {s t : Shared} {calls l₁ l₂ : List AllocateAt} {i newBlock temp : ℕ}
  {at_ next : AllocateAt} {pool : MemoryPool}

theorem hands_append (l₁ l₂ : List AllocateAt) : hands (l₁ ++ l₂) = hands l₁ ++ hands l₂ :=
  List.filterMap_append

theorem hands_done (l₁ l₂ : List AllocateAt) (temp : ℕ) :
    (hands (l₁ ++ .done temp :: l₂)).Perm (temp :: hands (l₁ ++ l₂)) := by
  rw [hands_append, hands_append]
  exact List.perm_middle

theorem hands_other (at_ : AllocateAt) (h : ∀ temp, at_ ≠ .done temp) (l₁ l₂ : List AllocateAt) :
    hands (l₁ ++ at_ :: l₂) = hands (l₁ ++ l₂) := by
  rw [hands_append, hands_append]
  cases at_ with
  | done temp => exact absurd rfl (h temp)
  | _ => rfl

theorem noneLost (h : Accounted (hands s.calls) s.pool) : NoneLost s := by
  obtain ⟨free, hchain, hplaces⟩ := h.places
  exact ⟨free, hchain, hplaces, h.nodup hplaces⟩

/-- With free slots about, a new block loses them. -/
theorem lost_of_open (h : Accounted (hands (l₁ ++ l₂)) pool)
    (hfresh : pool.needsBlock = true → pool.Fresh newBlock) (hneeds : pool.needsBlock = true)
    (hfree : pool.freeList_ ≠ 0) :
    ¬ NoneLost ⟨(pool.carve newBlock).2, l₁ ++ .done (pool.carve newBlock).1 :: l₂⟩ := by
  rintro ⟨free', hchain', hplaces', -⟩
  obtain ⟨free, hchain, hplaces⟩ := h.places
  obtain ⟨-, hcarves⟩ := h.layout.carve hfresh
  rw [hcarves.freeList, if_pos hneeds] at hchain'
  obtain rfl := FreeList.chain_null hchain'
  obtain ⟨rest, rfl, -⟩ := hchain.pop hfree
  have hlength := hplaces.length_eq
  have hlength' := hplaces'.length_eq
  have hhands := (hands_done l₁ l₂ (pool.carve newBlock).1).length_eq
  rw [hcarves.owned, hcarves.carved] at hlength'
  simp only [List.length_append, List.length_cons, List.length_nil] at hlength hlength' hhands
  omega

theorem perm_hands_done (l₁ l₂ : List AllocateAt) (temp : ℕ) :
    (hands (l₁ ++ l₂) ++ [temp]).Perm (hands (l₁ ++ .done temp :: l₂)) :=
  (List.perm_append_singleton _ _).trans (hands_done _ _ _).symm

theorem opensWhenEmpty_of_ne (hi : s.calls[i]? = some at_) (h : at_ ≠ .block) (newBlock : ℕ) :
    OpensWhenEmpty s (.advance i newBlock) :=
  fun hblock ↦ absurd (Option.some.inj (hi.symm.trans hblock)) h

theorem shared_advance (h : Accounted (hands s.calls) s.pool) (hi : s.calls[i]? = some at_)
    (hfresh : s.calls[i]? = some .block → s.pool.needsBlock = true → s.pool.Fresh newBlock) :
    ∃ t, step s (.advance i newBlock) = some t ∧
      (OpensWhenEmpty s (.advance i newBlock) → Accounted (hands t.calls) t.pool) ∧
      (NoneLost t → OpensWhenEmpty s (.advance i newBlock)) := by
  obtain ⟨l₁, l₂, hcalls, hset, herase⟩ := Threads.pick hi
  cases at_ with
  | test =>
    rw [hcalls, hands_other .test nofun] at h
    refine ⟨⟨s.pool, s.calls.set i (if s.pool.freeList_ ≠ 0 then .freeList else .block)⟩,
      by rw [step, hi]; rfl, fun _ ↦ ?_, fun _ ↦ opensWhenEmpty_of_ne hi nofun newBlock⟩
    dsimp only
    rw [hset]
    split_ifs
    · rwa [hands_other .freeList nofun]
    · rwa [hands_other .block nofun]
  | freeList =>
    rw [hcalls, hands_other .freeList nofun] at h
    by_cases hfree : s.pool.freeList_ = 0
    · refine ⟨⟨s.pool, s.calls.set i .block⟩, ?_, fun _ ↦ ?_,
        fun _ ↦ opensWhenEmpty_of_ne hi nofun newBlock⟩
      · have hpop : s.pool.popFree = none := if_neg (not_not.2 hfree)
        rw [step, hi]
        dsimp only
        rw [advance, hpop]
      · dsimp only
        rwa [hset, hands_other .block nofun]
    · obtain ⟨pool', hpop, h', -⟩ := h.pop hfree
      refine ⟨⟨pool', s.calls.set i (.done s.pool.freeList_)⟩, ?_, fun _ ↦ ?_,
        fun _ ↦ opensWhenEmpty_of_ne hi nofun newBlock⟩
      · rw [step, hi]
        dsimp only
        rw [advance, hpop]
      · dsimp only
        rw [hset]
        exact h'.perm (perm_hands_done _ _ _)
  | block =>
    rw [hcalls, hands_other .block nofun] at h
    refine ⟨⟨(s.pool.carve newBlock).2, s.calls.set i (.done (s.pool.carve newBlock).1)⟩,
      by rw [step, hi]; rfl, fun hempty ↦ ?_, fun hnone _ hneeds ↦ ?_⟩
    · dsimp only
      rw [hset]
      exact (h.carve (hfresh hi) (hempty hi)).perm (perm_hands_done _ _ _)
    · rw [hset] at hnone
      by_contra hfree
      exact lost_of_open h (hfresh hi) hneeds hfree hnone
  | done temp =>
    rw [hcalls] at h
    refine ⟨⟨s.pool.handOut temp, s.calls.eraseIdx i⟩, by rw [step, hi], fun _ ↦ ?_,
      fun _ ↦ opensWhenEmpty_of_ne hi nofun newBlock⟩
    dsimp only
    rw [herase]
    exact (h.perm (hands_done _ _ _)).handOut

theorem shared_step (s : Shared) (a : Action) (ha : Lawful s a)
    (h : Accounted (hands s.calls) s.pool) :
    ∃ t, step s a = some t ∧ (OpensWhenEmpty s a → Accounted (hands t.calls) t.pool) ∧
      (NoneLost t → OpensWhenEmpty s a) := by
  cases a with
  | call => exact ⟨_, rfl, fun _ ↦ h, fun _ ↦ trivial⟩
  | advance i newBlock => exact shared_advance h (List.getElem?_eq_getElem ha.1) ha.2
  | deallocate ptr => exact ⟨_, rfl, fun _ ↦ h.free ha, fun _ ↦ trivial⟩
  | write a value => exact ⟨_, rfl, fun _ ↦ h.write ha value, fun _ ↦ trivial⟩

/-- With any threads at the pool no slot is lost or in two places, in every state of a run, if
and only if each new block is opened while the free list is empty. -/
theorem none_lost_iff {m : ℕ} (hm : 0 < m) (hm' : m ≤ 64) (next : ℕ → ℕ) (actions : List Action)
    (hlawful : Run.Along step Lawful ⟨init (8 * m) next, []⟩ actions) :
    (∀ before after, actions = before ++ after →
      ∃ s, Run.run step ⟨init (8 * m) next, []⟩ before = some s ∧ NoneLost s) ↔
    Run.Along step OpensWhenEmpty ⟨init (8 * m) next, []⟩ actions :=
  Run.prefixes_iff (fun _ h ↦ noneLost h) shared_step (accounted_init hm hm' next) hlawful

/-- Two threads take a slot each, and a third gives one back before one more asks. -/
theorem none_lost_between_calls :
    let actions : List Action := [.call, .call, .advance 0 0, .advance 1 0, .advance 0 4096,
      .advance 1 8192, .advance 1 0, .deallocate 4128, .call, .advance 0 0, .advance 0 0]
    ∀ before after, actions = before ++ after →
      ∃ s, Run.run step ⟨init 16 fun _ ↦ 0, []⟩ before = some s ∧ NoneLost s := by
  intro actions
  exact (none_lost_iff (m := 2) (by decide) (by decide) (fun _ ↦ 0) actions (by decide)).2
    (by decide)

/-- The seven slots of a block are out when the eighth `allocate` finds the free list empty; the
slot that is freed before it opens a block is on no list any more. -/
theorem freed_slot_lost :
    let actions : List Action := (List.replicate 7
      [.call, .advance 0 4096, .advance 0 4096, .advance 0 4096]).flatten ++
      [.call, .advance 0 8192, .deallocate 4608, .advance 0 8192]
    ∃ s, Run.run step ⟨init 512 fun _ ↦ 0, []⟩ actions = some s ∧ 4608 ∈ s.pool.carved ∧
      4608 ∉ s.pool.owned ++ hands s.calls ∧ s.pool.freeList_ = 0 ∧ ¬ NoneLost s := by
  intro actions
  have hrun : (Run.run step ⟨init 512 fun _ ↦ 0, []⟩ actions).any (fun s ↦
      decide (4608 ∈ s.pool.carved ∧ 4608 ∉ s.pool.owned ++ hands s.calls ∧
        s.pool.freeList_ = 0)) = true := by decide +kernel
  obtain ⟨s, hs, hall⟩ := (Option.any_eq_true _ _).1 hrun
  obtain ⟨hcarved, hplace, hempty⟩ := of_decide_eq_true hall
  refine ⟨s, hs, hcarved, hplace, hempty, ?_⟩
  rintro ⟨free, hchain, hplaces, -⟩
  rw [hempty] at hchain
  obtain rfl := FreeList.chain_null hchain
  rw [List.append_nil] at hplaces
  exact hplace (hplaces.mem_iff.2 hcarved)

end CppAiService.PoolSharing
