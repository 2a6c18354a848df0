import CppAiService.EventLoop
import Mathlib.Data.List.Infix

namespace CppAiService.TaskHandOff

open EventLoop Foundation.Run

variable {F : Type}

def taken : LoopAt F → List F
  | .execute functors => functors
  | .functor functors _ => functors
  | _ => []

def calling : LoopAt F → Bool
  | .swap | .execute _ | .functor .. => true
  | _ => false

/-- Nothing but a wakeup brings the loop to the pending functors without waiting in `poll`:
this round's swap is over, and the loop's thread is not about to wake itself. -/
def Late : LoopAt F → Prop
  | .poll | .execute _ | .functor _ false | .test | .stopped => True
  | _ => False

structure HandOff (s : EventLoop F) : Prop where
  order : s.pushed = s.executed ++ taken s.pc ++ s.pendingFunctors_
  flag : s.callingPendingFunctors_ = calling s.pc
  awake : Late s.pc → s.pendingFunctors_ ≠ [] → 0 < s.wakeups ∨ 0 < s.waking

section Step

variable {fd : WakeupFd} {s t : EventLoop F}

theorem handOff_start : HandOff (start : EventLoop F) := ⟨rfl, rfl, fun _ h ↦ absurd rfl h⟩

/-- A wakeup changes nothing else, and leaves the fd readable. -/
theorem HandOff.wakeup (h : HandOff s) (fd : WakeupFd) (waking : ℕ) :
    HandOff ({ s with waking := waking }.wakeup fd) where
  order := h.order
  flag := h.flag
  awake := fun _ _ ↦ .inl (WakeupFd.write_pos _ _)

theorem HandOff.push (h : HandOff s) {pc : LoopAt F} (waking : ℕ) (cb : F)
    (htaken : taken pc = taken s.pc) (hcalling : calling pc = calling s.pc)
    (hawake : Late pc → 0 < waking) :
    HandOff ({ s with pc := pc, waking := waking }.push cb) where
  order := by
    change s.pushed ++ [cb] = s.executed ++ taken pc ++ (s.pendingFunctors_ ++ [cb])
    rw [h.order, htaken, List.append_assoc]
  flag := h.flag.trans hcalling.symm
  awake := fun hlate _ ↦ .inr (hawake hlate)

/-- The loop's thread moves on without touching the functors. -/
theorem HandOff.move (h : HandOff s) {pc : LoopAt F} {wakeups : ℕ}
    (htaken : taken pc = taken s.pc) (hcalling : calling pc = calling s.pc)
    (hawake : Late pc → Late s.pc ∧ wakeups = s.wakeups) :
    HandOff { s with pc := pc, wakeups := wakeups } where
  order := by
    change s.pushed = s.executed ++ taken pc ++ s.pendingFunctors_
    rw [htaken]
    exact h.order
  flag := h.flag.trans hcalling.symm
  awake := by
    intro hlate hpending
    obtain ⟨hlate, hsame⟩ := hawake hlate
    change 0 < wakeups ∨ _
    rw [hsame]
    exact h.awake hlate hpending

/-- The loop's thread has pushed and tests whether it has to wake itself. -/
theorem HandOff.testWakeup (h : HandOff s) {pc : LoopAt F} (htaken : taken pc = taken s.pc)
    (hcalling : calling pc = calling s.pc) (hlate : Late pc → calling pc = true) :
    HandOff ({ s with pc := pc }.wakeupIfNeeded fd true) := by
  have hflag : s.callingPendingFunctors_ = calling pc := h.flag.trans hcalling.symm
  have horder : s.pushed = s.executed ++ taken pc ++ s.pendingFunctors_ := by
    rw [htaken]
    exact h.order
  unfold wakeupIfNeeded
  cases hcall : calling pc with
  | false =>
    rw [if_neg (by simp [hflag, hcall])]
    refine ⟨horder, hflag, fun hpc ↦ ?_⟩
    cases (hlate hpc).symm.trans hcall
  | true =>
    rw [if_pos (by simp [hflag, hcall])]
    exact ⟨horder, hflag, fun _ _ ↦ .inl (WakeupFd.write_pos _ _)⟩

/-- Code of the program pushes or tests without touching what has been taken. -/
theorem taken_running {running : Bool → LoopAt F} (h : Running running) (queueing : Bool) :
    taken (running queueing) = taken (running !queueing) ∧
      calling (running queueing) = calling (running !queueing) := by
  cases h with
  | callback rest => exact ⟨rfl, rfl⟩
  | functor rest => exact ⟨rfl, rfl⟩

theorem not_late_queueing {running : Bool → LoopAt F} (h : Running running) :
    ¬ Late (running true) := by
  cases h with
  | callback rest => exact id
  | functor rest => exact id

theorem calling_of_late {running : Bool → LoopAt F} (h : Running running)
    (hlate : Late (running false)) : calling (running false) = true := by
  cases h with
  | callback rest => exact hlate.elim
  | functor rest => rfl

theorem HandOff.turn {a : Action F} (h : HandOff s) (hturn : Turn fd s a t) : HandOff t := by
  cases hturn with
  | polled active hpc hready => exact h.move (by rw [hpc]; rfl) (by rw [hpc]; rfl) False.elim
  | read rest hpc => exact h.move (by rw [hpc]; rfl) (by rw [hpc]; rfl) False.elim
  | entered rest hpc => exact h.move (by rw [hpc]; rfl) (by rw [hpc]; rfl) False.elim
  | dispatched hpc =>
    have horder := h.order
    rw [hpc] at horder
    exact ⟨horder, rfl, False.elim⟩
  | swapped hpc =>
    have horder := h.order
    rw [hpc] at horder
    refine ⟨?_, h.flag.trans (by rw [hpc]; rfl), fun _ hpending ↦ absurd rfl hpending⟩
    change s.pushed = s.executed ++ s.pendingFunctors_ ++ []
    rw [List.append_nil, horder]
    exact congrArg (· ++ s.pendingFunctors_) (List.append_nil s.executed)
  | called cb rest hpc =>
    have horder := h.order
    have hawake := h.awake (by rw [hpc]; trivial)
    rw [hpc] at horder
    refine ⟨?_, h.flag.trans (by rw [hpc]; rfl), fun _ ↦ hawake⟩
    change s.pushed = s.executed ++ [cb] ++ rest ++ s.pendingFunctors_
    rw [horder, List.append_assoc s.executed [cb]]
    rfl
  | finished hpc =>
    have horder := h.order
    have hawake := h.awake (by rw [hpc]; trivial)
    rw [hpc] at horder
    exact ⟨horder, rfl, fun _ ↦ hawake⟩
  | tested pc hpc hnext =>
    have hlate : Late s.pc := by rw [hpc]; trivial
    have hsame : taken pc = [] ∧ calling pc = false := by
      rcases hnext with ⟨-, rfl⟩ | ⟨-, rfl⟩ <;> exact ⟨rfl, rfl⟩
    exact h.move (by rw [hpc]; exact hsame.1) (by rw [hpc]; exact hsame.2) fun _ ↦ ⟨hlate, rfl⟩
  | queued hrunning cb hpc =>
    obtain ⟨htaken, hcalling⟩ := taken_running hrunning true
    exact h.push s.waking cb (hpc ▸ htaken) (hpc ▸ hcalling) fun hlate ↦
      absurd hlate (not_late_queueing hrunning)
  | woken hrunning hpc =>
    obtain ⟨htaken, hcalling⟩ := taken_running hrunning false
    exact h.testWakeup (hpc ▸ htaken) (hpc ▸ hcalling) (calling_of_late hrunning)
  | leftCallback rest hpc => exact h.move (by rw [hpc]; rfl) (by rw [hpc]; rfl) False.elim
  | leftFunctor rest hpc =>
    have hlate : Late s.pc := by rw [hpc]; trivial
    exact h.move (by rw [hpc]; rfl) (by rw [hpc]; rfl) fun _ ↦ ⟨hlate, rfl⟩
  | otherQueued cb => exact h.push _ cb rfl rfl fun _ ↦ Nat.succ_pos _
  | otherContinued hwaking => exact h.wakeup fd _
  | quit => exact ⟨h.order, h.flag, h.awake⟩
  | wakeup => exact h.wakeup fd s.waking

theorem HandOff.step (h : HandOff s) {a : Action F} (hstep : s.step fd a = some t) :
    HandOff t := h.turn (turn_of_step hstep)

def executing : LoopAt F → Bool
  | .execute _ | .functor .. => true
  | _ => false

/-- A step that leaves the functors that have been taken. -/
structure Aside (s t : EventLoop F) : Prop where
  executed : t.executed = s.executed
  passes : t.passes = s.passes
  taken : taken t.pc = taken s.pc
  executing : executing t.pc = executing s.pc
  pushed : s.pushed <+: t.pushed

theorem aside_of_pc {pc : LoopAt F} (hpc : s.pc = pc) (htaken : taken t.pc = taken pc)
    (hexecuting : executing t.pc = executing pc) (hexecuted : t.executed = s.executed)
    (hpasses : t.passes = s.passes) (hpushed : s.pushed <+: t.pushed) : Aside s t :=
  ⟨hexecuted, hpasses, hpc ▸ htaken, hpc ▸ hexecuting, hpushed⟩

theorem Aside.wakeupIfNeeded (h : Aside s t) (fd : WakeupFd) (isInLoopThread : Bool) :
    Aside s (t.wakeupIfNeeded fd isInLoopThread) := by
  unfold EventLoop.wakeupIfNeeded
  split
  · exact ⟨h.executed, h.passes, h.taken, h.executing, h.pushed⟩
  · exact h

/-- What a step does to the taken functors: nothing, or one of the three parts of a pass. -/
inductive PassStep (s : EventLoop F) : EventLoop F → Prop
  | aside {t : EventLoop F} (h : Aside s t) : PassStep s t
  | swap (hpc : s.pc = .swap) :
    PassStep s { s with pendingFunctors_ := [], pc := .execute s.pendingFunctors_ }
  | call (cb : F) (rest : List F) (hpc : s.pc = .execute (cb :: rest)) :
    PassStep s { s with executed := s.executed ++ [cb], pc := .functor rest false }
  | finish (hpc : s.pc = .execute []) :
    PassStep s { s with callingPendingFunctors_ := false, passes := s.passes + 1, pc := .test }

theorem step_cases {a : Action F} (hstep : s.step fd a = some t) : PassStep s t := by
  cases turn_of_step hstep with
  | swapped hpc => exact .swap hpc
  | called cb rest hpc => exact .call cb rest hpc
  | finished hpc => exact .finish hpc
  | tested pc hpc hnext =>
    rcases hnext with ⟨-, rfl⟩ | ⟨-, rfl⟩ <;>
      exact .aside (aside_of_pc hpc rfl rfl rfl rfl List.prefix_rfl)
  | queued hrunning cb hpc =>
    cases hrunning <;>
      exact .aside (aside_of_pc hpc rfl rfl rfl rfl (List.prefix_append _ _))
  | @woken running hrunning hpc =>
    have haside : Aside s { s with pc := running false } := by
      cases hrunning <;> exact aside_of_pc hpc rfl rfl rfl rfl List.prefix_rfl
    exact .aside (haside.wakeupIfNeeded fd true)
  | otherQueued cb => exact .aside ⟨rfl, rfl, rfl, rfl, List.prefix_append _ _⟩
  | otherContinued hwaking => exact .aside ⟨rfl, rfl, rfl, rfl, List.prefix_rfl⟩
  | quit => exact .aside ⟨rfl, rfl, rfl, rfl, List.prefix_rfl⟩
  | wakeup => exact .aside ⟨rfl, rfl, rfl, rfl, List.prefix_rfl⟩
  | polled _ hpc | read _ hpc | entered _ hpc | dispatched hpc | leftCallback _ hpc
  | leftFunctor _ hpc => exact .aside (aside_of_pc hpc rfl rfl rfl rfl List.prefix_rfl)

theorem executed_grows {a : Action F} (hstep : s.step fd a = some t) :
    s.executed <+: t.executed := by
  cases step_cases hstep with
  | aside h => rw [h.executed]
  | swap hpc => exact List.prefix_rfl
  | call cb rest hpc => exact List.prefix_append _ _
  | finish hpc => exact List.prefix_rfl

/-- How far the functors that had been pushed after some number of passes have come. -/
structure Followed (passes : ℕ) (old : List F) (s : EventLoop F) : Prop where
  pushed : old <+: s.pushed
  next : passes < s.passes → executing s.pc = true → old <+: s.executed ++ taken s.pc
  done : passes + 1 < s.passes → old <+: s.executed

theorem Followed.step {passes : ℕ} {old : List F} (h : Followed passes old s) (hs : HandOff s)
    {a : Action F} (hstep : s.step fd a = some t) : Followed passes old t := by
  cases step_cases hstep with
  | aside haside =>
    refine ⟨h.pushed.trans haside.pushed, ?_, ?_⟩
    · rw [haside.executed, haside.passes, haside.taken, haside.executing]
      exact h.next
    · rw [haside.executed, haside.passes]
      exact h.done
  | swap hpc =>
    refine ⟨h.pushed, fun _ _ ↦ ?_, h.done⟩
    have horder := hs.order
    rw [hpc] at horder
    have hpushed : s.pushed = s.executed ++ s.pendingFunctors_ :=
      horder.trans (congrArg (· ++ s.pendingFunctors_) (List.append_nil s.executed))
    exact hpushed ▸ h.pushed
  | call cb rest hpc =>
    refine ⟨h.pushed, fun hpasses _ ↦ ?_, fun hpasses ↦ ?_⟩
    · have hnext := h.next hpasses (by rw [hpc]; rfl)
      rw [hpc] at hnext
      change old <+: s.executed ++ [cb] ++ rest
      rw [List.append_assoc]
      exact hnext
    · exact (h.done hpasses).trans (List.prefix_append _ _)
  | finish hpc =>
    refine ⟨h.pushed, fun _ hpc ↦ Bool.noConfusion hpc, fun hpasses ↦ ?_⟩
    have hnext := h.next (Nat.lt_of_succ_lt_succ hpasses) (by rw [hpc]; rfl)
    rw [hpc] at hnext
    exact (List.append_nil s.executed) ▸ hnext

theorem handOff_run {as : List (Action F)} (hs : HandOff s)
    (hrun : run (EventLoop.step fd) s as = some t) : HandOff t :=
  run_inv (fun _ _ _ h hstep ↦ h.step hstep) hs hrun

theorem followed_run {as : List (Action F)} (hs : HandOff s)
    (hrun : run (EventLoop.step fd) s as = some t) : Followed s.passes s.pushed t := by
  have hstart : HandOff s ∧ Followed s.passes s.pushed s :=
    ⟨hs, List.prefix_rfl, fun h ↦ absurd h (Nat.lt_irrefl _), fun h ↦ absurd h (by omega)⟩
  have hkept : ∀ u a v, HandOff u ∧ Followed s.passes s.pushed u →
      u.step fd a = some v → HandOff v ∧ Followed s.passes s.pushed v :=
    fun _ _ _ h hstep ↦ ⟨h.1.step hstep, h.2.step h.1 hstep⟩
  exact (run_inv hkept hstart hrun).2

end Step

/-- Functors are called in the order of their pushes and each at most once; none is lost, and
all that had been pushed are called once two more passes are over; and the loop does not wait
in `poll` for functors that nobody will wake it for. -/
theorem task_hand_off (fd : WakeupFd) (actions : List (Action F)) {s : EventLoop F}
    (hrun : run (EventLoop.step fd) start actions = some s) :
    s.pushed = s.executed ++ taken s.pc ++ s.pendingFunctors_ ∧
    (s.pc = .poll → s.pendingFunctors_ ≠ [] → 0 < s.wakeups ∨ 0 < s.waking) ∧
    ∀ (more : List (Action F)) (t : EventLoop F), run (EventLoop.step fd) s more = some t →
      s.executed <+: t.executed ∧ (s.passes + 1 < t.passes → s.pushed <+: t.executed) := by
  have h := handOff_run handOff_start hrun
  refine ⟨h.order, fun hpc ↦ h.awake (by rw [hpc]; trivial), fun more t hmore ↦ ⟨?_, ?_⟩⟩
  · have hkept : ∀ (u : EventLoop F) (a : Action F) v, s.executed <+: u.executed →
        u.step fd a = some v → s.executed <+: v.executed :=
      fun _ _ _ hu hstep ↦ hu.trans (executed_grows hstep)
    exact run_inv hkept List.prefix_rfl hmore
  · exact (followed_run h hmore).done

/-- A functor pushes a second one, another thread a third: the loop is back at `poll` with both
pending, and has already woken itself. -/
theorem pushes_during_pass :
    ∃ s : EventLoop ℕ, run (EventLoop.step .eventfd) start [.advance, .otherQueueInLoop 1,
      .otherContinue, .poll [.wakeupChannel_], .advance, .advance, .advance, .advance,
      .queueInLoop 2, .otherQueueInLoop 3, .advance, .leave, .advance, .advance] = some s ∧
    s.pc = .poll ∧ s.pendingFunctors_ = [2, 3] ∧ (0 < s.wakeups ∨ 0 < s.waking) := by
  refine ⟨_, rfl, rfl, rfl, ?_⟩
  exact (task_hand_off .eventfd [.advance, .otherQueueInLoop 1, .otherContinue,
    .poll [.wakeupChannel_], .advance, .advance, .advance, .advance, .queueInLoop 2,
    .otherQueueInLoop 3, .advance, .leave, .advance, .advance] rfl).2.1 rfl (List.cons_ne_nil _ _)

end CppAiService.TaskHandOff
