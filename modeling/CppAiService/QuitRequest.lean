import CppAiService.EventLoopThread

namespace CppAiService.QuitRequest

open EventLoopThread Foundation.Run

variable {F : Type} {fd : WakeupFd}

section Loop

variable {s t : EventLoop F}

theorem wakeupIfNeeded_frame (fd : WakeupFd) (s : EventLoop F) (own : Bool) :
    (s.wakeupIfNeeded fd own).quit_ = s.quit_ ∧
    (s.wakeupIfNeeded fd own).pc = s.pc ∧
    (0 < s.wakeups → 0 < (s.wakeupIfNeeded fd own).wakeups) := by
  unfold EventLoop.wakeupIfNeeded
  split_ifs
  · exact ⟨rfl, rfl, fun _ ↦ WakeupFd.write_pos _ _⟩
  · exact ⟨rfl, rfl, id⟩

/-- The loop comes to wait in `poll` only through a test that found no request. -/
def PollOnlyUnasked (s t : EventLoop F) : Prop :=
  t.pc = .poll → s.quit_ = false ∨ (s.pc = .poll ∧ (0 < s.wakeups → 0 < t.wakeups))

theorem step_quit {a : EventLoop.Action F} (ha : a ≠ .quit) (hstep : s.step fd a = some t) :
    t.quit_ = s.quit_ ∧ PollOnlyUnasked s t := by
  cases EventLoop.turn_of_step hstep with
  | tested pc hpc hnext =>
    refine ⟨rfl, fun hpoll ↦ .inl ?_⟩
    rcases hnext with ⟨-, rfl⟩ | ⟨hquit, -⟩
    · cases hpoll
    · exact hquit
  | queued hrunning cb hpc => cases hrunning <;> exact ⟨rfl, fun hpoll ↦ by cases hpoll⟩
  | @woken running hrunning hpc =>
    obtain ⟨hquit, hsame, -⟩ := wakeupIfNeeded_frame fd { s with pc := running false } true
    refine ⟨hquit, fun hpoll ↦ ?_⟩
    cases hrunning <;> cases hsame.symm.trans hpoll
  | otherQueued cb => exact ⟨rfl, fun hpoll ↦ .inr ⟨hpoll, id⟩⟩
  | otherContinued hwaking | wakeup =>
    exact ⟨rfl, fun hpoll ↦ .inr ⟨hpoll, fun _ ↦ WakeupFd.write_pos _ _⟩⟩
  | quit => exact absurd rfl ha
  | _ => exact ⟨rfl, fun hpoll ↦ by cases hpoll⟩

end Loop

def Entered : ThreadFunc → Prop
  | .loop | .withdraw | .ended => True
  | _ => False

instance (p : ThreadFunc) : Decidable (Entered p) := by
  cases p <;> unfold Entered <;> infer_instance

/-- The request stands, the loop leaves at its next test of it, and while the destructor joins
the loop does not wait in `poll` without a wakeup. -/
structure Heeded (fd : WakeupFd) (s : EventLoopThread F) : Prop where
  kept : s.loop.quit_ = true
  leaves : s.thread_ = .loop → s.loop.pc = .test →
    s.step fd (.loop .advance) = some { s with loop := { s.loop with pc := .stopped } }
  awake : s.creator = .join → s.thread_ = .loop → s.loop.pc = .poll → 0 < s.loop.wakeups

structure Asked (s : EventLoopThread F) : Prop where
  entered : Entered s.thread_
  kept : s.loop.quit_ = true
  creator : s.creator = .wakeup ∨ s.creator = .join ∨ s.creator = .destroyed
  awake : s.creator ≠ .wakeup → s.loop.pc = .poll → 0 < s.loop.wakeups

variable {s t : EventLoopThread F}

theorem Asked.heeded (h : Asked s) : Heeded fd s where
  kept := h.kept
  leaves := by
    intro hthread hpc
    have hallowed : s.allowed .advance = true := by simp [allowed, hthread]
    rw [step, if_pos hallowed, EventLoop.step, EventLoop.advance, hpc]
    simp [h.kept]
  awake := by
    intro hjoin _ hpc
    exact h.awake (by simp [hjoin]) hpc

theorem Asked.step (h : Asked s) {a : Action F} (hstep : s.step fd a = some t) : Asked t := by
  cases a with
  | thread =>
    have hentered := h.entered
    rw [EventLoopThread.step, threadStep] at hstep
    cases hthread : s.thread_ with
    | loop =>
      rw [hthread] at hstep
      dsimp only at hstep
      split at hstep
      · cases hstep
        exact ⟨trivial, h.kept, h.creator, h.awake⟩
      · cases hstep
    | withdraw =>
      rw [hthread] at hstep
      cases hstep
      exact ⟨trivial, h.kept, h.creator, h.awake⟩
    | ended => rw [hthread] at hstep; cases hstep
    | _ => rw [hthread] at hentered; cases hentered
  | creator =>
    rw [EventLoopThread.step, creatorStep] at hstep
    obtain hcreator | hcreator | hcreator := h.creator <;> rw [hcreator] at hstep
    · cases hstep
      exact ⟨h.entered, h.kept, .inr (.inl rfl), fun _ _ ↦ WakeupFd.write_pos _ _⟩
    · dsimp only at hstep
      split_ifs at hstep
      cases hstep
      exact ⟨h.entered, h.kept, .inr (.inr rfl), fun _ ↦ h.awake (by simp [hcreator])⟩
    · cases hstep
  | loop a =>
    rw [EventLoopThread.step] at hstep
    split_ifs at hstep with hallowed
    obtain ⟨loop, hloop, rfl⟩ := Option.map_eq_some_iff.1 hstep
    obtain ⟨hquit, hpoll⟩ := step_quit (by rintro rfl; cases hallowed) hloop
    refine ⟨h.entered, hquit.trans h.kept, h.creator, fun hcreator hpc ↦ ?_⟩
    obtain hno | ⟨hpc, hwakeups⟩ := hpoll hpc
    · cases hno.symm.trans h.kept
    · exact hwakeups (h.awake hcreator hpc)

/-- Whatever the new thread still does before `quit_ = false`, it then does that too. -/
theorem cleared_of_not_entered (fd : WakeupFd) (s : EventLoopThread F)
    (hstarted : s.thread_ ≠ .notStarted) (h : ¬ Entered s.thread_) :
    ∃ after u, run (step fd) s after = some u ∧ u.loop.quit_ = false := by
  obtain ⟨loop_, exiting_, looping_, loop, thread, creator⟩ := s
  cases thread with
  | notStarted => exact absurd rfl hstarted
  | callback_ => exact ⟨[.thread, .thread, .thread, .thread], _, rfl, rfl⟩
  | publish => exact ⟨[.thread, .thread, .thread], _, rfl, rfl⟩
  | looping_ => exact ⟨[.thread, .thread], _, rfl, rfl⟩
  | clearQuit => exact ⟨[.thread], _, rfl, rfl⟩
  | loop | withdraw | ended => exact absurd trivial h

theorem started_run {before : List (Action F)} (hrun : run (step fd) create before = some s) :
    s.creator ≠ .start → s.thread_ ≠ .notStarted := by
  have hkept : ∀ (u : EventLoopThread F) a v, (u.creator ≠ .start → u.thread_ ≠ .notStarted) →
      u.step fd a = some v → v.creator ≠ .start → v.thread_ ≠ .notStarted := by
    intro u a v h hstep
    cases a with
    | thread =>
      rw [step, threadStep] at hstep
      split at hstep <;> try cases hstep
      case h_5 =>
        split at hstep <;> cases hstep
        exact fun _ ↦ ThreadFunc.noConfusion
      all_goals exact fun _ ↦ ThreadFunc.noConfusion
    | creator =>
      rw [step, creatorStep] at hstep
      split at hstep <;> try split_ifs at hstep
      all_goals cases hstep
      all_goals simp_all
    | loop a =>
      rw [step] at hstep
      split_ifs at hstep
      obtain ⟨loop, -, rfl⟩ := Option.map_eq_some_iff.1 hstep
      exact h
  exact run_inv hkept (fun h ↦ absurd rfl h) hrun

/-- A request is heeded ever after exactly if `quit` sets the flag once `loop` has reset it. -/
theorem quit_heeded_iff (before : List (Action F))
    (hrun : run (step fd) create before = some s) (hquit : s.creator = .quit)
    (hstep : s.step fd .creator = some t) :
    (∀ after u, run (step fd) t after = some u → Heeded fd u) ↔ Entered s.thread_ := by
  have hstarted : s.thread_ ≠ .notStarted := started_run hrun (by simp [hquit])
  rw [step, creatorStep, hquit] at hstep
  cases hstep
  constructor
  · intro h
    by_contra hentered
    obtain ⟨after, u, hafter, hcleared⟩ := cleared_of_not_entered fd
      { s with loop := { s.loop with quit_ := true }, creator := .wakeup } hstarted hentered
    cases hcleared.symm.trans (h after u hafter).kept
  · intro hentered after u hafter
    have hasked : Asked { s with loop := { s.loop with quit_ := true }, creator := .wakeup } :=
      ⟨hentered, rfl, .inl rfl, fun hcreator ↦ absurd rfl hcreator⟩
    have hkept : ∀ (u : EventLoopThread F) a v, Asked u → u.step fd a = some v → Asked v :=
      fun _ _ _ h hstep ↦ h.step hstep
    exact (run_inv hkept hasked hafter).heeded

/-- The server is up for a while before it goes down. -/
theorem quit_of_running_loop :
    ∃ s t : EventLoopThread ℕ, run (step .eventfd) create [.creator, .thread, .thread, .creator,
      .thread, .thread, .loop .advance, .creator, .creator] = some s ∧
    s.step .eventfd .creator = some t ∧
    ∀ after u, run (step .eventfd) t after = some u → Heeded .eventfd u := by
  refine ⟨_, _, rfl, rfl, ?_⟩
  exact (quit_heeded_iff [.creator, .thread, .thread, .creator, .thread, .thread, .loop .advance,
    .creator, .creator] rfl rfl rfl).2 trivial

/-- The destructor runs between the publication of `loop_` and `quit_ = false`: the thread waits
in `poll` again after it has read the wakeup, with the request gone and the destructor joining. -/
theorem quit_lost_at_start :
    ∃ s t u : EventLoopThread ℕ, run (step .eventfd) create [.creator, .thread, .thread, .creator,
      .creator, .creator] = some s ∧ s.creator = .quit ∧
    s.step .eventfd .creator = some t ∧ t.loop.quit_ = true ∧
    run (step .eventfd) t [.creator, .thread, .thread, .loop .advance,
      .loop (.poll [.wakeupChannel_]), .loop .advance, .loop .advance, .loop .advance,
      .loop .advance, .loop .advance] = some u ∧
    u.creator = .join ∧ u.thread_ = .loop ∧ u.loop.pc = .poll ∧ u.loop.quit_ = false ∧
    u.loop.wakeups = 0 :=
  ⟨_, _, _, rfl, rfl, rfl, rfl, rfl, rfl, rfl, rfl, rfl, rfl⟩

end CppAiService.QuitRequest
