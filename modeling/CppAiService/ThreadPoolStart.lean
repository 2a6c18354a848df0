import CppAiService.EventLoopThread
import CppAiService.Foundation.Handshake
import CppAiService.TcpServer

namespace CppAiService

open Foundation

/-- An `EventLoopThread` that is being started: `tidReady` with the mutex and the condition that
`Thread::start` has on its stack, `loop_` with those of the object. `tid_` is whether it is set,
`called` whether the new thread has made its loop and called `callback_` with it. -/
structure StartingThread where
  started_ : Bool
  tid_ : Bool
  tidReady : Handshake
  called : Bool
  loop_ : Handshake
  deriving DecidableEq

namespace StartingThread

def create : StartingThread := ⟨false, false, .create, false, .create⟩

variable (t : StartingThread)

/-- `Thread::start` notifies after its block, `threadFunc` inside of it. -/
def tidInside : Bool := false

def loopInside : Bool := true

/-- The new thread, from the lambda of `Thread::start` to the call of `loop.loop()`. -/
def newThreadStep : Option StartingThread :=
  if !t.started_ then none
  else if !t.tid_ then some { t with tid_ := true }
  else if t.tidReady.signaller ≠ .past then
    (t.tidReady.signallerStep tidInside).map fun h ↦ { t with tidReady := h }
  else if !t.called then some { t with called := true }
  else if t.loop_.signaller ≠ .past then
    (t.loop_.signallerStep loopInside).map fun h ↦ { t with loop_ := h }
  else none

def starterStep : Option StartingThread :=
  if !t.started_ then some { t with started_ := true }
  else if t.tidReady.waiter ≠ .past then
    (t.tidReady.waiterStep tidInside).map fun h ↦ { t with tidReady := h }
  else (t.loop_.waiterStep loopInside).map fun h ↦ { t with loop_ := h }

def spuriousStep : Option StartingThread :=
  (t.tidReady.spuriousStep.map fun h ↦ { t with tidReady := h }) <|>
    t.loop_.spuriousStep.map fun h ↦ { t with loop_ := h }

/-- Each thread takes its two handshakes one after the other. -/
structure Sound : Prop where
  tidReady : t.tidReady.Sound tidInside
  loop_ : t.loop_.Sound loopInside
  fresh : t.started_ = false → t = create
  tid_ : t.tidReady.signaller ≠ .lock → t.tid_ = true
  called : t.called = true → t.tidReady.signaller = .past
  signals : t.loop_.signaller ≠ .lock → t.called = true
  waits : t.loop_.waiter ≠ .lock → t.tidReady.waiter = .past

inductive NewThread : StartingThread → Prop
  | tid_ (hstarted : t.started_ = true) (hunset : t.tid_ = false) :
      NewThread { t with tid_ := true }
  | tidReady (hset : t.tid_ = true) (h : Handshake)
      (hstep : t.tidReady.signallerStep tidInside = some h) : NewThread { t with tidReady := h }
  | called (hstarted : t.started_ = true) (hset : t.tid_ = true)
      (hpast : t.tidReady.signaller = .past) (huncalled : t.called = false) :
      NewThread { t with called := true }
  | loop_ (hcalled : t.called = true) (h : Handshake)
      (hstep : t.loop_.signallerStep loopInside = some h) : NewThread { t with loop_ := h }

variable {t} {t' : StartingThread}

theorem newThread_of_step (hstep : t.newThreadStep = some t') : t.NewThread t' := by
  rw [newThreadStep] at hstep
  split_ifs at hstep with hstarted hset hpast hcalled hlooping
  · obtain rfl := Option.some.inj hstep
    exact .tid_ (by simpa using hstarted) (by simpa using hset)
  · obtain ⟨h, hh, rfl⟩ := Option.map_eq_some_iff.1 hstep
    exact .tidReady (by simpa using hset) h hh
  · obtain rfl := Option.some.inj hstep
    exact .called (by simpa using hstarted) (by simpa using hset) (not_not.1 hpast)
      (by simpa using hcalled)
  · obtain ⟨h, hh, rfl⟩ := Option.map_eq_some_iff.1 hstep
    exact .loop_ (by simpa using hcalled) h hh

inductive Starter (t : StartingThread) : StartingThread → Prop
  | started_ (hnot : t.started_ = false) : Starter t { t with started_ := true }
  | tidReady (hstarted : t.started_ = true) (h : Handshake)
      (hstep : t.tidReady.waiterStep tidInside = some h) : Starter t { t with tidReady := h }
  | loop_ (hstarted : t.started_ = true) (hpast : t.tidReady.waiter = .past) (h : Handshake)
      (hstep : t.loop_.waiterStep loopInside = some h) : Starter t { t with loop_ := h }

theorem starter_of_step (hstep : t.starterStep = some t') : t.Starter t' := by
  rw [starterStep] at hstep
  split_ifs at hstep with hstarted hpast
  · obtain rfl := Option.some.inj hstep
    exact .started_ (by simpa using hstarted)
  · obtain ⟨h, hh, rfl⟩ := Option.map_eq_some_iff.1 hstep
    exact .tidReady (by simpa using hstarted) h hh
  · obtain ⟨h, hh, rfl⟩ := Option.map_eq_some_iff.1 hstep
    exact .loop_ (by simpa using hstarted) (not_not.1 hpast) h hh

theorem spurious_of_step (hstep : t.spuriousStep = some t') :
    (∃ h, t.tidReady.spuriousStep = some h ∧ t' = { t with tidReady := h }) ∨
      ∃ h, t.loop_.spuriousStep = some h ∧ t' = { t with loop_ := h } := by
  rw [spuriousStep, Option.orElse_eq_orElse, Option.orElse_eq_or, Option.or_eq_some_iff] at hstep
  obtain hstep | ⟨-, hstep⟩ := hstep
  · obtain ⟨h, hh, rfl⟩ := Option.map_eq_some_iff.1 hstep
    exact .inl ⟨h, hh, rfl⟩
  · obtain ⟨h, hh, rfl⟩ := Option.map_eq_some_iff.1 hstep
    exact .inr ⟨h, hh, rfl⟩

theorem sound_create : create.Sound where
  tidReady := Handshake.sound_create
  loop_ := Handshake.sound_create
  fresh _ := rfl
  tid_ h := absurd rfl h
  called := nofun
  signals h := absurd rfl h
  waits h := absurd rfl h

theorem Sound.newThread (hs : t.Sound) (hstep : t.NewThread t') : t'.Sound := by
  cases hstep with
  | tid_ hstarted hunset =>
    exact ⟨hs.tidReady, hs.loop_, fun h ↦ absurd (hstarted.symm.trans h) nofun, fun _ ↦ rfl,
      hs.called, hs.signals, hs.waits⟩
  | tidReady hset h hh =>
    obtain ⟨hpast, hlock, hwaiter⟩ := Handshake.signallerStep_frame hh
    have hcalled : t.called ≠ true := fun h ↦ hpast (hs.called h)
    refine ⟨hs.tidReady.signallerStep hh, hs.loop_, fun h ↦ ?_, fun _ ↦ hset,
      fun h ↦ absurd h hcalled, hs.signals, fun h ↦ ?_⟩
    · rw [hs.fresh h] at hset
      cases hset
    · have hwait := hs.waits h
      obtain hwaiter | ⟨hasleep, -⟩ := hwaiter
      · exact hwaiter.trans hwait
      · cases hasleep.symm.trans hwait
  | called hstarted hset hpast huncalled =>
    exact ⟨hs.tidReady, hs.loop_, fun h ↦ absurd (hstarted.symm.trans h) nofun, hs.tid_,
      fun _ ↦ hpast, fun _ ↦ rfl, hs.waits⟩
  | loop_ hcalled h hh =>
    obtain ⟨-, -, hwaiter⟩ := Handshake.signallerStep_frame hh
    refine ⟨hs.tidReady, hs.loop_.signallerStep hh, fun h ↦ ?_, hs.tid_, hs.called,
      fun _ ↦ hcalled, fun hlock ↦ hs.waits ?_⟩
    · rw [hs.fresh h] at hcalled
      cases hcalled
    · obtain hwaiter | ⟨hasleep, -⟩ := hwaiter
      · exact hwaiter ▸ hlock
      · exact fun h ↦ by cases hasleep.symm.trans h

theorem Sound.starter (hs : t.Sound) (hstep : t.Starter t') : t'.Sound := by
  cases hstep with
  | started_ hnot =>
    rw [hs.fresh hnot]
    exact ⟨sound_create.tidReady, sound_create.loop_, fun h ↦ absurd h (ne_false_of_eq_true rfl),
      sound_create.tid_, sound_create.called, sound_create.signals, sound_create.waits⟩
  | tidReady hstarted h hh =>
    have hready := hs.tidReady.waiterStep hh
    have hwaiting : t.tidReady.waiter ≠ .past := by
      intro hpast
      rw [Handshake.waiterStep, hpast] at hh
      cases hh
    obtain ⟨w, -, rfl⟩ := Handshake.waiterStep_frame hh
    exact ⟨hready, hs.loop_, fun h ↦ absurd h (ne_false_of_eq_true hstarted), hs.tid_, hs.called,
      hs.signals, fun h ↦ absurd (hs.waits h) hwaiting⟩
  | loop_ hstarted hpast h hh =>
    have hloop := hs.loop_.waiterStep hh
    obtain ⟨w, -, rfl⟩ := Handshake.waiterStep_frame hh
    exact ⟨hs.tidReady, hloop, fun h ↦ absurd h (ne_false_of_eq_true hstarted), hs.tid_, hs.called,
      hs.signals, fun _ ↦ hpast⟩

theorem Sound.spurious (hs : t.Sound) (hstep : t.spuriousStep = some t') : t'.Sound := by
  obtain ⟨h, hh, rfl⟩ | ⟨h, hh, rfl⟩ := spurious_of_step hstep
  · have hready := hs.tidReady.spuriousStep hh
    obtain ⟨hasleep, rfl⟩ := Handshake.spuriousStep_frame hh
    refine ⟨hready, hs.loop_, fun h ↦ ?_, hs.tid_, hs.called, hs.signals, fun h ↦ ?_⟩
    · rw [hs.fresh h] at hasleep
      cases hasleep
    · cases hasleep.symm.trans (hs.waits h)
  · have hloop := hs.loop_.spuriousStep hh
    obtain ⟨hasleep, rfl⟩ := Handshake.spuriousStep_frame hh
    refine ⟨hs.tidReady, hloop, fun h ↦ ?_, hs.tid_, hs.called, hs.signals, fun _ ↦ hs.waits ?_⟩
    · rw [hs.fresh h] at hasleep
      cases hasleep
    · rw [hasleep]
      nofun

/-- Once `startLoop` has seen the loop, the new thread has come to run it. -/
theorem Sound.looping (hs : t.Sound) (hpast : t.loop_.waiter = .past) :
    t.tid_ = true ∧ t.called = true ∧ t.loop_.flag = true ∧ t.loop_.signaller = .past ∧
      t.newThreadStep = none := by
  have hsig := hs.loop_.past_of_seen hpast
  have hcalled := hs.signals (by rw [hsig]; nofun)
  have hready := hs.called hcalled
  have htid := hs.tid_ (by rw [hready]; nofun)
  refine ⟨htid, hcalled, (hs.loop_.seen (.inr hpast)).1, hsig, ?_⟩
  rw [newThreadStep, htid, hready, hcalled, hsig]
  cases t.started_ <;> rfl

theorem newThread_ready (htid : t.started_ = true ∧ t.tid_ = true)
    (hsig : t.tidReady.signaller ≠ .past)
    (hstep : ∃ h, t.tidReady.signallerStep tidInside = some h) :
    ∃ t', t.newThreadStep = some t' := by
  obtain ⟨h, hh⟩ := hstep
  rw [newThreadStep, htid.1, htid.2]
  exact ⟨_, by rw [if_neg nofun, if_neg nofun, if_pos hsig, hh, Option.map_some]⟩

theorem newThread_loop (hs : t.Sound) (hstarted : t.started_ = true) (hcalled : t.called = true)
    (hsig : t.loop_.signaller ≠ .past)
    (hstep : ∃ h, t.loop_.signallerStep loopInside = some h) : ∃ t', t.newThreadStep = some t' := by
  obtain ⟨h, hh⟩ := hstep
  have hready := hs.called hcalled
  have htid := hs.tid_ (by rw [hready]; nofun)
  rw [newThreadStep, hstarted, htid, hcalled]
  exact ⟨_, by rw [if_neg nofun, if_neg nofun, if_neg (not_not.2 hready), if_neg nofun, if_pos hsig,
    hh, Option.map_some]⟩

/-- Until `startLoop` has seen the loop, one of the two threads can go on without a spurious
wakeup. -/
theorem Sound.possible (hs : t.Sound) (hwait : t.loop_.waiter ≠ .past) :
    (∃ t', t.starterStep = some t') ∨ ∃ t', t.newThreadStep = some t' := by
  cases hstarted : t.started_ with
  | false => exact .inl ⟨_, by rw [starterStep, hstarted]; rfl⟩
  | true =>
    cases htid : t.tid_ with
    | false => exact .inr ⟨_, by rw [newThreadStep, hstarted, htid]; rfl⟩
    | true =>
      rw [starterStep, hstarted, if_neg nofun]
      by_cases hready : t.tidReady.waiter = .past
      · rw [if_neg (not_not.2 hready)]
        obtain hpast | ⟨-, hnotify⟩ := hs.tidReady.signaller_of_seen (.inr hready)
        · cases hcalled : t.called with
          | false =>
            refine .inr ⟨{ t with called := true }, ?_⟩
            rw [newThreadStep, hstarted, htid, hcalled, if_neg nofun, if_neg nofun,
              if_neg (not_not.2 hpast)]
            rfl
          | true =>
            obtain ⟨h, hh⟩ | ⟨hsig, hstep⟩ := hs.loop_.possible hwait
            · exact .inl ⟨_, by rw [hh, Option.map_some]⟩
            · exact .inr (newThread_loop hs hstarted hcalled hsig hstep)
        · refine .inr (newThread_ready ⟨hstarted, htid⟩ (by rw [hnotify]; nofun) ?_)
          rw [Handshake.signallerStep, hnotify]
          exact ⟨_, rfl⟩
      · rw [if_pos hready]
        obtain ⟨h, hh⟩ | ⟨hsig, hstep⟩ := hs.tidReady.possible hready
        · exact .inl ⟨_, by rw [hh, Option.map_some]⟩
        · exact .inr (newThread_ready ⟨hstarted, htid⟩ hsig hstep)

/-- `Thread::start` returns, and its mutex and its condition are gone, only when the new thread has
notified. Nothing in the code sees to that. -/
def Stays (t : StartingThread) : Prop :=
  t.tidReady.waiter = .unlock → t.tidReady.signaller = .past

instance : DecidablePred Stays := fun _ ↦ inferInstanceAs (Decidable (_ → _))

/-- Whoever has yet to notify finds the condition. -/
def Alive (t : StartingThread) : Prop := t.tidReady.waiter = .past → t.tidReady.signaller = .past

theorem Alive.newThread (h : t.Alive) (hstep : t.NewThread t') : t'.Alive := by
  cases hstep with
  | tidReady hset g hg =>
    obtain ⟨hsig, -, hwaiter⟩ := Handshake.signallerStep_frame hg
    intro hpast
    obtain hsame | ⟨-, hwoken⟩ := hwaiter
    · exact absurd (h (hsame.symm.trans hpast)) hsig
    · cases hwoken.symm.trans hpast
  | _ => exact h

theorem Alive.starter (h : t.Alive) (hstays : t.Stays) (hstep : t.Starter t') : t'.Alive := by
  cases hstep with
  | tidReady hstarted g hg =>
    intro hpast
    have hunlock := Handshake.waiter_of_past hg hpast
    obtain ⟨w, -, rfl⟩ := Handshake.waiterStep_frame hg
    exact hstays hunlock
  | _ => exact h

theorem Alive.spurious (h : t.Alive) (hstep : t.spuriousStep = some t') : t'.Alive := by
  obtain ⟨g, hg, rfl⟩ | ⟨g, hg, rfl⟩ := spurious_of_step hstep
  · obtain ⟨-, rfl⟩ := Handshake.spuriousStep_frame hg
    exact nofun
  · exact h

/-- If the starting thread would have to return too early, the new one can go on. -/
theorem Sound.possible_staying (hs : t.Sound) (hwait : t.loop_.waiter ≠ .past) :
    (t.Stays ∧ ∃ t', t.starterStep = some t') ∨ ∃ t', t.newThreadStep = some t' := by
  by_cases hstays : t.Stays
  · exact (hs.possible hwait).imp_left fun hstep ↦ ⟨hstays, hstep⟩
  · obtain ⟨hunlock, hsig⟩ := Classical.not_imp.1 hstays
    obtain hpast | ⟨-, hnotify⟩ := hs.tidReady.signaller_of_seen (.inl hunlock)
    · exact absurd hpast hsig
    · have hstarted : t.started_ = true := by
        by_contra hnot
        rw [hs.fresh (Bool.eq_false_iff.2 hnot)] at hunlock
        cases hunlock
      have htid : t.tid_ = true := hs.tid_ (by rw [hnotify]; nofun)
      refine .inr (newThread_ready ⟨hstarted, htid⟩ hsig ?_)
      rw [Handshake.signallerStep, hnotify]
      exact ⟨_, rfl⟩

/-- The steps that are left to both threads. -/
def budget (t : StartingThread) : ℕ :=
  (if t.started_ then 0 else 1) + (if t.tid_ then 0 else 1) + t.tidReady.budget tidInside +
    (if t.called then 0 else 1) + t.loop_.budget loopInside

theorem Sound.budget_newThread (hs : t.Sound) (hstep : t.NewThread t') :
    t'.budget + 1 ≤ t.budget := by
  rw [budget, budget]
  cases hstep with
  | tid_ hstarted hunset =>
    simp only [hunset, if_true, Bool.false_eq_true, if_false]
    omega
  | tidReady hset h hh =>
    have := hs.tidReady.budget_signallerStep hh
    dsimp only
    omega
  | called hstarted hset hpast huncalled =>
    simp only [huncalled, if_true, Bool.false_eq_true, if_false]
    omega
  | loop_ hcalled h hh =>
    have := hs.loop_.budget_signallerStep hh
    dsimp only
    omega

theorem budget_starter (hstep : t.Starter t') : t'.budget + 1 ≤ t.budget := by
  rw [budget, budget]
  cases hstep with
  | started_ hnot =>
    simp only [hnot, if_true, Bool.false_eq_true, if_false]
    omega
  | tidReady hstarted h hh =>
    have := Handshake.budget_waiterStep hh
    dsimp only
    omega
  | loop_ hstarted hpast h hh =>
    have := Handshake.budget_waiterStep hh
    dsimp only
    omega

theorem budget_spurious (hstep : t.spuriousStep = some t') : t'.budget ≤ t.budget + 2 := by
  rw [budget, budget]
  obtain ⟨h, hh, rfl⟩ | ⟨h, hh, rfl⟩ := spurious_of_step hstep
  · have : h.budget tidInside ≤ t.tidReady.budget tidInside + 2 := Handshake.budget_spuriousStep hh
    dsimp only
    omega
  · have : h.budget loopInside ≤ t.loop_.budget loopInside + 2 := Handshake.budget_spuriousStep hh
    dsimp only
    omega

section Refinement

variable (F : Type) (fd : WakeupFd)

def coarse (t : StartingThread) : EventLoopThread F where
  loop_ := t.loop_.flag
  exiting_ := false
  looping_ := false
  loop := EventLoop.start
  thread_ :=
    if t.started_ then
      if t.called then if t.loop_.flag then .looping_ else .publish else .callback_
    else .notStarted
  creator :=
    if t.started_ then if t.loop_.waiter = .past then .running else .wait else .start

variable {F}

/-- A step of either thread is one of the coarser thread, or none. -/
def Refines (t t' : StartingThread) : Prop :=
  t'.coarse F = t.coarse F ∨ ∃ a, EventLoopThread.step fd (t.coarse F) a = some (t'.coarse F)

theorem Sound.refines_newThread (hs : t.Sound) (hstep : t.NewThread t') :
    Refines (F := F) fd t t' := by
  cases hstep with
  | tid_ hstarted hunset => exact .inl rfl
  | tidReady hset h hh => exact .inl rfl
  | called hstarted hset hpast huncalled =>
    have hlock : t.loop_.signaller = .lock := by
      by_contra hlock
      cases huncalled.symm.trans (hs.signals hlock)
    have hflag : t.loop_.flag = false :=
      Bool.eq_false_iff.2 fun hflag ↦ (hs.loop_.flag.1 hflag).1 hlock
    refine .inr ⟨.thread, ?_⟩
    simp [EventLoopThread.step, EventLoopThread.threadStep, coarse, hstarted, huncalled, hflag]
  | loop_ hcalled h hh =>
    have hstarted : t.started_ = true := by
      by_contra hnot
      rw [hs.fresh (Bool.eq_false_iff.2 hnot)] at hcalled
      cases hcalled
    obtain ⟨-, -, hwaiter⟩ := Handshake.signallerStep_frame hh
    have hpast : h.waiter = .past ↔ t.loop_.waiter = .past := by
      obtain hwaiter | ⟨hasleep, hwoken⟩ := hwaiter
      · rw [hwaiter]
      · rw [hasleep, hwoken]
        simp
    obtain hflag | hflag := Handshake.signallerStep_flag hh
    · refine .inl ?_
      simp [coarse, hflag, hpast]
    · cases hold : t.loop_.flag with
      | true =>
        refine .inl ?_
        simp [coarse, hflag, hold, hpast]
      | false =>
        refine .inr ⟨.thread, ?_⟩
        simp [EventLoopThread.step, EventLoopThread.threadStep, coarse, hstarted, hcalled, hflag,
          hold, hpast]

theorem Sound.refines_starter (hs : t.Sound) (hstep : t.Starter t') :
    Refines (F := F) fd t t' := by
  have hs' := hs.starter hstep
  cases hstep with
  | started_ hnot =>
    refine .inr ⟨.creator, ?_⟩
    rw [hs.fresh hnot]
    rfl
  | tidReady hstarted h hh => exact .inl rfl
  | loop_ hstarted hpast h hh =>
    have hwaiting : t.loop_.waiter ≠ .past := by
      intro hpast
      rw [Handshake.waiterStep, hpast] at hh
      cases hh
    obtain ⟨w, -, rfl⟩ := Handshake.waiterStep_frame hh
    by_cases hw : w = .past
    · subst hw
      have hflag : t.loop_.flag = true := (hs'.loop_.seen (.inr rfl)).1
      refine .inr ⟨.creator, ?_⟩
      simp [EventLoopThread.step, EventLoopThread.creatorStep, coarse, hstarted, hwaiting, hflag]
    · refine .inl ?_
      simp [coarse, hwaiting, hw]

theorem refines_spurious (hstep : t.spuriousStep = some t') : Refines (F := F) fd t t' := by
  obtain ⟨h, hh, rfl⟩ | ⟨h, hh, rfl⟩ := spurious_of_step hstep
  · exact .inl rfl
  · obtain ⟨hasleep, rfl⟩ := Handshake.spuriousStep_frame hh
    refine .inl ?_
    simp [coarse, hasleep]

end Refinement

end StartingThread

open TcpServer in
/-- `start(cb)` under way. `hasCallback` is whether `cb` is one, `initialized` the loops that it has
been called with. -/
structure EventLoopThreadPool where
  numThreads_ : ℤ
  hasCallback : Bool
  threads_ : List StartingThread
  loops_ : List LoopId
  initialized : List LoopId
  returned : Bool
  deriving DecidableEq

namespace EventLoopThreadPool

open TcpServer Foundation.Run

def create (numThreads : ℤ) (hasCallback : Bool) : EventLoopThreadPool where
  numThreads_ := numThreads
  hasCallback := hasCallback
  threads_ := []
  loops_ := []
  initialized := []
  returned := false

/-- `spurious` wakes the thread that calls `start` without a notification. -/
inductive Step
  | starter
  | newThread (i : ℕ)
  | spurious
  deriving DecidableEq

variable (s : EventLoopThreadPool)

def current : Option StartingThread := s.threads_[s.loops_.length]?

def setCurrent (t : StartingThread) : EventLoopThreadPool :=
  { s with threads_ := s.threads_.set s.loops_.length t }

def starterStep : Option EventLoopThreadPool :=
  match s.current with
  | some t =>
    if t.loop_.waiter = .past then
      some { s with loops_ := s.loops_ ++ [.loops_ s.loops_.length] }
    else t.starterStep.map s.setCurrent
  | none =>
    if s.loops_.length < s.numThreads_ then some { s with threads_ := s.threads_ ++ [.create] }
    else if s.returned then none
    else some { s with
      initialized :=
        if s.numThreads_ = 0 ∧ s.hasCallback then s.initialized ++ [.baseLoop_] else s.initialized
      returned := true }

def newThreadStep (i : ℕ) : Option EventLoopThreadPool :=
  s.threads_[i]?.bind fun t ↦ t.newThreadStep.map fun t' ↦
    { s with
      threads_ := s.threads_.set i t'
      initialized :=
        if s.hasCallback && t'.called && !t.called then s.initialized ++ [.loops_ i]
        else s.initialized }

def step : Step → Option EventLoopThreadPool
  | .starter => s.starterStep
  | .newThread i => s.newThreadStep i
  | .spurious => s.current.bind fun t ↦ t.spuriousStep.map s.setCurrent

def expected (hasCallback : Bool) (n : ℕ) : List LoopId :=
  if hasCallback then (List.range n).map .loops_ else []

variable {s} {n : ℤ} {cb : Bool} {s' : EventLoopThreadPool} {t t' : StartingThread}

/-- The threads of the rounds before are in their loops, and nobody else has been started. -/
structure Starting (n : ℤ) (cb : Bool) (s : EventLoopThreadPool) : Prop where
  numThreads_ : s.numThreads_ = n
  hasCallback : s.hasCallback = cb
  sound : ∀ t ∈ s.threads_, t.Sound
  started : ∀ (i : ℕ) (t : StartingThread), i < s.loops_.length → s.threads_[i]? = some t →
    t.loop_.waiter = .past
  lower : s.loops_.length ≤ s.threads_.length
  upper : s.threads_.length ≤ s.loops_.length + 1 ∧ s.threads_.length ≤ n.toNat
  loops_ : s.loops_ = (List.range s.loops_.length).map .loops_
  initialized : s.returned = false → s.initialized =
    expected cb (s.loops_.length + if s.current.any StartingThread.called then 1 else 0)
  returned : s.returned = true → n.toNat ≤ s.loops_.length ∧
    s.initialized = expected cb n.toNat ++ if n = 0 ∧ cb = true then [.baseLoop_] else []

theorem starting_create (n : ℤ) (cb : Bool) : Starting n cb (create n cb) where
  numThreads_ := rfl
  hasCallback := rfl
  sound _ ht := absurd ht List.not_mem_nil
  started i _ hi := absurd hi (Nat.not_lt_zero i)
  lower := Nat.zero_le 0
  upper := ⟨Nat.zero_le 1, Nat.zero_le _⟩
  loops_ := rfl
  initialized _ := by cases cb <;> rfl
  returned h := absurd h Bool.false_ne_true

theorem expected_succ (cb : Bool) (k : ℕ) :
    expected cb (k + 1) = expected cb k ++ if cb then [.loops_ k] else [] := by
  cases cb
  · rfl
  · rw [expected, expected, List.range_succ, List.map_append]
    rfl

theorem threads_setCurrent (s : EventLoopThreadPool) (t : StartingThread) :
    (s.setCurrent t).threads_ = s.threads_.set s.loops_.length t := rfl

theorem current_setCurrent (h : s.current = some t) : (s.setCurrent t').current = some t' :=
  List.getElem?_set_self (List.getElem?_eq_some_iff.1 h).1

theorem Starting.current_sound (h : Starting n cb s) (hcur : s.current = some t) : t.Sound :=
  h.sound t (List.mem_of_getElem? hcur)

/-- While there is a thread to wait for, `start` has not returned. -/
theorem Starting.not_returned (h : Starting n cb s) (hcur : s.current = some t) :
    s.returned = false := by
  have hlt := (List.getElem?_eq_some_iff.1 hcur).1
  have hupper := h.upper.2
  exact Bool.eq_false_iff.2 fun hreturned ↦ by have := (h.returned hreturned).1; omega

theorem Starting.setCurrent (h : Starting n cb s) (hcur : s.current = some t) (hsound : t'.Sound)
    {initialized : List LoopId}
    (hinit : initialized = expected cb (s.loops_.length + if t'.called then 1 else 0)) :
    Starting n cb { s.setCurrent t' with initialized := initialized } where
  numThreads_ := h.numThreads_
  hasCallback := h.hasCallback
  sound u hu := by
    obtain hu | rfl := List.mem_or_eq_of_mem_set hu
    · exact h.sound u hu
    · exact hsound
  started i u hi hu := by
    have hother : s.threads_[i]? = some u := by
      have hne : s.loops_.length ≠ i := Nat.ne_of_gt hi
      rwa [threads_setCurrent, List.getElem?_set_ne hne] at hu
    exact h.started i u hi hother
  lower := by
    rw [threads_setCurrent, List.length_set]
    exact h.lower
  upper := by
    rw [threads_setCurrent, List.length_set]
    exact h.upper
  loops_ := h.loops_
  initialized _ := by
    rw [hinit]
    exact congrArg (fun c ↦ expected cb (s.loops_.length + if c then 1 else 0))
      (congrArg (Option.any StartingThread.called) (current_setCurrent hcur)).symm
  returned hreturned := absurd ((h.not_returned hcur).symm.trans hreturned) Bool.false_ne_true

theorem Starting.keeps_called (h : Starting n cb s) (hcur : s.current = some t) (hsound : t'.Sound)
    (hcalled : t'.called = t.called) : Starting n cb (s.setCurrent t') := by
  have hinit := h.initialized (h.not_returned hcur)
  rw [hcur, Option.any_some, ← hcalled] at hinit
  exact h.setCurrent hcur hsound hinit

/-- Only the thread that is being waited for is still on its way to its loop. -/
theorem Starting.newThread (h : Starting n cb s) {i : ℕ} (hstep : s.newThreadStep i = some s') :
    ∃ t t', s.current = some t ∧ t.newThreadStep = some t' ∧
      s' = { s.setCurrent t' with
        initialized := if s.hasCallback && t'.called && !t.called then
          s.initialized ++ [.loops_ s.loops_.length] else s.initialized } := by
  obtain ⟨t, ht, hstep⟩ := Option.bind_eq_some_iff.1 hstep
  obtain ⟨t', ht', rfl⟩ := Option.map_eq_some_iff.1 hstep
  have hle : ¬ i < s.loops_.length := fun hlt ↦ by
    have hdone := ((h.sound t (List.mem_of_getElem? ht)).looping (h.started i t hlt ht)).2.2.2.2
    cases hdone.symm.trans ht'
  obtain rfl : i = s.loops_.length := by
    have hlt := (List.getElem?_eq_some_iff.1 ht).1
    have hupper := h.upper.1
    omega
  exact ⟨t, t', ht, ht', rfl⟩

theorem Starting.newThread_step (h : Starting n cb s) {i : ℕ}
    (hstep : s.newThreadStep i = some s') : Starting n cb s' := by
  obtain ⟨t, t', hcur, ht', rfl⟩ := h.newThread hstep
  have hthread := StartingThread.newThread_of_step ht'
  have hinit := h.initialized (h.not_returned hcur)
  rw [hcur, Option.any_some] at hinit
  refine h.setCurrent hcur ((h.current_sound hcur).newThread hthread) ?_
  have hsame : t'.called = t.called → (if s.hasCallback && t'.called && !t.called then
      s.initialized ++ [.loops_ s.loops_.length] else s.initialized) =
        expected cb (s.loops_.length + if t'.called then 1 else 0) := by
    intro hcalled
    rw [if_neg (by rw [hcalled]; cases t.called <;> simp), hinit, hcalled]
  cases hthread with
  | called hstarted hset hpast huncalled =>
    rw [huncalled] at hinit ⊢
    rw [hinit, h.hasCallback, if_pos (c := true = true) rfl, expected_succ]
    cases cb
    · exact (List.append_nil _).symm
    · rfl
  | _ => exact hsame rfl

theorem Starting.length_of_none (h : Starting n cb s) (hcur : s.current = none) :
    s.threads_.length = s.loops_.length :=
  Nat.le_antisymm (List.getElem?_eq_none_iff.1 hcur) h.lower

theorem Starting.current_add (h : Starting n cb s) (hcur : s.current = none) :
    current { s with threads_ := s.threads_ ++ [.create] } = some .create := by
  rw [current, ← h.length_of_none hcur]
  exact List.getElem?_concat_length

theorem Starting.current_push (h : Starting n cb s) :
    current { s with loops_ := s.loops_ ++ [.loops_ s.loops_.length] } = none := by
  rw [current]
  exact List.getElem?_eq_none (by rw [List.length_append]; exact h.upper.1)

/-- The loop of the thread that `startLoop` has waited for is handed out. -/
theorem Starting.push (h : Starting n cb s) (hcur : s.current = some t)
    (hpast : t.loop_.waiter = .past) :
    Starting n cb { s with loops_ := s.loops_ ++ [.loops_ s.loops_.length] } := by
  have hlt := (List.getElem?_eq_some_iff.1 hcur).1
  have hupper := h.upper
  have hlength : (s.loops_ ++ [LoopId.loops_ s.loops_.length]).length = s.loops_.length + 1 :=
    List.length_append
  have hinit := h.initialized (h.not_returned hcur)
  have hcalled := ((h.current_sound hcur).looping hpast).2.1
  rw [hcur, Option.any_some, hcalled] at hinit
  refine ⟨h.numThreads_, h.hasCallback, h.sound, fun i u hi hu ↦ ?_, ?_, ?_, ?_, fun _ ↦ ?_,
    fun hreturned ↦ absurd ((h.not_returned hcur).symm.trans hreturned) Bool.false_ne_true⟩
  · dsimp only at hi hu
    rw [hlength] at hi
    by_cases hlast : i = s.loops_.length
    · subst hlast
      obtain rfl := Option.some.inj (hcur.symm.trans hu)
      exact hpast
    · exact h.started i u (by omega) hu
  · dsimp only
    omega
  · dsimp only
    omega
  · dsimp only
    rw [hlength, List.range_succ, List.map_append, ← h.loops_]
    rfl
  · rw [h.current_push]
    dsimp only
    rw [hlength]
    exact hinit

theorem Starting.add (h : Starting n cb s) (hcur : s.current = none)
    (hmore : s.loops_.length < s.numThreads_) :
    Starting n cb { s with threads_ := s.threads_ ++ [.create] } := by
  have hlength := h.length_of_none hcur
  have hnum := h.numThreads_
  have hadded : (s.threads_ ++ [StartingThread.create]).length = s.threads_.length + 1 :=
    List.length_append
  have hnot : s.returned = false :=
    Bool.eq_false_iff.2 fun hreturned ↦ by have := (h.returned hreturned).1; omega
  have hinit := h.initialized hnot
  rw [hcur] at hinit
  refine ⟨h.numThreads_, h.hasCallback, fun t ht ↦ ?_, fun i u hi hu ↦ ?_, ?_, ?_, h.loops_,
    fun _ ↦ ?_, fun hreturned ↦ absurd (hnot.symm.trans hreturned) Bool.false_ne_true⟩
  · obtain ht | ht := List.mem_append.1 ht
    · exact h.sound t ht
    · rw [List.mem_singleton.1 ht]
      exact StartingThread.sound_create
  · dsimp only at hi hu
    rw [List.getElem?_append_left (by omega)] at hu
    exact h.started i u hi hu
  · dsimp only
    omega
  · dsimp only
    omega
  · rw [h.current_add hcur]
    exact hinit

theorem Starting.finish (h : Starting n cb s) (hcur : s.current = none)
    (hmore : ¬ s.loops_.length < s.numThreads_) (hnot : ¬ s.returned = true) :
    Starting n cb { s with
      initialized :=
        if s.numThreads_ = 0 ∧ s.hasCallback then s.initialized ++ [.baseLoop_] else s.initialized
      returned := true } := by
  have hlength := h.length_of_none hcur
  have hnum := h.numThreads_
  have hupper := h.upper.2
  have hn : n.toNat = s.loops_.length := by omega
  have hinit := h.initialized (Bool.eq_false_iff.2 hnot)
  rw [hcur, Option.any_none, if_neg Bool.false_ne_true, Nat.add_zero] at hinit
  refine ⟨h.numThreads_, h.hasCallback, h.sound, h.started, h.lower, h.upper, h.loops_, nofun,
    fun _ ↦ ⟨hn.le, ?_⟩⟩
  dsimp only
  rw [hn, hinit, hnum, h.hasCallback]
  split_ifs
  · rfl
  · exact (List.append_nil _).symm

inductive Started (s : EventLoopThreadPool) : EventLoopThreadPool → Prop
  | push (t : StartingThread) (hcur : s.current = some t) (hpast : t.loop_.waiter = .past) :
      Started s { s with loops_ := s.loops_ ++ [.loops_ s.loops_.length] }
  | starter (t t' : StartingThread) (hcur : s.current = some t) (hstarter : t.Starter t') :
      Started s (s.setCurrent t')
  | add (hcur : s.current = none) (hmore : s.loops_.length < s.numThreads_) :
      Started s { s with threads_ := s.threads_ ++ [.create] }
  | finish (hcur : s.current = none) (hmore : ¬ s.loops_.length < s.numThreads_)
      (hnot : ¬ s.returned = true) :
      Started s { s with
        initialized :=
          if s.numThreads_ = 0 ∧ s.hasCallback then s.initialized ++ [.baseLoop_] else s.initialized
        returned := true }

theorem started_of_step (hstep : s.starterStep = some s') : s.Started s' := by
  rw [starterStep] at hstep
  split at hstep
  · next t hcur =>
    split_ifs at hstep with hpast
    · exact Option.some.inj hstep ▸ .push t hcur hpast
    · obtain ⟨t', ht', rfl⟩ := Option.map_eq_some_iff.1 hstep
      exact .starter t t' hcur (StartingThread.starter_of_step ht')
  · next hcur =>
    by_cases hmore : s.loops_.length < s.numThreads_
    · rw [if_pos hmore] at hstep
      exact Option.some.inj hstep ▸ .add hcur hmore
    · rw [if_neg hmore] at hstep
      by_cases hreturned : s.returned = true
      · rw [if_pos hreturned] at hstep
        cases hstep
      · rw [if_neg hreturned] at hstep
        exact Option.some.inj hstep ▸ .finish hcur hmore hreturned

theorem Starting.starter_step (h : Starting n cb s) (hstep : s.Started s') :
    Starting n cb s' := by
  cases hstep with
  | push t hcur hpast => exact h.push hcur hpast
  | starter t t' hcur hstarter =>
    have hcalled : t'.called = t.called := by cases hstarter <;> rfl
    exact h.keeps_called hcur ((h.current_sound hcur).starter hstarter) hcalled
  | add hcur hmore => exact h.add hcur hmore
  | finish hcur hmore hnot => exact h.finish hcur hmore hnot

theorem Starting.step (h : Starting n cb s) {a : Step} (hstep : s.step a = some s') :
    Starting n cb s' := by
  cases a with
  | starter => exact h.starter_step (started_of_step hstep)
  | newThread i => exact h.newThread_step hstep
  | spurious =>
    obtain ⟨t, hcur, hstep⟩ := Option.bind_eq_some_iff.1 hstep
    obtain ⟨t', ht', rfl⟩ := Option.map_eq_some_iff.1 hstep
    refine h.keeps_called hcur ((h.current_sound hcur).spurious ht') ?_
    obtain ⟨g, -, rfl⟩ | ⟨g, -, rfl⟩ := StartingThread.spurious_of_step ht' <;> rfl

/-- The steps that are left of `start`, and of the threads that it has not yet waited for. -/
def budget (s : EventLoopThreadPool) : ℕ :=
  23 * (s.numThreads_.toNat - s.threads_.length) +
    s.current.elim 0 (fun t ↦ t.budget + 1) + if s.returned then 0 else 1

theorem budget_of_current (hcur : s.current = some t) :
    s.budget = 23 * (s.numThreads_.toNat - s.threads_.length) + (t.budget + 1) +
      if s.returned then 0 else 1 := by
  rw [budget, hcur, Option.elim_some]

theorem budget_setCurrent (hcur : s.current = some t) (t' : StartingThread)
    (initialized : List LoopId) : budget { s.setCurrent t' with initialized := initialized } =
      23 * (s.numThreads_.toNat - s.threads_.length) + (t'.budget + 1) +
        if s.returned then 0 else 1 := by
  have hcur' : current { s.setCurrent t' with initialized := initialized } = some t' :=
    current_setCurrent hcur
  rw [budget_of_current hcur']
  dsimp only
  rw [threads_setCurrent, List.length_set]
  rfl

theorem Starting.budget_starter (h : Starting n cb s) (hstep : s.Started s') :
    s'.budget + 1 ≤ s.budget := by
  cases hstep with
  | push t hcur hpast =>
    rw [budget_of_current hcur, EventLoopThreadPool.budget, h.current_push, Option.elim_none]
    dsimp only
    omega
  | starter t t' hcur hstarter =>
    have hpaid := StartingThread.budget_starter hstarter
    have hset : (s.setCurrent t').budget = _ := budget_setCurrent hcur t' s.initialized
    rw [hset, budget_of_current hcur]
    omega
  | add hcur hmore =>
    have hlength := h.length_of_none hcur
    have hbudget : StartingThread.create.budget = 21 := rfl
    rw [EventLoopThreadPool.budget, EventLoopThreadPool.budget, hcur, h.current_add hcur,
      Option.elim_none, Option.elim_some, hbudget]
    dsimp only
    rw [List.length_append, List.length_singleton]
    omega
  | finish hcur hmore hnot =>
    have hcur' : current { s with
        initialized :=
          if s.numThreads_ = 0 ∧ s.hasCallback then s.initialized ++ [.baseLoop_] else s.initialized
        returned := true } = none := hcur
    rw [EventLoopThreadPool.budget, EventLoopThreadPool.budget, hcur, hcur', Option.elim_none,
      if_neg hnot]
    exact Nat.le_refl _

theorem Starting.budget_step (h : Starting n cb s) {a : Step} (hstep : s.step a = some s') :
    s'.budget + 1 ≤ s.budget + if a = .spurious then 3 else 0 := by
  cases a with
  | starter => exact h.budget_starter (started_of_step hstep)
  | newThread i =>
    obtain ⟨t, t', hcur, ht', rfl⟩ := h.newThread hstep
    have hpaid := (h.current_sound hcur).budget_newThread (StartingThread.newThread_of_step ht')
    rw [budget_setCurrent hcur, budget_of_current hcur,
      if_neg (nofun : Step.newThread i ≠ .spurious)]
    omega
  | spurious =>
    obtain ⟨t, hcur, hstep⟩ := Option.bind_eq_some_iff.1 hstep
    obtain ⟨t', ht', rfl⟩ := Option.map_eq_some_iff.1 hstep
    have hpaid := StartingThread.budget_spurious ht'
    have hset : (s.setCurrent t').budget = _ := budget_setCurrent hcur t' s.initialized
    rw [hset, budget_of_current hcur, if_pos rfl]
    omega

/-- No starting thread leaves `Thread::start` before the new one has notified. -/
def Waits (s : EventLoopThreadPool) (a : Step) : Prop :=
  a = .starter → ∀ t ∈ s.current, t.Stays

instance (s : EventLoopThreadPool) (a : Step) : Decidable (Waits s a) :=
  inferInstanceAs (Decidable (_ → _))

/-- Unless `start` has returned, something other than a spurious wakeup can happen, and nobody need
leave `Thread::start` too early for it. -/
theorem Starting.possible (h : Starting n cb s) (hnot : s.returned = false) :
    ∃ a s', a ≠ .spurious ∧ Waits s a ∧ s.step a = some s' := by
  cases hcur : s.current with
  | none =>
    have hwaits : Waits s .starter := fun _ t ht ↦ by cases hcur.symm.trans ht
    refine ⟨.starter, ?_⟩
    rw [EventLoopThreadPool.step, starterStep, hcur]
    dsimp only
    split_ifs with hmore hreturned
    · exact ⟨_, nofun, hwaits, rfl⟩
    · cases hnot.symm.trans hreturned
    · exact ⟨_, nofun, hwaits, rfl⟩
    · exact ⟨_, nofun, hwaits, rfl⟩
  | some t =>
    have hwaits (hstays : t.Stays) : Waits s .starter := fun _ u hu ↦ by
      obtain rfl := Option.some.inj (hcur.symm.trans hu)
      exact hstays
    by_cases hpast : t.loop_.waiter = .past
    · have hready : t.tidReady.waiter = .past :=
        (h.current_sound hcur).waits (by rw [hpast]; nofun)
      have hstays : t.Stays := fun hunlock ↦ by cases hunlock.symm.trans hready
      refine ⟨.starter, { s with loops_ := s.loops_ ++ [.loops_ s.loops_.length] }, nofun,
        hwaits hstays, ?_⟩
      rw [EventLoopThreadPool.step, starterStep, hcur]
      exact if_pos hpast
    · obtain ⟨hstays, t', ht'⟩ | ⟨t', ht'⟩ := (h.current_sound hcur).possible_staying hpast
      · refine ⟨.starter, s.setCurrent t', nofun, hwaits hstays, ?_⟩
        rw [EventLoopThreadPool.step, starterStep, hcur]
        dsimp only
        rw [if_neg hpast, ht', Option.map_some]
      · refine ⟨.newThread s.loops_.length, { s with
          threads_ := s.threads_.set s.loops_.length t'
          initialized := if s.hasCallback && t'.called && !t.called then
            s.initialized ++ [.loops_ s.loops_.length] else s.initialized }, nofun, nofun, ?_⟩
        rw [current] at hcur
        rw [EventLoopThreadPool.step, EventLoopThreadPool.newThreadStep, hcur, Option.bind_some,
          ht', Option.map_some]

/-- What a step does to the thread that it is about. -/
def Moved (t t' : StartingThread) : Step → Prop
  | .starter => t.Starter t'
  | .newThread _ => t.NewThread t'
  | .spurious => t.spuriousStep = some t'

/-- What a new thread has and the steps of the current one keep, all threads have. -/
theorem Starting.threads_step {P : StartingThread → Prop} (h : Starting n cb s)
    (hP : ∀ t ∈ s.threads_, P t) (hcreate : P .create) {a : Step}
    (hmoved : ∀ t t', s.current = some t → P t → Moved t t' a → P t')
    (hstep : s.step a = some s') : ∀ t ∈ s'.threads_, P t := by
  have hset {t t' : StartingThread} (hcur : s.current = some t) (ht' : Moved t t' a) :
      ∀ u ∈ s.threads_.set s.loops_.length t', P u := by
    intro u hu
    obtain hu | rfl := List.mem_or_eq_of_mem_set hu
    · exact hP u hu
    · exact hmoved t _ hcur (hP t (List.mem_of_getElem? hcur)) ht'
  cases a with
  | starter =>
    cases started_of_step hstep with
    | push t hcur hpast => exact hP
    | starter t t' hcur hstarter => exact hset hcur hstarter
    | add hcur hmore =>
      intro u hu
      obtain hu | hu := List.mem_append.1 hu
      · exact hP u hu
      · rw [List.mem_singleton.1 hu]
        exact hcreate
    | finish hcur hmore hnot => exact hP
  | newThread i =>
    obtain ⟨t, t', hcur, ht', rfl⟩ := h.newThread hstep
    exact hset hcur (StartingThread.newThread_of_step ht')
  | spurious =>
    obtain ⟨t, hcur, hstep⟩ := Option.bind_eq_some_iff.1 hstep
    obtain ⟨t', ht', rfl⟩ := Option.map_eq_some_iff.1 hstep
    exact hset hcur ht'

theorem alive_step (h : Starting n cb s) (halive : ∀ t ∈ s.threads_, t.Alive) {a : Step}
    (hwaits : Waits s a) (hstep : s.step a = some s') : ∀ t ∈ s'.threads_, t.Alive := by
  refine h.threads_step halive nofun (fun t t' hcur ht hmoved ↦ ?_) hstep
  cases a with
  | starter => exact ht.starter (hwaits rfl t hcur) hmoved
  | newThread i => exact ht.newThread hmoved
  | spurious => exact ht.spurious hmoved

theorem Starting.run {schedule : List Step} (h : Starting n cb s)
    (hrun : Foundation.Run.run EventLoopThreadPool.step s schedule = some s') : Starting n cb s' :=
  run_inv (fun _ _ _ h hstep ↦ h.step hstep) h hrun

/-- However the threads take turns, as long as no thread leaves `Thread::start`, with the condition
on its stack, before it has been notified: nobody notifies a condition that is gone, and `start`
returns with the loops of all threads, each already run by its thread and set up by `cb`; only
spurious wakeups can put that off. -/
theorem start_returns (n : ℤ) (cb : Bool) {schedule : List Step} {s : EventLoopThreadPool}
    (hrun : run step (create n cb) schedule = some s)
    (hwaits : Along step Waits (create n cb) schedule) :
    schedule.length ≤ 23 * n.toNat + 1 + 3 * schedule.countP (· = .spurious) ∧
    (∀ t ∈ s.threads_, t.tidReady.signaller ≠ .past → t.tidReady.waiter ≠ .past) ∧
    (s.returned = false → ∃ a s', a ≠ .spurious ∧ Waits s a ∧ s.step a = some s') ∧
    s.loops_ = (List.range s.loops_.length).map .loops_ ∧
    (∀ i < s.loops_.length, ∃ t, s.threads_[i]? = some t ∧ t.tid_ = true ∧ t.called = true ∧
      t.loop_.flag = true ∧ t.newThreadStep = none) ∧
    (s.returned = true → s.loops_.length = n.toNat ∧
      s.initialized = expected cb n.toNat ++ if n = 0 ∧ cb = true then [.baseLoop_] else []) := by
  have h := (starting_create n cb).run hrun
  have halive : ∀ t ∈ s.threads_, t.Alive := by
    have hkept : ∀ s a s', Waits s a → (Starting n cb s ∧ ∀ t ∈ s.threads_, t.Alive) →
        step s a = some s' → Starting n cb s' ∧ ∀ t ∈ s'.threads_, t.Alive :=
      fun _ _ _ hwaits h hstep ↦ ⟨h.1.step hstep, alive_step h.1 h.2 hwaits hstep⟩
    exact (run_inv_along hkept ⟨starting_create n cb, fun _ ht ↦ absurd ht List.not_mem_nil⟩
      hwaits hrun).2
  refine ⟨?_, fun t ht hsig hpast ↦ hsig (halive t ht hpast), h.possible, h.loops_, fun i hi ↦ ?_,
    fun hreturned ↦ ?_⟩
  · have hpay : ∀ s a t, Starting n cb s → step s a = some t → Starting n cb t ∧
        t.budget + 1 ≤ s.budget + if decide (a = .spurious) then 3 else 0 :=
      fun s a t h hstep ↦ ⟨h.step hstep, by simpa using h.budget_step hstep⟩
    have hpaid := length_le_of_budget hpay (starting_create n cb) hrun
    have hbudget : (create n cb).budget = 23 * n.toNat + 1 := rfl
    omega
  · have hlt : i < s.threads_.length := Nat.lt_of_lt_of_le hi h.lower
    have ht : s.threads_[i]? = some s.threads_[i] := List.getElem?_eq_getElem hlt
    obtain ⟨htid, hcalled, hflag, -, hdone⟩ :=
      (h.sound _ (List.getElem_mem hlt)).looping (h.started i _ hi ht)
    exact ⟨_, ht, htid, hcalled, hflag, hdone⟩
  · obtain ⟨hle, hinit⟩ := h.returned hreturned
    have hlower := h.lower
    have hupper := h.upper.2
    exact ⟨by omega, hinit⟩

/-- One thread, which is waited for asleep, once woken for nothing. -/
def slowStart : List Step :=
  [.starter, .starter, .starter, .starter, .newThread 0, .spurious, .starter, .starter,
    .newThread 0, .newThread 0, .newThread 0, .newThread 0, .starter, .starter, .starter, .starter,
    .starter, .newThread 0, .newThread 0, .newThread 0, .newThread 0, .newThread 0, .starter,
    .starter, .starter, .starter, .starter]

theorem one_thread_started : ∃ s, run step (create 1 true) slowStart = some s ∧
    s.returned = true ∧ slowStart.length ≤ 23 * (1 : ℤ).toNat + 1 + 3 *
      slowStart.countP (· = .spurious) ∧ s.initialized = [.loops_ 0] := by
  obtain ⟨s, hrun, hreturned⟩ : ∃ s, run step (create 1 true) slowStart = some s ∧
      s.returned = true := ⟨_, rfl, rfl⟩
  obtain ⟨hbound, -, -, -, -, hdone⟩ := start_returns 1 true hrun (by decide)
  exact ⟨s, hrun, hreturned, hbound, (hdone hreturned).2⟩

/-- `Thread::start` may be back, and the condition on its stack gone, when it is notified. -/
example : ∃ s t, run step (create 1 true) [.starter, .starter, .newThread 0, .newThread 0,
    .newThread 0, .newThread 0, .starter, .starter, .starter] = some s ∧ s.current = some t ∧
      t.tidReady.waiter = .past ∧ t.tidReady.signaller = .notify :=
  ⟨_, _, rfl, rfl, rfl, rfl⟩

section Refinement

variable {F : Type} {fd : WakeupFd}

/-- What the thread has done so far is a run of the coarser one. -/
def Refined (F : Type) (fd : WakeupFd) (t : StartingThread) : Prop :=
  ∃ actions, Foundation.Run.run (EventLoopThread.step fd) EventLoopThread.create actions =
    some (t.coarse F)

theorem Refined.next (h : Refined F fd t) (hstep : StartingThread.Refines (F := F) fd t t') :
    Refined F fd t' := by
  obtain ⟨actions, hrun⟩ := h
  obtain hsame | ⟨a, ha⟩ := hstep
  · exact ⟨actions, hrun.trans (congrArg some hsame.symm)⟩
  · exact ⟨actions ++ [a], by rw [run_append, hrun, Option.bind_some, run_cons, ha]; rfl⟩

theorem refined_step (h : Starting n cb s) (hrefined : ∀ t ∈ s.threads_, Refined F fd t) {a : Step}
    (hstep : s.step a = some s') : ∀ t ∈ s'.threads_, Refined F fd t := by
  refine h.threads_step hrefined ⟨[], rfl⟩ (fun t t' hcur ht hmoved ↦ ?_) hstep
  have hsound := h.current_sound hcur
  cases a with
  | starter => exact ht.next (hsound.refines_starter fd hmoved)
  | newThread i => exact ht.next (hsound.refines_newThread fd hmoved)
  | spurious => exact ht.next (StartingThread.refines_spurious fd hmoved)

/-- With mutexes, conditions and spurious wakeups, starting a thread does nothing that it does not
do where `startLoop` just waits for `loop_`. -/
theorem startLoop_refines (fd : WakeupFd) (n : ℤ) (cb : Bool) {schedule : List Step}
    {s : EventLoopThreadPool} (hrun : run step (create n cb) schedule = some s) :
    ∀ t ∈ s.threads_, Refined F fd t := by
  have hkept : ∀ s a s', (Starting n cb s ∧ ∀ t ∈ s.threads_, Refined F fd t) →
      step s a = some s' → Starting n cb s' ∧ ∀ t ∈ s'.threads_, Refined F fd t :=
    fun _ _ _ h hstep ↦ ⟨h.1.step hstep, refined_step h.1 h.2 hstep⟩
  exact (run_inv hkept ⟨starting_create n cb, fun _ ht ↦ absurd ht List.not_mem_nil⟩ hrun).2

theorem slowStart_refines : ∃ s, run step (create 1 true) slowStart = some s ∧
    ∀ t ∈ s.threads_, Refined ℕ .eventfd t := by
  obtain ⟨s, hrun⟩ : ∃ s, run step (create 1 true) slowStart = some s := ⟨_, rfl⟩
  exact ⟨s, hrun, startLoop_refines .eventfd 1 true hrun⟩

end Refinement

end EventLoopThreadPool

end CppAiService
