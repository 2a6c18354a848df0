import CppAiService.Foundation.Run
import Mathlib.Algebra.Order.Ring.Int

namespace CppAiService

/-- What `createWakeupFd` makes: an `eventfd` on Linux, else a pipe that holds `room + 1`
messages of eight bytes. -/
inductive WakeupFd
  | eventfd
  | pipe (room : ℕ)

/-- A write that finds no room is only logged. -/
def WakeupFd.write (n : ℕ) : WakeupFd → ℕ
  | .eventfd => if n < 2 ^ 64 - 2 then n + 1 else n
  | .pipe room => if n ≤ room then n + 1 else n

def WakeupFd.read (n : ℕ) : WakeupFd → ℕ
  | .eventfd => 0
  | .pipe _ => n - 1

theorem WakeupFd.write_pos (n : ℕ) (fd : WakeupFd) : 0 < fd.write n := by
  cases fd with
  | eventfd =>
    rw [write]
    split_ifs <;> omega
  | pipe room =>
    rw [write]
    split_ifs <;> omega

inductive ActiveChannel
  | wakeupChannel_
  | other
  deriving DecidableEq

/-- Where the loop's thread is. In a callback or a functor the flag says that
`queueInLoop` has pushed and not yet gone on. -/
inductive LoopAt (F : Type)
  | poll
  | dispatch (activeChannels_ : List ActiveChannel)
  | callback (activeChannels_ : List ActiveChannel) (queueing : Bool)
  | swap
  | execute (functors : List F)
  | functor (functors : List F) (queueing : Bool)
  | test
  | stopped

/-- The loop as its own thread and the others share it. `wakeups` is what can be read from the
wakeup fd, `waking` counts the other threads between their push and their `wakeup`. The last
three fields record what happened: the functors ever pushed, those executed, and the
completed passes of `doPendingFunctors`. -/
structure EventLoop (F : Type) where
  quit_ : Bool
  callingPendingFunctors_ : Bool
  pendingFunctors_ : List F
  wakeups : ℕ
  pc : LoopAt F
  waking : ℕ
  pushed : List F
  executed : List F
  passes : ℕ

namespace EventLoop

variable {F : Type}

def start : EventLoop F where
  quit_ := false
  callingPendingFunctors_ := false
  pendingFunctors_ := []
  wakeups := 0
  pc := .test
  waking := 0
  pushed := []
  executed := []
  passes := 0

inductive Action (F : Type)
  | poll (activeChannels_ : List ActiveChannel)
  | advance
  | queueInLoop (cb : F)
  | leave
  | otherQueueInLoop (cb : F)
  | otherContinue
  | quit
  | wakeup

variable (fd : WakeupFd) (s : EventLoop F)

def wakeup : EventLoop F := { s with wakeups := fd.write s.wakeups }

def push (cb : F) : EventLoop F :=
  { s with
    pendingFunctors_ := s.pendingFunctors_ ++ [cb]
    pushed := s.pushed ++ [cb] }

def wakeupIfNeeded (isInLoopThread : Bool) : EventLoop F :=
  if !isInLoopThread || s.callingPendingFunctors_ then s.wakeup fd else s

/-- The next step of the loop's thread, where it has no choice. -/
def advance : Option (EventLoop F) :=
  match s.pc with
  | .dispatch (.wakeupChannel_ :: rest) =>
    some { s with wakeups := fd.read s.wakeups, pc := .dispatch rest }
  | .dispatch (.other :: rest) => some { s with pc := .callback rest false }
  | .callback rest true => some ({ s with pc := .callback rest false }.wakeupIfNeeded fd true)
  | .dispatch [] => some { s with callingPendingFunctors_ := true, pc := .swap }
  | .swap => some { s with pendingFunctors_ := [], pc := .execute s.pendingFunctors_ }
  | .execute (cb :: rest) =>
    some { s with executed := s.executed ++ [cb], pc := .functor rest false }
  | .functor rest true => some ({ s with pc := .functor rest false }.wakeupIfNeeded fd true)
  | .execute [] =>
    some { s with callingPendingFunctors_ := false, passes := s.passes + 1, pc := .test }
  | .test => some { s with pc := if s.quit_ then .stopped else .poll }
  | .poll | .callback _ false | .functor _ false | .stopped => none

/-- `poll` returns with some of the channels that are ready, or none after its time is up. -/
def step : Action F → Option (EventLoop F)
  | .poll activeChannels =>
    match s.pc with
    | .poll =>
      if .wakeupChannel_ ∈ activeChannels → 0 < s.wakeups then
        some { s with pc := .dispatch activeChannels }
      else none
    | _ => none
  | .advance => s.advance fd
  | .queueInLoop cb =>
    match s.pc with
    | .callback rest false => some ({ s with pc := .callback rest true }.push cb)
    | .functor rest false => some ({ s with pc := .functor rest true }.push cb)
    | _ => none
  | .leave =>
    match s.pc with
    | .callback rest false => some { s with pc := .dispatch rest }
    | .functor rest false => some { s with pc := .execute rest }
    | _ => none
  | .otherQueueInLoop cb => some ({ s with waking := s.waking + 1 }.push cb)
  | .otherContinue =>
    if 0 < s.waking then some ({ s with waking := s.waking - 1 }.wakeupIfNeeded fd false)
    else none
  | .quit => some { s with quit_ := true }
  | .wakeup => some (s.wakeup fd)

variable {fd : WakeupFd} {s t : EventLoop F}

inductive Running : (Bool → LoopAt F) → Prop
  | callback (rest : List ActiveChannel) : Running (.callback rest)
  | functor (rest : List F) : Running (.functor rest)

inductive Turn (fd : WakeupFd) (s : EventLoop F) : Action F → EventLoop F → Prop
  | polled (active : List ActiveChannel) (hpc : s.pc = .poll)
      (hready : .wakeupChannel_ ∈ active → 0 < s.wakeups) :
      Turn fd s (.poll active) { s with pc := .dispatch active }
  | read (rest : List ActiveChannel) (hpc : s.pc = .dispatch (.wakeupChannel_ :: rest)) :
      Turn fd s .advance { s with wakeups := fd.read s.wakeups, pc := .dispatch rest }
  | entered (rest : List ActiveChannel) (hpc : s.pc = .dispatch (.other :: rest)) :
      Turn fd s .advance { s with pc := .callback rest false }
  | dispatched (hpc : s.pc = .dispatch []) :
      Turn fd s .advance { s with callingPendingFunctors_ := true, pc := .swap }
  | swapped (hpc : s.pc = .swap) :
      Turn fd s .advance { s with pendingFunctors_ := [], pc := .execute s.pendingFunctors_ }
  | called (cb : F) (rest : List F) (hpc : s.pc = .execute (cb :: rest)) :
      Turn fd s .advance { s with executed := s.executed ++ [cb], pc := .functor rest false }
  | finished (hpc : s.pc = .execute []) :
      Turn fd s .advance
        { s with callingPendingFunctors_ := false, passes := s.passes + 1, pc := .test }
  | tested (pc : LoopAt F) (hpc : s.pc = .test)
      (hnext : (s.quit_ = true ∧ pc = .stopped) ∨ (s.quit_ = false ∧ pc = .poll)) :
      Turn fd s .advance { s with pc := pc }
  | queued {running : Bool → LoopAt F} (hrunning : Running running) (cb : F)
      (hpc : s.pc = running false) :
      Turn fd s (.queueInLoop cb) ({ s with pc := running true }.push cb)
  | woken {running : Bool → LoopAt F} (hrunning : Running running) (hpc : s.pc = running true) :
      Turn fd s .advance ({ s with pc := running false }.wakeupIfNeeded fd true)
  | leftCallback (rest : List ActiveChannel) (hpc : s.pc = .callback rest false) :
      Turn fd s .leave { s with pc := .dispatch rest }
  | leftFunctor (rest : List F) (hpc : s.pc = .functor rest false) :
      Turn fd s .leave { s with pc := .execute rest }
  | otherQueued (cb : F) :
      Turn fd s (.otherQueueInLoop cb) ({ s with waking := s.waking + 1 }.push cb)
  | otherContinued (hwaking : 0 < s.waking) :
      Turn fd s .otherContinue ({ s with waking := s.waking - 1 }.wakeup fd)
  | quit : Turn fd s .quit { s with quit_ := true }
  | wakeup : Turn fd s .wakeup (s.wakeup fd)

theorem turn_of_advance (hstep : s.advance fd = some t) : Turn fd s .advance t := by
  rw [advance] at hstep
  cases hpc : s.pc with
  | poll => rw [hpc] at hstep; cases hstep
  | dispatch active =>
    rw [hpc] at hstep
    cases active with
    | nil =>
      cases hstep
      exact .dispatched hpc
    | cons channel rest =>
      cases channel with
      | wakeupChannel_ =>
        cases hstep
        exact .read rest hpc
      | other =>
        cases hstep
        exact .entered rest hpc
  | callback rest queueing =>
    rw [hpc] at hstep
    cases queueing with
    | false => cases hstep
    | true =>
      cases hstep
      exact .woken (.callback rest) hpc
  | swap =>
    rw [hpc] at hstep
    cases hstep
    exact .swapped hpc
  | execute functors =>
    rw [hpc] at hstep
    cases functors with
    | nil =>
      cases hstep
      exact .finished hpc
    | cons cb rest =>
      cases hstep
      exact .called cb rest hpc
  | functor rest queueing =>
    rw [hpc] at hstep
    cases queueing with
    | false => cases hstep
    | true =>
      cases hstep
      exact .woken (.functor rest) hpc
  | test =>
    rw [hpc] at hstep
    cases hstep
    refine .tested _ hpc ?_
    cases hquit : s.quit_ with
    | false => exact .inr ⟨rfl, rfl⟩
    | true => exact .inl ⟨rfl, rfl⟩
  | stopped => rw [hpc] at hstep; cases hstep

theorem turn_of_step {a : Action F} (hstep : s.step fd a = some t) : Turn fd s a t := by
  cases a with
  | poll active =>
    rw [step] at hstep
    split at hstep
    case h_1 hpc =>
      split_ifs at hstep with hready
      cases hstep
      exact .polled active hpc hready
    case h_2 => cases hstep
  | advance => exact turn_of_advance hstep
  | queueInLoop cb =>
    rw [step] at hstep
    split at hstep
    case h_1 rest hpc =>
      cases hstep
      exact .queued (.callback rest) cb hpc
    case h_2 rest hpc =>
      cases hstep
      exact .queued (.functor rest) cb hpc
    case h_3 => cases hstep
  | leave =>
    rw [step] at hstep
    split at hstep
    case h_1 rest hpc =>
      cases hstep
      exact .leftCallback rest hpc
    case h_2 rest hpc =>
      cases hstep
      exact .leftFunctor rest hpc
    case h_3 => cases hstep
  | otherQueueInLoop cb =>
    cases hstep
    exact .otherQueued cb
  | otherContinue =>
    rw [step] at hstep
    split_ifs at hstep with hwaking
    cases hstep
    exact .otherContinued hwaking
  | quit =>
    cases hstep
    exact .quit
  | wakeup =>
    cases hstep
    exact .wakeup

end EventLoop

end CppAiService
