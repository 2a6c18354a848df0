import CppAiService.EventLoop

namespace CppAiService

/-- What the new thread does next in `threadFunc`, and in `loop` before and after its rounds;
within the rounds the loop's own `pc` says more. -/
inductive ThreadFunc
  | notStarted
  | callback_
  | publish
  | looping_
  | clearQuit
  | loop
  | withdraw
  | ended
  deriving DecidableEq

/-- What the creating thread does next in `startLoop`, and later in `~EventLoopThread`. -/
inductive Creator
  | start
  | wait
  | running
  | test
  | quit
  | wakeup
  | join
  | destroyed
  deriving DecidableEq

/-- `loop_` is whether the pointer to `loop` is published. -/
structure EventLoopThread (F : Type) where
  loop_ : Bool
  exiting_ : Bool
  looping_ : Bool
  loop : EventLoop F
  thread_ : ThreadFunc
  creator : Creator

namespace EventLoopThread

variable {F : Type}

def create : EventLoopThread F where
  loop_ := false
  exiting_ := false
  looping_ := false
  loop := EventLoop.start
  thread_ := .notStarted
  creator := .start

inductive Action (F : Type)
  | thread
  | creator
  | loop (a : EventLoop.Action F)

variable (fd : WakeupFd) (s : EventLoopThread F)

def threadStep : Option (EventLoopThread F) :=
  match s.thread_ with
  | .callback_ => some { s with thread_ := .publish }
  | .publish => some { s with loop_ := true, thread_ := .looping_ }
  | .looping_ => some { s with looping_ := true, thread_ := .clearQuit }
  | .clearQuit => some { s with loop := { s.loop with quit_ := false }, thread_ := .loop }
  | .loop =>
    match s.loop.pc with
    | .stopped => some { s with looping_ := false, thread_ := .withdraw }
    | _ => none
  | .withdraw => some { s with loop_ := false, thread_ := .ended }
  | .notStarted | .ended => none

/-- `startLoop` waits for `loop_`, `join` for the thread's end. -/
def creatorStep : Option (EventLoopThread F) :=
  match s.creator with
  | .start => some { s with thread_ := .callback_, creator := .wait }
  | .wait => if s.loop_ then some { s with creator := .running } else none
  | .running => some { s with exiting_ := true, creator := .test }
  | .test => some { s with creator := if s.loop_ then .quit else .destroyed }
  | .quit => some { s with loop := { s.loop with quit_ := true }, creator := .wakeup }
  | .wakeup => some { s with loop := s.loop.wakeup fd, creator := .join }
  | .join => if s.thread_ = .ended then some { s with creator := .destroyed } else none
  | .destroyed => none

/-- The loop's own steps are taken within its rounds, those of other threads while the loop is
published; only `~EventLoopThread` calls `quit`. -/
def allowed : EventLoop.Action F → Bool
  | .poll _ | .advance | .queueInLoop _ | .leave => s.thread_ = .loop
  | .otherQueueInLoop _ | .otherContinue | .wakeup => s.loop_
  | .quit => false

def step : Action F → Option (EventLoopThread F)
  | .thread => s.threadStep
  | .creator => s.creatorStep fd
  | .loop a =>
    if s.allowed a then (s.loop.step fd a).map fun loop ↦ { s with loop := loop } else none

end EventLoopThread

end CppAiService
