import CppAiService.Foundation.OrderedSet
import CppAiService.Foundation.Run
import Mathlib.Algebra.Order.Ring.Int
import Mathlib.Data.Prod.Lex
import Mathlib.Logic.Function.Basic

namespace CppAiService

open Foundation

/-- What the code asks of a `double` number of seconds: `seconds > 0.0`, and
`seconds * kMicroSecondsPerSecond` as an `int64_t`. -/
structure Seconds where
  positive : Bool
  microSeconds : ℤ

def addTime (timestamp : ℤ) (seconds : Seconds) : ℤ := timestamp + seconds.microSeconds

/-- `serial` counts the calls of `addTimer`; two timers can have had the same address. -/
structure Timer (C : Type) where
  callback_ : C
  expiration_ : ℤ
  interval_ : Seconds
  repeat_ : Bool
  serial : ℕ

def Timer.restart {C : Type} (t : Timer C) (now : ℤ) : Timer C :=
  if t.repeat_ then { t with expiration_ := addTime now t.interval_ }
  else { t with expiration_ := 0 }

/-- `std::pair<Timestamp, Timer*>`. -/
structure Entry where
  expiration : ℤ
  timer : ℕ
  deriving DecidableEq

instance : LinearOrder Entry :=
  LinearOrder.lift' (fun e ↦ toLex (e.expiration, e.timer)) fun a b h ↦ by
    obtain ⟨hexpiration, htimer⟩ := Prod.mk.inj (toLex_inj.1 h)
    cases a
    cases b
    exact congrArg₂ Entry.mk hexpiration htimer

theorem Entry.lt_iff {a b : Entry} : a < b ↔
    a.expiration < b.expiration ∨ (a.expiration = b.expiration ∧ a.timer < b.timer) :=
  Prod.Lex.toLex_lt_toLex

def UINTPTR_MAX : ℕ := 2 ^ 64 - 1

/-- How the timer fd is armed: for which timer, and in how many microseconds. -/
structure Arming where
  expiration : ℤ
  microSecondDif : ℤ

structure Firing (C : Type) where
  serial : ℕ
  callback_ : C
  repeat_ : Bool
  expiration : ℤ
  now : ℤ

def Timer.firing {C : Type} (t : Timer C) (now : ℤ) : Firing C :=
  ⟨t.serial, t.callback_, t.repeat_, t.expiration_, now⟩

/-- `heap` is the timers that are not deleted, by address; `fired` is whether the timer fd has
gone off since it was last armed or read; `ran` records the calls. -/
structure TimerQueue (C : Type) where
  timers_ : List Entry
  heap : ℕ → Option (Timer C)
  timerfd_ : Option Arming
  fired : Bool
  created : ℕ
  ran : List (Firing C)

/-- A call of `addTimer`, with the address that `new` returns and the clock that
`resetTimerfd` reads if it comes to that. -/
structure NewTimer (C : Type) where
  cb : C
  when : ℤ
  interval : Seconds
  address : ℕ
  clock : ℤ

def NewTimer.entry {C : Type} (n : NewTimer C) : Entry := ⟨n.when, n.address⟩

def NewTimer.timer {C : Type} (n : NewTimer C) (serial : ℕ) : Timer C :=
  ⟨n.cb, n.when, n.interval, n.interval.positive, serial⟩

/-- What a call of `handleRead` meets: its clock reading, the timers that the callback of a
timer adds, and the clock when that timer is restarted and when the fd is reset after it. -/
structure Round (C : Type) where
  now : ℤ
  added : ℕ → List (NewTimer C)
  restarted : ℕ → ℤ
  reset : ℕ → ℤ

namespace TimerQueue

variable {C : Type}

def create : TimerQueue C where
  timers_ := []
  heap := fun _ ↦ none
  timerfd_ := none
  fired := false
  created := 0
  ran := []

inductive Action (C : Type)
  | addTimer (n : NewTimer C)
  | fire
  | handleRead (round : Round C)

variable (q : TimerQueue C)

/-- `timerfd_settime` also takes back a firing that was not read. -/
def resetTimerfd (expiration now : ℤ) : TimerQueue C :=
  { q with
    timerfd_ := some ⟨expiration, max 100 (expiration - now)⟩
    fired := false }

def earliestChanged (when : ℤ) : Bool :=
  match q.timers_ with
  | [] => true
  | first :: _ => when < first.expiration

def insert (timer : ℕ) : Option (Bool × TimerQueue C) :=
  (q.heap timer).map fun t ↦ (q.earliestChanged t.expiration_,
    { q with timers_ := OrderedSet.insert ⟨t.expiration_, timer⟩ q.timers_ })

def addTimerInLoop (timer : ℕ) (now : ℤ) : Option (TimerQueue C) :=
  (q.insert timer).bind fun (earliestChanged, q) ↦
    if earliestChanged then (q.heap timer).map fun t ↦ q.resetTimerfd t.expiration_ now
    else some q

def allocate (n : NewTimer C) : TimerQueue C :=
  { q with
    heap := Function.update q.heap n.address (some (n.timer q.created))
    created := q.created + 1 }

/-- `new` returns an address that is free, and not the last one there is. -/
def addTimer (n : NewTimer C) : Option (TimerQueue C) :=
  if q.heap n.address = none ∧ n.address < UINTPTR_MAX then
    (q.allocate n).addTimerInLoop n.address n.clock
  else none

def addTimers : List (NewTimer C) → TimerQueue C → Option (TimerQueue C)
  | [], q => some q
  | n :: ns, q => (q.addTimer n).bind (addTimers ns)

def called (t : Timer C) (now : ℤ) : TimerQueue C :=
  { q with ran := q.ran ++ [t.firing now] }

def runExpired (round : Round C) : List Entry → TimerQueue C → Option (TimerQueue C)
  | [], q => some q
  | e :: expired, q =>
    (q.heap e.timer).bind fun t ↦
      (addTimers (round.added e.timer) (q.called t round.now)).bind (runExpired round expired)

def restartOrDelete (timer : ℕ) (t : Timer C) (now : ℤ) : Option (TimerQueue C) :=
  if t.repeat_ then
    ({ q with heap := Function.update q.heap timer (some (t.restart now)) }.insert timer).map
      Prod.snd
  else some { q with heap := Function.update q.heap timer none }

def rearm (now : ℤ) : Option (TimerQueue C) :=
  match q.timers_ with
  | [] => some q
  | first :: _ => (q.heap first.timer).map fun t ↦ q.resetTimerfd t.expiration_ now

def reset (round : Round C) : List Entry → TimerQueue C → Option (TimerQueue C)
  | [], q => some q
  | e :: expired, q =>
    (q.heap e.timer).bind fun t ↦
      (q.restartOrDelete e.timer t (round.restarted e.timer)).bind fun q ↦
        (q.rearm (round.reset e.timer)).bind (reset round expired)

def sentry (now : ℤ) : Entry := ⟨now, UINTPTR_MAX⟩

def getExpired (now : ℤ) : List Entry × TimerQueue C :=
  (OrderedSet.below (sentry now) q.timers_,
    { q with timers_ := OrderedSet.notBelow (sentry now) q.timers_ })

def handleRead (round : Round C) : Option (TimerQueue C) :=
  let (expired, q) := { q with fired := false }.getExpired round.now
  (runExpired round expired q).bind (reset round expired)

def fire : Option (TimerQueue C) :=
  q.timerfd_.map fun _ ↦ { q with timerfd_ := none, fired := true }

def step : Action C → Option (TimerQueue C)
  | .addTimer n => q.addTimer n
  | .fire => q.fire
  | .handleRead round => q.handleRead round

end TimerQueue

end CppAiService
