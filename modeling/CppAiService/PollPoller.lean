import CppAiService.Channel
import CppAiService.Foundation.Run
import Mathlib.Algebra.Order.Ring.Int
import Mathlib.Logic.Function.Basic

namespace CppAiService

structure PollFd where
  fd : ℤ
  events : Events
  revents : ℕ
  deriving DecidableEq

/-- The poller with what it knows of the channels `ι`: each one's `events_` and `index_`. -/
structure PollPoller (ι : Type) where
  pollfds_ : List PollFd
  channels_ : ℤ → Option ι
  events_ : ι → Events
  index_ : ι → ℤ

namespace PollPoller

def kNew : ℤ := -1

variable {ι : Type} [DecidableEq ι]

def create : PollPoller ι where
  pollfds_ := []
  channels_ := fun _ ↦ none
  events_ := fun _ ↦ kNoneEvent
  index_ := fun _ ↦ kNew

inductive Action (ι : Type)
  | updateChannel (channel : ι) (events : Events)
  | removeChannel (channel : ι)
  | poll (ready : ℤ → ℕ)

variable (fd : ι → ℤ) (s : PollPoller ι)

def set_index (channel : ι) (idx : ℤ) : PollPoller ι :=
  { s with index_ := Function.update s.index_ channel idx }

def registered (channel : ι) : PollPoller ι :=
  { s with
    pollfds_ := s.pollfds_ ++ [⟨fd channel, s.events_ channel, 0⟩]
    index_ := Function.update s.index_ channel s.pollfds_.length
    channels_ := Function.update s.channels_ (fd channel) (some channel) }

def slot (fd : ℤ) (events : Events) : PollFd :=
  ⟨if events = kNoneEvent then -fd - 1 else fd, events, 0⟩

/-- `none` where `pollfds_` is accessed out of its bounds. -/
def updateChannel (channel : ι) : Option (PollPoller ι) :=
  let index := s.index_ channel
  if index = kNew then some (s.registered fd channel)
  else if 0 ≤ index ∧ index < s.pollfds_.length then
    some { s with
      pollfds_ := s.pollfds_.set index.toNat (slot (fd channel) (s.events_ channel)) }
  else none

def decode (fd : ℤ) : ℤ := if fd < 0 then -fd - 1 else fd

def swap (pfds : List PollFd) (i j : ℕ) : Option (List PollFd) :=
  pfds[i]?.bind fun a ↦ pfds[j]?.map fun b ↦ (pfds.set i b).set j a

/-- The last slot is moved to `index`, and its channel told so; `none` where the map has no
channel for the slot. -/
def moveLast (index lastIndex : ℕ) : Option (PollPoller ι) :=
  s.pollfds_[lastIndex]?.bind fun last ↦
    (swap s.pollfds_ index lastIndex).bind fun pollfds ↦
      (s.channels_ (decode last.fd)).map fun moved ↦
        { s with pollfds_ := pollfds }.set_index moved index

def pop_back : PollPoller ι := { s with pollfds_ := s.pollfds_.dropLast }

def removeChannel (channel : ι) : Option (PollPoller ι) :=
  let index := s.index_ channel
  let s := { s with channels_ := Function.update s.channels_ (fd channel) none }
  let popped :=
    if 0 ≤ index ∧ index < s.pollfds_.length then
      if index = (s.pollfds_.length : ℤ) - 1 then some s.pop_back
      else (s.moveLast index.toNat (s.pollfds_.length - 1)).map pop_back
    else some s
  popped.map fun s ↦ s.set_index channel kNew

/-- `::poll` passes over negative descriptors; `ready` says what there is at the others. -/
def answered (ready : ℤ → ℕ) : PollPoller ι :=
  { s with
    pollfds_ := s.pollfds_.map fun pfd ↦
      { pfd with revents := if pfd.fd < 0 then 0 else ready pfd.fd } }

def step : Action ι → Option (PollPoller ι)
  | .updateChannel channel events =>
    { s with events_ := Function.update s.events_ channel events }.updateChannel fd channel
  | .removeChannel channel => s.removeChannel fd channel
  | .poll ready => some (s.answered ready)

def fillActiveChannels : ℕ → List PollFd → List (ι × ℕ)
  | 0, _ | _ + 1, [] => []
  | numEvents + 1, pfd :: pfds =>
    if 0 < pfd.revents then
      match s.channels_ pfd.fd with
      | some channel => (channel, pfd.revents) :: fillActiveChannels numEvents pfds
      | none => fillActiveChannels numEvents pfds
    else fillActiveChannels (numEvents + 1) pfds

def activeChannels (ready : ℤ → ℕ) : List (ι × ℕ) :=
  let s := s.answered ready
  s.fillActiveChannels (s.pollfds_.countP fun pfd ↦ pfd.revents ≠ 0) s.pollfds_

end PollPoller

end CppAiService
