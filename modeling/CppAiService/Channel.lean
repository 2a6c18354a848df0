import Mathlib.Data.Option.Basic

namespace CppAiService

structure Events where
  read : Bool
  write : Bool
  deriving DecidableEq

def kNoneEvent : Events := ⟨false, false⟩

inductive ChannelIndex
  | kNew
  | kAdded
  | kDeleted
  deriving DecidableEq

structure Channel where
  events_ : Events
  index_ : ChannelIndex
  deriving DecidableEq

/-- The events the poller reports. Those of `kReadEvent` are not told apart. -/
structure Revents where
  hangup : Bool
  error : Bool
  read : Bool
  write : Bool
  deriving DecidableEq

inductive EpollCtl
  | add (events : Events)
  | mod (events : Events)
  | del
  deriving DecidableEq

/-- The kernel's interest list at one socket; `none` where the call fails. -/
def EpollCtl.apply (interest : Option Events) : EpollCtl → Option (Option Events)
  | .add events => if interest.isNone then some (some events) else none
  | .mod events => if interest.isSome then some (some events) else none
  | .del => if interest.isSome then some none else none

/-- A poll can report what was asked for, and a hang-up or an error at any registered socket. -/
def Revents.possible (interest : Option Events) (revents : Revents) : Bool :=
  interest.any fun events ↦ (!revents.read || events.read) && (!revents.write || events.write)

namespace Channel

def create : Channel := ⟨kNoneEvent, .kNew⟩

def isNoneEvent (channel : Channel) : Bool := channel.events_ = kNoneEvent

def isWriting (channel : Channel) : Bool := channel.events_.write

end Channel

namespace EPollPoller

/-- A channel with its socket's entry in the interest list and the calls made so far. The
table of channels is left out: only the log reads it. -/
structure Registration where
  channel : Channel
  interest : Option Events
  calls : List EpollCtl

/-- A failed removal is logged; any other failure ends the process. -/
def update (r : Registration) (operation : EpollCtl) : Option Registration :=
  match operation.apply r.interest with
  | some interest => some { r with interest := interest, calls := r.calls ++ [operation] }
  | none => if operation = .del then some { r with calls := r.calls ++ [operation] } else none

def updateChannel (r : Registration) : Option Registration :=
  match r.channel.index_ with
  | .kNew | .kDeleted =>
    update { r with channel := { r.channel with index_ := .kAdded } } (.add r.channel.events_)
  | .kAdded =>
    if r.channel.isNoneEvent then
      (update r .del).map fun r ↦ { r with channel := { r.channel with index_ := .kDeleted } }
    else update r (.mod r.channel.events_)

def removeChannel (r : Registration) : Option Registration :=
  let removed := if r.channel.index_ = .kAdded then update r .del else some r
  removed.map fun r ↦ { r with channel := { r.channel with index_ := .kNew } }

variable {r : Registration}

/-- The channel's index says whether the kernel watches its socket. -/
def Registration.Consistent (r : Registration) : Prop :=
  r.interest.isSome = true ↔ r.channel.index_ = .kAdded

theorem Registration.Consistent.interest_eq_none (h : r.Consistent)
    (hindex : r.channel.index_ ≠ .kAdded) : r.interest = none :=
  Option.not_isSome_iff_eq_none.1 (mt h.1 hindex)

theorem updateChannel_add (h : r.Consistent) (hindex : r.channel.index_ ≠ .kAdded) :
    updateChannel r = some ⟨⟨r.channel.events_, .kAdded⟩, some r.channel.events_,
      r.calls ++ [.add r.channel.events_]⟩ := by
  have hinterest := h.interest_eq_none hindex
  rw [updateChannel]
  cases hi : r.channel.index_ with
  | kAdded => exact absurd hi hindex
  | kNew => simp only [update, EpollCtl.apply, hinterest, Option.isNone_none, if_true]
  | kDeleted => simp only [update, EpollCtl.apply, hinterest, Option.isNone_none, if_true]

theorem updateChannel_del (h : r.Consistent) (hindex : r.channel.index_ = .kAdded)
    (hnone : r.channel.isNoneEvent = true) :
    updateChannel r = some ⟨⟨r.channel.events_, .kDeleted⟩, none, r.calls ++ [.del]⟩ := by
  simp only [updateChannel, hindex, hnone, update, EpollCtl.apply, h.2 hindex, if_true,
    Option.map_some]

theorem updateChannel_mod (h : r.Consistent) (hindex : r.channel.index_ = .kAdded)
    (hnone : r.channel.isNoneEvent = false) :
    updateChannel r = some ⟨r.channel, some r.channel.events_,
      r.calls ++ [.mod r.channel.events_]⟩ := by
  simp only [updateChannel, hindex, hnone, update, EpollCtl.apply, h.2 hindex, if_true,
    Bool.false_eq_true, if_false]

theorem updateChannel_consistent (h : r.Consistent) :
    ∃ r' operation, updateChannel r = some r' ∧ r'.Consistent ∧
      r'.calls = r.calls ++ [operation] := by
  by_cases hindex : r.channel.index_ = .kAdded
  · cases hnone : r.channel.isNoneEvent with
    | true => exact ⟨_, _, updateChannel_del h hindex hnone, by simp [Registration.Consistent], rfl⟩
    | false =>
      exact ⟨_, _, updateChannel_mod h hindex hnone, by simp [Registration.Consistent, hindex], rfl⟩
  · exact ⟨_, _, updateChannel_add h hindex, by simp [Registration.Consistent], rfl⟩

theorem removeChannel_consistent (h : r.Consistent) :
    ∃ r', removeChannel r = some r' ∧ r'.Consistent ∧ r'.channel = ⟨r.channel.events_, .kNew⟩ ∧
      r'.interest = none ∧
      r'.calls = r.calls ++ if r.channel.index_ = .kAdded then [.del] else [] := by
  by_cases hindex : r.channel.index_ = .kAdded
  · simp only [removeChannel, hindex, update, EpollCtl.apply, h.2 hindex, if_true, Option.map_some]
    exact ⟨_, rfl, by simp [Registration.Consistent], rfl, rfl, rfl⟩
  · have hinterest := h.interest_eq_none hindex
    simp only [removeChannel, hindex, if_false, Option.map_some, List.append_nil]
    exact ⟨_, rfl, by simp [Registration.Consistent, hinterest], rfl, hinterest, rfl⟩

end EPollPoller

end CppAiService
