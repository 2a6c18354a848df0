import Mathlib.Data.Option.Basic
import Mathlib.Tactic.Common

namespace CppAiService.Foundation

/-- What the thread that waits for the flag does next. Asleep it has given the mutex back, and
takes it again before it looks a second time. -/
inductive Waiter
  | lock
  | test
  | asleep
  | relock
  | unlock
  | past
  deriving DecidableEq

def Waiter.budget (flag : Bool) : Waiter → ℕ
  | .lock | .relock => if flag then 3 else 5
  | .test => if flag then 2 else 4
  | .asleep => 3
  | .unlock => 1
  | .past => 0

theorem Waiter.budget_raised (w : Waiter) (flag : Bool) : w.budget true ≤ w.budget flag := by
  cases w <;> cases flag <;> decide

inductive Signaller
  | lock
  | set
  | notify
  | unlock
  | past
  deriving DecidableEq

namespace Signaller

/-- `inside` is whether the condition is notified before the mutex is given back. -/
def afterSet (inside : Bool) : Signaller := if inside then .notify else .unlock

def afterNotify (inside : Bool) : Signaller := if inside then .unlock else .past

def afterUnlock (inside : Bool) : Signaller := if inside then .past else .notify

def budget (inside : Bool) : Signaller → ℕ
  | .lock => 4
  | .set => 3
  | .notify => if inside then 2 else 1
  | .unlock => if inside then 1 else 2
  | .past => 0

end Signaller

/-- A flag behind a mutex, with a condition variable that one thread waits at. -/
structure Handshake where
  flag : Bool
  waiter : Waiter
  signaller : Signaller
  deriving DecidableEq

namespace Handshake

def create : Handshake := ⟨false, .lock, .lock⟩

variable (inside : Bool) (h : Handshake)

def waiterHolds : Bool := h.waiter = .test || h.waiter = .unlock

def signallerHolds : Bool :=
  h.signaller = .set || h.signaller = .unlock || (inside && h.signaller = .notify)

def waiterStep : Option Handshake :=
  match h.waiter with
  | .lock | .relock => if h.signallerHolds inside then none else some { h with waiter := .test }
  | .test => some { h with waiter := if h.flag then .unlock else .asleep }
  | .unlock => some { h with waiter := .past }
  | .asleep | .past => none

/-- Notifying wakes the other thread if it is asleep, and is lost otherwise. -/
def signallerStep : Option Handshake :=
  match h.signaller with
  | .lock => if h.waiterHolds then none else some { h with signaller := .set }
  | .set => some { h with flag := true, signaller := Signaller.afterSet inside }
  | .notify => some { h with
      waiter := if h.waiter = .asleep then .relock else h.waiter
      signaller := Signaller.afterNotify inside }
  | .unlock => some { h with signaller := Signaller.afterUnlock inside }
  | .past => none

/-- `wait` may also return without having been notified. -/
def spuriousStep : Option Handshake :=
  if h.waiter = .asleep then some { h with waiter := .relock } else none

/-- No one sleeps for whom no notification is to come. -/
structure Sound : Prop where
  exclusive : h.waiterHolds = true → h.signallerHolds inside = false
  flag : h.flag = true ↔ h.signaller ≠ .lock ∧ h.signaller ≠ .set
  asleep : h.waiter = .asleep → h.signaller ≠ .past ∧ (inside = true → h.signaller ≠ .unlock)
  seen : h.waiter = .unlock ∨ h.waiter = .past → h.flag = true ∧ h.signallerHolds inside = false

variable {inside h} {h' : Handshake}

theorem sound_create : Sound inside create where
  exclusive := nofun
  flag := by decide
  asleep := nofun
  seen := by rintro (hw | hw) <;> cases hw

theorem Sound.signaller_of_seen (hs : Sound inside h) (hw : h.waiter = .unlock ∨ h.waiter = .past) :
    h.signaller = .past ∨ inside = false ∧ h.signaller = .notify := by
  obtain ⟨hflag, hholds⟩ := hs.seen hw
  have hset := hs.flag.1 hflag
  rw [signallerHolds] at hholds
  cases hsig : h.signaller <;> cases inside <;> simp_all

/-- Who waits inside of the lock is notified inside of it, before it can go on. -/
theorem Sound.past_of_seen (hs : Sound true h) (hw : h.waiter = .past) : h.signaller = .past :=
  (hs.signaller_of_seen (.inr hw)).resolve_right nofun

theorem Sound.waiterStep (hs : Sound inside h) (hstep : h.waiterStep inside = some h') :
    Sound inside h' := by
  rw [Handshake.waiterStep] at hstep
  have hlocked (hfree : (if h.signallerHolds inside then none
      else some { h with waiter := .test }) = some h') : Sound inside h' := by
    split at hfree
    · cases hfree
    · next hholds =>
      obtain rfl := Option.some.inj hfree
      exact ⟨fun _ ↦ Bool.eq_false_iff.2 hholds, hs.flag, nofun, by rintro (hw | hw) <;> cases hw⟩
  cases hw : h.waiter with
  | lock | relock =>
    rw [hw] at hstep
    exact hlocked hstep
  | test =>
    have hholds := hs.exclusive (by rw [waiterHolds, hw]; rfl)
    rw [hw] at hstep
    obtain rfl := Option.some.inj hstep
    cases hflag : h.flag with
    | true => exact ⟨fun _ ↦ hholds, hflag ▸ hs.flag, nofun, fun _ ↦ ⟨rfl, hholds⟩⟩
    | false =>
      refine ⟨nofun, hflag ▸ hs.flag, fun _ ↦ ?_, by rintro (hw | hw) <;> cases hw⟩
      have hunset : h.signaller = .lock ∨ h.signaller = .set := by
        by_contra hset
        exact Bool.false_ne_true (hflag.symm.trans (hs.flag.2 (not_or.1 hset)))
      obtain hsig | hsig := hunset <;> simp [hsig]
  | unlock =>
    obtain ⟨hflag, hholds⟩ := hs.seen (.inl hw)
    rw [hw] at hstep
    obtain rfl := Option.some.inj hstep
    exact ⟨nofun, hs.flag, nofun, fun _ ↦ ⟨hflag, hholds⟩⟩
  | asleep | past =>
    rw [hw] at hstep
    cases hstep

theorem waiterStep_frame (hstep : h.waiterStep inside = some h') :
    ∃ w, w ≠ .lock ∧ h' = { h with waiter := w } := by
  rw [Handshake.waiterStep] at hstep
  split at hstep
  · split at hstep
    · cases hstep
    · exact ⟨.test, nofun, (Option.some.inj hstep).symm⟩
  · split at hstep
    · cases hstep
    · exact ⟨.test, nofun, (Option.some.inj hstep).symm⟩
  · refine ⟨if h.flag then .unlock else .asleep, ?_, (Option.some.inj hstep).symm⟩
    split <;> nofun
  · exact ⟨.past, nofun, (Option.some.inj hstep).symm⟩
  · cases hstep
  · cases hstep

theorem waiter_of_past (hstep : h.waiterStep inside = some h') (hpast : h'.waiter = .past) :
    h.waiter = .unlock := by
  rw [Handshake.waiterStep] at hstep
  cases hw : h.waiter with
  | lock | relock =>
    rw [hw] at hstep
    dsimp only at hstep
    split at hstep
    · cases hstep
    · obtain rfl := Option.some.inj hstep
      cases hpast
  | test =>
    rw [hw] at hstep
    obtain rfl := Option.some.inj hstep
    dsimp only at hpast
    split at hpast <;> cases hpast
  | unlock => rfl
  | asleep | past =>
    rw [hw] at hstep
    cases hstep

theorem signallerStep_frame (hstep : h.signallerStep inside = some h') :
    h.signaller ≠ .past ∧ h'.signaller ≠ .lock ∧
      (h'.waiter = h.waiter ∨ h.waiter = .asleep ∧ h'.waiter = .relock) := by
  rw [Handshake.signallerStep] at hstep
  cases hsig : h.signaller with
  | lock =>
    rw [hsig] at hstep
    dsimp only at hstep
    split at hstep
    · cases hstep
    · obtain rfl := Option.some.inj hstep
      exact ⟨nofun, nofun, .inl rfl⟩
  | set =>
    rw [hsig] at hstep
    obtain rfl := Option.some.inj hstep
    exact ⟨nofun, by cases inside <;> nofun, .inl rfl⟩
  | notify =>
    rw [hsig] at hstep
    obtain rfl := Option.some.inj hstep
    refine ⟨nofun, by cases inside <;> nofun, ?_⟩
    by_cases hw : h.waiter = .asleep
    · exact .inr ⟨hw, if_pos hw⟩
    · exact .inl (if_neg hw)
  | unlock =>
    rw [hsig] at hstep
    obtain rfl := Option.some.inj hstep
    exact ⟨nofun, by cases inside <;> nofun, .inl rfl⟩
  | past =>
    rw [hsig] at hstep
    cases hstep

theorem signallerStep_flag (hstep : h.signallerStep inside = some h') :
    h'.flag = h.flag ∨ h'.flag = true := by
  rw [Handshake.signallerStep] at hstep
  cases hsig : h.signaller with
  | lock =>
    rw [hsig] at hstep
    dsimp only at hstep
    split at hstep
    · cases hstep
    · exact .inl (Option.some.inj hstep ▸ rfl)
  | set =>
    rw [hsig] at hstep
    exact .inr (Option.some.inj hstep ▸ rfl)
  | notify | unlock =>
    rw [hsig] at hstep
    exact .inl (Option.some.inj hstep ▸ rfl)
  | past =>
    rw [hsig] at hstep
    cases hstep

theorem spuriousStep_frame (hstep : h.spuriousStep = some h') :
    h.waiter = .asleep ∧ h' = { h with waiter := .relock } := by
  rw [Handshake.spuriousStep] at hstep
  split at hstep
  · next hw => exact ⟨hw, (Option.some.inj hstep).symm⟩
  · cases hstep

/-- While the other thread has the mutex, the waiting one is in front of it. -/
def Outside (h : Handshake) : Prop := h.waiter = .lock ∨ h.waiter = .asleep ∨ h.waiter = .relock

theorem Sound.outside (hs : Sound inside h)
    (hheld : h.signallerHolds inside = true ∨ h.waiterHolds = false ∧ h.flag = false) :
    h.Outside := by
  have hseen : ¬ (h.waiter = .unlock ∨ h.waiter = .past) := by
    intro hw
    obtain ⟨hflag, hholds⟩ := hs.seen hw
    rw [hflag, hholds] at hheld
    simp at hheld
  have htest : h.waiter ≠ .test := by
    intro hw
    have hholds : h.waiterHolds = true := by rw [waiterHolds, hw]; rfl
    rw [hholds, hs.exclusive hholds] at hheld
    simp at hheld
  rw [Outside]
  cases hw : h.waiter <;> simp_all

theorem Outside.sound (hout : h.Outside)
    (hflag : h.flag = true ↔ h.signaller ≠ .lock ∧ h.signaller ≠ .set)
    (hasleep : h.waiter = .asleep → h.signaller ≠ .past ∧ (inside = true → h.signaller ≠ .unlock)) :
    Sound inside h := by
  refine ⟨fun hholds ↦ ?_, hflag, hasleep, fun hw ↦ ?_⟩
  · obtain hw | hw | hw := hout <;> simp [waiterHolds, hw] at hholds
  · obtain hout | hout | hout := hout <;> simp [hout] at hw

theorem Sound.signallerStep (hs : Sound inside h) (hstep : h.signallerStep inside = some h') :
    Sound inside h' := by
  rw [Handshake.signallerStep] at hstep
  cases hsig : h.signaller with
  | lock =>
    have hflag : h.flag = false := Bool.eq_false_iff.2 fun hflag ↦ (hs.flag.1 hflag).1 hsig
    rw [hsig] at hstep
    dsimp only at hstep
    split at hstep
    · cases hstep
    · next hholds =>
      obtain rfl := Option.some.inj hstep
      have hout : h.Outside := hs.outside (.inr ⟨Bool.eq_false_iff.2 hholds, hflag⟩)
      exact Outside.sound hout (by simp [hflag]) (by simp)
  | set =>
    have hout : h.Outside := hs.outside (.inl (by rw [signallerHolds, hsig]; rfl))
    rw [hsig] at hstep
    obtain rfl := Option.some.inj hstep
    refine Outside.sound hout ?_ fun _ ↦ ?_
    · cases inside <;> simp [Signaller.afterSet]
    · cases inside <;> simp [Signaller.afterSet]
  | notify =>
    have hflag : h.flag = true := hs.flag.2 (by simp [hsig])
    have hheld : h.signallerHolds inside = true ∨ h.waiterHolds = false ∧ h.flag = false →
        h.Outside := hs.outside
    rw [signallerHolds, hsig] at hheld
    rw [hsig] at hstep
    obtain rfl := Option.some.inj hstep
    cases inside with
    | true =>
      refine Outside.sound ?_ (by simp [hflag, Signaller.afterNotify]) ?_
      · obtain hw | hw | hw := hheld (.inl rfl) <;> simp [Outside, hw]
      · obtain hw | hw | hw := hheld (.inl rfl) <;> simp [hw]
    | false =>
      refine ⟨fun _ ↦ rfl, by simp [hflag, Signaller.afterNotify], ?_, fun _ ↦ ⟨hflag, rfl⟩⟩
      split_ifs <;> simp_all
  | unlock =>
    have hflag : h.flag = true := hs.flag.2 (by simp [hsig])
    have hout : h.Outside := hs.outside (.inl (by rw [signallerHolds, hsig]; rfl))
    have hasleep := hs.asleep
    rw [hsig] at hstep hasleep
    obtain rfl := Option.some.inj hstep
    refine Outside.sound hout ?_ fun hw ↦ ?_
    · cases inside <;> simp [hflag, Signaller.afterUnlock]
    · cases inside with
      | true => exact absurd rfl ((hasleep hw).2 rfl)
      | false => simp [Signaller.afterUnlock]
  | past =>
    rw [hsig] at hstep
    cases hstep

theorem Sound.spuriousStep (hs : Sound inside h) (hstep : h.spuriousStep = some h') :
    Sound inside h' := by
  obtain ⟨-, rfl⟩ := spuriousStep_frame hstep
  exact ⟨nofun, hs.flag, nofun, by rintro (hw | hw) <;> cases hw⟩

theorem Sound.waiter_possible (hs : Sound inside h) (hw : h.waiter ≠ .past)
    (hsig : h.signaller = .past) : ∃ h', h.waiterStep inside = some h' := by
  have hholds : h.signallerHolds inside = false := by
    rw [signallerHolds, hsig]
    cases inside <;> rfl
  rw [Handshake.waiterStep]
  cases hwait : h.waiter with
  | lock | relock => exact ⟨_, by rw [hholds]; rfl⟩
  | test | unlock => exact ⟨_, rfl⟩
  | asleep => exact absurd hsig (hs.asleep hwait).1
  | past => exact absurd hwait hw

theorem signaller_possible (hsig : h.signaller ≠ .past) (hwait : h.waiterHolds = false) :
    ∃ h', h.signallerStep inside = some h' := by
  rw [signallerStep]
  cases hs : h.signaller with
  | lock => exact ⟨_, by rw [hwait]; rfl⟩
  | past => exact absurd hs hsig
  | _ => exact ⟨_, rfl⟩

theorem waiter_possible_of_holds (hwait : h.waiterHolds = true) :
    ∃ h', h.waiterStep inside = some h' := by
  rw [waiterStep]
  rw [waiterHolds] at hwait
  cases hw : h.waiter with
  | test | unlock => exact ⟨_, rfl⟩
  | _ => simp [hw] at hwait

/-- Unless the wait is over, one of the two threads can go on. -/
theorem Sound.possible (hs : Sound inside h) (hw : h.waiter ≠ .past) :
    (∃ h', h.waiterStep inside = some h') ∨
      h.signaller ≠ .past ∧ ∃ h', h.signallerStep inside = some h' := by
  by_cases hsig : h.signaller = .past
  · exact .inl (hs.waiter_possible hw hsig)
  · cases hwait : h.waiterHolds with
    | true => exact .inl (waiter_possible_of_holds hwait)
    | false => exact .inr ⟨hsig, signaller_possible hsig hwait⟩

/-- The steps that are left, a waking without notification aside. -/
def budget (inside : Bool) (h : Handshake) : ℕ := h.waiter.budget h.flag + h.signaller.budget inside

theorem budget_moved (w : Waiter) :
    budget inside { h with waiter := w } = w.budget h.flag + h.signaller.budget inside := rfl

theorem budget_waiterStep (hstep : h.waiterStep inside = some h') :
    h'.budget inside + 1 ≤ h.budget inside := by
  have hlocked (hw : h.waiter.budget h.flag = Waiter.lock.budget h.flag)
      (hfree : (if h.signallerHolds inside then none
        else some { h with waiter := .test }) = some h') :
      h'.budget inside + 1 ≤ h.budget inside := by
    split at hfree
    · cases hfree
    · obtain rfl := Option.some.inj hfree
      have hlock : Waiter.test.budget h.flag + 1 ≤ Waiter.lock.budget h.flag := by
        cases h.flag <;> decide
      rw [budget_moved, budget, hw]
      omega
  rw [waiterStep] at hstep
  cases hw : h.waiter with
  | lock | relock =>
    rw [hw] at hstep
    exact hlocked (by simp only [hw, Waiter.budget]) hstep
  | test =>
    rw [hw] at hstep
    obtain rfl := Option.some.inj hstep
    have htest : (if h.flag then Waiter.unlock else .asleep).budget h.flag + 1 ≤
        Waiter.test.budget h.flag := by
      cases h.flag <;> decide
    rw [budget_moved, budget, hw]
    omega
  | unlock =>
    rw [hw] at hstep
    obtain rfl := Option.some.inj hstep
    rw [budget_moved, budget, hw, Waiter.budget, Waiter.budget]
    omega
  | asleep | past =>
    rw [hw] at hstep
    cases hstep

theorem Sound.budget_signallerStep (hs : Sound inside h)
    (hstep : h.signallerStep inside = some h') : h'.budget inside + 1 ≤ h.budget inside := by
  rw [Handshake.signallerStep] at hstep
  cases hsig : h.signaller with
  | lock =>
    rw [hsig] at hstep
    dsimp only at hstep
    split at hstep
    · cases hstep
    · obtain rfl := Option.some.inj hstep
      rw [budget, budget, hsig]
      exact Nat.le_refl (h.waiter.budget h.flag + 4)
  | set =>
    have hraised := Waiter.budget_raised h.waiter h.flag
    rw [hsig] at hstep
    obtain rfl := Option.some.inj hstep
    rw [budget, budget, hsig]
    cases inside <;> simp only [Signaller.budget, Signaller.afterSet] <;> simp <;> omega
  | notify =>
    have hflag : h.flag = true := hs.flag.2 (by simp [hsig])
    have hwoken : (if h.waiter = .asleep then Waiter.relock else h.waiter).budget true =
        h.waiter.budget true := by
      split
      · next hw => rw [hw]; rfl
      · rfl
    rw [hsig] at hstep
    obtain rfl := Option.some.inj hstep
    rw [budget, budget, hsig, hflag, hwoken]
    cases inside <;> simp [Signaller.budget, Signaller.afterNotify]
  | unlock =>
    rw [hsig] at hstep
    obtain rfl := Option.some.inj hstep
    rw [budget, budget, hsig]
    cases inside <;> simp [Signaller.budget, Signaller.afterUnlock]
  | past =>
    rw [hsig] at hstep
    cases hstep

theorem budget_spuriousStep (hstep : h.spuriousStep = some h') :
    h'.budget inside ≤ h.budget inside + 2 := by
  obtain ⟨hw, rfl⟩ := spuriousStep_frame hstep
  have hrelock : Waiter.relock.budget h.flag ≤ Waiter.asleep.budget h.flag + 2 := by
    cases h.flag <;> decide
  rw [budget_moved, budget, hw]
  omega

end Handshake

end CppAiService.Foundation
