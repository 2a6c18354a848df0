import CppAiService.Foundation.Outputs
import CppAiService.MachineInt
import CppAiService.WatchedChannels
import Mathlib.Data.List.Nodup
import Mathlib.Data.List.Perm.Subperm

namespace CppAiService

/-- The poller with its channels, the length of `events_`, and the channels that the kernel has
something to report of. -/
structure EPollPoller (ι : Type) where
  registrations : ι → EPollPoller.Registration
  revents_ : ι → Revents
  events_ : ℕ
  ready : List ι

namespace EPollPoller

open Foundation.Run

variable {ι : Type} [DecidableEq ι]

def kInitEventListSize : ℕ := 16

def create : EPollPoller ι where
  registrations := WatchedChannels.Epoll.fresh
  revents_ := fun _ ↦ ⟨false, false, false, false⟩
  events_ := kInitEventListSize
  ready := []

def epollWait (maxevents : ℤ) (ready : ℕ) : ℤ := if maxevents ≤ 0 then -1 else min maxevents ready

/-- Which of the ready channels are `reported` is up to the kernel, as is when they become ready
and cease to be. -/
inductive Action (ι : Type)
  | call (c : ι) (op : ChannelOp)
  | arrives (c : ι)
  | ceases (c : ι)
  | poll (reported : List (ι × Revents))
  | interrupted

variable (s : EPollPoller ι)

def fillActiveChannels (reported : List (ι × Revents)) : EPollPoller ι :=
  { s with revents_ := reported.foldl (fun revents_ p ↦ Function.update revents_ p.1 p.2) s.revents_ }

def numEvents : ℤ := epollWait (intOfSizeT s.events_) s.ready.length

def poll (reported : List (ι × Revents)) : EPollPoller ι :=
  if 0 < s.numEvents then
    { s.fillActiveChannels reported with
      events_ := if s.numEvents = s.events_ then s.events_ * 2 else s.events_ }
  else s

/-- As many of the ready channels as there is room for, each once, with what is possible. -/
def Reportable (reported : List (ι × Revents)) : Prop :=
  (reported.map Prod.fst).Nodup ∧ reported.length = s.numEvents.toNat ∧
    ∀ p ∈ reported, p.1 ∈ s.ready ∧ Revents.possible (s.registrations p.1).interest p.2 = true

instance (reported : List (ι × Revents)) : Decidable (s.Reportable reported) :=
  inferInstanceAs (Decidable (_ ∧ _ ∧ _))

def step : Action ι → Option (EPollPoller ι)
  | .call c op => (WatchedChannels.Epoll.call (s.registrations c) op).map fun r ↦
      { s with
        registrations := Function.update s.registrations c r
        ready := if r.interest.isSome then s.ready else s.ready.erase c }
  | .arrives c =>
    if (s.registrations c).interest.isSome ∧ c ∉ s.ready then
      some { s with ready := s.ready ++ [c] }
    else none
  | .ceases c => some { s with ready := s.ready.erase c }
  | .poll reported => if s.Reportable reported then some (s.poll reported) else none
  | .interrupted => some s

def leftOut : Action ι → List (List ι)
  | .poll reported =>
    let missed := s.ready.filter fun c ↦ c ∉ reported.map Prod.fst
    if missed = [] then [] else [missed]
  | _ => []

structure Listed (s : EPollPoller ι) : Prop where
  consistent : ∀ c, (s.registrations c).Consistent
  nodup : s.ready.Nodup
  watched : ∀ c ∈ s.ready, (s.registrations c).interest.isSome = true

variable {s} {s' : EPollPoller ι} {reported : List (ι × Revents)} {N : ℕ}

theorem call_consistent {r r' : Registration} (h : r.Consistent) {op : ChannelOp}
    (hcall : WatchedChannels.Epoll.call r op = some r') : r'.Consistent := by
  have hupdate (events : Events) (hupdate : updateChannel
      { r with channel := { r.channel with events_ := events } } = some r') : r'.Consistent := by
    obtain ⟨r'', -, h'', hconsistent, -⟩ := updateChannel_consistent
      (r := { r with channel := { r.channel with events_ := events } }) h
    rwa [Option.some.inj (hupdate.symm.trans h'')]
  cases op with
  | remove =>
    obtain ⟨r'', h'', hconsistent, -⟩ := removeChannel_consistent h
    rwa [Option.some.inj (hcall.symm.trans h'')]
  | _ => exact hupdate _ hcall

omit [DecidableEq ι] in
theorem listed_create : Listed (create : EPollPoller ι) where
  consistent c := (WatchedChannels.ready_fresh c).consistent
  nodup := .nil
  watched _ h := absurd h List.not_mem_nil

theorem listed_poll (h : Listed s) (reported : List (ι × Revents)) : Listed (s.poll reported) := by
  rw [poll]
  split_ifs
  · exact ⟨h.consistent, h.nodup, h.watched⟩
  · exact ⟨h.consistent, h.nodup, h.watched⟩
  · exact h

theorem Listed.step (h : Listed s) {a : Action ι} (hstep : s.step a = some s') : Listed s' := by
  cases a with
  | call c op =>
    obtain ⟨r, hcall, rfl⟩ := Option.map_eq_some_iff.1 hstep
    have hconsistent := call_consistent (h.consistent c) hcall
    refine ⟨fun d ↦ ?_, ?_, fun d hd ↦ ?_⟩
    · dsimp only
      rw [Function.update_apply]
      split_ifs
      · exact hconsistent
      · exact h.consistent d
    · dsimp only
      split_ifs
      · exact h.nodup
      · exact h.nodup.erase c
    · dsimp only at hd ⊢
      rw [Function.update_apply]
      by_cases hdc : d = c
      · subst hdc
        rw [if_pos rfl]
        by_contra hsome
        rw [if_neg hsome] at hd
        exact h.nodup.not_mem_erase hd
      · rw [if_neg hdc]
        split_ifs at hd
        · exact h.watched d hd
        · exact h.watched d (List.mem_of_mem_erase hd)
  | arrives c =>
    rw [EPollPoller.step, Option.ite_none_right_eq_some] at hstep
    obtain ⟨⟨hsome, hnew⟩, hs⟩ := hstep
    obtain rfl := Option.some.inj hs
    refine ⟨h.consistent, List.nodup_append_comm.1 (List.nodup_cons.2 ⟨hnew, h.nodup⟩), fun d hd ↦ ?_⟩
    obtain hd | hd := List.mem_append.1 hd
    · exact h.watched d hd
    · exact List.mem_singleton.1 hd ▸ hsome
  | ceases c =>
    obtain rfl := Option.some.inj hstep
    exact ⟨h.consistent, h.nodup.erase c, fun d hd ↦ h.watched d (List.mem_of_mem_erase hd)⟩
  | poll reported =>
    rw [EPollPoller.step, Option.ite_none_right_eq_some] at hstep
    exact Option.some.inj hstep.2 ▸ listed_poll h reported
  | interrupted => exact Option.some.inj hstep ▸ h

/-- A poll leaves something out only for want of room. -/
theorem room_of_leftOut (hreported : s.Reportable reported)
    (hout : s.leftOut (.poll reported) ≠ []) : s.numEvents.toNat < s.ready.length := by
  obtain ⟨hnodup, hlength, hmem⟩ := hreported
  by_contra hroom
  have hsub : reported.map Prod.fst ⊆ s.ready := by
    intro c hc
    obtain ⟨p, hp, rfl⟩ := List.mem_map.1 hc
    exact (hmem p hp).1
  have hperm : (reported.map Prod.fst).Perm s.ready :=
    (hnodup.subperm hsub).perm_of_length_le (by rw [List.length_map]; omega)
  refine hout (if_pos (List.filter_eq_nil_iff.2 fun c hc ↦ ?_))
  simpa using hperm.mem_iff.2 hc

/-- The array has been doubled at least as often as something was left out. -/
structure Sized (N k : ℕ) (s : EPollPoller ι) : Prop where
  size : ∃ j, k ≤ j ∧ s.events_ = kInitEventListSize * 2 ^ j
  bound : s.events_ ≤ max kInitEventListSize (2 * N)
  left : 0 < k → kInitEventListSize * 2 ^ (k - 1) < N

omit [DecidableEq ι] in
theorem Sized.numEvents {k : ℕ} (h : Sized N k s) (hN : N < 2 ^ 30) :
    s.numEvents = min s.events_ s.ready.length := by
  obtain ⟨j, -, hj⟩ := h.size
  have hpos := Nat.two_pow_pos j
  have hbound := h.bound
  rw [kInitEventListSize] at hj hbound
  rw [EPollPoller.numEvents, intOfSizeT, wrap32_eq_self (by omega) (by omega), epollWait,
    if_neg (by omega), Nat.cast_min]

omit [DecidableEq ι] in
theorem Sized.pos {k : ℕ} (h : Sized N k s) : 0 < s.events_ := by
  obtain ⟨j, -, hj⟩ := h.size
  rw [hj]
  exact Nat.mul_pos (by decide) (Nat.two_pow_pos j)

/-- The array grows by the polls that fill it. -/
theorem Sized.events_poll {k : ℕ} (h : Sized N k s) (hN : N < 2 ^ 30)
    (reported : List (ι × Revents)) : (s.poll reported).events_ =
      if s.events_ ≤ s.ready.length then s.events_ * 2 else s.events_ := by
  have hnum := h.numEvents hN
  have hpos := h.pos
  rw [EPollPoller.poll, hnum]
  by_cases hfull : s.events_ ≤ s.ready.length
  · rw [if_pos hfull, if_pos (by omega), if_pos (by omega)]
  · rw [if_neg hfull]
    split_ifs with hsome hsize
    · omega
    · rfl
    · rfl

theorem leftOut_length (a : Action ι) : (s.leftOut a).length ≤ 1 := by
  cases a with
  | poll reported =>
    rw [leftOut]
    split_ifs
    · exact Nat.zero_le 1
    · exact Nat.le_refl 1
  | _ => exact Nat.zero_le 1

theorem Sized.poll {k : ℕ} (h : Sized N k s) (hN : N < 2 ^ 30)
    (hready : s.ready.length ≤ N) (hreported : s.Reportable reported) :
    Sized N (k + (s.leftOut (.poll reported)).length) (s.poll reported) := by
  have hnum := h.numEvents hN
  have hevents := h.events_poll hN reported
  have hle := leftOut_length (s := s) (.poll reported)
  have hout : s.leftOut (.poll reported) ≠ [] → s.events_ < s.ready.length := fun hout ↦ by
    have := room_of_leftOut hreported hout
    omega
  obtain ⟨j, hkj, hj⟩ := h.size
  by_cases hfull : s.events_ ≤ s.ready.length
  · rw [if_pos hfull] at hevents
    refine ⟨⟨j + 1, by omega, by rw [hevents, hj, pow_succ, Nat.mul_assoc]⟩, by omega,
      fun hpos ↦ ?_⟩
    by_cases hmissed : s.leftOut (.poll reported) = []
    · rw [hmissed, List.length_nil, Nat.add_zero] at hpos ⊢
      exact h.left hpos
    · have hone := List.length_pos_iff.2 hmissed
      have hpow : 2 ^ k ≤ 2 ^ j := Nat.pow_le_pow_right (by decide) hkj
      rw [show k + (s.leftOut (.poll reported)).length - 1 = k by omega]
      calc kInitEventListSize * 2 ^ k ≤ kInitEventListSize * 2 ^ j := Nat.mul_le_mul_left _ hpow
        _ = s.events_ := hj.symm
        _ < s.ready.length := hout hmissed
        _ ≤ N := hready
  · rw [if_neg hfull] at hevents
    have hnone : s.leftOut (.poll reported) = [] := by
      by_contra hmissed
      exact hfull (hout hmissed).le
    rw [hnone, List.length_nil, Nat.add_zero]
    exact ⟨⟨j, hkj, hevents.trans hj⟩, hevents.le.trans h.bound, h.left⟩

theorem Sized.step {k : ℕ} (h : Sized N k s) (hN : N < 2 ^ 30)
    (hready : s.ready.length ≤ N) {a : Action ι} (hstep : s.step a = some s') :
    Sized N (k + (s.leftOut a).length) s' := by
  have hkept (hevents : s'.events_ = s.events_) : Sized N k s' :=
    ⟨hevents ▸ h.size, hevents.le.trans h.bound, h.left⟩
  cases a with
  | call c op =>
    obtain ⟨r, -, rfl⟩ := Option.map_eq_some_iff.1 hstep
    exact hkept rfl
  | arrives c =>
    rw [EPollPoller.step, Option.ite_none_right_eq_some] at hstep
    exact hkept (Option.some.inj hstep.2 ▸ rfl)
  | ceases c | interrupted => exact hkept (Option.some.inj hstep ▸ rfl)
  | poll reported =>
    rw [EPollPoller.step, Option.ite_none_right_eq_some] at hstep
    exact Option.some.inj hstep.2 ▸ h.poll hN hready hstep.1

omit [DecidableEq ι] in
theorem sized_create : Sized N 0 (create : EPollPoller ι) :=
  ⟨⟨0, Nat.le_refl 0, rfl⟩, Nat.le_max_left .., fun h ↦ absurd h (Nat.lt_irrefl 0)⟩

theorem revents_of_mem (revents_ : ι → Revents) (hnodup : (reported.map Prod.fst).Nodup)
    {p : ι × Revents} (hp : p ∈ reported) :
    reported.foldl (fun revents_ p ↦ Function.update revents_ p.1 p.2) revents_ p.1 = p.2 := by
  have hkept (l : List (ι × Revents)) (f : ι → Revents) (hnew : p.1 ∉ l.map Prod.fst) :
      l.foldl (fun revents_ p ↦ Function.update revents_ p.1 p.2) f p.1 = f p.1 := by
    induction l generalizing f with
    | nil => rfl
    | cons q l ih =>
      obtain ⟨hne, hnew⟩ := not_or.1 (mt List.mem_cons.2 hnew)
      rw [List.foldl_cons, ih _ hnew, Function.update_of_ne hne]
  induction reported generalizing revents_ with
  | nil => cases hp
  | cons q l ih =>
    rw [List.map_cons, List.nodup_cons] at hnodup
    obtain hp | hp := List.mem_cons.1 hp
    · subst hp
      rw [List.foldl_cons, hkept l _ hnodup.1, Function.update_self]
    · exact ih _ hnodup.2 hp

theorem revents_poll (hreported : s.Reportable reported) {p : ι × Revents} (hp : p ∈ reported) :
    (s.poll reported).revents_ p.1 = p.2 := by
  obtain ⟨hnodup, hlength, -⟩ := hreported
  have hpos := List.length_pos_of_mem hp
  rw [poll, if_pos (by omega)]
  exact revents_of_mem s.revents_ hnodup hp

/-- Whatever the kernel chooses to report when there is too little room, the polls of a whole run
that leave a ready channel out are few: the array doubles at each, and stays below twice what is
ever ready. All that is reported is registered with the poller, and told what there is. -/
theorem few_polls_leave_out {N : ℕ} (hN : N < 2 ^ 30) {actions : List (Action ι)}
    {s : EPollPoller ι} (hrun : run step create actions = some s)
    (hready : Along step (fun s _ ↦ s.ready.length ≤ N) create actions) :
    (∀ reported, s.Reportable reported → ∀ p ∈ reported,
      (s.registrations p.1).channel.index_ = .kAdded ∧ (s.poll reported).revents_ p.1 = p.2) ∧
    s.events_ ≤ max kInitEventListSize (2 * N) ∧
    let k := (outputs step leftOut create actions).length
    (∃ j, k ≤ j ∧ s.events_ = kInitEventListSize * 2 ^ j) ∧
      (0 < k → kInitEventListSize * 2 ^ (k - 1) < N) := by
  have hlisted : Listed s := run_inv (fun _ _ _ h hstep ↦ h.step hstep) listed_create hrun
  have hreaches : Reaches step (fun s _ ↦ s.ready.length ≤ N) create actions s := ⟨hready, hrun⟩
  have hsized : Sized N (0 + (outputs step leftOut create actions).length) s := hreaches.counts
    (fun _ _ _ _ hready h hstep ↦ h.step hN hready hstep) sized_create
  rw [Nat.zero_add] at hsized
  refine ⟨fun reported hreported p hp ↦ ⟨?_, revents_poll hreported hp⟩, hsized.bound,
    hsized.size, hsized.left⟩
  exact (hlisted.consistent p.1).1 (hlisted.watched p.1 (hreported.2.2 p hp).1)

def crowd : List (Action ℕ) :=
  (List.range 17).map (.call · .enableReading) ++ (List.range 17).map .arrives ++
    [.poll ((List.range 16).map (·, ⟨false, false, true, false⟩))]

theorem crowd_left_out : ∃ s, run step create crowd = some s ∧
    s.events_ ≤ max kInitEventListSize (2 * 17) := by
  have hrun : (run step create crowd).isSome = true := by decide +kernel
  obtain ⟨s, hs⟩ := Option.isSome_iff_exists.1 hrun
  exact ⟨s, hs, (few_polls_leave_out (N := 17) (by decide) hs (by decide +kernel)).2.1⟩

end EPollPoller

end CppAiService
