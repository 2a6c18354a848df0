import CppAiService.PollIndex

namespace CppAiService

/-- What is called on a channel; all but `remove` end in `update`. -/
inductive ChannelOp
  | enableReading
  | disableReading
  | enableWriting
  | disableWriting
  | disableAll
  | remove

def ChannelOp.events (events_ : Events) : ChannelOp → Events
  | .enableReading => { events_ with read := true }
  | .disableReading => { events_ with read := false }
  | .enableWriting => { events_ with write := true }
  | .disableWriting => { events_ with write := false }
  | .disableAll => kNoneEvent
  | .remove => events_

namespace WatchedChannels

open Foundation

variable {ι : Type} [DecidableEq ι]

namespace Epoll

open EPollPoller

/-- Each channel has a socket, and so an entry of the interest list, of its own. -/
def fresh : ι → Registration := fun _ ↦ ⟨Channel.create, none, []⟩

def call (r : Registration) (op : ChannelOp) : Option Registration :=
  match op with
  | .remove => removeChannel r
  | op => updateChannel { r with channel := { r.channel with events_ := op.events r.channel.events_ } }

def step (s : ι → Registration) (a : ι × ChannelOp) : Option (ι → Registration) :=
  (call (s a.1) a.2).map fun r ↦ Function.update s a.1 r

/-- The kernel watches the channel exactly if it asks for something, and for that. -/
def AskedFor (r : Registration) : Prop :=
  ∀ events, r.interest = some events ↔ r.channel.events_ = events ∧ events ≠ kNoneEvent

/-- Of the channels that ask for nothing none can be reported. -/
structure Watched (s : ι → Registration) : Prop where
  interest : ∀ c, AskedFor (s c)
  quiet : ∀ c revents, (s c).channel.events_ = kNoneEvent →
    Revents.possible (s c).interest revents = false

/-- An update without events is for a channel that is watched, a removal for one without. -/
def Meant (r : Registration) : ChannelOp → Prop
  | .remove => r.channel.events_ = kNoneEvent
  | op => op.events r.channel.events_ ≠ kNoneEvent ∨ r.channel.index_ = .kAdded

instance (r : Registration) (op : ChannelOp) : Decidable (Meant r op) := by
  cases op <;> unfold Meant <;> infer_instance

end Epoll

namespace Poll

open PollPoller

variable (fd : ι → ℤ)

def step (s : PollPoller ι) : ι × ChannelOp → Option (PollPoller ι)
  | (c, .remove) => PollPoller.step fd s (.removeChannel c)
  | (c, op) => PollPoller.step fd s (.updateChannel c (op.events (s.events_ c)))

structure Watched (s : PollPoller ι) : Prop where
  interest : ∀ k, 0 ≤ k → ∀ events, (∃ pfd ∈ s.pollfds_, pfd.fd = k ∧ pfd.events = events) ↔
    ∃ c, fd c = k ∧ s.events_ c = events ∧ events ≠ kNoneEvent
  quiet : ∀ c, s.events_ c = kNoneEvent → ∀ ready r, (c, r) ∉ s.activeChannels ready

def Meant (s : PollPoller ι) (c : ι) : ChannelOp → Prop
  | .remove => s.events_ c = kNoneEvent
  | op => op.events (s.events_ c) ≠ kNoneEvent ∨ s.index_ c ≠ kNew

instance (s : PollPoller ι) (c : ι) (op : ChannelOp) : Decidable (Meant s c op) := by
  cases op <;> unfold Meant <;> infer_instance

end Poll

section Epoll

open EPollPoller Epoll

variable {s : ι → Registration} {r : Registration}

structure Ready (r : Registration) : Prop where
  consistent : r.Consistent
  asked : AskedFor r

omit [DecidableEq ι] in
theorem ready_fresh (c : ι) : Ready (Epoll.fresh c) where
  consistent := by simp [Registration.Consistent, Epoll.fresh, Channel.create]
  asked := by
    intro events
    simp only [Epoll.fresh, Channel.create, reduceCtorEq, false_iff, not_and, not_not]
    exact Eq.symm

omit [DecidableEq ι] in
theorem watched_of_ready (h : ∀ c, Ready (s c)) : Epoll.Watched s := by
  refine ⟨fun c ↦ (h c).asked, fun c revents hnone ↦ ?_⟩
  cases hinterest : (s c).interest with
  | none => rfl
  | some events =>
    obtain ⟨hevents, hne⟩ := ((h c).asked events).1 hinterest
    exact absurd (hevents.symm.trans hnone) hne

theorem askedFor_some {events : Events} {index : ChannelIndex} {calls : List EpollCtl} :
    AskedFor ⟨⟨events, index⟩, some events, calls⟩ ↔ events ≠ kNoneEvent := by
  constructor
  · intro h
    exact ((h events).1 rfl).2
  · intro hne other
    constructor
    · intro heq
      obtain rfl := Option.some.inj heq
      exact ⟨rfl, hne⟩
    · rintro ⟨rfl, -⟩
      rfl

theorem askedFor_none {events : Events} {index : ChannelIndex} {calls : List EpollCtl} :
    AskedFor ⟨⟨events, index⟩, none, calls⟩ ↔ events = kNoneEvent := by
  constructor
  · intro h
    by_contra hne
    cases (h events).2 ⟨rfl, hne⟩
  · rintro rfl other
    constructor
    · exact nofun
    · rintro ⟨rfl, hne⟩
      exact absurd rfl hne

theorem update_spec (h : Ready r) (events : Events) :
    ∃ r', updateChannel { r with channel := { r.channel with events_ := events } } = some r' ∧
      (events ≠ kNoneEvent ∨ r.channel.index_ = .kAdded → Ready r') ∧
      (AskedFor r' → events ≠ kNoneEvent ∨ r.channel.index_ = .kAdded) := by
  obtain ⟨⟨old, index⟩, interest, calls⟩ := r
  have hconsistent : Registration.Consistent ⟨⟨events, index⟩, interest, calls⟩ := h.consistent
  by_cases hindex : index = .kAdded
  · cases hindex
    cases hnone : (⟨events, .kAdded⟩ : Channel).isNoneEvent with
    | true =>
      refine ⟨_, updateChannel_del hconsistent rfl hnone, fun _ ↦ ⟨?_, ?_⟩, fun _ ↦ .inr rfl⟩
      · simp [Registration.Consistent]
      · exact askedFor_none.2 (of_decide_eq_true hnone)
    | false =>
      refine ⟨_, updateChannel_mod hconsistent rfl hnone, fun _ ↦ ⟨?_, ?_⟩, fun _ ↦ .inr rfl⟩
      · simp [Registration.Consistent]
      · exact askedFor_some.2 (of_decide_eq_false hnone)
  · refine ⟨_, updateChannel_add hconsistent hindex, fun hmeant ↦ ⟨?_, ?_⟩,
      fun hasked ↦ .inl (askedFor_some.1 hasked)⟩
    · simp [Registration.Consistent]
    · exact askedFor_some.2 (hmeant.resolve_right hindex)

theorem remove_spec (h : Ready r) : ∃ r', removeChannel r = some r' ∧
    (r.channel.events_ = kNoneEvent → Ready r') ∧
    (AskedFor r' → r.channel.events_ = kNoneEvent) := by
  obtain ⟨r', hremove, hconsistent, hchannel, hinterest, -⟩ := removeChannel_consistent h.consistent
  obtain ⟨channel, interest, calls⟩ := r'
  obtain rfl : channel = _ := hchannel
  obtain rfl : interest = none := hinterest
  exact ⟨_, hremove, fun hnone ↦ ⟨hconsistent, askedFor_none.2 hnone⟩, askedFor_none.1⟩

theorem call_spec (h : Ready r) (op : ChannelOp) : ∃ r', call r op = some r' ∧
    (Epoll.Meant r op → Ready r') ∧ (AskedFor r' → Epoll.Meant r op) := by
  cases op with
  | remove => exact remove_spec h
  | _ => exact update_spec h _

theorem epoll_step (s : ι → Registration) (a : ι × ChannelOp) (h : ∀ c, Ready (s c)) :
    ∃ s', Epoll.step s a = some s' ∧ (Epoll.Meant (s a.1) a.2 → ∀ c, Ready (s' c)) ∧
      (Epoll.Watched s' → Epoll.Meant (s a.1) a.2) := by
  obtain ⟨r, hcall, hready, hmeant⟩ := call_spec (h a.1) a.2
  refine ⟨_, by rw [Epoll.step, hcall, Option.map_some], fun hok c ↦ ?_, fun hwatched ↦ ?_⟩
  · by_cases hc : c = a.1
    · rw [hc, Function.update_self]
      exact hready hok
    · rw [Function.update_of_ne hc]
      exact h c
  · have hasked := hwatched.interest a.1
    rw [Function.update_self] at hasked
    exact hmeant hasked

end Epoll

section Poll

open PollPoller

variable {fd : ι → ℤ} {last : ι → Option LastUpdate} {s s' : PollPoller ι} {c : ι}

/-- No channel that asks for nothing is in a slot as it was registered. -/
structure Asked (fd : ι → ℤ) (last : ι → Option LastUpdate) (s : PollPoller ι) : Prop where
  indexed : Indexed fd last s
  absent : ∀ c, last c = none → s.events_ c = kNoneEvent
  registered : ∀ c u, last c = some u → u.registering = true → u.events ≠ kNoneEvent

theorem slotFd_nonneg {u : LastUpdate} {fd : ℤ} (hfd : 0 ≤ fd) (h : 0 ≤ u.slotFd fd) :
    u.slotFd fd = fd ∧ ¬ (u.registering = false ∧ u.events = kNoneEvent) := by
  rw [LastUpdate.slotFd] at h ⊢
  split_ifs at h ⊢ with hnone
  · omega
  · exact ⟨rfl, hnone⟩

omit [DecidableEq ι] in
/-- A slot that is not negative is the one of the channel with its descriptor. -/
theorem owner_of_mem (h : Indexed fd last s) (hnonneg : ∀ c, 0 ≤ fd c) {pfd : PollFd}
    (hmem : pfd ∈ s.pollfds_) (hpfd : 0 ≤ pfd.fd) :
    ∃ c u, last c = some u ∧ fd c = pfd.fd ∧ u.events = pfd.events ∧
      ¬ (u.registering = false ∧ u.events = kNoneEvent) := by
  obtain ⟨i, hi⟩ := List.mem_iff_getElem?.1 hmem
  obtain ⟨c, u, hc, hindex⟩ := h.covered i (List.getElem?_eq_some_iff.1 hi).1
  obtain ⟨j, revents, hj, hslot⟩ := h.slot c u hc
  obtain rfl : i = j := by omega
  obtain rfl := Option.some.inj (hi.symm.trans hslot)
  obtain ⟨hfdc, hnone⟩ := slotFd_nonneg (hnonneg c) hpfd
  exact ⟨c, u, hc, hfdc.symm, rfl, hnone⟩

omit [DecidableEq ι] in
theorem Asked.watched (h : Asked fd last s) (hnonneg : ∀ c, 0 ≤ fd c) : Poll.Watched fd s := by
  have hregistered : ∀ c u, last c = some u →
      ¬ (u.registering = false ∧ u.events = kNoneEvent) → u.events ≠ kNoneEvent := by
    intro c u hc hnone hevents
    cases hu : u.registering with
    | false => exact hnone ⟨hu, hevents⟩
    | true => exact h.registered c u hc hu hevents
  refine ⟨fun k hk events ↦ ⟨?_, ?_⟩, fun c hevents ready r hmem ↦ ?_⟩
  · rintro ⟨pfd, hmem, rfl, rfl⟩
    obtain ⟨c, u, hc, hfdc, hevents, hnone⟩ := owner_of_mem h.indexed hnonneg hmem hk
    exact ⟨c, hfdc, (h.indexed.events c u hc).trans hevents, hevents ▸ hregistered c u hc hnone⟩
  · rintro ⟨c, rfl, rfl, hevents⟩
    obtain ⟨u, hc⟩ := Option.ne_none_iff_exists'.1 (mt (h.absent c) hevents)
    obtain ⟨i, revents, -, hslot⟩ := h.indexed.slot c u hc
    rw [h.indexed.events c u hc] at hevents ⊢
    refine ⟨_, List.mem_of_getElem? hslot, ?_, rfl⟩
    exact if_neg fun hnone ↦ hevents hnone.2
  · obtain ⟨⟨u, hc, hslot⟩, -⟩ := ((h.indexed.active hnonneg ready).2 c r).1 hmem
    obtain ⟨-, hnone⟩ := slotFd_nonneg (hnonneg c) (hslot.symm ▸ hnonneg c)
    exact hregistered c u hc hnone ((h.indexed.events c u hc).symm.trans hevents)

theorem updateChannel_events (h : s.updateChannel fd c = some s') : s'.events_ = s.events_ := by
  rw [updateChannel] at h
  split_ifs at h
  · obtain rfl := Option.some.inj h
    rfl
  · obtain rfl := Option.some.inj h
    rfl

theorem removeChannel_events (h : Indexed fd last s) (hfd : Function.Injective fd)
    (hnonneg : ∀ c, 0 ≤ fd c) (hremove : s.removeChannel fd c = some s') :
    s'.events_ = s.events_ := by
  cases hc : last c with
  | none =>
    rw [h.remove_unregistered hfd hc, Option.some.injEq] at hremove
    rw [hremove]
  | some u =>
    obtain ⟨i, hi, hlt⟩ := h.index hc
    obtain ⟨s₁, h₁, hs⟩ := h.removes hfd hnonneg hc hi hlt
    obtain rfl := Option.some.inj (hremove.symm.trans h₁)
    exact hs.events

theorem poll_update (h : Asked fd last s) (hfd : Function.Injective fd)
    (hnonneg : ∀ c, 0 ≤ fd c) (c : ι) (events : Events) :
    ∃ s', PollPoller.step fd s (.updateChannel c events) = some s' ∧
      (events ≠ kNoneEvent ∨ s.index_ c ≠ kNew → ∃ last, Asked fd last s') ∧
      (Poll.Watched fd s' → events ≠ kNoneEvent ∨ s.index_ c ≠ kNew) := by
  obtain ⟨s', hstep, h'⟩ := h.indexed.step hfd hnonneg (.updateChannel c events)
  have hevents : s'.events_ = Function.update s.events_ c events := updateChannel_events hstep
  have hself : record last (.updateChannel c events) c = some ⟨(last c).isNone, events⟩ :=
    Function.update_self _ _ _
  have hother : ∀ d, d ≠ c → record last (.updateChannel c events) d = last d :=
    fun d hd ↦ Function.update_of_ne hd _ _
  refine ⟨s', hstep, fun hmeant ↦ ⟨_, h', fun d hd ↦ ?_, fun d u hd hu ↦ ?_⟩, fun hwatched ↦ ?_⟩
  · by_cases hdc : d = c
    · rw [hdc, hself] at hd
      cases hd
    · rw [hevents, Function.update_of_ne hdc]
      exact h.absent d ((hother d hdc).symm.trans hd)
  · by_cases hdc : d = c
    · rw [hdc, hself, Option.some.injEq] at hd
      obtain rfl := hd
      have hindex := h.indexed.unregistered c (Option.isNone_iff_eq_none.1 hu)
      exact hmeant.resolve_right (not_not.2 hindex)
    · exact h.registered d u ((hother d hdc).symm.trans hd) hu
  · by_contra hno
    obtain ⟨rfl, hindex⟩ : events = kNoneEvent ∧ s.index_ c = kNew := by tauto
    have hc : last c = none := by
      by_contra hne
      obtain ⟨u, hc⟩ := Option.ne_none_iff_exists'.1 hne
      obtain ⟨i, hi, -⟩ := h.indexed.index hc
      rw [hindex, kNew] at hi
      omega
    obtain ⟨i, revents, -, hslot⟩ := h'.slot c _ hself
    obtain ⟨d, -, -, hne⟩ := (hwatched.interest (fd c) (hnonneg c) kNoneEvent).1
      ⟨_, List.mem_of_getElem? hslot, by rw [hc]; rfl, rfl⟩
    exact hne rfl

theorem poll_remove (h : Asked fd last s) (hfd : Function.Injective fd)
    (hnonneg : ∀ c, 0 ≤ fd c) (c : ι) :
    ∃ s', PollPoller.step fd s (.removeChannel c) = some s' ∧
      (s.events_ c = kNoneEvent → ∃ last, Asked fd last s') ∧
      (Poll.Watched fd s' → s.events_ c = kNoneEvent) := by
  obtain ⟨s', hstep, h'⟩ := h.indexed.step hfd hnonneg (.removeChannel c)
  have hevents : s'.events_ = s.events_ := removeChannel_events h.indexed hfd hnonneg hstep
  have hself : record last (.removeChannel c) c = none := Function.update_self _ _ _
  have hother : ∀ d, d ≠ c → record last (.removeChannel c) d = last d :=
    fun d hd ↦ Function.update_of_ne hd _ _
  refine ⟨s', hstep, fun hmeant ↦ ⟨_, h', fun d hd ↦ ?_, fun d u hd ↦ ?_⟩, fun hwatched ↦ ?_⟩
  · rw [hevents]
    by_cases hdc : d = c
    · rwa [hdc]
    · exact h.absent d ((hother d hdc).symm.trans hd)
  · have hdc : d ≠ c := by
      rintro rfl
      cases hself.symm.trans hd
    exact h.registered d u ((hother d hdc).symm.trans hd)
  · by_contra hne
    obtain ⟨pfd, hmem, hpfd, -⟩ := (hwatched.interest (fd c) (hnonneg c) (s.events_ c)).2
      ⟨c, rfl, by rw [hevents], hne⟩
    obtain ⟨d, u, hd, hfdd, -⟩ := owner_of_mem h' hnonneg hmem (hpfd ▸ hnonneg c)
    obtain rfl := hfd (hfdd.trans hpfd)
    cases hself.symm.trans hd

theorem poll_step (hfd : Function.Injective fd) (hnonneg : ∀ c, 0 ≤ fd c) (s : PollPoller ι)
    (a : ι × ChannelOp) (h : ∃ last, Asked fd last s) :
    ∃ s', Poll.step fd s a = some s' ∧ (Poll.Meant s a.1 a.2 → ∃ last, Asked fd last s') ∧
      (Poll.Watched fd s' → Poll.Meant s a.1 a.2) := by
  obtain ⟨last, h⟩ := h
  obtain ⟨c, op⟩ := a
  cases op with
  | remove => exact poll_remove h hfd hnonneg c
  | _ => exact poll_update h hfd hnonneg c _

end Poll

/-- With either poller a channel is watched exactly when and for what it asks for, after every
operation of a run, if and only if no channel is left without events by an update while the
poller does not have it, and none is removed that still asks for something. -/
theorem watched_iff {fd : ι → ℤ} (hfd : Function.Injective fd) (hnonneg : ∀ c, 0 ≤ fd c)
    (ops : List (ι × ChannelOp)) :
    ((∀ before after, ops = before ++ after →
        ∃ s, Run.run Epoll.step Epoll.fresh before = some s ∧ Epoll.Watched s) ↔
      Run.Along Epoll.step (fun s a ↦ Epoll.Meant (s a.1) a.2) Epoll.fresh ops) ∧
    ((∀ before after, ops = before ++ after →
        ∃ s, Run.run (Poll.step fd) PollPoller.create before = some s ∧ Poll.Watched fd s) ↔
      Run.Along (Poll.step fd) (fun s a ↦ Poll.Meant s a.1 a.2) PollPoller.create ops) := by
  constructor
  · have hany : Run.Along Epoll.step (fun _ _ ↦ True) Epoll.fresh ops :=
      Run.along_of_forall (fun _ _ ↦ trivial) _ _
    exact Run.prefixes_iff (fun _ h ↦ watched_of_ready h) (fun s a _ h ↦ epoll_step s a h)
      ready_fresh hany
  · have hcreate : ∃ last, Asked fd last (PollPoller.create : PollPoller ι) :=
      ⟨_, PollPoller.indexed_create, fun _ _ ↦ rfl, nofun⟩
    have hany : Run.Along (Poll.step fd) (fun _ _ ↦ True) PollPoller.create ops :=
      Run.along_of_forall (fun _ _ ↦ trivial) _ _
    exact Run.prefixes_iff (fun _ ⟨_, h⟩ ↦ h.watched hnonneg)
      (fun s a _ h ↦ poll_step hfd hnonneg s a h) hcreate hany

/-- A connection's channel as it is used, and the loop's beside it. -/
theorem watched_while_open :
    let fd : ℕ → ℤ := fun c ↦ Int.ofNat (c + 5)
    let ops : List (ℕ × ChannelOp) := [(0, .enableReading), (1, .enableReading),
      (1, .enableWriting), (1, .disableWriting), (1, .disableAll), (1, .remove)]
    (∀ before after, ops = before ++ after →
      ∃ s, Run.run Epoll.step Epoll.fresh before = some s ∧ Epoll.Watched s) ∧
    ∀ before after, ops = before ++ after →
      ∃ s, Run.run (Poll.step fd) PollPoller.create before = some s ∧ Poll.Watched fd s := by
  intro fd ops
  have hfd : Function.Injective fd := fun a b hab ↦ Nat.add_right_cancel (Int.ofNat.inj hab)
  have h := watched_iff hfd (fun c ↦ Int.natCast_nonneg _) ops
  exact ⟨h.1.2 (by decide), h.2.2 (by decide)⟩

/-- `disableAll` on a channel that was never added, and with epoll also a second one: both
pollers ask the kernel to watch it, and so report its hang-up. -/
theorem disableAll_watches :
    let hangup : Revents := ⟨true, false, false, false⟩
    (∃ s, Run.run Epoll.step (Epoll.fresh : ℕ → _) [(0, .disableAll)] = some s ∧
      (s 0).channel.events_ = kNoneEvent ∧ hangup.possible (s 0).interest = true ∧
      ¬ Epoll.Watched s) ∧
    (∃ s, Run.run Epoll.step (Epoll.fresh : ℕ → _) [(0, .enableReading), (0, .disableAll),
      (0, .disableAll)] = some s ∧ (s 0).channel.events_ = kNoneEvent ∧
      hangup.possible (s 0).interest = true) ∧
    ∃ s, Run.run (Poll.step fun c ↦ Int.ofNat c) (PollPoller.create : PollPoller ℕ)
      [(0, .disableAll)] = some s ∧ s.events_ 0 = kNoneEvent ∧
      s.activeChannels (fun _ ↦ 16) = [(0, 16)] ∧ ¬ Poll.Watched (fun c ↦ Int.ofNat c) s := by
  intro hangup
  refine ⟨⟨_, rfl, rfl, rfl, fun h ↦ ?_⟩, ⟨_, rfl, rfl, rfl⟩, ⟨_, rfl, rfl, rfl, fun h ↦ ?_⟩⟩
  · cases (h.quiet 0 hangup rfl).symm.trans rfl
  · exact h.quiet 0 rfl (fun _ ↦ 16) 16 (by decide)

end WatchedChannels

end CppAiService
