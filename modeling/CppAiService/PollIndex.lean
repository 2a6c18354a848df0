import CppAiService.PollPoller

namespace CppAiService.PollPoller

open Foundation

variable {ι : Type} [DecidableEq ι] {fd : ι → ℤ} {s s' : PollPoller ι}

structure LastUpdate where
  registering : Bool
  events : Events
  deriving DecidableEq

def LastUpdate.slotFd (u : LastUpdate) (fd : ℤ) : ℤ :=
  if u.registering = false ∧ u.events = kNoneEvent then -fd - 1 else fd

/-- What the calls so far say about the channels, `none` for one that is not registered. -/
def record (last : ι → Option LastUpdate) : Action ι → ι → Option LastUpdate
  | .updateChannel channel events =>
    Function.update last channel (some ⟨(last channel).isNone, events⟩)
  | .removeChannel channel => Function.update last channel none
  | .poll _ => last

structure Indexed (fd : ι → ℤ) (last : ι → Option LastUpdate) (s : PollPoller ι) : Prop where
  covered : ∀ i < s.pollfds_.length, ∃ c u, last c = some u ∧ s.index_ c = i
  distinct : ∀ c d u v, last c = some u → last d = some v → s.index_ c = s.index_ d → c = d
  slot : ∀ c u, last c = some u → ∃ (i : ℕ) (revents : ℕ), s.index_ c = i ∧
    s.pollfds_[i]? = some ⟨u.slotFd (fd c), u.events, revents⟩
  events : ∀ c u, last c = some u → s.events_ c = u.events
  found : ∀ c u, last c = some u → s.channels_ (fd c) = some c
  only : ∀ k c, s.channels_ k = some c → fd c = k ∧ last c ≠ none
  unregistered : ∀ c, last c = none → s.index_ c = kNew

variable {last : ι → Option LastUpdate} {c : ι}

omit [DecidableEq ι] in
theorem indexed_create : Indexed fd (fun _ ↦ none) (create : PollPoller ι) where
  covered := fun _ h ↦ absurd h (Nat.not_lt_zero _)
  distinct := nofun
  slot := nofun
  events := nofun
  found := nofun
  only := nofun
  unregistered := fun _ _ ↦ rfl

omit [DecidableEq ι] in
theorem Indexed.index (h : Indexed fd last s) {u : LastUpdate} (hc : last c = some u) :
    ∃ i : ℕ, s.index_ c = i ∧ i < s.pollfds_.length := by
  obtain ⟨i, revents, hi, hslot⟩ := h.slot c u hc
  exact ⟨i, hi, (List.getElem?_eq_some_iff.1 hslot).1⟩

omit [DecidableEq ι] in
theorem Indexed.eq_of_index (h : Indexed fd last s) {d : ι} {u : LastUpdate}
    (hc : last c = some u) (heq : s.index_ d = s.index_ c) : d = c := by
  cases hd : last d with
  | none =>
    obtain ⟨i, hi, -⟩ := h.index hc
    have hnew := h.unregistered d hd
    rw [heq, hi, kNew] at hnew
    omega
  | some v => exact h.distinct d c v u hd hc heq

theorem Indexed.register (h : Indexed fd last s) (hfd : Function.Injective fd)
    (hc : last c = none) (events : Events) :
    Indexed fd (Function.update last c (some ⟨true, events⟩))
      ({ s with events_ := Function.update s.events_ c events }.registered fd c) where
  covered i hi := by
    rcases (Nat.lt_succ_iff.1 (by simpa [registered] using hi)).lt_or_eq with hlt | rfl
    · obtain ⟨d, u, hd, hindex⟩ := h.covered i hlt
      have hne : d ≠ c := by
        rintro rfl
        cases hd.symm.trans hc
      exact ⟨d, u, by rwa [Function.update_of_ne hne],
        (Function.update_of_ne hne _ _).trans hindex⟩
    · exact ⟨c, _, Function.update_self _ _ _, Function.update_self _ _ _⟩
  distinct d e u v hd he heq := by
    simp only [registered, Function.update_apply] at hd he heq
    split_ifs at hd he heq with hdc hec hec
    · rw [hdc, hec]
    · obtain ⟨i, hi, hlt⟩ := h.index he
      omega
    · obtain ⟨i, hi, hlt⟩ := h.index hd
      omega
    · exact h.distinct d e u v hd he heq
  slot d u hd := by
    simp only [registered, Function.update_apply] at hd ⊢
    split_ifs at hd ⊢ with hdc
    · obtain rfl := Option.some.inj hd
      obtain rfl := hdc
      exact ⟨_, 0, rfl, by simp [LastUpdate.slotFd]⟩
    · obtain ⟨i, revents, hi, hslot⟩ := h.slot d u hd
      refine ⟨i, revents, hi, ?_⟩
      rw [List.getElem?_append_left (List.getElem?_eq_some_iff.1 hslot).1, hslot]
  events d u hd := by
    simp only [registered, Function.update_apply] at hd ⊢
    split_ifs at hd ⊢ with hdc
    · exact (Option.some.inj hd) ▸ rfl
    · exact h.events d u hd
  found d u hd := by
    simp only [registered, Function.update_apply] at hd ⊢
    split_ifs at hd ⊢ with hfdc hdc hdc
    · rw [hdc]
    · exact absurd (hfd hfdc) hdc
    · exact absurd (congrArg fd hdc) hfdc
    · exact h.found d u hd
  only k d hk := by
    simp only [registered, Function.update_apply] at hk ⊢
    split_ifs at hk with hfdc
    · obtain rfl := Option.some.inj hk
      exact ⟨hfdc.symm, by simp⟩
    · obtain ⟨hfdd, hd⟩ := h.only k d hk
      have hne : d ≠ c := by
        rintro rfl
        exact hd hc
      exact ⟨hfdd, by rwa [if_neg hne]⟩
  unregistered d hd := by
    simp only [registered, Function.update_apply] at hd ⊢
    split_ifs at hd ⊢ with hdc
    exact h.unregistered d hd

theorem update_ne_none_iff {old : LastUpdate} (hc : last c = some old) (u : LastUpdate) (d : ι) :
    Function.update last c (some u) d ≠ none ↔ last d ≠ none := by
  rw [Function.update_apply]
  split_ifs with hdc
  · rw [hdc, hc]
    simp
  · rfl

theorem known_of_update {old u v : LastUpdate} {d : ι} (hc : last c = some old)
    (hd : Function.update last c (some u) d = some v) : ∃ w, last d = some w :=
  Option.ne_none_iff_exists'.1 ((update_ne_none_iff hc u d).1 (by rw [hd]; simp))

/-- A channel that has its slot keeps it. -/
theorem Indexed.overwritten (h : Indexed fd last s) {old : LastUpdate} (hc : last c = some old)
    (events : Events) {i : ℕ} (hi : s.index_ c = i) (hlt : i < s.pollfds_.length) :
    Indexed fd (Function.update last c (some ⟨false, events⟩))
      { s with
        events_ := Function.update s.events_ c events
        pollfds_ := s.pollfds_.set i (PollPoller.slot (fd c) events) } where
  covered j hj := by
    obtain ⟨d, u, hd, hindex⟩ := h.covered j (by simpa using hj)
    obtain ⟨v, hv⟩ := Option.ne_none_iff_exists'.1
      ((update_ne_none_iff hc ⟨false, events⟩ d).2 (by rw [hd]; simp))
    exact ⟨d, v, hv, hindex⟩
  distinct d e u v hd he := by
    obtain ⟨u, hd⟩ := known_of_update hc hd
    obtain ⟨v, he⟩ := known_of_update hc he
    exact h.distinct d e u v hd he
  slot d u hd := by
    rw [Function.update_apply] at hd
    split_ifs at hd with hdc
    · obtain rfl := Option.some.inj hd
      obtain rfl := hdc
      exact ⟨i, 0, hi, by simp [List.getElem?_set_self hlt, PollPoller.slot, LastUpdate.slotFd]⟩
    · obtain ⟨j, revents, hj, hslot⟩ := h.slot d u hd
      have hij : i ≠ j := by
        rintro rfl
        exact hdc (h.eq_of_index hc (hj.trans hi.symm))
      exact ⟨j, revents, hj, by rw [List.getElem?_set_ne hij, hslot]⟩
  events d u hd := by
    simp only [Function.update_apply] at hd ⊢
    split_ifs at hd ⊢ with hdc
    · exact (Option.some.inj hd) ▸ rfl
    · exact h.events d u hd
  found d u hd := by
    obtain ⟨v, hd⟩ := known_of_update hc hd
    exact h.found d v hd
  only k d hk := by
    obtain ⟨hfdd, hd⟩ := h.only k d hk
    exact ⟨hfdd, (update_ne_none_iff hc _ d).2 hd⟩
  unregistered d hd :=
    h.unregistered d (not_not.1 (mt (update_ne_none_iff hc _ d).2 (not_not.2 hd)))

theorem Indexed.setSlot (h : Indexed fd last s) {old : LastUpdate} (hc : last c = some old)
    (events : Events) : ∃ s',
    { s with events_ := Function.update s.events_ c events }.updateChannel fd c = some s' ∧
      Indexed fd (Function.update last c (some ⟨false, events⟩)) s' := by
  obtain ⟨i, hi, hlt⟩ := h.index hc
  have hne : s.index_ c ≠ kNew := by
    rw [hi, kNew]
    omega
  have hbound : 0 ≤ s.index_ c ∧ s.index_ c < s.pollfds_.length := by
    rw [hi]
    omega
  refine ⟨_, by rw [updateChannel]; exact (if_neg hne).trans (if_pos hbound), ?_⟩
  dsimp only
  rw [Function.update_self, hi, Int.toNat_natCast]
  exact h.overwritten hc events hi hlt

theorem swap_dropLast {pfds : List PollFd} {i : ℕ} (hi : i < pfds.length - 1) :
    ∃ pfds', swap pfds i (pfds.length - 1) = some pfds' ∧ pfds'.length = pfds.length ∧
      ∀ k < pfds.length - 1, pfds'.dropLast[k]? =
        if k = i then pfds[pfds.length - 1]? else pfds[k]? := by
  have hi' : i < pfds.length := by omega
  have hlast : pfds.length - 1 < pfds.length := by omega
  refine ⟨(pfds.set i pfds[pfds.length - 1]).set (pfds.length - 1) pfds[i], ?_, ?_, ?_⟩
  · rw [swap, List.getElem?_eq_getElem hi', List.getElem?_eq_getElem hlast]
    rfl
  · rw [List.length_set, List.length_set]
  · intro k hk
    rw [List.getElem?_dropLast, List.length_set, List.length_set, if_pos hk,
      List.getElem?_set_ne (by omega)]
    split_ifs with hki
    · rw [hki, List.getElem?_set_self hi', List.getElem?_eq_getElem hlast]
    · rw [List.getElem?_set_ne (Ne.symm hki)]

theorem decode_slotFd (u : LastUpdate) {fd : ℤ} (h : 0 ≤ fd) : decode (u.slotFd fd) = fd := by
  rw [decode, LastUpdate.slotFd]
  split_ifs <;> omega

/-- Taking a channel out moves the last slot, with its channel's index, to the free place. -/
structure Removes (fd : ι → ℤ) (c : ι) (i : ℕ) (s s' : PollPoller ι) : Prop where
  events : s'.events_ = s.events_
  channels : s'.channels_ = Function.update s.channels_ (fd c) none
  length : s'.pollfds_.length = s.pollfds_.length - 1
  pollfds : ∀ k < s.pollfds_.length - 1, s'.pollfds_[k]? =
    if k = i then s.pollfds_[s.pollfds_.length - 1]? else s.pollfds_[k]?
  self : s'.index_ c = kNew
  others : ∀ d ≠ c, s'.index_ d =
    if s.index_ d = (s.pollfds_.length - 1 : ℕ) then (i : ℤ) else s.index_ d

theorem Indexed.removes (h : Indexed fd last s) (hfd : Function.Injective fd)
    (hnonneg : ∀ c, 0 ≤ fd c) {u : LastUpdate} (hc : last c = some u) {i : ℕ}
    (hi : s.index_ c = i) (hlt : i < s.pollfds_.length) :
    ∃ s', s.removeChannel fd c = some s' ∧ Removes fd c i s s' := by
  have hbound : 0 ≤ s.index_ c ∧ s.index_ c < s.pollfds_.length := by
    rw [hi]
    omega
  rw [removeChannel]
  dsimp only
  rw [if_pos hbound]
  by_cases hlast : i = s.pollfds_.length - 1
  · rw [if_pos (by omega)]
    refine ⟨_, rfl, rfl, rfl, by simp [pop_back, set_index], fun k hk ↦ ?_,
      Function.update_self _ _ _, fun d hd ↦ ?_⟩
    · rw [if_neg (by omega)]
      exact List.getElem?_dropLast.trans (if_pos hk)
    · refine (Function.update_of_ne hd _ _).trans ?_
      split_ifs with hsame
      · exact hlast ▸ hsame
      · rfl
  · rw [if_neg (by omega)]
    obtain ⟨e, v, he, hindex⟩ := h.covered (s.pollfds_.length - 1) (by omega)
    have hne : e ≠ c := by
      rintro rfl
      omega
    obtain ⟨j, revents, hj, hslot⟩ := h.slot e v he
    obtain rfl : j = s.pollfds_.length - 1 := by omega
    obtain ⟨pfds', hswap, hlength, hget⟩ := swap_dropLast (show i < s.pollfds_.length - 1 by omega)
    have hmoved : Function.update s.channels_ (fd c) none (decode (v.slotFd (fd e))) = some e := by
      rw [decode_slotFd v (hnonneg e), Function.update_of_ne (hfd.ne hne)]
      exact h.found e v he
    rw [moveLast]
    dsimp only
    rw [hslot, Option.bind_some, hi, Int.toNat_natCast, hswap, Option.bind_some, hmoved]
    refine ⟨_, rfl, rfl, rfl, ?_, hget, Function.update_self _ _ _, fun d hd ↦ ?_⟩
    · simp [pop_back, set_index, hlength]
    · refine (Function.update_of_ne hd _ _).trans ?_
      change Function.update s.index_ e i d = _
      rw [Function.update_apply]
      split_ifs with hde hsame hsame
      · rfl
      · exact absurd (hde ▸ hindex) hsame
      · exact absurd (h.eq_of_index he (hsame.trans hindex.symm)) hde
      · rfl

theorem Indexed.remove_unregistered (h : Indexed fd last s) (hfd : Function.Injective fd)
    (hc : last c = none) : s.removeChannel fd c = some s := by
  have hindex := h.unregistered c hc
  have hchannels : Function.update s.channels_ (fd c) none = s.channels_ := by
    refine Function.update_eq_self_iff.2 (Eq.symm ?_)
    by_contra hne
    obtain ⟨d, hd⟩ := Option.ne_none_iff_exists'.1 hne
    obtain ⟨hfdd, hregistered⟩ := h.only _ d hd
    exact hregistered (hfd hfdd ▸ hc)
  have hself : Function.update s.index_ c kNew = s.index_ :=
    Function.update_eq_self_iff.2 hindex.symm
  rw [removeChannel]
  dsimp only
  rw [hindex, if_neg (by rw [kNew]; omega), Option.map_some, set_index, hchannels, hself]

theorem known_of_update_none {d : ι} {v : LastUpdate}
    (hd : Function.update last c none d = some v) : d ≠ c ∧ last d = some v := by
  rw [Function.update_apply] at hd
  split_ifs at hd with hdc
  exact ⟨hdc, hd⟩

theorem Indexed.remove (h : Indexed fd last s) (hfd : Function.Injective fd)
    {u : LastUpdate} (hc : last c = some u) {i : ℕ} (hi : s.index_ c = i)
    (hlt : i < s.pollfds_.length) (hs : Removes fd c i s s') :
    Indexed fd (Function.update last c none) s' where
  covered k hk := by
    rw [hs.length] at hk
    -- the slot that is moved stands for the one that is gone
    by_cases hki : k = i
    · obtain ⟨d, v, hd, hindex⟩ := h.covered (s.pollfds_.length - 1) (by omega)
      have hdc : d ≠ c := by
        rintro rfl
        omega
      exact ⟨d, v, by rwa [Function.update_of_ne hdc],
        by rw [hs.others d hdc, if_pos hindex, hki]⟩
    · obtain ⟨d, v, hd, hindex⟩ := h.covered k (by omega)
      have hdc : d ≠ c := by
        rintro rfl
        omega
      exact ⟨d, v, by rwa [Function.update_of_ne hdc],
        by rw [hs.others d hdc, if_neg (by omega), hindex]⟩
  distinct d e v w hd he heq := by
    obtain ⟨hdc, hd⟩ := known_of_update_none hd
    obtain ⟨hec, he⟩ := known_of_update_none he
    have hdi : s.index_ d ≠ i := fun hsame ↦ hdc (h.eq_of_index hc (hsame.trans hi.symm))
    have hei : s.index_ e ≠ i := fun hsame ↦ hec (h.eq_of_index hc (hsame.trans hi.symm))
    rw [hs.others d hdc, hs.others e hec] at heq
    refine h.distinct d e v w hd he ?_
    split_ifs at heq with hdlast helast helast
    · exact hdlast.trans helast.symm
    · exact absurd heq.symm hei
    · exact absurd heq hdi
    · exact heq
  slot d v hd := by
    obtain ⟨hdc, hd⟩ := known_of_update_none hd
    have hdi : s.index_ d ≠ i := fun hsame ↦ hdc (h.eq_of_index hc (hsame.trans hi.symm))
    obtain ⟨j, revents, hj, hslot⟩ := h.slot d v hd
    have hjlt := (List.getElem?_eq_some_iff.1 hslot).1
    by_cases hlast : j = s.pollfds_.length - 1
    · refine ⟨i, revents, by rw [hs.others d hdc, hj, if_pos (by rw [hlast])], ?_⟩
      rw [hs.pollfds i (by omega), if_pos rfl, ← hlast, hslot]
    · refine ⟨j, revents, by rw [hs.others d hdc, hj, if_neg (by omega)], ?_⟩
      rw [hs.pollfds j (by omega), if_neg (by omega), hslot]
  events d v hd := by
    rw [hs.events]
    exact h.events d v (known_of_update_none hd).2
  found d v hd := by
    obtain ⟨hdc, hd⟩ := known_of_update_none hd
    rw [hs.channels, Function.update_of_ne (hfd.ne hdc)]
    exact h.found d v hd
  only k d hk := by
    rw [hs.channels, Function.update_apply] at hk
    split_ifs at hk with hfdc
    obtain ⟨rfl, hd⟩ := h.only k d hk
    exact ⟨rfl, by rwa [Function.update_of_ne fun hdc ↦ hfdc (congrArg fd hdc)]⟩
  unregistered d hd := by
    by_cases hdc : d = c
    · rw [hdc, hs.self]
    · rw [Function.update_of_ne hdc] at hd
      have hindex := h.unregistered d hd
      rw [hs.others d hdc, hindex, if_neg (by rw [kNew]; omega)]

omit [DecidableEq ι] in
theorem Indexed.answered (h : Indexed fd last s) (ready : ℤ → ℕ) :
    Indexed fd last (s.answered ready) := by
  refine ⟨fun i hi ↦ h.covered i (by simpa [PollPoller.answered] using hi), h.distinct,
    fun c u hc ↦ ?_, h.events, h.found, h.only, h.unregistered⟩
  obtain ⟨i, revents, hi, hslot⟩ := h.slot c u hc
  exact ⟨i, _, hi, by rw [PollPoller.answered, List.getElem?_map, hslot, Option.map_some]⟩

theorem Indexed.step (h : Indexed fd last s) (hfd : Function.Injective fd)
    (hnonneg : ∀ c, 0 ≤ fd c) (a : Action ι) :
    ∃ s', s.step fd a = some s' ∧ Indexed fd (record last a) s' := by
  cases a with
  | updateChannel c events =>
    cases hc : last c with
    | none =>
      refine ⟨_, if_pos (h.unregistered c hc), ?_⟩
      rw [record, hc]
      exact h.register hfd hc events
    | some u =>
      rw [record, hc]
      exact h.setSlot hc events
  | removeChannel c =>
    cases hc : last c with
    | none =>
      refine ⟨s, h.remove_unregistered hfd hc, ?_⟩
      rwa [record, Function.update_eq_self_iff.2 hc.symm]
    | some u =>
      obtain ⟨i, hi, hlt⟩ := h.index hc
      obtain ⟨s', hremove, hs⟩ := h.removes hfd hnonneg hc hi hlt
      exact ⟨s', hremove, h.remove hfd hc hi hlt hs⟩
  | poll ready => exact ⟨_, rfl, h.answered ready⟩

theorem indexed_run (hfd : Function.Injective fd) (hnonneg : ∀ c, 0 ≤ fd c)
    (h : Indexed fd last s) (actions : List (Action ι)) :
    ∃ s', Run.run (step fd) s actions = some s' ∧ Indexed fd (actions.foldl record last) s' := by
  induction actions generalizing s last with
  | nil => exact ⟨s, rfl, h⟩
  | cons a actions ih =>
    obtain ⟨s₁, hstep, h₁⟩ := h.step hfd hnonneg a
    obtain ⟨s₂, hrun, h₂⟩ := ih h₁
    exact ⟨s₂, by rw [Run.run_cons, hstep, Option.bind_some, hrun], h₂⟩

section Active

variable {ready : ℤ → ℕ} {pfds : List PollFd}

def reported (s : PollPoller ι) (pfd : PollFd) : Option (ι × ℕ) :=
  if 0 < pfd.revents then (s.channels_ pfd.fd).map fun c ↦ (c, pfd.revents) else none

omit [DecidableEq ι]

/-- The count of events is that of the slots with some. -/
theorem fillActiveChannels_eq (pfds : List PollFd) :
    s.fillActiveChannels (pfds.countP fun pfd ↦ pfd.revents ≠ 0) pfds =
      pfds.filterMap s.reported := by
  induction pfds with
  | nil => rfl
  | cons pfd pfds ih =>
    by_cases hrevents : 0 < pfd.revents
    · rw [List.countP_cons_of_pos (by simp; omega), fillActiveChannels, if_pos hrevents, ih]
      cases hc : s.channels_ pfd.fd with
      | none =>
        have hnone : s.reported pfd = none := by rw [reported, if_pos hrevents, hc, Option.map_none]
        rw [List.filterMap_cons_none hnone]
      | some c =>
        have hsome : s.reported pfd = some (c, pfd.revents) := by
          rw [reported, if_pos hrevents, hc, Option.map_some]
        rw [List.filterMap_cons_some hsome]
    · have hnone : s.reported pfd = none := by rw [reported, if_neg hrevents]
      rw [List.countP_cons_of_neg (by simp; omega), List.filterMap_cons_none hnone, ← ih]
      cases pfds.countP fun pfd ↦ pfd.revents ≠ 0 with
      | zero => cases pfds <;> rfl
      | succ n => rw [fillActiveChannels, if_neg hrevents]

/-- The slot of a channel is found under its descriptor, or under none when it is negative. -/
theorem Indexed.owner (h : Indexed fd last s) (hnonneg : ∀ c, 0 ≤ fd c) {i : ℕ} {pfd : PollFd}
    (hpfd : s.pollfds_[i]? = some pfd) (hc : s.channels_ pfd.fd = some c) :
    ∃ u, last c = some u ∧ s.index_ c = i ∧ u.slotFd (fd c) = fd c := by
  obtain ⟨d, v, hd, hindex⟩ := h.covered i (List.getElem?_eq_some_iff.1 hpfd).1
  obtain ⟨j, revents, hj, hslot⟩ := h.slot d v hd
  obtain rfl : i = j := by omega
  obtain rfl := Option.some.inj (hpfd.symm.trans hslot)
  obtain ⟨hfdc, hregistered⟩ := h.only _ c hc
  have hpos : v.slotFd (fd d) = fd d := by
    have hfdc : fd c = v.slotFd (fd d) := hfdc
    have hc0 := hnonneg c
    have hd0 := hnonneg d
    rw [LastUpdate.slotFd] at hfdc ⊢
    split_ifs at hfdc ⊢
    · omega
    · rfl
  have hsame : some c = some d := by
    rw [← hc, ← h.found d v hd]
    exact congrArg s.channels_ hpos
  obtain rfl := Option.some.inj hsame
  exact ⟨v, hd, hindex, hpos⟩

theorem reported_eq_some {pfd : PollFd} {c : ι} {r : ℕ} :
    s.reported pfd = some (c, r) ↔ s.channels_ pfd.fd = some c ∧ r = pfd.revents ∧ 0 < r := by
  rw [reported]
  split_ifs with hrevents
  · rw [Option.map_eq_some_iff]
    constructor
    · rintro ⟨d, hd, heq⟩
      obtain ⟨rfl, rfl⟩ := Prod.mk.inj heq
      exact ⟨hd, rfl, hrevents⟩
    · rintro ⟨hc, rfl, -⟩
      exact ⟨c, hc, rfl⟩
  · constructor
    · exact nofun
    · rintro ⟨-, rfl, hpos⟩
      exact absurd hpos hrevents

theorem Indexed.reported_nodup (h : Indexed fd last s) (hnonneg : ∀ c, 0 ≤ fd c) :
    ((s.pollfds_.filterMap s.reported).map Prod.fst).Nodup := by
  refine List.pairwise_map.2 (List.pairwise_filterMap.2 (List.pairwise_iff_getElem.2 ?_))
  rintro i j hi hj hij ⟨c, r⟩ hc ⟨d, r'⟩ hd hcd
  obtain rfl : c = d := hcd
  obtain ⟨-, -, hci, -⟩ := h.owner hnonneg (List.getElem?_eq_getElem hi) (reported_eq_some.1 hc).1
  obtain ⟨-, -, hcj, -⟩ := h.owner hnonneg (List.getElem?_eq_getElem hj) (reported_eq_some.1 hd).1
  omega

/-- Each ready descriptor that is watched is reported once, and as its own channel. -/
theorem Indexed.active (h : Indexed fd last s) (hnonneg : ∀ c, 0 ≤ fd c) (ready : ℤ → ℕ) :
    ((s.activeChannels ready).map Prod.fst).Nodup ∧
    ∀ c r, (c, r) ∈ s.activeChannels ready ↔
      (∃ u, last c = some u ∧ u.slotFd (fd c) = fd c) ∧ r = ready (fd c) ∧ 0 < r := by
  have h' := h.answered ready
  rw [activeChannels, fillActiveChannels_eq]
  refine ⟨h'.reported_nodup hnonneg, fun c r ↦ ?_⟩
  rw [List.mem_filterMap]
  constructor
  · rintro ⟨pfd, hmem, hreported⟩
    obtain ⟨hc, rfl, hpos⟩ := reported_eq_some.1 hreported
    obtain ⟨i, hi⟩ := List.mem_iff_getElem?.1 hmem
    obtain ⟨u, hu, -, hslot⟩ := h'.owner hnonneg hi hc
    refine ⟨⟨u, hu, hslot⟩, ?_, hpos⟩
    obtain ⟨hfdc, -⟩ := h'.only _ c hc
    obtain ⟨old, -, rfl⟩ := List.mem_map.1 hmem
    have hfdc : fd c = old.fd := hfdc
    exact (if_neg (not_lt.2 (hfdc ▸ hnonneg c))).trans (congrArg ready hfdc.symm)
  · rintro ⟨⟨u, hu, hwatched⟩, rfl, hpos⟩
    obtain ⟨i, revents, hi, hslot⟩ := h.slot c u hu
    refine ⟨⟨fd c, u.events, ready (fd c)⟩, List.mem_map.2 ⟨_, List.mem_of_getElem? hslot, ?_⟩,
      reported_eq_some.2 ⟨h.found c u hu, rfl, hpos⟩⟩
    rw [hwatched, if_neg (not_lt.2 (hnonneg c))]

end Active

/-- After any calls the indices are those of the slots, each slot is its channel's, and so `poll`
reports each ready descriptor once and as the right channel. -/
theorem index_invariant (hfd : Function.Injective fd) (hnonneg : ∀ c, 0 ≤ fd c)
    (actions : List (Action ι)) :
    ∃ s, Run.run (step fd) create actions = some s ∧
      Indexed fd (actions.foldl record fun _ ↦ none) s ∧
      ∀ ready, ((s.activeChannels ready).map Prod.fst).Nodup ∧
        ∀ c r, (c, r) ∈ s.activeChannels ready ↔
          (∃ u, actions.foldl record (fun _ ↦ none) c = some u ∧ u.slotFd (fd c) = fd c) ∧
          r = ready (fd c) ∧ 0 < r := by
  obtain ⟨s, hrun, h⟩ := indexed_run hfd hnonneg indexed_create actions
  exact ⟨s, hrun, h, fun ready ↦ h.active hnonneg ready⟩

/-- The first channel goes, and the third, which asks for nothing at the time, takes its slot. -/
theorem third_channel_moved :
    let fd : ℕ → ℤ := fun c ↦ Int.ofNat (c + 5)
    let actions : List (Action ℕ) := [.updateChannel 0 ⟨true, false⟩,
      .updateChannel 1 ⟨true, true⟩, .updateChannel 2 ⟨true, false⟩,
      .updateChannel 2 ⟨false, false⟩, .removeChannel 0]
    ∃ s, Run.run (step fd) create actions = some s ∧
      Indexed fd (actions.foldl record fun _ ↦ none) s ∧
      s.pollfds_ = [⟨-8, ⟨false, false⟩, 0⟩, ⟨6, ⟨true, true⟩, 0⟩] ∧ s.index_ 2 = 0 := by
  intro fd actions
  have hfd : Function.Injective fd :=
    fun a b hab ↦ Nat.add_right_cancel (Int.ofNat.inj hab)
  obtain ⟨s, hrun, h, -⟩ := index_invariant hfd (fun c ↦ Int.natCast_nonneg _) actions
  refine ⟨s, hrun, h, ?_⟩
  obtain rfl := Option.some.inj hrun
  exact ⟨by decide, by decide⟩

end CppAiService.PollPoller
