import CppAiService.TimerFiring

namespace CppAiService.TimerArming

open Foundation TimerQueue TimerFiring

variable {C : Type} {q q' : TimerQueue C}

/-- The fd is armed by a call of `resetTimerfd` for the least expiration, unless it has gone off
and `handleRead` is still to come. -/
def Arms (q : TimerQueue C) : Prop :=
  q.fired = false → q.timers_ ≠ [] → ∃ least ∈ q.timers_,
    (∀ e ∈ q.timers_, least.expiration ≤ e.expiration) ∧
    q.timerfd_.map Arming.expiration = some least.expiration

/-- A round does not end with timers and the fd unarmed: some timer is due, or there is none, or
the fd was armed again after it went off. -/
def Rearms (q : TimerQueue C) : Action C → Prop
  | .handleRead round =>
    (∃ e ∈ q.timers_, e.expiration ≤ round.now) ∨ q.timers_ = [] ∨ q.timerfd_ ≠ none
  | .addTimer _ | .fire => True

instance (q : TimerQueue C) (a : Action C) : Decidable (Rearms q a) :=
  match a with
  | .handleRead round => inferInstanceAs (Decidable ((∃ e ∈ q.timers_, e.expiration ≤ round.now) ∨
      q.timers_ = [] ∨ q.timerfd_ ≠ none))
  | .addTimer _ | .fire => inferInstanceAs (Decidable True)

structure Ready (q : TimerQueue C) : Prop where
  holds : Holds [] q
  armed : q.fired = false → Armed q
  idle : q.fired = true → q.timerfd_ = none

theorem arms_of_armed (h : Holds [] q) (harmed : q.fired = false → Armed q) : Arms q := by
  intro hfired hne
  obtain ⟨-, hfd⟩ := harmed hfired hne
  cases hq : q.timers_ with
  | nil => exact absurd hq hne
  | cons first rest =>
    have hordered := h.ordered
    rw [hq] at hordered hfd
    refine ⟨first, List.mem_cons_self, fun e he ↦ ?_, hfd⟩
    rcases (hordered.head_le he).lt_or_eq with hlt | rfl
    · rcases Entry.lt_iff.1 hlt with hlt | ⟨heq, -⟩
      · exact hlt.le
      · exact heq.le
    · exact le_refl _

theorem ready_create : Ready (create : TimerQueue C) :=
  ⟨holds_create, fun _ h ↦ absurd rfl h, nofun⟩

theorem earliest_entered (q : TimerQueue C) (n : NewTimer C) :
    (q.entered n).timers_.head?.map Entry.expiration =
      if q.earliestChanged n.when then some n.when else q.timers_.head?.map Entry.expiration := by
  obtain ⟨timers, heap, timerfd, fired, created, ran⟩ := q
  cases timers with
  | nil => rfl
  | cons first rest =>
    change (OrderedSet.insert n.entry (first :: rest)).head?.map Entry.expiration =
      if decide (n.when < first.expiration) then some n.when else some first.expiration
    rw [OrderedSet.head_insert_cons, Option.map_some]
    by_cases hlt : n.when < first.expiration
    · rw [if_pos (Entry.lt_iff.2 (.inl hlt)), if_pos (decide_eq_true hlt)]
      rfl
    · have hchanged : decide (n.when < first.expiration) = false := decide_eq_false hlt
      rw [hchanged, if_neg Bool.false_ne_true]
      split_ifs with hentry
      · rcases Entry.lt_iff.1 hentry with h | ⟨heq, -⟩
        · exact absurd h hlt
        · exact congrArg some heq
      · rfl

theorem ready_addTimer {n : NewTimer C} (h : Ready q) (hfree : q.heap n.address = none)
    (hbound : n.address < UINTPTR_MAX) : ∃ q', q.addTimer n = some q' ∧ Ready q' := by
  obtain ⟨q', hadd, hholds, -⟩ := addTimer_adds h.holds hfree hbound
  suffices hfd : (q'.fired = false → Armed q') ∧ (q'.fired = true → q'.timerfd_ = none) from
    ⟨q', hadd, hholds, hfd.1, hfd.2⟩
  have hearliest := earliest_entered q n
  rw [addTimer_eq hfree hbound, Option.some.injEq] at hadd
  subst hadd
  cases hchanged : q.earliestChanged n.when with
  | true =>
    rw [hchanged, if_pos rfl] at hearliest
    rw [if_pos rfl]
    exact ⟨fun _ _ ↦ ⟨rfl, hearliest.symm⟩, nofun⟩
  | false =>
    rw [hchanged, if_neg nofun] at hearliest
    rw [if_neg nofun]
    refine ⟨fun hfired _ ↦ ⟨hfired, ?_⟩, h.idle⟩
    have hne : q.timers_ ≠ [] := by
      intro hnil
      rw [earliestChanged, hnil] at hchanged
      cases hchanged
    exact (h.armed hfired hne).2.trans hearliest.symm

theorem ready_step (q : TimerQueue C) (a : Action C) (ha : Lawful q a) (h : Ready q) :
    ∃ q', q.step a = some q' ∧ (Rearms q a → Ready q') ∧ (Arms q' → Rearms q a) := by
  cases a with
  | addTimer n =>
    obtain ⟨q', hadd, h'⟩ := ready_addTimer h ha.1 ha.2
    exact ⟨q', hadd, fun _ ↦ h', fun _ ↦ trivial⟩
  | fire =>
    obtain ⟨arming, harming⟩ := Option.ne_none_iff_exists'.1 ha
    have hfire : q.step (.fire : Action C) = some { q with timerfd_ := none, fired := true } := by
      rw [step, fire, harming, Option.map_some]
    refine ⟨{ q with timerfd_ := none, fired := true }, hfire, fun _ ↦ ⟨?_, ?_, fun _ ↦ rfl⟩,
      fun _ ↦ trivial⟩
    · exact ⟨h.holds.ordered, h.holds.nodup, h.holds.timer, h.holds.live⟩
    · exact fun hfired ↦ Bool.noConfusion hfired
  | handleRead round =>
    obtain ⟨q₁, q', hread, h', -, -, -, hfired', harmed, hnone⟩ := handleRead_spec h.holds ha
    refine ⟨q', hread, ?_, ?_⟩
    · intro hrearms
      by_cases hdue : due round.now q = []
      · obtain rfl := hnone hdue
        refine ⟨h', fun _ hne ↦ ?_, fun hfired ↦ Bool.noConfusion hfired⟩
        rcases hrearms with ⟨e, he, hle⟩ | hnil | hfd
        · exact absurd (List.mem_filter.2 ⟨he, decide_eq_true hle⟩) (hdue ▸ List.not_mem_nil)
        · exact absurd hnil hne
        · have hfired : q.fired = false := by
            cases hq : q.fired with
            | false => rfl
            | true => exact absurd (h.idle hq) hfd
          exact ⟨rfl, (h.armed hfired hne).2⟩
      · exact ⟨h', fun _ ↦ harmed hdue, fun hfired ↦ Bool.noConfusion (hfired'.symm.trans hfired)⟩
    · intro harms
      by_contra hno
      simp only [Rearms, not_or, not_exists, not_and, not_le, not_not] at hno
      obtain ⟨hlater, hne, hfd⟩ := hno
      have hdue : due round.now q = [] := by
        refine List.filter_eq_nil_iff.2 fun e he ↦ ?_
        simpa using hlater e he
      obtain rfl := hnone hdue
      obtain ⟨least, -, -, hleast⟩ := harms rfl hne
      have hfd : q.timerfd_ = none := hfd
      rw [hfd] at hleast
      cases hleast

/-- The fd is armed for the least expiration after every operation of a run exactly if no call
of `handleRead` finds the fd unarmed, timers in the queue and none of them due. -/
theorem timerfd_armed_iff (actions : List (Action C))
    (hlawful : Run.Along step Lawful create actions) :
    (∀ before after, actions = before ++ after →
      ∃ q, Run.run step create before = some q ∧ Arms q) ↔
    Run.Along step Rearms create actions :=
  Run.prefixes_iff (fun _ h ↦ arms_of_armed h.holds h.armed) ready_step ready_create hlawful

/-- The earlier timer is added while the fd's firing waits to be read, and both are due in turn. -/
theorem armed_for_two_timers :
    let actions : List (Action ℕ) := [.addTimer ⟨1, 10, ⟨true, 5⟩, 16, 0⟩, .fire,
      .addTimer ⟨2, 9, ⟨false, 0⟩, 8, 8⟩, .handleRead ⟨8, fun _ ↦ [], fun _ ↦ 8, fun _ ↦ 8⟩,
      .fire, .handleRead ⟨12, fun _ ↦ [], fun _ ↦ 12, fun _ ↦ 12⟩]
    ∀ before after, actions = before ++ after →
      ∃ q, Run.run step create before = some q ∧ Arms q := by
  intro actions
  exact (timerfd_armed_iff actions (by decide)).2 (by decide)

/-- The wall clock is one microsecond behind: the timer stays, and nothing arms the fd again. -/
theorem timerfd_left_unarmed :
    let actions : List (Action ℕ) := [.addTimer ⟨1, 10, ⟨false, 0⟩, 16, 0⟩, .fire,
      .handleRead ⟨9, fun _ ↦ [], fun _ ↦ 9, fun _ ↦ 9⟩]
    ∃ q, Run.run step create actions = some q ∧ q.timers_ = [⟨10, 16⟩] ∧ q.timerfd_.isNone ∧
      ¬ Arms q ∧ q.step .fire = none := by
  intro actions
  refine ⟨_, rfl, by decide, rfl, fun harms ↦ ?_, rfl⟩
  obtain ⟨least, -, -, hleast⟩ := harms rfl (by decide)
  cases hleast

end CppAiService.TimerArming
