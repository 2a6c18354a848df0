import CppAiService.TimerQueue
import Mathlib.Data.List.Nodup
import Mathlib.Data.List.Perm.Basic

namespace CppAiService.TimerQueue

open Foundation

variable {C : Type} {out : List Entry} {q q' q'' : TimerQueue C} {n : NewTimer C}
  {ns ms : List (NewTimer C)} {a : ℕ}

/-- The timers that are not deleted are those of the queue and those taken out of it, and the
entries say where and when. -/
structure Holds (out : List Entry) (q : TimerQueue C) : Prop where
  ordered : OrderedSet.Ordered q.timers_
  nodup : ((out ++ q.timers_).map Entry.timer).Nodup
  timer : ∀ e ∈ out ++ q.timers_, ∃ t, q.heap e.timer = some t ∧ t.expiration_ = e.expiration
  live : ∀ a, q.heap a ≠ none → a < UINTPTR_MAX ∧ a ∈ (out ++ q.timers_).map Entry.timer

theorem holds_create : Holds [] (create : TimerQueue C) where
  ordered := List.Pairwise.nil
  nodup := List.nodup_nil
  timer := fun _ h ↦ absurd h List.not_mem_nil
  live := fun _ h ↦ absurd rfl h

theorem Holds.not_mem (h : Holds out q) (ha : q.heap a = none) :
    a ∉ (out ++ q.timers_).map Entry.timer := by
  intro hmem
  obtain ⟨e, he, rfl⟩ := List.mem_map.1 hmem
  obtain ⟨t, ht, -⟩ := h.timer e he
  cases ht.symm.trans ha

theorem Holds.fresh (h : Holds out q) (ha : q.heap a = none) (when : ℤ) :
    (⟨when, a⟩ : Entry) ∉ q.timers_ := fun hmem ↦
  h.not_mem ha (List.mem_map.2 ⟨_, List.mem_append_right out hmem, rfl⟩)

theorem Holds.enter (h : Holds out q) (ha : q.heap a = none) (hbound : a < UINTPTR_MAX)
    (t : Timer C) (created : ℕ) : Holds out
      { q with
        timers_ := OrderedSet.insert ⟨t.expiration_, a⟩ q.timers_
        heap := Function.update q.heap a (some t)
        created := created } := by
  have hperm : (out ++ OrderedSet.insert ⟨t.expiration_, a⟩ q.timers_).Perm
      (⟨t.expiration_, a⟩ :: (out ++ q.timers_)) :=
    ((OrderedSet.insert_perm (h.fresh ha _)).append_left out).trans List.perm_middle
  refine ⟨h.ordered.insert _, ?_, fun e he ↦ ?_, fun b hb ↦ ?_⟩
  · rw [(hperm.map Entry.timer).nodup_iff, List.map_cons, List.nodup_cons]
    exact ⟨h.not_mem ha, h.nodup⟩
  · rcases List.mem_cons.1 (hperm.mem_iff.1 he) with rfl | he
    · exact ⟨t, Function.update_self a (some t) q.heap, rfl⟩
    · obtain ⟨u, hu, hexpiration⟩ := h.timer e he
      have hne : e.timer ≠ a := by
        rintro rfl
        cases hu.symm.trans ha
      exact ⟨u, (Function.update_of_ne hne _ _).trans hu, hexpiration⟩
  · rw [(hperm.map Entry.timer).mem_iff, List.map_cons, List.mem_cons]
    by_cases hba : b = a
    · exact ⟨hba ▸ hbound, .inl hba⟩
    · obtain ⟨hlt, hmem⟩ := h.live b ((Function.update_of_ne hba (some t) q.heap) ▸ hb)
      exact ⟨hlt, .inr hmem⟩

theorem Holds.delete {e : Entry} (h : Holds (e :: out) q) :
    Holds out { q with heap := Function.update q.heap e.timer none } := by
  have hnodup := h.nodup
  rw [List.cons_append, List.map_cons, List.nodup_cons] at hnodup
  refine ⟨h.ordered, hnodup.2, fun x hx ↦ ?_, fun b hb ↦ ?_⟩
  · have hne : x.timer ≠ e.timer := fun heq ↦ hnodup.1 (List.mem_map.2 ⟨x, hx, heq⟩)
    obtain ⟨t, ht, hexpiration⟩ := h.timer x (List.mem_cons_of_mem e hx)
    exact ⟨t, (Function.update_of_ne hne _ _).trans ht, hexpiration⟩
  · have hne : b ≠ e.timer := by
      rintro rfl
      exact hb (Function.update_self _ _ _)
    obtain ⟨hlt, hmem⟩ := h.live b ((Function.update_of_ne hne none q.heap) ▸ hb)
    refine ⟨hlt, (List.mem_cons.1 hmem).resolve_left hne⟩

section Adding

def Free (ns : List (NewTimer C)) (q : TimerQueue C) : Prop :=
  (ns.map NewTimer.address).Nodup ∧
    ∀ n ∈ ns, q.heap n.address = none ∧ n.address < UINTPTR_MAX

structure Adds (ns : List (NewTimer C)) (q q' : TimerQueue C) : Prop where
  timers : q'.timers_.Perm (q.timers_ ++ ns.map NewTimer.entry)
  new : ∀ n k, (n, k) ∈ ns.zipIdx q.created → q'.heap n.address = some (n.timer k)
  old : ∀ a, a ∉ ns.map NewTimer.address → q'.heap a = q.heap a
  created : q'.created = q.created + ns.length
  fired : q.fired = false → q'.fired = false

theorem adds_nil : Adds [] q q where
  timers := by rw [List.map_nil, List.append_nil]
  new := fun _ _ h ↦ absurd h List.not_mem_nil
  old := fun _ _ ↦ rfl
  created := rfl
  fired := id

theorem Adds.trans (h : Adds ns q q') (h' : Adds ms q' q'')
    (hdisjoint : List.Disjoint (ns.map NewTimer.address) (ms.map NewTimer.address)) :
    Adds (ns ++ ms) q q'' where
  timers := by
    rw [List.map_append, ← List.append_assoc]
    exact h'.timers.trans (h.timers.append_right _)
  new := by
    intro n k hmem
    rw [List.zipIdx_append, List.mem_append] at hmem
    rcases hmem with hmem | hmem
    · have hn : n ∈ ns := List.fst_mem_of_mem_zipIdx hmem
      rw [h'.old n.address (hdisjoint (List.mem_map_of_mem hn))]
      exact h.new n k hmem
    · exact h'.new n k (h.created ▸ hmem)
  old := by
    intro a ha
    rw [List.map_append, List.mem_append, not_or] at ha
    rw [h'.old a ha.2, h.old a ha.1]
  created := by rw [h'.created, h.created, List.length_append, Nat.add_assoc]
  fired := h'.fired ∘ h.fired

theorem Free.left (h : Free (ns ++ ms) q) : Free ns q := by
  refine ⟨?_, fun n hn ↦ h.2 n (List.mem_append_left ms hn)⟩
  have hnodup := h.1
  rw [List.map_append] at hnodup
  exact hnodup.of_append_left

theorem Free.disjoint (h : Free (ns ++ ms) q) :
    List.Disjoint (ns.map NewTimer.address) (ms.map NewTimer.address) := by
  have hnodup := h.1
  rw [List.map_append] at hnodup
  exact List.disjoint_of_nodup_append hnodup

theorem Free.right (h : Free (ns ++ ms) q) (hadds : Adds ns q q') : Free ms q' := by
  have hnodup := h.1
  rw [List.map_append] at hnodup
  refine ⟨hnodup.of_append_right, fun n hn ↦ ?_⟩
  obtain ⟨hfree, hbound⟩ := h.2 n (List.mem_append_right ns hn)
  have hnew : n.address ∉ ns.map NewTimer.address :=
    fun hmem ↦ h.disjoint hmem (List.mem_map_of_mem hn)
  exact ⟨(hadds.old _ hnew).trans hfree, hbound⟩

/-- A timer that was there before keeps its address to itself. -/
theorem Free.not_mem (h : Free ns q) (ha : q.heap a ≠ none) : a ∉ ns.map NewTimer.address := by
  intro hmem
  obtain ⟨n, hn, rfl⟩ := List.mem_map.1 hmem
  exact ha (h.2 n hn).1

def entered (q : TimerQueue C) (n : NewTimer C) : TimerQueue C :=
  { q.allocate n with timers_ := OrderedSet.insert n.entry q.timers_ }

theorem addTimer_eq (hfree : q.heap n.address = none) (hbound : n.address < UINTPTR_MAX) :
    q.addTimer n = some (if q.earliestChanged n.when
      then (q.entered n).resetTimerfd n.when n.clock else q.entered n) := by
  have hnew : (q.allocate n).heap n.address = some (n.timer q.created) :=
    Function.update_self _ _ _
  have hinsert : (q.allocate n).insert n.address = some (q.earliestChanged n.when, q.entered n) := by
    rw [insert, hnew]
    rfl
  have hentered : (q.entered n).heap n.address = some (n.timer q.created) := hnew
  rw [addTimer, if_pos ⟨hfree, hbound⟩, addTimerInLoop, hinsert, Option.bind_some]
  dsimp only
  rw [hentered]
  split_ifs <;> rfl

theorem adds_entered (h : Holds out q) (hfree : q.heap n.address = none) :
    Adds [n] q (q.entered n) where
  timers := (OrderedSet.insert_perm (h.fresh hfree n.when)).trans
    (List.perm_append_singleton _ _).symm
  new := by
    intro m k hmem
    rw [List.zipIdx_cons, List.zipIdx_nil, List.mem_singleton] at hmem
    obtain ⟨rfl, rfl⟩ := Prod.mk.inj hmem
    exact Function.update_self _ _ _
  old := by
    intro a ha
    exact Function.update_of_ne (fun heq ↦ ha (List.mem_singleton.2 heq)) _ _
  created := rfl
  fired := id

theorem addTimer_adds (h : Holds out q) (hfree : q.heap n.address = none)
    (hbound : n.address < UINTPTR_MAX) :
    ∃ q', q.addTimer n = some q' ∧ Holds out q' ∧ Adds [n] q q' ∧ q'.ran = q.ran := by
  have hholds : Holds out (q.entered n) := h.enter hfree hbound (n.timer q.created) _
  have hadds := adds_entered h hfree
  refine ⟨_, addTimer_eq hfree hbound, ?_⟩
  split_ifs
  · exact ⟨⟨hholds.ordered, hholds.nodup, hholds.timer, hholds.live⟩,
      ⟨hadds.timers, hadds.new, hadds.old, hadds.created, fun _ ↦ rfl⟩, rfl⟩
  · exact ⟨hholds, hadds, rfl⟩

theorem addTimers_adds (h : Holds out q) (hfree : Free ns q) :
    ∃ q', addTimers ns q = some q' ∧ Holds out q' ∧ Adds ns q q' ∧ q'.ran = q.ran := by
  induction ns generalizing q with
  | nil => exact ⟨q, rfl, h, adds_nil, rfl⟩
  | cons n ns ih =>
    have hfree : Free ([n] ++ ns) q := hfree
    obtain ⟨hn, hbound⟩ := hfree.2 n List.mem_cons_self
    obtain ⟨q₁, hadd, h₁, hadds₁, hran₁⟩ := addTimer_adds h hn hbound
    obtain ⟨q₂, hrest, h₂, hadds₂, hran₂⟩ := ih h₁ (hfree.right hadds₁)
    refine ⟨q₂, ?_, h₂, hadds₁.trans hadds₂ hfree.disjoint, hran₂.trans hran₁⟩
    rw [addTimers, hadd, Option.bind_some, hrest]

end Adding

section Round

variable {round : Round C} {expired : List Entry} {e : Entry} {t : Timer C}

def added (round : Round C) (expired : List Entry) : List (NewTimer C) :=
  expired.flatMap fun e ↦ round.added e.timer

def firing (q : TimerQueue C) (now : ℤ) (e : Entry) : Option (Firing C) :=
  (q.heap e.timer).map fun t ↦ t.firing now

def restarted (q : TimerQueue C) (round : Round C) (e : Entry) : Option (Timer C) :=
  ((q.heap e.timer).filter Timer.repeat_).map fun t ↦ t.restart (round.restarted e.timer)

def restartedEntry (q : TimerQueue C) (round : Round C) (e : Entry) : Option Entry :=
  (restarted q round e).map fun t ↦ ⟨t.expiration_, e.timer⟩

structure Resets (round : Round C) (expired : List Entry) (q q' : TimerQueue C) : Prop where
  timers : q'.timers_.Perm (q.timers_ ++ expired.filterMap (restartedEntry q round))
  heap : ∀ e ∈ expired, q'.heap e.timer = restarted q round e
  old : ∀ a, a ∉ expired.map Entry.timer → q'.heap a = q.heap a
  created : q'.created = q.created
  ran : q'.ran = q.ran
  fired : q.fired = false → q'.fired = false

def Armed (q : TimerQueue C) : Prop :=
  q.timers_ ≠ [] → q.fired = false ∧
    q.timerfd_.map Arming.expiration = q.timers_.head?.map Entry.expiration

theorem runExpired_adds (h : Holds out q) (hlive : ∀ e ∈ expired, q.heap e.timer ≠ none)
    (hfree : Free (added round expired) q) :
    ∃ q', runExpired round expired q = some q' ∧ Holds out q' ∧
      Adds (added round expired) q q' ∧
      q'.ran = q.ran ++ expired.filterMap (firing q round.now) := by
  induction expired generalizing q with
  | nil => exact ⟨q, rfl, h, adds_nil, (List.append_nil _).symm⟩
  | cons e expired ih =>
    obtain ⟨he, hlive⟩ := List.forall_mem_cons.1 hlive
    obtain ⟨t, ht⟩ := Option.ne_none_iff_exists'.1 he
    have hfree : Free (round.added e.timer ++ added round expired) q := hfree
    have hcalled : Holds out (q.called t round.now) := ⟨h.ordered, h.nodup, h.timer, h.live⟩
    obtain ⟨q₁, hadd, h₁, hadds₁, hran₁⟩ := addTimers_adds hcalled hfree.left
    have hadds₁ : Adds (round.added e.timer) q q₁ :=
      ⟨hadds₁.timers, hadds₁.new, hadds₁.old, hadds₁.created, hadds₁.fired⟩
    have hsame : ∀ x ∈ expired, q₁.heap x.timer = q.heap x.timer :=
      fun x hx ↦ hadds₁.old _ (hfree.left.not_mem (hlive x hx))
    obtain ⟨q₂, hrest, h₂, hadds₂, hran₂⟩ :=
      ih h₁ (fun x hx ↦ hsame x hx ▸ hlive x hx) (hfree.right hadds₁)
    refine ⟨q₂, ?_, h₂, hadds₁.trans hadds₂ hfree.disjoint, ?_⟩
    · rw [runExpired, ht, Option.bind_some, hadd, Option.bind_some, hrest]
    · have hfirst : firing q round.now e = some (t.firing round.now) := by
        rw [firing, ht, Option.map_some]
      have hothers : expired.filterMap (firing q₁ round.now) =
          expired.filterMap (firing q round.now) :=
        List.filterMap_congr fun x hx ↦ by rw [firing, firing, hsame x hx]
      rw [hran₂, hran₁, hothers, List.filterMap_cons_some hfirst, called, List.append_assoc,
        List.singleton_append]

theorem restarted_of_repeat (ht : q.heap e.timer = some t) (hrepeat : t.repeat_ = true) :
    restarted q round e = some (t.restart (round.restarted e.timer)) := by
  rw [restarted, ht, Option.filter_some_pos hrepeat, Option.map_some]

theorem restarted_of_not_repeat (ht : q.heap e.timer = some t) (hrepeat : t.repeat_ = false) :
    restarted q round e = none := by
  rw [restarted, ht, Option.filter_some_neg (by simp [hrepeat]), Option.map_none]

variable (round) in
theorem restartOrDelete_resets (h : Holds (e :: out) q) (ht : q.heap e.timer = some t) :
    ∃ q', q.restartOrDelete e.timer t (round.restarted e.timer) = some q' ∧ Holds out q' ∧
      Resets round [e] q q' := by
  have hold : ∀ (u : Option (Timer C)) a, a ∉ [e].map Entry.timer →
      Function.update q.heap e.timer u a = q.heap a :=
    fun u a ha ↦ Function.update_of_ne (fun heq ↦ ha (List.mem_singleton.2 heq)) _ _
  have hself : ∀ u : Option (Timer C), restarted q round e = u →
      ∀ x ∈ [e], Function.update q.heap e.timer u x.timer = restarted q round x := by
    intro u hu x hx
    obtain rfl := List.mem_singleton.1 hx
    exact (Function.update_self _ _ _).trans hu.symm
  have hdelete := h.delete
  cases hrepeat : t.repeat_ with
  | false =>
    have hrestarted : restarted q round e = none := restarted_of_not_repeat ht hrepeat
    refine ⟨{ q with heap := Function.update q.heap e.timer none }, ?_, hdelete, ?_⟩
    · rw [restartOrDelete, if_neg (by simp [hrepeat])]
    · refine ⟨?_, hself none hrestarted, hold none, rfl, rfl, id⟩
      have hentry : restartedEntry q round e = none := by rw [restartedEntry, hrestarted]; rfl
      rw [List.filterMap_cons_none hentry, List.filterMap_nil, List.append_nil]
  | true =>
    have hrestarted : restarted q round e = some (t.restart (round.restarted e.timer)) :=
      restarted_of_repeat ht hrepeat
    have hfree : Function.update q.heap e.timer none e.timer = none := Function.update_self _ _ _
    have hbound : e.timer < UINTPTR_MAX := (h.live e.timer (by rw [ht]; exact nofun)).1
    have henter := hdelete.enter hfree hbound (t.restart (round.restarted e.timer)) q.created
    dsimp only at henter
    rw [Function.update_idem] at henter
    refine ⟨_, ?_, henter, ?_⟩
    · rw [restartOrDelete, if_pos hrepeat, insert]
      dsimp only
      rw [Function.update_self]
      rfl
    · refine ⟨?_, hself _ hrestarted, hold _, rfl, rfl, id⟩
      have hentry : restartedEntry q round e =
          some ⟨(t.restart (round.restarted e.timer)).expiration_, e.timer⟩ := by
        rw [restartedEntry, hrestarted]
        rfl
      rw [List.filterMap_cons_some hentry, List.filterMap_nil]
      exact (OrderedSet.insert_perm (hdelete.fresh hfree _)).trans
        (List.perm_append_singleton _ _).symm

theorem rearm_eq (h : Holds out q) (now : ℤ) :
    ∃ timerfd fired, q.rearm now = some { q with timerfd_ := timerfd, fired := fired } ∧
      Armed { q with timerfd_ := timerfd, fired := fired } ∧ (q.fired = false → fired = false) := by
  obtain ⟨timers, heap, timerfd, fired, created, ran⟩ := q
  cases timers with
  | nil => exact ⟨timerfd, fired, rfl, fun hne ↦ absurd rfl hne, id⟩
  | cons first rest =>
    obtain ⟨t, ht, hexpiration⟩ := h.timer first (by simp)
    have ht : heap first.timer = some t := ht
    refine ⟨some ⟨t.expiration_, max 100 (t.expiration_ - now)⟩, false, ?_, fun _ ↦ ⟨rfl, ?_⟩,
      fun _ ↦ rfl⟩
    · rw [rearm]
      dsimp only
      rw [ht]
      rfl
    · exact congrArg some hexpiration

theorem Resets.trans (h : Resets round [e] q q') (h' : Resets round expired q' q'')
    (he : e.timer ∉ expired.map Entry.timer) : Resets round (e :: expired) q q'' := by
  have hsame : ∀ x ∈ expired, q'.heap x.timer = q.heap x.timer := by
    intro x hx
    refine h.old _ fun hmem ↦ he ?_
    rw [← List.mem_singleton.1 hmem]
    exact List.mem_map_of_mem hx
  have hrestarted : ∀ x ∈ expired, restarted q' round x = restarted q round x := by
    intro x hx
    rw [restarted, restarted, hsame x hx]
  refine ⟨?_, fun x hx ↦ ?_, fun a ha ↦ ?_, h'.created.trans h.created, h'.ran.trans h.ran,
    h'.fired ∘ h.fired⟩
  · have hothers : expired.filterMap (restartedEntry q' round) =
        expired.filterMap (restartedEntry q round) :=
      List.filterMap_congr fun x hx ↦ by rw [restartedEntry, restartedEntry, hrestarted x hx]
    have htimers := h'.timers.trans (h.timers.append_right _)
    rwa [hothers, List.append_assoc, ← List.filterMap_append] at htimers
  · rcases List.mem_cons.1 hx with rfl | hx
    · rw [h'.old _ he, h.heap _ (List.mem_singleton_self _)]
    · rw [h'.heap x hx, hrestarted x hx]
  · rw [List.map_cons, List.mem_cons, not_or] at ha
    rw [h'.old a ha.2, h.old a (by simp [ha.1])]

variable (round) in
theorem reset_resets (h : Holds expired q) :
    ∃ q', reset round expired q = some q' ∧ Holds [] q' ∧ Resets round expired q q' ∧
      (expired ≠ [] → Armed q') := by
  induction expired generalizing q with
  | nil =>
    refine ⟨q, rfl, h, ⟨?_, fun _ he ↦ absurd he List.not_mem_nil, fun _ _ ↦ rfl, rfl, rfl,
      id⟩, fun hne ↦ absurd rfl hne⟩
    rw [List.filterMap_nil, List.append_nil]
  | cons e expired ih =>
    obtain ⟨t, ht, -⟩ := h.timer e (List.mem_append_left _ List.mem_cons_self)
    obtain ⟨q₁, hone, h₁, hresets₁⟩ := restartOrDelete_resets round h ht
    obtain ⟨timerfd, fired, hrearm, harmed, hfired⟩ := rearm_eq h₁ (round.reset e.timer)
    have h₂ : Holds expired { q₁ with timerfd_ := timerfd, fired := fired } :=
      ⟨h₁.ordered, h₁.nodup, h₁.timer, h₁.live⟩
    have hresets₂ : Resets round [e] q { q₁ with timerfd_ := timerfd, fired := fired } :=
      ⟨hresets₁.timers, hresets₁.heap, hresets₁.old, hresets₁.created, hresets₁.ran,
        hfired ∘ hresets₁.fired⟩
    obtain ⟨q₃, hrest, h₃, hresets₃, harmed₃⟩ := ih h₂
    have hnodup := h.nodup
    rw [List.map_append, List.map_cons] at hnodup
    refine ⟨q₃, ?_, h₃, hresets₂.trans hresets₃ (List.nodup_cons.1 hnodup.of_append_left).1, ?_⟩
    · rw [reset, ht, Option.bind_some, hone, Option.bind_some, hrearm, Option.bind_some, hrest]
    · intro _
      cases expired with
      | nil =>
        obtain rfl := Option.some.inj hrest
        exact harmed
      | cons x expired => exact harmed₃ (List.cons_ne_nil _ _)

/-- The entries whose time has come, the earliest first. -/
def due (now : ℤ) (q : TimerQueue C) : List Entry := q.timers_.filter (·.expiration ≤ now)

def later (now : ℤ) (q : TimerQueue C) : List Entry := q.timers_.filter (now < ·.expiration)

/-- No timer is at the sentry's address, so that the sentry cuts by time alone. -/
theorem lt_sentry_iff (h : e.timer < UINTPTR_MAX) (now : ℤ) :
    e < sentry now ↔ e.expiration ≤ now := by
  rw [Entry.lt_iff, sentry]
  constructor
  · rintro (hlt | ⟨heq, -⟩)
    · exact hlt.le
    · exact heq.le
  · intro hle
    rcases hle.lt_or_eq with hlt | heq
    · exact .inl hlt
    · exact .inr ⟨heq, h⟩

theorem Holds.bound (h : Holds [] q) (he : e ∈ q.timers_) : e.timer < UINTPTR_MAX := by
  obtain ⟨t, ht, -⟩ := h.timer e he
  exact (h.live e.timer (by rw [ht]; exact nofun)).1

theorem below_sentry (h : Holds [] q) (now : ℤ) :
    OrderedSet.below (sentry now) q.timers_ = due now q := by
  rw [OrderedSet.below_eq_filter h.ordered]
  exact List.filter_congr fun e he ↦ by
    rw [decide_eq_decide, lt_sentry_iff (h.bound he)]

theorem notBelow_sentry (h : Holds [] q) (now : ℤ) :
    OrderedSet.notBelow (sentry now) q.timers_ = later now q := by
  rw [OrderedSet.notBelow_eq_filter h.ordered]
  exact List.filter_congr fun e he ↦ by
    rw [decide_eq_decide, lt_sentry_iff (h.bound he), not_le]

theorem due_append_later (h : Holds [] q) (now : ℤ) : due now q ++ later now q = q.timers_ := by
  rw [← below_sentry h, ← notBelow_sentry h, OrderedSet.below_append_notBelow]

/-- `handleRead` is its callbacks, then `reset`. -/
theorem handleRead_spec (h : Holds [] q) (hfree : Free (added round (due round.now q)) q) :
    ∃ q₁ q', q.handleRead round = some q' ∧ Holds [] q' ∧
      Adds (added round (due round.now q)) { q with timers_ := later round.now q } q₁ ∧
      q₁.ran = q.ran ++ (due round.now q).filterMap (firing q round.now) ∧
      Resets round (due round.now q) q₁ q' ∧ q'.fired = false ∧
      (due round.now q ≠ [] → Armed q') ∧
      (due round.now q = [] → q' = { q with fired := false }) := by
  have hexpired : { q with fired := false }.getExpired round.now = (due round.now q,
      { q with timers_ := later round.now q, fired := false }) := by
    rw [getExpired]
    dsimp only
    rw [below_sentry h, notBelow_sentry h]
  have hcut : Holds (due round.now q)
      { q with timers_ := later round.now q, fired := false } := by
    refine ⟨h.ordered.filter _, ?_, ?_, ?_⟩
    · rw [due_append_later h]
      exact h.nodup
    · rw [due_append_later h]
      exact h.timer
    · rw [due_append_later h]
      exact h.live
  have hlive : ∀ e ∈ due round.now q, q.heap e.timer ≠ none := by
    intro e he
    obtain ⟨t, ht, -⟩ := h.timer e (List.mem_filter.1 he).1
    rw [ht]
    exact nofun
  obtain ⟨q₁, hrun, h₁, hadds, hran⟩ := runExpired_adds hcut hlive hfree
  obtain ⟨q', hreset, h', hresets, harmed⟩ := reset_resets round h₁
  have hfired : q₁.fired = false := hadds.fired rfl
  refine ⟨q₁, q', ?_, h', ⟨hadds.timers, hadds.new, hadds.old, hadds.created, fun _ ↦ hfired⟩,
    hran, hresets, hresets.fired hfired, harmed, fun hdue ↦ ?_⟩
  · rw [handleRead, hexpired]
    dsimp only
    rw [hrun, Option.bind_some, hreset]
  · have hall := due_append_later h round.now
    rw [hdue, List.nil_append] at hall
    rw [hdue, runExpired, hall] at hrun
    obtain rfl := Option.some.inj hrun
    rw [hdue, reset] at hreset
    exact (Option.some.inj hreset).symm

end Round

end CppAiService.TimerQueue
