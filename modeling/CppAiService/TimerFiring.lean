import CppAiService.TimerRounds

namespace CppAiService.TimerFiring

open Foundation TimerQueue

variable {C : Type} {q q' : TimerQueue C} {round : Round C}

/-- What a round does: it calls the timers that are due, each once and the earliest first; of
these it keeps the repeating ones, restarted; and it takes up what their callbacks add. -/
structure Fires (round : Round C) (q q' : TimerQueue C) : Prop where
  ran : q'.ran = q.ran ++ (due round.now q).filterMap (firing q round.now)
  all : ∀ e ∈ due round.now q, ∃ t, q.heap e.timer = some t ∧ t.expiration_ = e.expiration
  once : ((due round.now q).map Entry.timer).Nodup
  order : (due round.now q).Pairwise fun a b ↦ a.expiration ≤ b.expiration
  queue : q'.timers_.Perm (later round.now q ++
    (added round (due round.now q)).map NewTimer.entry ++
    (due round.now q).filterMap (restartedEntry q round))
  queueOnce : (q'.timers_.map Entry.timer).Nodup
  kept : ∀ e ∈ due round.now q, q'.heap e.timer = restarted q round e
  new : ∀ n k, (n, k) ∈ (added round (due round.now q)).zipIdx q.created →
    q'.heap n.address = some (n.timer k)
  others : ∀ a, a ∉ (due round.now q).map Entry.timer →
    a ∉ (added round (due round.now q)).map NewTimer.address → q'.heap a = q.heap a
  created : q'.created = q.created + (added round (due round.now q)).length

theorem handleRead_fires (h : Holds [] q) (hfree : Free (added round (due round.now q)) q) :
    ∃ q', q.handleRead round = some q' ∧ Holds [] q' ∧ Fires round q q' := by
  obtain ⟨q₁, q', hread, h', hadds, hran, hresets, -⟩ := handleRead_spec h hfree
  have hall : ∀ e ∈ due round.now q, ∃ t, q.heap e.timer = some t ∧
      t.expiration_ = e.expiration := fun e he ↦ h.timer e (List.mem_filter.1 he).1
  have hnew : ∀ e ∈ due round.now q, e.timer ∉
      (added round (due round.now q)).map NewTimer.address := by
    intro e he
    obtain ⟨t, ht, -⟩ := hall e he
    exact hfree.not_mem (by rw [ht]; exact nofun)
  have hheap : ∀ e ∈ due round.now q, q₁.heap e.timer = q.heap e.timer :=
    fun e he ↦ hadds.old _ (hnew e he)
  have hrestarted : ∀ e ∈ due round.now q, restarted q₁ round e = restarted q round e :=
    fun e he ↦ by rw [restarted, restarted, hheap e he]
  have hnodup := h.nodup
  rw [List.nil_append, ← due_append_later h round.now, List.map_append] at hnodup
  refine ⟨q', hread, h', ?_⟩
  exact {
    ran := hresets.ran.trans hran
    all := hall
    once := hnodup.of_append_left
    order := by
      refine (h.ordered.filter _).imp fun {a b} hab ↦ ?_
      rcases Entry.lt_iff.1 hab with hlt | ⟨heq, -⟩
      · exact hlt.le
      · exact heq.le
    queue := by
      have hentries : (due round.now q).filterMap (restartedEntry q₁ round) =
          (due round.now q).filterMap (restartedEntry q round) :=
        List.filterMap_congr fun e he ↦ by
          rw [restartedEntry, restartedEntry, hrestarted e he]
      exact hentries ▸ hresets.timers.trans (hadds.timers.append_right _)
    queueOnce := h'.nodup
    kept := fun e he ↦ (hresets.heap e he).trans (hrestarted e he)
    new := by
      intro n k hmem
      have hn := List.fst_mem_of_mem_zipIdx hmem
      rw [hresets.old, hadds.new n k hmem]
      intro hdue
      obtain ⟨e, he, heq⟩ := List.mem_map.1 hdue
      exact hnew e he (heq ▸ List.mem_map_of_mem hn)
    others := fun a hdue hadded ↦ (hresets.old a hdue).trans (hadds.old a hadded)
    created := hresets.created.trans hadds.created }

/-- The calls so far were not early and no one-shot timer was called twice; the rest is what
the next step needs for that. -/
structure Recorded (q : TimerQueue C) : Prop where
  serial : ∀ a t, q.heap a = some t → t.serial < q.created
  distinct : ∀ a b t u, q.heap a = some t → q.heap b = some u → t.serial = u.serial → a = b
  past : ∀ f ∈ q.ran, f.expiration ≤ f.now ∧ f.serial < q.created
  spent : ∀ f ∈ q.ran, ∀ a t, q.heap a = some t → t.serial = f.serial → f.repeat_ = true
  once : ((q.ran.filter (!·.repeat_)).map Firing.serial).Nodup

theorem recorded_create : Recorded (create : TimerQueue C) where
  serial := nofun
  distinct := nofun
  past := fun _ h ↦ absurd h List.not_mem_nil
  spent := fun _ h ↦ absurd h List.not_mem_nil
  once := List.nodup_nil

/-- A timer there is after a step is one from before, and repeats if it was called, or is one
of those added. -/
def Known (expired : List Entry) (ns : List (NewTimer C)) (q q' : TimerQueue C) : Prop :=
  ∀ a t', q'.heap a = some t' →
    (∃ t, q.heap a = some t ∧ t'.serial = t.serial ∧
      (a ∈ expired.map Entry.timer → t.repeat_ = true)) ∨
    ∃ n k, (n, k) ∈ ns.zipIdx q.created ∧ n.address = a ∧ t' = n.timer k

theorem of_mem_firings {now : ℤ} {expired : List Entry} {f : Firing C}
    (hexpired : ∀ e ∈ expired, ∃ t, q.heap e.timer = some t ∧ t.expiration_ ≤ now)
    (hf : f ∈ expired.filterMap (firing q now)) :
    ∃ e ∈ expired, ∃ t, q.heap e.timer = some t ∧ f = t.firing now ∧ t.expiration_ ≤ now := by
  obtain ⟨e, he, hf⟩ := List.mem_filterMap.1 hf
  obtain ⟨t, ht, hle⟩ := hexpired e he
  rw [firing, ht, Option.map_some, Option.some.injEq] at hf
  exact ⟨e, he, t, ht, hf.symm, hle⟩

/-- A new timer has a serial of its own. -/
theorem Recorded.distinct_of_known (h : Recorded q) {expired : List Entry} {ns : List (NewTimer C)}
    (hknown : Known expired ns q q') (a b : ℕ) (t' u' : Timer C) (ht' : q'.heap a = some t')
    (hu' : q'.heap b = some u') (heq : t'.serial = u'.serial) : a = b := by
  have hnew : ∀ n k, (n, k) ∈ ns.zipIdx q.created → ¬ k < q.created :=
    fun n k hmem ↦ not_lt.2 (List.le_snd_of_mem_zipIdx hmem)
  rcases hknown a t' ht' with ⟨t, ht, htserial, -⟩ | ⟨n, k, hn, rfl, rfl⟩ <;>
    rcases hknown b u' hu' with ⟨u, hu, huserial, -⟩ | ⟨m, l, hm, rfl, rfl⟩
  · exact h.distinct a b t u ht hu (htserial.symm.trans (heq.trans huserial))
  · have hlt := h.serial a t ht
    rw [← htserial, heq] at hlt
    exact absurd hlt (hnew m l hm)
  · have hlt := h.serial b u hu
    rw [← huserial, ← heq] at hlt
    exact absurd hlt (hnew n k hn)
  · have hkl : k = l := heq
    rw [hkl, List.mem_zipIdx_iff_le_and_getElem?_sub] at hn
    rw [List.mem_zipIdx_iff_le_and_getElem?_sub] at hm
    have hsame : n = m := Option.some.inj (hn.2.symm.trans hm.2)
    rw [hsame]

/-- The one-shot timers called now are different ones, and none was called before. -/
theorem Recorded.once_append (h : Recorded q) {now : ℤ} {expired : List Entry}
    (hexpired : ∀ e ∈ expired, ∃ t, q.heap e.timer = some t ∧ t.expiration_ ≤ now)
    (honce : (expired.map Entry.timer).Nodup) :
    (((q.ran ++ expired.filterMap (firing q now)).filter (!·.repeat_)).map
      Firing.serial).Nodup := by
  rw [List.filter_append, List.map_append, List.nodup_append]
  refine ⟨h.once, ?_, ?_⟩
  · refine List.Nodup.sublist (List.filter_sublist.map _) (List.pairwise_map.2 ?_)
    refine List.pairwise_filterMap.2 ((List.pairwise_map.1 honce).imp ?_)
    intro a b hab f hf g hg heq
    obtain ⟨t, ht, rfl⟩ := Option.map_eq_some_iff.1 hf
    obtain ⟨u, hu, rfl⟩ := Option.map_eq_some_iff.1 hg
    exact hab (h.distinct _ _ t u ht hu heq)
  · intro serial hs serial' hs' heq
    obtain ⟨f, hf, rfl⟩ := List.mem_map.1 hs
    obtain ⟨g, hg, rfl⟩ := List.mem_map.1 hs'
    obtain ⟨hf, honeshot⟩ := List.mem_filter.1 hf
    obtain ⟨e, -, t, ht, rfl, -⟩ := of_mem_firings hexpired (List.mem_filter.1 hg).1
    have hrepeat := h.spent f hf e.timer t ht heq.symm
    simp [hrepeat] at honeshot

theorem Recorded.step (h : Recorded q) (now : ℤ) {expired : List Entry} {ns : List (NewTimer C)}
    (hknown : Known expired ns q q') (hcreated : q'.created = q.created + ns.length)
    (hran : q'.ran = q.ran ++ expired.filterMap (firing q now))
    (hexpired : ∀ e ∈ expired, ∃ t, q.heap e.timer = some t ∧ t.expiration_ ≤ now)
    (honce : (expired.map Entry.timer).Nodup) : Recorded q' := by
  have hold : ∀ f ∈ q'.ran, f.serial < q.created := by
    intro f hf
    rcases List.mem_append.1 (hran ▸ hf) with hf | hf
    · exact (h.past f hf).2
    · obtain ⟨e, -, t, ht, rfl, -⟩ := of_mem_firings hexpired hf
      exact h.serial _ t ht
  have hle : q.created ≤ q'.created := hcreated ▸ Nat.le_add_right _ _
  refine ⟨fun a t' ht' ↦ ?_, h.distinct_of_known hknown, fun f hf ↦ ?_,
    fun f hf a t' ht' heq ↦ ?_, hran ▸ h.once_append hexpired honce⟩
  · rcases hknown a t' ht' with ⟨t, ht, hserial, -⟩ | ⟨n, k, hmem, -, rfl⟩
    · rw [hserial]
      exact (h.serial a t ht).trans_le hle
    · rw [hcreated]
      exact List.snd_lt_add_of_mem_zipIdx hmem
  · refine ⟨?_, (hold f hf).trans_le hle⟩
    rcases List.mem_append.1 (hran ▸ hf) with hf | hf
    · exact (h.past f hf).1
    · obtain ⟨e, -, t, -, rfl, hdue⟩ := of_mem_firings hexpired hf
      exact hdue
  · rcases hknown a t' ht' with ⟨t, ht, hserial, hspent⟩ | ⟨n, k, hmem, -, rfl⟩
    · rcases List.mem_append.1 (hran ▸ hf) with hf | hf
      · exact h.spent f hf a t ht (hserial.symm.trans heq)
      · obtain ⟨e, he, u, hu, rfl, -⟩ := of_mem_firings hexpired hf
        obtain rfl := h.distinct a e.timer t u ht hu (hserial.symm.trans heq)
        obtain rfl := Option.some.inj (ht.symm.trans hu)
        exact hspent (List.mem_map_of_mem he)
    · exact absurd (hold f hf) (heq ▸ not_lt.2 (List.le_snd_of_mem_zipIdx hmem))

theorem exists_serial {ns : List (NewTimer C)} {n : NewTimer C} (hn : n ∈ ns) (created : ℕ) :
    ∃ k, (n, k) ∈ ns.zipIdx created := by
  rw [← List.zipIdx_map_fst created ns] at hn
  obtain ⟨⟨n, k⟩, hmem, rfl⟩ := List.mem_map.1 hn
  exact ⟨k, hmem⟩

theorem adds_known {ns : List (NewTimer C)} (hadds : Adds ns q q') : Known [] ns q q' := by
  intro a t' ht'
  by_cases hmem : a ∈ ns.map NewTimer.address
  · obtain ⟨n, hn, rfl⟩ := List.mem_map.1 hmem
    obtain ⟨k, hzip⟩ := exists_serial hn q.created
    exact .inr ⟨n, k, hzip, rfl, Option.some.inj (ht'.symm.trans (hadds.new n k hzip))⟩
  · exact .inl ⟨t', (hadds.old a hmem).symm.trans ht', rfl, fun h ↦ absurd h List.not_mem_nil⟩

theorem Fires.known (h : Fires round q q') :
    Known (due round.now q) (added round (due round.now q)) q q' := by
  intro a t' ht'
  by_cases hdue : a ∈ (due round.now q).map Entry.timer
  · obtain ⟨e, he, rfl⟩ := List.mem_map.1 hdue
    obtain ⟨t, ht, -⟩ := h.all e he
    rw [h.kept e he] at ht'
    cases hrepeat : t.repeat_ with
    | false =>
      rw [restarted_of_not_repeat ht hrepeat] at ht'
      cases ht'
    | true =>
      rw [restarted_of_repeat ht hrepeat, Timer.restart, if_pos hrepeat] at ht'
      obtain rfl := Option.some.inj ht'
      exact .inl ⟨t, ht, rfl, fun _ ↦ hrepeat⟩
  · by_cases hmem : a ∈ (added round (due round.now q)).map NewTimer.address
    · obtain ⟨n, hn, rfl⟩ := List.mem_map.1 hmem
      obtain ⟨k, hzip⟩ := exists_serial hn q.created
      exact .inr ⟨n, k, hzip, rfl, Option.some.inj (ht'.symm.trans (h.new n k hzip))⟩
    · exact .inl ⟨t', (h.others a hdue hmem).symm.trans ht', rfl, fun h ↦ absurd h hdue⟩

/-- `new` returns addresses as it does, and the fd goes off only when it is armed. -/
def Lawful (q : TimerQueue C) : Action C → Prop
  | .addTimer n => q.heap n.address = none ∧ n.address < UINTPTR_MAX
  | .fire => q.timerfd_ ≠ none
  | .handleRead round => Free (added round (due round.now q)) q

instance (q : TimerQueue C) (a : Action C) : Decidable (Lawful q a) :=
  match a with
  | .addTimer n => inferInstanceAs (Decidable (q.heap n.address = none ∧ n.address < UINTPTR_MAX))
  | .fire => inferInstanceAs (Decidable (q.timerfd_ ≠ none))
  | .handleRead round => inferInstanceAs (Decidable (_ ∧ ∀ n ∈ added round (due round.now q), _ ∧ _))

structure Kept (q : TimerQueue C) : Prop where
  holds : Holds [] q
  recorded : Recorded q

theorem kept_step (q : TimerQueue C) (a : Action C) (ha : Lawful q a) (h : Kept q) :
    ∃ q', q.step a = some q' ∧ Kept q' := by
  cases a with
  | addTimer n =>
    obtain ⟨q', hadd, hholds, hadds, hran⟩ := addTimer_adds h.holds ha.1 ha.2
    refine ⟨q', hadd, hholds, h.recorded.step 0 (adds_known hadds) hadds.created ?_
      (fun _ he ↦ absurd he List.not_mem_nil) List.nodup_nil⟩
    rw [hran, List.filterMap_nil, List.append_nil]
  | fire =>
    obtain ⟨arming, harming⟩ := Option.ne_none_iff_exists'.1 ha
    refine ⟨{ q with timerfd_ := none, fired := true }, ?_, ?_⟩
    · rw [step, fire, harming, Option.map_some]
    · exact ⟨⟨h.holds.ordered, h.holds.nodup, h.holds.timer, h.holds.live⟩, h.recorded.serial,
        h.recorded.distinct, h.recorded.past, h.recorded.spent, h.recorded.once⟩
  | handleRead round =>
    obtain ⟨q', hread, hholds, hfires⟩ := handleRead_fires h.holds ha
    refine ⟨q', hread, hholds, h.recorded.step round.now hfires.known hfires.created hfires.ran ?_
      hfires.once⟩
    intro e he
    obtain ⟨t, ht, hexpiration⟩ := hfires.all e he
    refine ⟨t, ht, ?_⟩
    rw [hexpiration]
    exact of_decide_eq_true (List.mem_filter.1 he).2

/-- In every run each round calls exactly the timers that are due, once each and in order, keeps
the repeating ones and takes up the new ones; and over the run no call comes before its
expiration and no one-shot timer is called twice. -/
theorem timers_fire (actions : List (Action C)) (hlawful : Run.Along step Lawful create actions) :
    ∃ q : TimerQueue C, Run.run step create actions = some q ∧
      (∀ round, Free (added round (due round.now q)) q →
        ∃ q', q.handleRead round = some q' ∧ Fires round q q') ∧
      (∀ n : NewTimer C, q.heap n.address = none → n.address < UINTPTR_MAX →
        ∃ q', q.addTimer n = some q' ∧ q'.timers_.Perm (n.entry :: q.timers_) ∧
          q'.ran = q.ran) ∧
      (∀ f ∈ q.ran, f.expiration ≤ f.now) ∧
      ((q.ran.filter (!·.repeat_)).map Firing.serial).Nodup := by
  obtain ⟨q, hrun, h⟩ := Run.possible kept_step ⟨holds_create, recorded_create⟩ hlawful
  refine ⟨q, hrun, fun round hfree ↦ ?_, fun n hfree hbound ↦ ?_,
    fun f hf ↦ (h.recorded.past f hf).1, h.recorded.once⟩
  · obtain ⟨q', hread, -, hfires⟩ := handleRead_fires h.holds hfree
    exact ⟨q', hread, hfires⟩
  · obtain ⟨q', hadd, -, hadds, hran⟩ := addTimer_adds h.holds hfree hbound
    exact ⟨q', hadd, hadds.timers.trans (List.perm_append_singleton _ _), hran⟩

/-- Two timers at the same time, of which the first adds a third that is due at once: the third
waits for the next round, and the second is in the queue again. -/
theorem third_timer_waits :
    let actions : List (Action ℕ) := [.addTimer ⟨1, 10, ⟨false, 0⟩, 16, 0⟩,
      .addTimer ⟨2, 10, ⟨true, 5⟩, 8, 0⟩, .fire,
      .handleRead ⟨10, fun a ↦ if a = 16 then [⟨3, 9, ⟨false, 0⟩, 32, 10⟩] else [], fun _ ↦ 11,
        fun _ ↦ 11⟩]
    ∃ q, Run.run step create actions = some q ∧ (∀ f ∈ q.ran, f.expiration ≤ f.now) ∧
      q.ran.map Firing.callback_ = [2, 1] ∧ q.timers_ = [⟨9, 32⟩, ⟨16, 8⟩] := by
  intro actions
  obtain ⟨q, hrun, -, -, hran, -⟩ := timers_fire actions (by decide)
  refine ⟨q, hrun, hran, ?_⟩
  obtain rfl := Option.some.inj hrun
  exact ⟨by decide, by decide⟩

end CppAiService.TimerFiring
