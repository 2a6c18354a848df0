import CppAiService.SlicedRuns

namespace CppAiService

namespace KLfuCache

variable {K V : Type}

def Untouched (key : K) (ops : List (Op K V)) : Prop :=
  ∀ op ∈ ops, op ≠ .purge ∧ ∀ value order, op ≠ .put key value order

def LastPut (ops : List (Op K V)) (key : K) (value : V) : Prop :=
  ∃ before order after, ops = before ++ .put key value order :: after ∧ Untouched key after

theorem Untouched.concat {key : K} {ops : List (Op K V)} {op : Op K V} (h : Untouched key ops)
    (hpurge : op ≠ .purge) (hput : ∀ value order, op ≠ .put key value order) :
    Untouched key (ops ++ [op]) := by
  intro other hmem
  obtain hmem | hmem := List.mem_append.1 hmem
  · exact h other hmem
  · rw [List.mem_singleton.1 hmem]
    exact ⟨hpurge, hput⟩

theorem LastPut.concat {key : K} {value : V} {ops : List (Op K V)} {op : Op K V}
    (h : LastPut ops key value) (hpurge : op ≠ .purge)
    (hput : ∀ value order, op ≠ .put key value order) : LastPut (ops ++ [op]) key value := by
  obtain ⟨before, order, after, rfl, hafter⟩ := h
  exact ⟨before, order, after ++ [op], by simp, hafter.concat hpurge hput⟩

variable [DecidableEq K] [Inhabited K] {c d : KLfuCache K V} {key : K} {value : V}
  {order : IterationOrder} {capacity : ℤ} {ops : List (Op K V)} {op : Op K V}

omit [Inhabited K] in
theorem get_value (hc : c.Sound) (key : K) (order : IterationOrder) :
    ∃ d, c.get key order = some (c.contents key, d) := by
  cases hlookup : c.nodeMap_.lookup key with
  | some node =>
    obtain ⟨d, hd, -⟩ := getInternal_spec hc (mem_ptrs.2 ⟨key, hlookup⟩) order
    refine ⟨d, ?_⟩
    rw [get_of_lookup_eq_some hlookup, hd, contents, hlookup]
    rfl
  | none =>
    refine ⟨c, ?_⟩
    rw [get_of_notMem (AList.lookup_eq_none.1 hlookup), contents, hlookup]
    rfl

theorem Stepped.contents_of_get (h : c.Stepped (.get key order) d) (hc : c.Sound) (key' : K) :
    d.contents key' = c.contents key' := by
  cases h with
  | hit k node value hop hlookup haccessed =>
    obtain ⟨order', heq⟩ | ⟨order', heq, rfl⟩ := hop
    · cases heq
    · rw [setValue_self] at haccessed
      exact (haccessed.contents key').trans
        (contents_touched hc.linked (mem_ptrs.2 ⟨k, hlookup⟩) key')
  | missed => rfl

theorem Stepped.contents_of_purge (h : c.Stepped .purge d) (key : K) : d.contents key = none := by
  cases h with
  | hit k node value hop =>
    obtain ⟨order, heq⟩ | ⟨order, heq, -⟩ := hop
    · cases heq
    · cases heq
  | purged => rfl

/-- A put writes its key, and drops another one only when it adds a key to a full cache. -/
theorem Bounded.contents_of_put (hc : c.Bounded) (hcap : 1 ≤ c.capacity_)
    (h : c.Stepped (.put key value order) d) :
    d.contents key = some value ∧ ∀ key' ≠ key, d.contents key' = c.contents key' ∨
      (d.contents key' = none ∧ c.contents key = none ∧ (c.size : ℤ) = c.capacity_) := by
  cases h with
  | hit key' node value' hop hlookup haccessed =>
    obtain ⟨order', heq⟩ | ⟨order', heq, -⟩ := hop
    · cases heq
      have hcontents := haccessed.contents_of_hit hc.ranked.sound.linked hlookup
      refine ⟨(hcontents key).trans (if_pos rfl), fun k hk ↦ .inl ?_⟩
      exact (hcontents k).trans (if_neg hk)
    · cases heq
  | @inserted e f key value order hkey hroom haccessed =>
    have husable := hc.minUsable
    obtain ⟨hranked, -⟩ := hc.ranked.roomMade husable hcap hroom
    have hcontents := haccessed.contents_of_insert hranked.sound.linked
    refine ⟨(hcontents key).trans (if_pos rfl), fun k hk ↦ ?_⟩
    have hk' : f.contents k = e.contents k := (hcontents k).trans (if_neg hk)
    obtain hsame | hgone := hroom.contents k
    · exact .inl (hk'.trans hsame)
    · cases hroom with
      | spare => exact .inl hk'
      | evicted hfull => exact .inr ⟨hk'.trans hgone, contents_eq_none_iff.2 hkey, hfull⟩
      | sentinel hfull => exact .inr ⟨hk'.trans hgone, contents_eq_none_iff.2 hkey, hfull⟩

variable [Inhabited V]

/-- The last operation of a run, and the cache it met. -/
theorem last_step (hcap : 1 ≤ capacity) (hlen : ops.length < 2 ^ 31 - 1)
    (hrun : run (create capacity 10) (ops ++ [op]) = some d) :
    ∃ c, run (create capacity 10) ops = some c ∧ c.Bounded ∧ c.capacity_ = capacity ∧
      c.Stepped op d := by
  obtain ⟨c, hc, hop⟩ := Foundation.Run.run_concat hrun
  obtain ⟨c', hc', hbounded, hcfg, htotal⟩ := run_bounded hcap (by decide : (2 : ℤ) ≤ 10)
    (by decide) ops (by omega)
  obtain rfl := Option.some.inj (hc.symm.trans hc')
  obtain ⟨d', hd', hstepped, -⟩ := hbounded.ranked.step hbounded.minUsable hcfg (by omega) op
  obtain rfl := Option.some.inj (hop.symm.trans hd')
  exact ⟨c, hc, hbounded, hcfg.capacity_, hstepped⟩

/-- What is found was put last. -/
theorem lastPut_of_contents (hcap : 1 ≤ capacity) (hlen : ops.length < 2 ^ 31)
    (hrun : run (create capacity 10) ops = some c) (h : c.contents key = some value) :
    LastPut ops key value := by
  induction ops using List.reverseRecOn generalizing c with
  | nil =>
    have hnone : (create capacity 10 : KLfuCache K V).contents key = none := rfl
    rw [← Option.some.inj hrun, hnone] at h
    cases h
  | append_singleton ops op ih =>
    rw [List.length_append, List.length_singleton] at hlen
    obtain ⟨b, hb, hbounded, rfl, hstepped⟩ := last_step hcap (by omega) hrun
    cases op with
    | put key' value' order =>
      obtain ⟨hself, hother⟩ := hbounded.contents_of_put hcap hstepped
      by_cases hkey : key = key'
      · subst hkey
        obtain rfl := Option.some.inj (hself.symm.trans h)
        exact ⟨ops, order, [], rfl, fun _ hmem ↦ absurd hmem List.not_mem_nil⟩
      · obtain hsame | ⟨hgone, -⟩ := hother key hkey
        · exact (ih (by omega) hb (hsame.symm.trans h)).concat (by simp) (by simp [Ne.symm hkey])
        · rw [hgone] at h
          cases h
    | get key' order =>
      rw [hstepped.contents_of_get hbounded.ranked.sound] at h
      exact (ih (by omega) hb h).concat (by simp) (by simp)
    | purge =>
      rw [hstepped.contents_of_purge] at h
      cases h

/-- A key put and not purged is there, or was pushed out of a full cache by another one. -/
theorem contents_or_displaced (hcap : 1 ≤ capacity) {before after : List (Op K V)}
    (hlen : (before ++ .put key value order :: after).length < 2 ^ 31)
    (hrun : run (create capacity 10) (before ++ .put key value order :: after) = some c)
    (hafter : Untouched key after) : c.contents key = some value ∨
      ∃ mid key' value' order' rest d, after = mid ++ .put key' value' order' :: rest ∧
        key' ≠ key ∧
        run (create capacity 10) (before ++ .put key value order :: mid) = some d ∧
        d.contents key' = none ∧ (d.size : ℤ) = capacity := by
  induction after using List.reverseRecOn generalizing c with
  | nil =>
    rw [List.length_append, List.length_singleton] at hlen
    obtain ⟨b, hb, hbounded, rfl, hstepped⟩ := last_step hcap (by omega) hrun
    exact .inl (hbounded.contents_of_put hcap hstepped).1
  | append_singleton after op ih =>
    have hassoc : before ++ .put key value order :: (after ++ [op]) =
        (before ++ .put key value order :: after) ++ [op] := by simp
    rw [hassoc] at hrun hlen
    rw [List.length_append, List.length_singleton] at hlen
    obtain ⟨b, hb, hbounded, rfl, hstepped⟩ := last_step hcap (by omega) hrun
    obtain ⟨hpurge, hput⟩ := hafter op (by simp)
    have hearlier : Untouched key after := fun other hmem ↦ hafter other (by simp [hmem])
    obtain hfound | ⟨mid, key', value', order', rest, d, rfl, hdisplaced⟩ :=
      ih (by omega) hb hearlier
    · cases op with
      | put key' value' order' =>
        have hkey : key' ≠ key := fun he ↦ hput value' order' (by rw [he])
        obtain hsame | ⟨-, habsent, hfull⟩ :=
          (hbounded.contents_of_put hcap hstepped).2 key hkey.symm
        · exact .inl (hsame.trans hfound)
        · exact .inr ⟨after, key', value', order', [], b, rfl, hkey, hb, habsent, hfull⟩
      | get key' order' =>
        exact .inl ((hstepped.contents_of_get hbounded.ranked.sound key).trans hfound)
      | purge => exact absurd rfl hpurge
    · exact .inr ⟨mid, key', value', order', rest ++ [op], d, by simp, hdisplaced⟩

end KLfuCache

namespace KHashLfuCache

open KLfuCache (Op Untouched LastPut)

/-- A slice's operations around one of them are those around it in the whole run. -/
theorem exists_of_filter_split {α : Type} {p : α → Bool} {l front back : List α} {a : α}
    (h : l.filter p = front ++ a :: back) :
    ∃ before after, l = before ++ a :: after ∧ before.filter p = front ∧ after.filter p = back := by
  obtain ⟨before, rest, rfl, hbefore, hrest⟩ := List.filter_eq_append_iff.1 h
  obtain ⟨skipped, after, rfl, hskipped, -, hafter⟩ := List.filter_eq_cons_iff.1 hrest
  refine ⟨before ++ skipped, after, by simp, ?_, hafter⟩
  rw [List.filter_append, hbefore, List.filter_eq_nil_iff.2 hskipped, List.append_nil]

variable {K V : Type} {hash : K → ℕ} {n : ℕ} {key : K} {value : V} {ops : List (Op K V)}

theorem ofSlice_put (order : IterationOrder) :
    ofSlice hash n (hash key % n) (.put key value order : Op K V) = true := by
  simp [ofSlice, Op.key?]

theorem untouched_sliceOps :
    Untouched key (sliceOps hash n (hash key % n) ops) ↔ Untouched key ops := by
  constructor
  · intro h op hmem
    constructor
    · rintro rfl
      exact (h .purge (List.mem_filter.2 ⟨hmem, rfl⟩)).1 rfl
    · rintro value order rfl
      exact (h _ (List.mem_filter.2 ⟨hmem, ofSlice_put order⟩)).2 value order rfl
  · intro h op hmem
    exact h op (List.mem_filter.1 hmem).1

theorem lastPut_of_sliceOps (h : LastPut (sliceOps hash n (hash key % n) ops) key value) :
    LastPut ops key value := by
  obtain ⟨front, order, back, hsplit, hback⟩ := h
  obtain ⟨before, after, rfl, -, rfl⟩ := exists_of_filter_split hsplit
  exact ⟨before, order, after, rfl, untouched_sliceOps.1 hback⟩

/-- Another key of the slice, not cached, was put while the slice was full. -/
def Displaced [DecidableEq K] [Inhabited K] [Inhabited V] (hash : K → ℕ) (capacity n : ℕ) (key : K)
    (before after : List (Op K V)) : Prop :=
  ∃ mid key' value' order' rest c slice, after = mid ++ .put key' value' order' :: rest ∧
    key' ≠ key ∧ hash key' % n = hash key % n ∧
    run hash (sliced capacity n 10) (before ++ mid) = some c ∧
    c.lfuSliceCaches_[hash key % n]? = some slice ∧ slice.contents key' = none ∧
    slice.size = ceilSlice capacity n

variable [DecidableEq K] [Inhabited K] [Inhabited V] {capacity : ℕ} {c : KHashLfuCache K V}

theorem slice_of_run (hcap : 1 ≤ capacity) (hn : 1 ≤ n) (hlen : ops.length < 2 ^ 31)
    (hrun : run hash (sliced capacity n 10) ops = some c) (key : K) :
    ∃ slice, c.lfuSliceCaches_[hash key % n]? = some slice ∧ c.sliceNum_ = n ∧
      KLfuCache.run (KLfuCache.create (ceilSlice capacity n) 10)
        (sliceOps hash n (hash key % n) ops) = some slice := by
  obtain ⟨g, hg, hslices⟩ := run_sliced hash hcap hn ops hlen
  obtain rfl := Option.some.inj (hrun.symm.trans hg)
  have hlt : hash key % n < n := Nat.mod_lt _ hn
  refine ⟨g (hash key % n), ?_, rfl, hslices _ hlt⟩
  rw [List.getElem?_map, List.getElem?_range hlt, Option.map_some]

/-- What a get returns is what its slice alone would. -/
theorem get_of_run (hcap : 1 ≤ capacity) (hn : 1 ≤ n) (hlen : ops.length < 2 ^ 31)
    (hrun : run hash (sliced capacity n 10) ops = some c) (key : K) (order : IterationOrder) :
    ∃ slice d, KLfuCache.run (KLfuCache.create (ceilSlice capacity n) 10)
        (sliceOps hash n (hash key % n) ops) = some slice ∧
      c.get hash key order = some (slice.contents key, d) := by
  obtain ⟨slice, hslice, hnum, hsliceRun⟩ := slice_of_run hcap hn hlen hrun key
  obtain ⟨slice', hslice', hbounded⟩ := slice_bounded hash hcap hn hlen (hash key % n)
  obtain rfl := Option.some.inj (hsliceRun.symm.trans hslice')
  obtain ⟨after, hafter⟩ := KLfuCache.get_value hbounded.ranked.sound key order
  refine ⟨slice, c.withSlice hash key after, hsliceRun, ?_⟩
  simp only [get, withSlice, sliceIndex, hnum, hslice, hafter, Option.bind_eq_bind,
    Option.bind_some]
  rfl

theorem found_or_displaced (hcap : 1 ≤ capacity) (hn : 1 ≤ n) {before after : List (Op K V)}
    {order : IterationOrder} (hlen : (before ++ .put key value order :: after).length < 2 ^ 31)
    (hafter : Untouched key after) {slice : KLfuCache K V}
    (hslice : KLfuCache.run (KLfuCache.create (ceilSlice capacity n) 10)
      (sliceOps hash n (hash key % n) (before ++ .put key value order :: after)) = some slice) :
    slice.contents key = some value ∨
      Displaced hash capacity n key (before ++ [.put key value order]) after := by
  have hsize := one_le_ceilSlice_int hcap hn
  have hlen' := length_sliceOps_lt hash n (hash key % n) hlen
  rw [sliceOps, List.filter_append, List.filter_cons_of_pos (ofSlice_put order)] at hslice hlen'
  obtain hfound | ⟨front, key', value', order', back, d, hsplit, hkey, hd, habsent, hfull⟩ :=
    KLfuCache.contents_or_displaced hsize hlen' hslice (untouched_sliceOps.2 hafter)
  · exact .inl hfound
  · right
    obtain ⟨mid, rest, rfl, rfl, -⟩ := exists_of_filter_split hsplit
    have hsame : hash key' % n = hash key % n := by
      have hmem : Op.put key' value' order' ∈
          (mid ++ Op.put key' value' order' :: rest).filter (ofSlice hash n (hash key % n)) :=
        hsplit ▸ List.mem_append_right _ List.mem_cons_self
      simpa [ofSlice, Op.key?] using (List.mem_filter.1 hmem).2
    -- the whole run up to the displacing put is possible as well
    have hprefix : ((before ++ [Op.put key value order]) ++ mid).length < 2 ^ 31 := by
      simp only [List.length_append, List.length_cons, List.length_nil] at hlen ⊢
      omega
    obtain ⟨g, hg, -⟩ := run_sliced hash hcap hn _ hprefix
    obtain ⟨slice', hslice', -, hrun'⟩ := slice_of_run hcap hn hprefix hg key
    have hops : sliceOps hash n (hash key % n) ((before ++ [.put key value order]) ++ mid) =
        before.filter (ofSlice hash n (hash key % n)) ++ .put key value order ::
          mid.filter (ofSlice hash n (hash key % n)) := by
      rw [sliceOps, List.append_assoc, List.filter_append, List.singleton_append,
        List.filter_cons_of_pos (ofSlice_put order)]
    rw [hops] at hrun'
    obtain rfl := Option.some.inj (hd.symm.trans hrun')
    exact ⟨mid, key', value', order', rest, _, d, rfl, hkey, hsame, hg, hslice', habsent,
      by exact_mod_cast hfull⟩

/-- What a get may return after these operations: the value put last, and nothing only when
the key has been displaced. The operations on other slices do not matter. -/
structure Looked (hash : K → ℕ) (capacity n : ℕ) (ops : List (Op K V)) (key : K)
    (order : IterationOrder) (result : Option V) : Prop where
  sound : ∀ value, result = some value → LastPut ops key value
  fresh : ∀ before value putOrder, ops = before ++ [.put key value putOrder] → result = some value
  missed : result = none → ∀ before value putOrder after,
    ops = before ++ .put key value putOrder :: after → Untouched key after →
    Displaced hash capacity n key (before ++ [.put key value putOrder]) after
  alone : ∀ (others : List (Op K V)) (c : KHashLfuCache K V), others.length < 2 ^ 31 →
    sliceOps hash n (hash key % n) others = sliceOps hash n (hash key % n) ops →
    run hash (sliced capacity n 10) others = some c →
    ∃ d, c.get hash key order = some (result, d)

/-- Every get on the sharded cache. -/
theorem lookups_exact (hash : K → ℕ) (hcap : 1 ≤ capacity) (hn : 1 ≤ n) (ops : List (Op K V))
    (hlen : ops.length < 2 ^ 31) :
    (∃ c : KHashLfuCache K V, run hash (sliced capacity n 10) ops = some c ∧
      ∀ key order, ∃ result d, c.get hash key order = some (result, d) ∧
        Looked hash capacity n ops key order result) ∧
    ∀ hardwareConcurrency, capacity < 2 ^ 53 → ceilSlice capacity n < 2 ^ 31 →
      (create capacity n 10 hardwareConcurrency : KHashLfuCache K V) = sliced capacity n 10 := by
  refine ⟨?_, fun hardwareConcurrency hlarge hsize ↦
    create_eq_sliced hn hlarge hsize 10 hardwareConcurrency⟩
  have hsize := one_le_ceilSlice_int hcap hn
  obtain ⟨g, hg, -⟩ := run_sliced hash hcap hn ops hlen
  refine ⟨_, hg, fun key order ↦ ?_⟩
  obtain ⟨slice, d, hslice, hget⟩ := get_of_run hcap hn hlen hg key order
  have hlen' := length_sliceOps_lt hash n (hash key % n) hlen
  refine ⟨slice.contents key, d, hget, ?_, ?_, ?_, ?_⟩
  · intro value hvalue
    exact lastPut_of_sliceOps (KLfuCache.lastPut_of_contents hsize hlen' hslice hvalue)
  · rintro before value putOrder rfl
    obtain hfound | hdisplaced := found_or_displaced hcap hn hlen
      (fun _ hmem ↦ absurd hmem List.not_mem_nil) hslice
    · exact hfound
    · obtain ⟨mid, _, _, _, rest, -, -, hnil, -⟩ := hdisplaced
      exact absurd hnil.symm (by simp)
  · rintro hnone before value putOrder after rfl hafter
    obtain hfound | hdisplaced := found_or_displaced hcap hn hlen hafter hslice
    · rw [hnone] at hfound
      cases hfound
    · exact hdisplaced
  · intro others c hothers hsame hc
    obtain ⟨slice', d', hslice', hget'⟩ := get_of_run hcap hn hothers hc key order
    rw [hsame, hslice, Option.some.injEq] at hslice'
    exact ⟨d', hslice' ▸ hget'⟩

theorem two_slices_looked :
    (∃ c : KHashLfuCache ℕ ℕ, run id (sliced 3 2 10) [.put 1 7 .stored, .get 2 .stored, .purge,
      .put 3 8 .stored, .put 4 9 .stored] = some c ∧
      ∀ key order, ∃ result d, c.get id key order = some (result, d) ∧
        Looked id 3 2 [.put 1 7 .stored, .get 2 .stored, .purge, .put 3 8 .stored,
          .put 4 9 .stored] key order result) ∧
    ∀ hardwareConcurrency, 3 < 2 ^ 53 → ceilSlice 3 2 < 2 ^ 31 →
      (create 3 2 10 hardwareConcurrency : KHashLfuCache ℕ ℕ) = sliced 3 2 10 :=
  lookups_exact id (by decide) (by decide) _ (by decide)

end KHashLfuCache

end CppAiService
