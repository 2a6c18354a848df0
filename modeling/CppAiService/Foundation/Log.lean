import CppAiService.Foundation.Run
import Mathlib.Data.List.TakeWhile

namespace CppAiService.Foundation.Log

open Run

variable {ε : Type} {p : List ε → ε → Prop} {log : List ε} {e : ε}

/-- Each entry of the log is right in view of the entries before it. -/
def Every (p : List ε → ε → Prop) (log : List ε) : Prop :=
  ∀ earlier entry later, log = earlier ++ entry :: later → p earlier entry

theorem every_nil : Every p [] := by
  intro earlier entry later h
  simp at h

theorem every_append (h : Every p log) (he : p log e) : Every p (log ++ [e]) := by
  intro earlier entry later heq
  rcases List.eq_nil_or_concat later with rfl | ⟨later, last, rfl⟩
  · obtain ⟨rfl, hlast⟩ := List.append_inj' heq rfl
    cases hlast
    exact he
  · apply h earlier entry later
    rw [List.concat_eq_append, ← List.cons_append, ← List.append_assoc] at heq
    exact (List.append_inj' heq rfl).1

theorem every_append_of_forall {entries : List ε} (h : Every p log)
    (he : ∀ e ∈ entries, ∀ earlier, p earlier e) : Every p (log ++ entries) := by
  induction entries generalizing log with
  | nil => rwa [List.append_nil]
  | cons entry entries ih =>
    obtain ⟨hentry, he⟩ := List.forall_mem_cons.1 he
    rw [List.append_cons]
    exact ih (every_append h (hentry log)) he

theorem every_of_forall (h : ∀ e ∈ log, ∀ earlier, p earlier e) : Every p log := by
  intro earlier entry later heq
  exact h entry (heq ▸ List.mem_append_right _ List.mem_cons_self) earlier

/-- The last entry that meets a condition, as seen from the end of the log. -/
def Last (found old : ε → Prop) (log : List ε) : Prop :=
  ∃ before entry between, log = before ++ entry :: between ∧ found entry ∧ ∀ e ∈ between, old e

theorem last_append {found old : ε → Prop} (h : Last found old log) (he : old e) :
    Last found old (log ++ [e]) := by
  obtain ⟨before, entry, between, rfl, hfound, hold⟩ := h
  refine ⟨before, entry, between ++ [e], by simp, hfound, fun x hx ↦ ?_⟩
  rcases List.mem_append.1 hx with hx | hx
  · exact hold x hx
  · exact List.mem_singleton.1 hx ▸ he

theorem last_self {found old : ε → Prop} (he : found e) : Last found old (log ++ [e]) :=
  ⟨log, e, [], rfl, he, fun _ h ↦ absurd h List.not_mem_nil⟩

theorem Last.of_append {found old : ε → Prop} (h : Last found old (log ++ [e])) :
    found e ∨ (Last found old log ∧ old e) := by
  obtain ⟨before, entry, between, heq, hfound, hold⟩ := h
  rcases List.eq_nil_or_concat between with rfl | ⟨between, last, rfl⟩
  · obtain ⟨-, hlast⟩ := List.append_inj' heq rfl
    cases hlast
    exact .inl hfound
  · rw [List.concat_eq_append, ← List.cons_append, ← List.append_assoc] at heq
    obtain ⟨rfl, hlast⟩ := List.append_inj' heq rfl
    cases hlast
    rw [List.concat_eq_append] at hold
    refine .inr ⟨⟨before, entry, between, rfl, hfound, fun x hx ↦ ?_⟩, ?_⟩
    · exact hold x (List.mem_append_left _ hx)
    · exact hold _ (List.mem_append_right _ (List.mem_singleton_self _))

theorem filterMap_append_of_none {β : Type} {f : ε → Option β} (h : f e = none) :
    (log ++ [e]).filterMap f = log.filterMap f := by
  rw [List.filterMap_append, List.filterMap_cons_none h, List.filterMap_nil, List.append_nil]

theorem filterMap_append_of_some {β : Type} {f : ε → Option β} {b : β} (h : f e = some b) :
    (log ++ [e]).filterMap f = log.filterMap f ++ [b] := by
  rw [List.filterMap_append, List.filterMap_cons_some h, List.filterMap_nil]

section Since

variable {mark : ε → Bool} {entries : List ε}

def since (mark : ε → Bool) (log : List ε) : List ε := log.dropWhile fun e ↦ !mark e

theorem since_eq_nil_iff : since mark log = [] ↔ ∀ e ∈ log, mark e = false := by
  simp only [since, List.dropWhile_eq_nil_iff, Bool.not_eq_true']

theorem since_append (h : since mark log ≠ []) :
    since mark (log ++ entries) = since mark log ++ entries := by
  have hne : ¬ (log.dropWhile fun e ↦ !mark e).isEmpty = true := by
    rw [List.isEmpty_iff]
    exact h
  exact List.dropWhile_append.trans (if_neg hne)

theorem since_append_of_eq_nil (h : since mark log = []) :
    since mark (log ++ entries) = since mark entries := by
  have hnil : (log.dropWhile fun e ↦ !mark e).isEmpty = true := by
    rw [List.isEmpty_iff]
    exact h
  exact List.dropWhile_append.trans (if_pos hnil)

end Since

section Logged

variable {σ α ρ : Type} {step : σ → α → Option (ρ × σ)}

/-- A system whose actions and their results are written down. -/
def logged (step : σ → α → Option (ρ × σ)) (s : σ × List (α × ρ)) (a : α) :
    Option (σ × List (α × ρ)) :=
  (step s.1 a).map fun (r, t) ↦ (t, s.2 ++ [(a, r)])

theorem logged_actions {s t : σ × List (α × ρ)} {as : List α}
    (h : run (logged step) s as = some t) : t.2.map Prod.fst = s.2.map Prod.fst ++ as := by
  induction as generalizing s with
  | nil =>
    obtain rfl := Option.some.inj h
    exact (List.append_nil _).symm
  | cons a as ih =>
    rw [run_cons, Option.bind_eq_some_iff] at h
    obtain ⟨u, hu, h⟩ := h
    obtain ⟨⟨r, v⟩, -, rfl⟩ := Option.map_eq_some_iff.1 hu
    simpa only [List.map_append, List.map_singleton, List.append_assoc, List.singleton_append]
      using ih h

theorem logged_possible (hstep : ∀ s a, ∃ r t, step s a = some (r, t)) (s : σ × List (α × ρ))
    (as : List α) : ∃ t log, run (logged step) s as = some (t, log) := by
  induction as generalizing s with
  | nil => exact ⟨s.1, s.2, rfl⟩
  | cons a as ih =>
    obtain ⟨r, t, ht⟩ := hstep s.1 a
    obtain ⟨u, log, hu⟩ := ih (t, s.2 ++ [(a, r)])
    exact ⟨u, log, by rw [run_cons, logged, ht, Option.map_some, Option.bind_some, hu]⟩

theorem logged_prefix {s t : σ × List (α × ρ)} {as : List α}
    (h : run (logged step) s as = some t) : ∃ more, t.2 = s.2 ++ more := by
  induction as generalizing s with
  | nil =>
    obtain rfl := Option.some.inj h
    exact ⟨[], (List.append_nil _).symm⟩
  | cons a as ih =>
    rw [run_cons, Option.bind_eq_some_iff] at h
    obtain ⟨u, hu, h⟩ := h
    obtain ⟨⟨r, v⟩, -, rfl⟩ := Option.map_eq_some_iff.1 hu
    obtain ⟨more, hmore⟩ := ih h
    exact ⟨(a, r) :: more, by rw [hmore, List.append_assoc, List.singleton_append]⟩

theorem logged_concat {s t u : σ} {as : List α} {a : α} {r : ρ} {log log' : List (α × ρ)}
    (hrun : run (logged step) (s, log) as = some (t, log')) (ha : step t a = some (r, u)) :
    run (logged step) (s, log) (as ++ [a]) = some (u, log' ++ [(a, r)]) := by
  rw [run_append, hrun, Option.bind_some, run_cons, logged, ha]
  rfl

/-- What each step keeps of state and log holds where a run ends. -/
theorem logged_inv {Inv : σ → List (α × ρ) → Prop}
    (hstep : ∀ s log a r t, Inv s log → step s a = some (r, t) → Inv t (log ++ [(a, r)]))
    {s t : σ × List (α × ρ)} {as : List α} (hs : Inv s.1 s.2)
    (h : run (logged step) s as = some t) : Inv t.1 t.2 := by
  have hlog : ∀ u a v, Inv u.1 u.2 → logged step u a = some v → Inv v.1 v.2 := by
    intro u a v hu hv
    obtain ⟨⟨r, w⟩, hw, rfl⟩ := Option.map_eq_some_iff.1 hv
    exact hstep _ _ a r w hu hw
  exact run_inv hlog hs h

theorem logged_run {Inv : σ → List (α × ρ) → Prop} {p : List (α × ρ) → α × ρ → Prop}
    (hstep : ∀ s log a, Inv s log →
      ∃ r t, step s a = some (r, t) ∧ p log (a, r) ∧ Inv t (log ++ [(a, r)]))
    {s : σ} (hs : Inv s []) (as : List α) :
    ∃ t log, run (logged step) (s, []) as = some (t, log) ∧ log.map Prod.fst = as ∧
      Every p log := by
  have hlog : ∀ (u : σ × List (α × ρ)) (a : α), True → Inv u.1 u.2 ∧ Every p u.2 →
      ∃ v, logged step u a = some v ∧ Inv v.1 v.2 ∧ Every p v.2 := by
    intro u a _ h
    obtain ⟨r, t, ht, hp, hInv⟩ := hstep u.1 u.2 a h.1
    exact ⟨_, by rw [logged, ht, Option.map_some], hInv, every_append h.2 hp⟩
  obtain ⟨⟨t, log⟩, hrun, -, hevery⟩ :=
    possible hlog (s := (s, [])) ⟨hs, every_nil⟩ (along_of_forall (fun _ _ ↦ trivial) _ as)
  exact ⟨t, log, hrun, logged_actions hrun, hevery⟩

end Logged

end CppAiService.Foundation.Log
