import Mathlib.Data.Option.Basic
import Mathlib.Order.Basic

namespace CppAiService.Foundation.Run

variable {σ α : Type} (step : σ → α → Option σ)

/-- Replays a list of actions; `none` once an action is not possible or undefined. -/
def run : σ → List α → Option σ
  | s, [] => some s
  | s, a :: as => (step s a).bind fun t ↦ run t as

/-- Every action of the replay is taken in a state that meets the condition. -/
def Along (ok : σ → α → Prop) : σ → List α → Prop
  | _, [] => True
  | s, a :: as => ok s a ∧ ∀ t, step s a = some t → Along ok t as

variable {step}

@[simp] theorem run_nil (s : σ) : run step s [] = some s := rfl

@[simp] theorem run_cons (s : σ) (a : α) (as : List α) :
    run step s (a :: as) = (step s a).bind fun t ↦ run step t as := rfl

theorem run_append (s : σ) (as bs : List α) :
    run step s (as ++ bs) = (run step s as).bind fun t ↦ run step t bs := by
  induction as generalizing s with
  | nil => rfl
  | cons a as ih =>
    rw [List.cons_append, run_cons, run_cons, Option.bind_assoc]
    congr 1
    funext t
    exact ih t

theorem run_concat {s u : σ} {as : List α} {a : α} (h : run step s (as ++ [a]) = some u) :
    ∃ t, run step s as = some t ∧ step t a = some u := by
  rw [run_append, Option.bind_eq_some_iff] at h
  obtain ⟨t, ht, h⟩ := h
  rw [run_cons, Option.bind_eq_some_iff] at h
  obtain ⟨v, hv, h⟩ := h
  exact ⟨t, ht, hv.trans h⟩

theorem possible {ok : σ → α → Prop} {Inv : σ → Prop}
    (hstep : ∀ s a, ok s a → Inv s → ∃ t, step s a = some t ∧ Inv t)
    {s : σ} {as : List α} (hs : Inv s) (hok : Along step ok s as) :
    ∃ t, run step s as = some t ∧ Inv t := by
  induction as generalizing s with
  | nil => exact ⟨s, rfl, hs⟩
  | cons a as ih =>
    obtain ⟨t, ht, hInv⟩ := hstep s a hok.1 hs
    obtain ⟨u, hu, hInv⟩ := ih hInv (hok.2 t ht)
    exact ⟨u, by rw [run_cons, ht, Option.bind_some, hu], hInv⟩

/-- What every step keeps holds where a replay ends. -/
theorem run_inv {Inv : σ → Prop} (hstep : ∀ s a t, Inv s → step s a = some t → Inv t)
    {s t : σ} {as : List α} (hs : Inv s) (h : run step s as = some t) : Inv t := by
  induction as generalizing s with
  | nil => exact Option.some.inj h ▸ hs
  | cons a as ih =>
    rw [run_cons, Option.bind_eq_some_iff] at h
    obtain ⟨u, hu, h⟩ := h
    exact ih (hstep s a u hs hu) h

/-- What every step that meets the condition keeps holds where a replay along it ends. -/
theorem run_inv_along {ok : σ → α → Prop} {Inv : σ → Prop}
    (hstep : ∀ s a t, ok s a → Inv s → step s a = some t → Inv t)
    {s t : σ} {as : List α} (hs : Inv s) (hok : Along step ok s as) (h : run step s as = some t) :
    Inv t := by
  induction as generalizing s with
  | nil => exact Option.some.inj h ▸ hs
  | cons a as ih =>
    rw [run_cons, Option.bind_eq_some_iff] at h
    obtain ⟨u, hu, h⟩ := h
    exact ih (hstep s a u hok.1 hs hu) (hok.2 u hu) h

theorem along_of_run {s t : σ} {as : List α} (h : run step s as = some t) :
    Along step (fun s a ↦ ∃ t, step s a = some t) s as := by
  induction as generalizing s with
  | nil => trivial
  | cons a as ih =>
    rw [run_cons, Option.bind_eq_some_iff] at h
    obtain ⟨u, hu, h⟩ := h
    exact ⟨⟨u, hu⟩, fun v hv ↦ ih (Option.some.inj (hu.symm.trans hv) ▸ h)⟩

theorem along_of_forall {ok : σ → α → Prop} (h : ∀ s a, ok s a) (s : σ) (as : List α) :
    Along step ok s as := by
  induction as generalizing s with
  | nil => trivial
  | cons a as ih => exact ⟨h s a, fun t _ ↦ ih t⟩

theorem Along.and_mem {ok : σ → α → Prop} {p : α → Prop} {s : σ} {as : List α}
    (h : Along step ok s as) (hp : ∀ a ∈ as, p a) : Along step (fun s a ↦ p a ∧ ok s a) s as := by
  induction as generalizing s with
  | nil => trivial
  | cons a as ih =>
    obtain ⟨ha, hp⟩ := List.forall_mem_cons.1 hp
    exact ⟨⟨ha, h.1⟩, fun t ht ↦ ih (h.2 t ht) hp⟩

theorem Along.of_append {ok : σ → α → Prop} {s : σ} {as bs : List α}
    (h : Along step ok s (as ++ bs)) : Along step ok s as := by
  induction as generalizing s with
  | nil => trivial
  | cons a as ih => exact ⟨h.1, fun t ht ↦ ih (h.2 t ht)⟩

theorem Along.after {ok : σ → α → Prop} {s t : σ} {as bs : List α}
    (h : Along step ok s (as ++ bs)) (hrun : run step s as = some t) : Along step ok t bs := by
  induction as generalizing s with
  | nil => exact Option.some.inj hrun ▸ h
  | cons a as ih =>
    rw [run_cons, Option.bind_eq_some_iff] at hrun
    obtain ⟨u, hu, hrun⟩ := hrun
    exact ih (h.2 u hu) hrun

theorem along_concat {ok : σ → α → Prop} {s : σ} {as : List α} {a : α} :
    Along step ok s (as ++ [a]) ↔
      Along step ok s as ∧ ∀ t, run step s as = some t → ok t a := by
  induction as generalizing s with
  | nil => simp [Along]
  | cons b as ih =>
    simp only [List.cons_append, Along, run_cons, Option.bind_eq_some_iff]
    constructor
    · rintro ⟨hb, h⟩
      refine ⟨⟨hb, fun t ht ↦ (ih.1 (h t ht)).1⟩, ?_⟩
      rintro u ⟨t, ht, hu⟩
      exact (ih.1 (h t ht)).2 u hu
    · rintro ⟨⟨hb, h⟩, hlast⟩
      exact ⟨hb, fun t ht ↦ ih.2 ⟨h t ht, fun u hu ↦ hlast u ⟨t, ht, hu⟩⟩⟩

/-- A property of all states of a replay is the condition along it, when each step keeps the
property exactly if the condition is met. -/
theorem prefixes_iff {dom ok : σ → α → Prop} {Inv P : σ → Prop} (hInv : ∀ s, Inv s → P s)
    (hstep : ∀ s a, dom s a → Inv s →
      ∃ t, step s a = some t ∧ (ok s a → Inv t) ∧ (P t → ok s a))
    {s : σ} {as : List α} (hs : Inv s) (hdom : Along step dom s as) :
    (∀ bs cs, as = bs ++ cs → ∃ t, run step s bs = some t ∧ P t) ↔ Along step ok s as := by
  induction as generalizing s with
  | nil =>
    refine ⟨fun _ ↦ trivial, fun _ bs cs h ↦ ?_⟩
    obtain ⟨rfl, rfl⟩ := List.append_eq_nil_iff.1 h.symm
    exact ⟨s, rfl, hInv s hs⟩
  | cons a as ih =>
    obtain ⟨t, ht, hok, hP⟩ := hstep s a hdom.1 hs
    constructor
    · intro h
      have ha : ok s a := by
        obtain ⟨u, hu, hPu⟩ := h [a] as rfl
        rw [run_cons, ht, Option.bind_some, run_nil, Option.some.injEq] at hu
        exact hP (hu ▸ hPu)
      refine ⟨ha, fun u hu ↦ ?_⟩
      obtain rfl := Option.some.inj (ht.symm.trans hu)
      refine (ih (hok ha) (hdom.2 t ht)).1 fun bs cs he ↦ ?_
      obtain ⟨v, hv, hPv⟩ := h (a :: bs) cs (by rw [he, List.cons_append])
      rw [run_cons, ht, Option.bind_some] at hv
      exact ⟨v, hv, hPv⟩
    · intro hok bs cs he
      obtain ⟨ha, h⟩ := hok
      cases bs with
      | nil => exact ⟨s, rfl, hInv s hs⟩
      | cons b bs =>
        obtain ⟨rfl, rfl⟩ := List.cons_eq_cons.1 he
        obtain ⟨v, hv, hPv⟩ := (ih (hok ha) (hdom.2 t ht)).2 (h t ht) bs cs rfl
        exact ⟨v, by rw [run_cons, ht, Option.bind_some, hv], hPv⟩

def decidableAlong {ok : σ → α → Prop} [∀ s a, Decidable (ok s a)] :
    ∀ s as, Decidable (Along step ok s as)
  | _, [] => isTrue trivial
  | s, a :: as =>
    match h : step s a with
    | none => decidable_of_iff (ok s a) (by simp [Along, h])
    | some t =>
      have : Decidable (Along step ok t as) := decidableAlong t as
      decidable_of_iff (ok s a ∧ Along step ok t as) (by simp [Along, h])

instance {ok : σ → α → Prop} [∀ s a, Decidable (ok s a)] (s : σ) (as : List α) :
    Decidable (Along step ok s as) := decidableAlong s as

/-- A bounded run goes through when each step is possible under an invariant that
counts the steps taken. -/
theorem counted {Inv : ℕ → σ → Prop} {N : ℕ}
    (hstep : ∀ n s a, n < N → Inv n s → ∃ t, step s a = some t ∧ Inv (n + 1) t)
    {n : ℕ} {s : σ} {as : List α} (hs : Inv n s) (hN : n + as.length ≤ N) :
    ∃ t, run step s as = some t ∧ Inv (n + as.length) t := by
  induction as generalizing n s with
  | nil => exact ⟨s, rfl, hs⟩
  | cons a as ih =>
    rw [List.length_cons] at hN ⊢
    obtain ⟨t, ht, hInv⟩ := hstep n s a (by omega) hs
    obtain ⟨u, hu, hInv⟩ := ih hInv (by omega)
    refine ⟨u, by rw [run_cons, ht, Option.bind_some, hu], ?_⟩
    rwa [Nat.add_right_comm] at hInv

/-- As `run_inv`, for an invariant that counts the steps taken. -/
theorem run_inv_counted {Inv : ℕ → σ → Prop} {N : ℕ}
    (hstep : ∀ n s a t, n < N → Inv n s → step s a = some t → Inv (n + 1) t)
    {n : ℕ} {s t : σ} {as : List α} (hs : Inv n s) (hN : n + as.length ≤ N)
    (h : run step s as = some t) : Inv (n + as.length) t := by
  induction as generalizing n s with
  | nil => exact Option.some.inj h ▸ hs
  | cons a as ih =>
    rw [run_cons, Option.bind_eq_some_iff] at h
    obtain ⟨u, hu, h⟩ := h
    rw [List.length_cons] at hN ⊢
    have hInv := ih (hstep n s a u (by omega) hs hu) (by omega) h
    rwa [Nat.add_right_comm] at hInv

/-- A replay pays for each of its steps out of what there is at the start and what the free steps
bring. -/
theorem length_le_of_budget {Inv : σ → Prop} {budget : σ → ℕ} {free : α → Bool} {k : ℕ}
    (hstep : ∀ s a t, Inv s → step s a = some t →
      Inv t ∧ budget t + 1 ≤ budget s + if free a then k else 0)
    {s t : σ} {as : List α} (hs : Inv s) (h : run step s as = some t) :
    as.length + budget t ≤ budget s + k * as.countP free := by
  induction as generalizing s with
  | nil =>
    rw [← Option.some.inj h, List.length_nil, List.countP_nil, Nat.zero_add]
    exact Nat.le_refl _
  | cons a as ih =>
    rw [run_cons, Option.bind_eq_some_iff] at h
    obtain ⟨u, hu, h⟩ := h
    obtain ⟨hInv, hpaid⟩ := hstep s a u hs hu
    have hrest := ih hInv h
    rw [List.length_cons, List.countP_cons, Nat.mul_add]
    cases hfree : free a <;> simp only [hfree, if_true, Bool.false_eq_true, if_false] at hpaid ⊢ <;>
      omega

end CppAiService.Foundation.Run
