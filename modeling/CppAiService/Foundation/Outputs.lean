import CppAiService.Foundation.Run

namespace CppAiService.Foundation.Run

variable {σ α β : Type} (step : σ → α → Option σ)

/-- A replay that goes through and meets the condition at every action. -/
structure Reaches (ok : σ → α → Prop) (s : σ) (as : List α) (t : σ) : Prop where
  along : Along step ok s as
  run : run step s as = some t

def outputs (out : σ → α → List β) : σ → List α → List β
  | _, [] => []
  | s, a :: as =>
    match step s a with
    | none => []
    | some t => out s a ++ outputs out t as

/-- However the replay goes on, it puts out no more than so much. -/
def Ends (ok : σ → α → Prop) (out : σ → α → List β) (s : σ) : Prop :=
  ∃ n, ∀ as, Along step ok s as → (outputs step out s as).length ≤ n

variable {step} {ok : σ → α → Prop} {out : σ → α → List β} {Inv : σ → Prop} {s t u : σ}
  {a : α} {as bs : List α}

theorem outputs_cons (h : step s a = some t) :
    outputs step out s (a :: as) = out s a ++ outputs step out t as := by
  rw [outputs, h]

theorem Reaches.nil (s : σ) : Reaches step ok s [] s := ⟨trivial, rfl⟩

theorem Reaches.cons (ha : ok s a) (hstep : step s a = some t) (h : Reaches step ok t as u) :
    Reaches step ok s (a :: as) u := by
  refine ⟨⟨ha, fun v hv ↦ ?_⟩, by rw [run_cons, hstep, Option.bind_some, h.run]⟩
  obtain rfl := Option.some.inj (hstep.symm.trans hv)
  exact h.along

theorem Reaches.uncons (h : Reaches step ok s (a :: as) u) :
    ok s a ∧ ∃ t, step s a = some t ∧ Reaches step ok t as u := by
  obtain ⟨⟨ha, halong⟩, hrun⟩ := h
  rw [run_cons, Option.bind_eq_some_iff] at hrun
  obtain ⟨t, hstep, hrun⟩ := hrun
  exact ⟨ha, t, hstep, halong t hstep, hrun⟩

theorem Reaches.append (h : Reaches step ok s as t) (h' : Reaches step ok t bs u) :
    Reaches step ok s (as ++ bs) u := by
  induction as generalizing s with
  | nil =>
    obtain rfl := Option.some.inj h.run
    exact h'
  | cons a as ih =>
    obtain ⟨ha, v, hv, h⟩ := h.uncons
    exact .cons ha hv (ih h)

theorem Reaches.outputs_append (h : Reaches step ok s as t) (bs : List α) :
    outputs step out s (as ++ bs) = outputs step out s as ++ outputs step out t bs := by
  induction as generalizing s with
  | nil =>
    obtain rfl := Option.some.inj h.run
    rfl
  | cons a as ih =>
    obtain ⟨-, v, hv, h⟩ := h.uncons
    rw [List.cons_append, outputs_cons hv, outputs_cons hv, ih h, List.append_assoc]

theorem Reaches.keeps (hstep : ∀ s a t, ok s a → Inv s → step s a = some t → Inv t)
    (h : Reaches step ok s as t) (hs : Inv s) : Inv t := by
  induction as generalizing s with
  | nil => exact Option.some.inj h.run ▸ hs
  | cons a as ih =>
    obtain ⟨ha, v, hv, h⟩ := h.uncons
    exact ih h (hstep s a v ha hs hv)

/-- What every step keeps of the state and of how much has been put out. -/
theorem Reaches.counts {Inv : ℕ → σ → Prop}
    (hstep : ∀ n s a t, ok s a → Inv n s → step s a = some t → Inv (n + (out s a).length) t)
    (h : Reaches step ok s as t) {n : ℕ} (hs : Inv n s) :
    Inv (n + (outputs step out s as).length) t := by
  induction as generalizing s n with
  | nil => exact Option.some.inj h.run ▸ hs
  | cons a as ih =>
    obtain ⟨ha, v, hv, h⟩ := h.uncons
    rw [outputs_cons hv, List.length_append, ← Nat.add_assoc]
    exact ih h (hstep n s a v ha hs hv)

/-- Every output is paid for out of a budget. -/
theorem ends_of_budget (budget : σ → ℕ)
    (hstep : ∀ s a t, ok s a → Inv s → step s a = some t →
      Inv t ∧ (out s a).length + budget t ≤ budget s)
    (hs : Inv s) : Ends step ok out s := by
  refine ⟨budget s, fun as hok ↦ ?_⟩
  induction as generalizing s with
  | nil => exact Nat.zero_le _
  | cons a as ih =>
    cases h : step s a with
    | none => simp only [outputs, h, List.length_nil, Nat.zero_le]
    | some t =>
      obtain ⟨ht, hpaid⟩ := hstep s a t hok.1 hs h
      have hrest := ih ht (hok.2 t h)
      rw [outputs_cons h, List.length_append]
      omega

theorem exists_outputs
    (hmore : ∀ s, Inv s → ∃ as t, Reaches step ok s as t ∧ Inv t ∧ outputs step out s as ≠ [])
    (hs : Inv s) (n : ℕ) : ∃ as t, Reaches step ok s as t ∧ n ≤ (outputs step out s as).length := by
  induction n generalizing s with
  | zero => exact ⟨[], s, .nil s, Nat.zero_le _⟩
  | succ n ih =>
    obtain ⟨as, t, hreaches, ht, hne⟩ := hmore s hs
    obtain ⟨bs, u, hrest, hlength⟩ := ih ht
    refine ⟨as ++ bs, u, hreaches.append hrest, ?_⟩
    have hpos := List.length_pos_iff.2 hne
    rw [hreaches.outputs_append, List.length_append]
    omega

/-- A replay that can always be taken to one more output does not end. -/
theorem not_ends
    (hmore : ∀ s, Inv s → ∃ as t, Reaches step ok s as t ∧ Inv t ∧ outputs step out s as ≠ [])
    (hs : Inv s) : ¬ Ends step ok out s := by
  rintro ⟨n, h⟩
  obtain ⟨as, t, hreaches, hlength⟩ := exists_outputs hmore hs (n + 1)
  exact absurd (h as hreaches.along) (Nat.not_le.2 hlength)

end CppAiService.Foundation.Run
