import CppAiService.Foundation.Outputs

namespace CppAiService.Foundation.Related

open Foundation.Run

variable {α α' β σ σ' τ τ' : Type} {R : σ → σ' → Prop} {S : τ → τ' → Prop}

theorem bind {x : Option σ} {y : Option σ'} (h : Option.Rel R x y) {f : σ → Option τ}
    {g : σ' → Option τ'} (hf : ∀ s t, x = some s → R s t → Option.Rel S (f s) (g t)) :
    Option.Rel S (x >>= f) (y >>= g) := by
  cases h with
  | some h => exact hf _ _ rfl h
  | none => exact .none

theorem map {x : Option σ} {y : Option σ'} (h : Option.Rel R x y) {f : σ → τ} {g : σ' → τ'}
    (hf : ∀ s t, R s t → S (f s) (g t)) : Option.Rel S (x.map f) (y.map g) := by
  cases h with
  | some h => exact .some (hf _ _ h)
  | none => exact .none

theorem mono {R' : σ → σ' → Prop} {x : Option σ} {y : Option σ'} (h : Option.Rel R x y)
    (hR : ∀ s t, R s t → R' s t) : Option.Rel R' x y := by
  cases h with
  | some h => exact .some (hR _ _ h)
  | none => exact .none

theorem map_eq {x : Option σ} {y : Option σ'} (h : Option.Rel R x y) {f : σ → τ} {g : σ' → τ}
    (hf : ∀ s t, R s t → f s = g t) : x.map f = y.map g := by
  cases h with
  | some h => exact congrArg some (hf _ _ h)
  | none => rfl

theorem isSome_eq {x : Option σ} {y : Option σ'} (h : Option.Rel R x y) :
    x.isSome = y.isSome := by
  cases h with
  | some => rfl
  | none => rfl

section Replays

variable {step : σ → α → Option σ} {step' : σ' → α' → Option σ'} {ok : σ → α → Prop} {f : α → α'}
  (hstep : ∀ s t a, ok s a → R s t → Option.Rel R (step s a) (step' t (f a)))
include hstep

theorem runs {s : σ} {t : σ'} {as : List α} (h : R s t) (hok : Along step ok s as) :
    Option.Rel R (run step s as) (run step' t (as.map f)) := by
  induction as generalizing s t with
  | nil => exact .some h
  | cons a as ih =>
    rw [List.map_cons, run_cons, run_cons]
    exact bind (hstep s t a hok.1 h) fun u v hu h' ↦ ih h' (hok.2 u hu)

/-- Two systems that stay related step by step put out the same along their replays. -/
theorem outputs_eq {out : σ → α → List β} {out' : σ' → α' → List β}
    (hout : ∀ s t a, ok s a → R s t → out s a = out' t (f a))
    {s : σ} {t : σ'} {as : List α} (h : R s t) (hok : Along step ok s as) :
    outputs step out s as = outputs step' out' t (as.map f) := by
  induction as generalizing s t with
  | nil => rfl
  | cons a as ih =>
    have hrel := hstep s t a hok.1 h
    rw [List.map_cons, outputs, outputs, hout s t a hok.1 h]
    generalize hs : step s a = x at hrel ⊢
    generalize step' t (f a) = y at hrel ⊢
    cases hrel with
    | some h' => exact congrArg _ (ih h' (hok.2 _ hs))
    | none => rfl

end Replays

end CppAiService.Foundation.Related
