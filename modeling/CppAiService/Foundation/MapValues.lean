import Mathlib.Data.List.AList

namespace CppAiService.Foundation.MapValues

variable {α : Type} {β γ : Type} (f : β → γ) (m : AList fun _ : α ↦ β)

def mapValues : AList fun _ : α ↦ γ :=
  ⟨m.entries.map (.map id fun _ ↦ f), m.nodupKeys.map₂ fun _ ↦ f⟩

@[simp] theorem entries_mapValues :
    (mapValues f m).entries = m.entries.map (.map id fun _ ↦ f) := rfl

@[simp] theorem mapValues_empty : mapValues f (∅ : AList fun _ : α ↦ β) = ∅ := rfl

theorem keys_mapValues : (mapValues f m).keys = m.keys := List.map₂_keys ..

theorem values_mapValues :
    (mapValues f m).entries.map Sigma.snd = (m.entries.map Sigma.snd).map f := by
  simp only [entries_mapValues, List.map_map]
  rfl

variable [DecidableEq α]

theorem lookup_mapValues (a : α) : (mapValues f m).lookup a = (m.lookup a).map f :=
  List.dlookup_map₂ a

theorem kerase_map (a : α) (entries : List (Σ _ : α, β)) :
    (entries.map (.map id fun _ ↦ f) : List (Σ _ : α, γ)).kerase a =
      (entries.kerase a).map (.map id fun _ ↦ f) := by
  induction entries with
  | nil => rfl
  | cons entry entries ih =>
    rw [List.map_cons]
    by_cases h : a = entry.1
    · have h' : a = (entry.map id fun _ ↦ f : Σ _ : α, γ).1 := h
      rw [List.kerase_cons_eq h, List.kerase_cons_eq h']
    · have h' : a ≠ (entry.map id fun _ ↦ f : Σ _ : α, γ).1 := h
      rw [List.kerase_cons_ne h, List.kerase_cons_ne h', List.map_cons, ih]

theorem erase_mapValues (a : α) : (mapValues f m).erase a = mapValues f (m.erase a) :=
  AList.ext (kerase_map f a m.entries)

theorem insert_mapValues (a : α) (b : β) :
    (mapValues f m).insert a (f b) = mapValues f (m.insert a b) := by
  apply AList.ext
  rw [entries_mapValues, AList.entries_insert, AList.entries_insert, List.map_cons,
    entries_mapValues, kerase_map]
  rfl

end CppAiService.Foundation.MapValues
