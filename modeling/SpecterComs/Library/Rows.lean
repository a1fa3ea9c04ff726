import Mathlib.Data.List.Nodup
import Mathlib.Data.List.Perm.Basic

/-! # Rows of a table

What one write to one row of a table does to a list that is read from all its rows.
-/

namespace SpecterComs

variable {α β : Type*} {l : List α}

/-- One more row of a list has something to show. -/
theorem perm_filterMap_cons (hl : l.Nodup) {a : α} (ha : a ∈ l) {p p' : α → Option β} {b : β}
    (hp : p a = none) (hp' : p' a = some b) (hother : ∀ x ∈ l, x ≠ a → p' x = p x) :
    (l.filterMap p').Perm (b :: l.filterMap p) := by
  obtain ⟨l₁, l₂, rfl⟩ := List.append_of_mem ha
  obtain ⟨-, hl₂, hne⟩ := List.nodup_append.mp hl
  have h₁ : l₁.filterMap p' = l₁.filterMap p := List.filterMap_congr fun x hx =>
    hother x (List.mem_append_left _ hx) (hne x hx a List.mem_cons_self)
  have h₂ : l₂.filterMap p' = l₂.filterMap p := List.filterMap_congr fun x hx =>
    hother x (List.mem_append_right _ (List.mem_cons_of_mem _ hx))
      fun hxa => (List.nodup_cons.mp hl₂).1 (hxa ▸ hx)
  rw [List.filterMap_append, List.filterMap_append, List.filterMap_cons_some hp',
    List.filterMap_cons_none hp, h₁, h₂]
  exact List.perm_middle

end SpecterComs
