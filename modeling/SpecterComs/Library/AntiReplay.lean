import Mathlib.Data.Set.Insert
import Mathlib.Data.List.Basic

/-! # Sliding anti-replay filters

A filter is the set of sequence numbers it refuses. Accepting `t` through a window
of width `width` adds `t` itself and everything that falls out of the window.
-/

namespace AntiReplay

/-- The refused numbers once `t` has been accepted. -/
def accept (width : ℕ) (refused : Set ℕ) (t : ℕ) : Set ℕ :=
  {s | s ∈ refused ∨ s = t ∨ s + width ≤ t}

variable {width : ℕ} {refused : Set ℕ} {s t : ℕ}

@[simp] theorem mem_accept :
    s ∈ accept width refused t ↔ s ∈ refused ∨ s = t ∨ s + width ≤ t :=
  Iff.rfl

theorem mem_accept_self : t ∈ accept width refused t :=
  Or.inr (Or.inl rfl)

/-- Accepting never opens a number again. -/
theorem subset_accept : refused ⊆ accept width refused t :=
  fun _ hs => Or.inl hs

end AntiReplay
