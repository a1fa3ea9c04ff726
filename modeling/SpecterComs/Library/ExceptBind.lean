import Mathlib.Data.List.Basic

/-! # Successful runs of fallible code -/

namespace Except

variable {ε α β : Type} {f : α → Except ε β}

/-- A bind succeeds exactly when both of its parts do. -/
theorem bind_eq_ok {x : Except ε α} {b : β} : x >>= f = .ok b ↔ ∃ a, x = .ok a ∧ f a = .ok b := by
  cases x with
  | error e =>
      constructor
      · intro h
        cases h
      · rintro ⟨a, h, -⟩
        cases h
  | ok a =>
      constructor
      · intro h
        exact ⟨a, rfl, h⟩
      · rintro ⟨a', h, hf⟩
        cases h
        exact hf

theorem mapError_eq_ok {ε' : Type} {x : Except ε α} {f : ε → ε'} {a : α} :
    x.mapError f = .ok a ↔ x = .ok a := by
  cases x with
  | error e => simp [Except.mapError]
  | ok a' => simp [Except.mapError]

variable {l : List α}

/-- A map succeeds if the function does on every element. -/
theorem mapM_eq_ok {g : α → β} (h : ∀ a ∈ l, f a = .ok (g a)) : l.mapM f = .ok (l.map g) := by
  induction l with
  | nil => rfl
  | cons a l ih =>
      rw [List.mapM_cons, h a List.mem_cons_self, ih fun b hb => h b (List.mem_cons_of_mem a hb)]
      rfl

theorem exists_mapM_eq_ok (h : ∀ a ∈ l, ∃ b, f a = .ok b) : ∃ bs, l.mapM f = .ok bs := by
  induction l with
  | nil => exact ⟨[], rfl⟩
  | cons a l ih =>
      obtain ⟨b, hb⟩ := h a List.mem_cons_self
      obtain ⟨bs, hbs⟩ := ih fun c hc => h c (List.mem_cons_of_mem a hc)
      refine ⟨b :: bs, ?_⟩
      rw [List.mapM_cons, hb, hbs]
      rfl

/-- A map with a state succeeds if the function does on the first and then on the others. -/
theorem run_mapM_cons {σ : Type} {f : α → StateT σ (Except ε) β} {a : α} {b : β} {bs : List β}
    {s s' s'' : σ} (hfirst : (f a).run s = .ok (b, s'))
    (hrest : (l.mapM f).run s' = .ok (bs, s'')) : ((a :: l).mapM f).run s = .ok (b :: bs, s'') := by
  rw [List.mapM_cons, StateT.run_bind, hfirst]
  change (l.mapM f >>= fun bs => pure (b :: bs)).run s' = _
  rw [StateT.run_bind, hrest]
  rfl

end Except
