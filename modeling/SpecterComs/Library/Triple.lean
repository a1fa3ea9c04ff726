import Mathlib.Logic.Basic

/-! # Triples for stateful code that can stop early

A program reads and writes a state and either returns a value or stops. What it
wrote before it stopped stays written. A triple gives one postcondition for each
of the two endings.
-/

/-- Programs over states `σ` that stop with `ε` or return `α`. -/
abbrev Prog (σ ε α : Type) := ExceptT ε (StateM σ) α

namespace Prog

variable {σ ε α β : Type}

/-- From a state with `P`, `m` returns with `Q` or stops with `E`. -/
def Triple (P : σ → Prop) (m : Prog σ ε α) (Q : α → σ → Prop) (E : ε → σ → Prop) : Prop :=
  ∀ s, P s →
    match m.run.run s with
    | (.ok a, s') => Q a s'
    | (.error e, s') => E e s'

variable {P P' : σ → Prop} {Q : α → σ → Prop} {E : ε → σ → Prop} {m : Prog σ ε α}

theorem Triple.stops {s s' : σ} {e : ε} (h : Triple P m Q E) (hs : P s)
    (hrun : m.run.run s = (.error e, s')) : E e s' := by
  have := h s hs
  rwa [hrun] at this

theorem Triple.weaken {Q' : α → σ → Prop} {E' : ε → σ → Prop} (h : Triple P m Q E)
    (hP : ∀ s, P' s → P s) (hQ : ∀ a s, Q a s → Q' a s) (hE : ∀ e s, E e s → E' e s) :
    Triple P' m Q' E' := by
  intro s hs
  have hm := h s (hP s hs)
  revert hm
  rcases m.run.run s with ⟨result, s'⟩
  cases result with
  | ok a => exact hQ a s'
  | error e => exact hE e s'

variable {f : α → Prog σ ε β}

/-- A sequence whose first part returned goes on with the second. -/
theorem run_bind_ok {s s' : σ} {a : α} (h : m.run.run s = (.ok a, s')) :
    (m >>= f).run.run s = (f a).run.run s' := by
  simp only [ExceptT.run_bind, StateT.run_bind, h]
  rfl

variable {R : β → σ → Prop}

/-- A sequence needs a midpoint; either part may stop. -/
theorem Triple.bind (hm : Triple P m Q E) (hf : ∀ a, Triple (Q a) (f a) R E) :
    Triple P (m >>= f) R E := by
  intro s hs
  have h := hm s hs
  simp only [ExceptT.run_bind, StateT.run_bind]
  revert h
  rcases m.run.run s with ⟨result, s'⟩
  cases result with
  | ok a => exact fun h => hf a s' h
  | error e => exact fun h => h

variable {F : ε → σ → Prop}

/-- What stops the first part is handed to the handler. -/
theorem Triple.tryCatch {h : ε → Prog σ ε α} (hm : Triple P m Q F)
    (hh : ∀ e, Triple (F e) (h e) Q E) : Triple P (MonadExcept.tryCatch m h) Q E := by
  intro s hs
  have hrun := hm s hs
  simp only [ExceptT.run_tryCatch, StateT.run_bind]
  revert hrun
  rcases m.run.run s with ⟨result, s'⟩
  cases result with
  | ok a => exact fun hrun => hrun
  | error e => exact fun hrun => hh e s' hrun

/-- What a run ends with is what it ends with. -/
theorem Triple.ran (m : Prog σ ε α) (s₀ : σ) :
    Triple (fun s => s = s₀) m (fun a s => m.run.run s₀ = (.ok a, s))
      (fun e s => m.run.run s₀ = (.error e, s)) := by
  rintro s rfl
  rcases m.run.run s with ⟨result, s'⟩
  cases result with
  | ok a => exact rfl
  | error e => exact rfl

/-- Two triples of one program hold together. -/
theorem Triple.and {R : α → σ → Prop} (h₁ : Triple P m Q E) (h₂ : Triple P' m R F) :
    Triple (fun s => P s ∧ P' s) m (fun a s => Q a s ∧ R a s) (fun e s => E e s ∧ F e s) := by
  rintro s ⟨hs, hs'⟩
  have hrun₁ := h₁ s hs
  have hrun₂ := h₂ s hs'
  revert hrun₁ hrun₂
  rcases m.run.run s with ⟨result, s'⟩
  cases result with
  | ok a => exact fun hrun₁ hrun₂ => ⟨hrun₁, hrun₂⟩
  | error e => exact fun hrun₁ hrun₂ => ⟨hrun₁, hrun₂⟩

/-- A fact that does not mention the state is kept. -/
theorem Triple.frame {C : Prop} (h : C → Triple P m Q E) :
    Triple (fun s => P s ∧ C) m (fun a s => Q a s ∧ C) (fun e s => E e s ∧ C) := by
  rintro s ⟨hs, hC⟩
  have hrun := h hC s hs
  revert hrun
  rcases m.run.run s with ⟨result, s'⟩
  cases result with
  | ok a => exact fun hrun => ⟨hrun, hC⟩
  | error e => exact fun hrun => ⟨hrun, hC⟩

/-- A program that reads the state knows what it read. -/
theorem Triple.get_bind {f : σ → Prog σ ε β}
    (h : ∀ s₀, P s₀ → Triple (fun s => s = s₀) (f s₀) R E) : Triple P (MonadState.get >>= f) R E :=
  fun s hs => h s hs s rfl

end Prog
