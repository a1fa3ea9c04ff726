import Mathlib.Data.List.Basic
import Mathlib.Order.WellFounded

/-! # Step systems and their finite runs

A step system consumes one input at a time. An input that is not enabled in a
state has no successor. Runs are finite input words; an invariant is proved once
for a step and carried over words of any length.
-/

/-- A deterministic system over states `σ` and inputs `ι`. -/
structure StepSystem (σ ι : Type*) where
  /-- The successor of a state, or `none` when the input is not enabled. -/
  step : σ → ι → Option σ

namespace StepSystem

variable {σ ι : Type*} (M : StepSystem σ ι)

/-- `M.Run s is t`: consuming `is` from `s` ends in `t`. -/
inductive Run : σ → List ι → σ → Prop
  | nil (s : σ) : Run s [] s
  | cons {s t u : σ} {i : ι} {is : List ι} :
      M.step s i = some t → Run t is u → Run s (i :: is) u

/-- The same relation as a computation. -/
def exec (s : σ) (is : List ι) : Option σ :=
  is.foldlM M.step s

variable {M} {s t t' u : σ} {is : List ι}

theorem exec_eq_some_iff : M.exec s is = some t ↔ M.Run s is t := by
  induction is generalizing s with
  | nil =>
      constructor
      · intro h
        obtain rfl : s = t := by simpa [exec] using h
        exact .nil s
      · rintro ⟨⟩
        rfl
  | cons i is ih =>
      simp only [exec, List.foldlM_cons, Option.bind_eq_bind, Option.bind_eq_some_iff]
      constructor
      · rintro ⟨u, hu, hrest⟩
        exact .cons hu (ih.mp hrest)
      · intro h
        cases h with
        | cons hu hrest => exact ⟨_, hu, ih.mpr hrest⟩

namespace Run

theorem append {u : σ} {js : List ι} (h₁ : M.Run s is t) (h₂ : M.Run t js u) :
    M.Run s (is ++ js) u := by
  induction h₁ with
  | nil => exact h₂
  | cons hstep _ ih => exact .cons hstep (ih h₂)

theorem split {u : σ} {js : List ι} (h : M.Run s (is ++ js) u) :
    ∃ t, M.Run s is t ∧ M.Run t js u := by
  induction is generalizing s with
  | nil => exact ⟨s, .nil s, h⟩
  | cons i is ih =>
      cases h with
      | cons hstep hrest =>
          obtain ⟨t, h₁, h₂⟩ := ih hrest
          exact ⟨t, .cons hstep h₁, h₂⟩

/-- A property kept by every enabled step is kept by every run. -/
theorem invariant {P : σ → Prop} (hstep : ∀ s i t, P s → M.step s i = some t → P t)
    (h : M.Run s is t) (hs : P s) : P t := by
  induction h with
  | nil => exact hs
  | cons hi _ ih => exact ih (hstep _ _ _ hs hi)

end Run

/-- On the run of `is` from `s`, the input `i` leads from `t` to `t'`. -/
def Passes (M : StepSystem σ ι) (s : σ) (is : List ι) (t : σ) (i : ι) (t' : σ) : Prop :=
  ∃ is₁ is₂, is = is₁ ++ i :: is₂ ∧ M.Run s is₁ t ∧ M.step t i = some t'

theorem Passes.step {s t t' : σ} {is : List ι} {i : ι} (h : M.Passes s is t i t') :
    M.step t i = some t' := by
  obtain ⟨_, _, _, _, hstep⟩ := h
  exact hstep

theorem passes_cons {i j : ι} :
    M.Passes s (i :: is) t j t' ↔
      (s = t ∧ i = j ∧ M.step s i = some t') ∨ ∃ u, M.step s i = some u ∧ M.Passes u is t j t' := by
  constructor
  · rintro ⟨_ | ⟨i', is₁⟩, is₂, his, hrun, hstep⟩
    · obtain ⟨rfl, rfl⟩ := List.cons.inj his
      cases hrun
      exact .inl ⟨rfl, rfl, hstep⟩
    · obtain ⟨rfl, rfl⟩ := List.cons.inj his
      cases hrun with
      | cons hi hrest => exact .inr ⟨_, hi, is₁, is₂, rfl, hrest, hstep⟩
  · rintro (⟨rfl, rfl, hstep⟩ | ⟨u, hi, is₁, is₂, rfl, hrun, hstep⟩)
    · exact ⟨[], is, rfl, .nil s, hstep⟩
    · exact ⟨i :: is₁, is₂, rfl, .cons hi hrun, hstep⟩

variable {C : σ → ι → Prop}

/-- Where a step does `P` exactly if it meets `C`, and keeps the invariant if it does, all steps of a
run do `P` exactly if they all meet `C`. -/
theorem passes_iff {Inv : σ → Prop} {P : σ → ι → σ → Prop}
    (hstep : ∀ s i t, Inv s → M.step s i = some t → (P s i t ↔ C s i) ∧ (C s i → Inv t))
    (hs : Inv s) (is : List ι) :
    (∀ t i t', M.Passes s is t i t' → P t i t') ↔ ∀ t i t', M.Passes s is t i t' → C t i := by
  induction is generalizing s with
  | nil =>
      have hnone : ∀ t i t', ¬ M.Passes s [] t i t' := by
        rintro t i t' ⟨is₁, is₂, his, -⟩
        simp at his
      exact iff_of_true (fun t i t' h => absurd h (hnone t i t'))
        fun t i t' h => absurd h (hnone t i t')
  | cons i is ih =>
      cases hi : M.step s i with
      | none =>
          have hnone : ∀ t j t', ¬ M.Passes s (i :: is) t j t' := by
            intro t j t' h
            rcases passes_cons.mp h with ⟨-, -, hsome⟩ | ⟨u, hsome, -⟩
            · rw [hi] at hsome
              cases hsome
            · rw [hi] at hsome
              cases hsome
          exact iff_of_true (fun t j t' h => absurd h (hnone t j t'))
            fun t j t' h => absurd h (hnone t j t')
      | some u =>
          obtain ⟨hfirst, hinv⟩ := hstep s i u hs hi
          constructor
          · intro hP t j t' h
            have hC : C s i := hfirst.mp (hP s i u (passes_cons.mpr (.inl ⟨rfl, rfl, hi⟩)))
            rcases passes_cons.mp h with ⟨rfl, rfl, -⟩ | ⟨u', hu', hrest⟩
            · exact hC
            · obtain rfl := Option.some.inj (hi.symm.trans hu')
              exact (ih (hinv hC)).mp
                (fun t j t' h => hP t j t' (passes_cons.mpr (.inr ⟨u, hi, h⟩))) t j t' hrest
          · intro hC t j t' h
            have hfirstC := hC s i u (passes_cons.mpr (.inl ⟨rfl, rfl, hi⟩))
            rcases passes_cons.mp h with ⟨rfl, rfl, ht'⟩ | ⟨u', hu', hrest⟩
            · obtain rfl := Option.some.inj (hi.symm.trans ht')
              exact hfirst.mpr hfirstC
            · obtain rfl := Option.some.inj (hi.symm.trans hu')
              exact (ih (hinv hfirstC)).mpr
                (fun t j t' h => hC t j t' (passes_cons.mpr (.inr ⟨u, hi, h⟩))) t j t' hrest

/-- Where a step keeps `S` exactly if it meets `C`, a run keeps `S` exactly if all its steps do. -/
theorem Run.keeps_iff {Inv S : σ → Prop}
    (hstep : ∀ s i t, Inv s → M.step s i = some t → Inv t ∧ (S t ↔ S s ∧ C s i))
    (h : M.Run s is u) (hs : Inv s) : S u ↔ S s ∧ ∀ t i t', M.Passes s is t i t' → C t i := by
  induction h with
  | nil s =>
      refine (and_iff_left fun t i t' h => ?_).symm
      obtain ⟨is₁, is₂, his, -⟩ := h
      simp at his
  | @cons s t u i is hi _ ih =>
      obtain ⟨hinv, hfirst⟩ := hstep s i t hs hi
      rw [ih hinv, hfirst, and_assoc]
      refine and_congr_right fun _ => ⟨fun ⟨hC, hrest⟩ v j v' h => ?_, fun hC => ⟨?_, ?_⟩⟩
      · rcases passes_cons.mp h with ⟨rfl, rfl, -⟩ | ⟨w, hw, hlater⟩
        · exact hC
        · obtain rfl := Option.some.inj (hi.symm.trans hw)
          exact hrest v j v' hlater
      · exact hC s i t (passes_cons.mpr (.inl ⟨rfl, rfl, hi⟩))
      · exact fun v j v' h => hC v j v' (passes_cons.mpr (.inr ⟨t, hi, h⟩))

/-- Every step of the run meets `C` in the state it starts from. -/
inductive Guarded (M : StepSystem σ ι) (C : σ → ι → Prop) : σ → List ι → σ → Prop
  | nil (s : σ) : Guarded M C s [] s
  | cons {s t u : σ} {i : ι} {is : List ι} :
      C s i → M.step s i = some t → Guarded M C t is u → Guarded M C s (i :: is) u

namespace Guarded

variable {C : σ → ι → Prop}

theorem run (h : M.Guarded C s is t) : M.Run s is t := by
  induction h with
  | nil s => exact .nil s
  | cons _ hi _ ih => exact .cons hi ih

/-- A property kept by the steps that meet `C` is kept by every guarded run. -/
theorem invariant {P : σ → Prop} (hstep : ∀ s i t, P s → C s i → M.step s i = some t → P t)
    (h : M.Guarded C s is t) (hs : P s) : P t := by
  induction h with
  | nil => exact hs
  | cons hc hi _ ih => exact ih (hstep _ _ _ hs hc hi)

theorem passes {i : ι} (h : M.Guarded C s is u) (hpasses : M.Passes s is t i t') : C t i := by
  induction h with
  | nil s =>
      obtain ⟨is₁, is₂, his, -⟩ := hpasses
      simp at his
  | cons hc hi _ ih =>
      rcases passes_cons.mp hpasses with ⟨rfl, rfl, -⟩ | ⟨v, hv, hrest⟩
      · exact hc
      · obtain rfl := Option.some.inj (hi.symm.trans hv)
        exact ih hrest

end Guarded

/-- A run whose inputs meet `C` in every state is guarded. -/
theorem Run.guarded_of_forall (h : M.Run s is t) (hC : ∀ i ∈ is, ∀ s, C s i) : M.Guarded C s is t := by
  induction h with
  | nil s => exact .nil s
  | cons hi _ ih =>
      exact .cons (hC _ List.mem_cons_self _) hi (ih fun i his => hC i (List.mem_cons_of_mem _ his))

/-- The system without the steps that do not meet `C`. -/
def restrict (M : StepSystem σ ι) (C : σ → ι → Bool) : StepSystem σ ι where
  step s i := if C s i then M.step s i else none

theorem restrict_step {C : σ → ι → Bool} {i : ι} :
    (M.restrict C).step s i = some t ↔ C s i = true ∧ M.step s i = some t :=
  Option.ite_none_right_eq_some

/-- The runs of the restricted system are the guarded runs. -/
theorem Run.guarded {C : σ → ι → Bool} (h : (M.restrict C).Run s is t) :
    M.Guarded (fun s i => C s i = true) s is t := by
  induction h with
  | nil s => exact .nil s
  | cons hi _ ih =>
      obtain ⟨hc, hi⟩ := restrict_step.mp hi
      exact .cons hc hi ih

/-- A run that does not end. -/
structure Forever (M : StepSystem σ ι) where
  state : ℕ → σ
  input : ℕ → ι
  step : ∀ n, M.step (state n) (input n) = some (state (n + 1))

namespace Forever

/-- A property kept by every enabled step is kept from any time on. -/
theorem kept (r : M.Forever) {P : σ → Prop}
    (hstep : ∀ s i t, P s → M.step s i = some t → P t)
    {n m : ℕ} (h : n ≤ m) (hn : P (r.state n)) : P (r.state m) := by
  induction h with
  | refl => exact hn
  | step _ ih => exact hstep _ _ _ ih (r.step _)

/-- No run goes on forever where every step lowers a well-founded measure. -/
theorem false_of_lt (r : M.Forever) {α : Type*} [LT α] [WellFoundedLT α] {f : σ → α}
    {P : σ → Prop} (hkeep : ∀ s i t, P s → M.step s i = some t → P t)
    (hlt : ∀ s i t, P s → M.step s i = some t → f t < f s)
    (hP : P (r.state 0)) : False := by
  obtain ⟨n, hn⟩ := WellFounded.not_rel_apply_succ (r := (· < ·)) (f ∘ r.state)
  exact hn (hlt _ _ _ (r.kept hkeep n.zero_le hP) (r.step n))

end Forever

end StepSystem
