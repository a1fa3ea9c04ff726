import Mathlib.Data.Set.BooleanAlgebra
import Mathlib.Order.CompletePartialOrder

/-! # Programs that await

A program runs to its next await, shows the operation it awaits, and continues with
the result. Between the two the world may have moved on, but only upwards in an
order. A contract says what an operation may be asked in a world and what its result
tells about the world it arrives in.
-/

/-- A program over operations `Op`, each with results in `Res`. -/
inductive Async (Op : Type*) (Res : Op → Type*) (α : Type*)
  | ret (a : α)
  | op (o : Op) (k : Res o → Async Op Res α)

namespace Async

universe u v w

variable {Op : Type u} {Res : Op → Type v} {α β : Type w}

def bind (p : Async Op Res α) (f : α → Async Op Res β) : Async Op Res β :=
  match p with
  | ret a => f a
  | op o k => op o fun r => (k r).bind f

instance : Monad (Async Op Res) where
  pure := ret
  bind := bind

/-- Await one operation. -/
def perform {Res : Op → Type w} (o : Op) : Async Op Res (Res o) :=
  op o ret

@[simp] theorem pure_eq (a : α) : (pure a : Async Op Res α) = ret a := rfl

/-! ## Contracts -/

/-- What an operation may be asked in a world, and what its result then tells. -/
structure Contract (W : Type*) [Preorder W] (Op : Type u) (Res : Op → Type v) where
  pre : W → Op → Prop
  post : W → (o : Op) → Res o → Prop
  pre_mono : ∀ {w w' : W} {o : Op}, w ≤ w' → pre w o → pre w' o

variable {W : Type*} [Preorder W] {C : Contract W Op Res}

/-- Started in world `x`, the program asks only what it may, and returns with `Q`. -/
def Safe (C : Contract W Op Res) (Q : W → α → Prop) (x : W) : Async Op Res α → Prop
  | ret a => Q x a
  | op o k => C.pre x o ∧ ∀ y, x ≤ y → ∀ r, C.post y o r → Safe C Q y (k r)

variable {Q Q' : W → α → Prop} {x y : W} {p : Async Op Res α}

@[simp] theorem safe_ret {a : α} : Safe C Q x (ret a) ↔ Q x a := Iff.rfl

@[simp] theorem safe_op {o : Op} {k : Res o → Async Op Res α} :
    Safe C Q x (op o k) ↔
      C.pre x o ∧ ∀ y, x ≤ y → ∀ r, C.post y o r → Safe C Q y (k r) := Iff.rfl

/-- A program that is safe now is safe in every later world. -/
theorem Safe.later (hQ : ∀ {x y : W} {a : α}, x ≤ y → Q x a → Q y a) (h : Safe C Q x p)
    (hxy : x ≤ y) : Safe C Q y p := by
  cases p with
  | ret a => exact hQ hxy h
  | op o k => exact ⟨C.pre_mono hxy h.1, fun z hz r hr => h.2 z (hxy.trans hz) r hr⟩

theorem Safe.weaken (h : Safe C Q x p) (hQ : ∀ y, x ≤ y → ∀ a, Q y a → Q' y a) :
    Safe C Q' x p := by
  induction p generalizing x with
  | ret a => exact hQ x le_rfl a h
  | op o k ih =>
      refine ⟨h.1, fun y hy r hr => ?_⟩
      exact ih r (h.2 y hy r hr) fun z hz => hQ z (hy.trans hz)

theorem Safe.bind {f : α → Async Op Res β} {R : W → β → Prop}
    (h : Safe C Q x p) (hf : ∀ y, x ≤ y → ∀ a, Q y a → Safe C R y (f a)) :
    Safe C R x (p >>= f) := by
  induction p generalizing x with
  | ret a => exact hf x le_rfl a h
  | op o k ih =>
      refine ⟨h.1, fun y hy r hr => ?_⟩
      exact ih r (h.2 y hy r hr) fun z hz => hf z (hy.trans hz)

/-- The contract that asks nothing and tells nothing. -/
def Contract.free (Op : Type u) (Res : Op → Type v) : Contract PUnit.{1} Op Res where
  pre _ _ := True
  post _ _ _ := True
  pre_mono _ h := h

/-- Whatever its operations answer, the program returns only values with `P`. -/
def Returns (P : α → Prop) (p : Async Op Res α) : Prop :=
  p.Safe (Contract.free Op Res) (fun _ => P) ⟨⟩

@[simp] theorem returns_ret {P : α → Prop} {a : α} :
    (ret a : Async Op Res α).Returns P ↔ P a := Iff.rfl

@[simp] theorem returns_op {P : α → Prop} {o : Op} {k : Res o → Async Op Res α} :
    (op o k).Returns P ↔ ∀ r, (k r).Returns P := by
  constructor
  · intro h r
    exact h.2 ⟨⟩ le_rfl r trivial
  · intro h
    exact ⟨trivial, fun _ _ r _ => h r⟩

/-- A program that has its answer returns as it did before. -/
theorem Returns.answer {P : α → Prop} {o : Op} {k : Res o → Async Op Res α} (h : p.Returns P)
    (hp : p = op o k) (r : Res o) : (k r).Returns P := by
  rw [hp, returns_op] at h
  exact h r

/-- Where nothing is asked of its operations, such a program is safe. -/
theorem Returns.safe {P : α → Prop} (h : p.Returns P) (hpre : ∀ (w : W) (o : Op), C.pre w o)
    (hQ : ∀ (w : W) (a : α), P a → Q w a) : p.Safe C Q x := by
  induction p generalizing x with
  | ret a => exact hQ x a h
  | op o k ih =>
      rw [returns_op] at h
      exact ⟨hpre x o, fun y _ r _ => ih r (h r)⟩

/-- A program whose continuation always returns with `R` returns with `R`. -/
theorem Returns.of_bind {R : β → Prop} {f : α → Async Op Res β} (hf : ∀ a, (f a).Returns R) :
    (p >>= f).Returns R := by
  induction p with
  | ret a => exact hf a
  | op o k ih => exact returns_op.mpr ih

theorem Returns.ite {P : α → Prop} {c : Prop} [Decidable c] {q : Async Op Res α}
    (hp : p.Returns P) (hq : q.Returns P) : (if c then p else q).Returns P := by
  split
  · exact hp
  · exact hq

/-! ## Programs that throw -/

variable {ε : Type w} {P : W → Except ε α → Prop} {R : W → Except ε β → Prop}
  {m : ExceptT ε (Async Op Res) α} {f : α → ExceptT ε (Async Op Res) β}

/-- What is thrown skips the continuation. -/
theorem Safe.run_bind (hm : m.run.Safe C P x)
    (hok : ∀ y, x ≤ y → ∀ a, P y (.ok a) → (f a).run.Safe C R y)
    (herror : ∀ y, x ≤ y → ∀ e, P y (.error e) → R y (.error e)) : (m >>= f).run.Safe C R x := by
  refine Safe.bind hm fun y hy r hr => ?_
  cases r with
  | ok a => exact hok y hy a hr
  | error e => exact herror y hy e hr

/-- Whatever comes before, a program returns only what its continuation returns or what is
thrown. -/
theorem Returns.of_run_bind {P : Except ε β → Prop} (hok : ∀ a, (f a).run.Returns P)
    (herror : ∀ e, P (.error e)) : (m >>= f).run.Returns P := by
  refine Returns.of_bind fun r => ?_
  cases r with
  | ok a => exact hok a
  | error e => exact herror e

end Async
