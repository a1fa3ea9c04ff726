import SpecterComs.Library.Statements
import SpecterComs.Library.StepSystem

/-! # Transactions at once

Of several open transactions any may run its next statement. A statement sees the rows that are
committed by then under the writes of its own transaction. A transaction that answers commits its
writes; one that is refused or fails drops them.
-/

namespace SpecterComs

variable {σ ε : Type}

/-- What an open transaction wrote, and what is left of it. -/
structure OpenTransaction (σ ε : Type) where
  write : σ → σ
  rest : Program σ (Except ε ε)

structure Transactions (σ ε : Type) where
  committed : σ
  opened : ℕ → Option (OpenTransaction σ ε)

/-- Whose turn it is. -/
inductive Turn
  | next (t : ℕ)
  | fail (t : ℕ)
  deriving DecidableEq, Repr

namespace Transactions

/-- No transaction has run a statement yet. -/
def start (h : ℕ → Handler σ ε ε) (db : σ) : Transactions σ ε where
  committed := db
  opened t := some { write := id, rest := (h t).run }

variable (s : Transactions σ ε)

def close (t : ℕ) : Transactions σ ε :=
  { s with opened := Function.update s.opened t none }

def step : Turn → Option (Transactions σ ε)
  | .next t =>
      match s.opened t with
      | none => none
      | some o =>
          match o.rest with
          | .op st k =>
              some { s with
                opened := Function.update s.opened t (some
                  { write := st.write ∘ o.write
                    rest := k (st.answer (o.write s.committed)) }) }
          | .ret (.ok _) => some { s.close t with committed := o.write s.committed }
          | .ret (.error _) => some (s.close t)
  | .fail t => (s.opened t).map fun _ => s.close t

/-- The turn is a commit. -/
def commits : Turn → Bool
  | .next t =>
      match s.opened t with
      | some { write := _, rest := .ret (.ok _) } => true
      | _ => false
  | .fail _ => false

end Transactions

/-- Transactions, one statement of one of them after the other. -/
def transactions (σ ε : Type) : StepSystem (Transactions σ ε) Turn where
  step := Transactions.step

/-! ## Programs among others -/

variable {α β : Type}

/-- What holds of the answer and the writes of a program while all committed rows meet `I`. -/
def Among (I : σ → Prop) (Q : α → (σ → σ) → Prop) (w : σ → σ) : Program σ α → Prop
  | .ret a => Q a w
  | .op s k => ∀ db, I db → Among I Q (s.write ∘ w) (k (s.answer (w db)))

variable {I : σ → Prop} {Q : α → (σ → σ) → Prop} {w : σ → σ} {p : Program σ α}

theorem Among.bind {R : β → (σ → σ) → Prop} {f : α → Program σ β} (h : Among I Q w p)
    (hf : ∀ a w', Q a w' → Among I R w' (f a)) : Among I R w (p >>= f) := by
  induction p generalizing w with
  | ret a => exact hf a w h
  | op s k ih => exact fun db hdb => ih _ (h db hdb)

theorem Among.anti {I' : σ → Prop} (h : Among I Q w p) (hI : ∀ db, I' db → I db) : Among I' Q w p := by
  induction p generalizing w with
  | ret a => exact h
  | op s k ih => exact fun db hdb => ih _ (h db (hI db hdb))

/-- What holds whatever is committed holds among committed rows with `I`. -/
theorem Snapshots.among {Q : α → List σ → (σ → σ) → Prop} {R : α → (σ → σ) → Prop} {seen : List σ}
    (h : Snapshots Q seen w p) (hQ : ∀ a seen w, Q a seen w → R a w) : Among I R w p := by
  induction p generalizing seen w with
  | ret a => exact hQ a seen w h
  | op s k ih => exact fun db _ => ih _ (h db)

namespace Handler

/-- What holds of a handler while all committed rows meet `I`. -/
def SpecAmong (I : σ → Prop) (Q : Except ε α → (σ → σ) → Prop) (w : σ → σ)
    (h : Handler σ ε α) : Prop :=
  Among I Q w h.run

variable {I : σ → Prop} {Q : Except ε α → (σ → σ) → Prop} {R : Except ε β → (σ → σ) → Prop}
  {w : σ → σ} {f : α → Handler σ ε β}

@[simp] theorem specAmong_select_bind {answer : σ → α} :
    SpecAmong I R w (select answer >>= f) ↔
      ∀ db, I db → SpecAmong I R w (f (answer (w db))) := Iff.rfl

/-- The rows that an update sees do not matter. -/
theorem SpecAmong.update_bind {write : σ → σ} {f : Unit → Handler σ ε β}
    (h : SpecAmong I R (write ∘ w) (f ())) : SpecAmong I R w (update write >>= f) :=
  fun _ _ => h

@[simp] theorem specAmong_require_bind {c : Bool} {e : ε} {f : Unit → Handler σ ε β} :
    SpecAmong I R w (require c e >>= f) ↔
      (c = true → SpecAmong I R w (f ())) ∧ (c = false → R (.error e) w) := by
  cases c with
  | true => exact ⟨fun h => ⟨fun _ => h, nofun⟩, fun h => h.1 rfl⟩
  | false => exact ⟨fun h => ⟨nofun, fun _ => h⟩, fun h => h.2 rfl⟩

@[simp] theorem specAmong_found_bind {a : Option α} {e : ε} :
    SpecAmong I R w (found a e >>= f) ↔
      (∀ x, a = some x → SpecAmong I R w (f x)) ∧ (a = none → R (.error e) w) := by
  cases a with
  | none => exact ⟨fun h => ⟨nofun, fun _ => h⟩, fun h => h.2 rfl⟩
  | some x => exact ⟨fun h => ⟨fun y hy => by cases hy; exact h, nofun⟩, fun h => h.1 x rfl⟩

theorem SpecAmong.bind {h : Handler σ ε α} (hh : SpecAmong I Q w h)
    (hok : ∀ a w', Q (.ok a) w' → SpecAmong I R w' (f a))
    (herror : ∀ e w', Q (.error e) w' → R (.error e) w') : SpecAmong I R w (h >>= f) := by
  refine Among.bind hh fun r w' hr => ?_
  cases r with
  | ok a => exact hok a w' hr
  | error e => exact herror e w' hr

end Handler

namespace Transactions

variable {I : σ → Prop} {Q : ℕ → Except ε ε → (σ → σ) → Prop}
  {s s' : Transactions σ ε} {turn : Turn} {h : ℕ → Handler σ ε ε} {db : σ}

/-- The committed rows meet `I`, and each open transaction goes on to its `Q` while they do. -/
structure Follows (I : σ → Prop) (Q : ℕ → Except ε ε → (σ → σ) → Prop)
    (s : Transactions σ ε) : Prop where
  committed : I s.committed
  opened : ∀ t o, s.opened t = some o → Among I (Q t) o.write o.rest

theorem follows_start (hQ : ∀ t, Handler.SpecAmong I (Q t) id (h t)) (hdb : I db) :
    Follows I Q (start h db) where
  committed := hdb
  opened t o ho := by
    obtain rfl : { write := id, rest := (h t).run } = o := Option.some.inj ho
    exact hQ t

theorem Follows.closed (hs : Follows I Q s) (t : ℕ) : Follows I Q (s.close t) where
  committed := hs.committed
  opened t' o ho := by
    by_cases ht : t' = t
    · rw [ht] at ho
      simp [close] at ho
    · have hsame : (s.close t).opened t' = s.opened t' := Function.update_of_ne ht _ _
      exact hs.opened t' o (hsame ▸ ho)

/-- What a turn does: a statement, a commit or a rollback. -/
theorem step_cases (hstep : s.step turn = some s') :
    (∃ t o st k, turn = .next t ∧ s.opened t = some o ∧ o.rest = .op st k ∧
      s' = { s with
        opened := Function.update s.opened t (some
          { write := st.write ∘ o.write, rest := k (st.answer (o.write s.committed)) }) }) ∨
    (∃ t o r, turn = .next t ∧ s.opened t = some o ∧ o.rest = .ret (.ok r) ∧
      s.commits turn = true ∧ s' = { s.close t with committed := o.write s.committed }) ∨
    (∃ t, s.commits turn = false ∧ s' = s.close t) := by
  cases turn with
  | next t =>
      simp only [step] at hstep
      cases ho : s.opened t with
      | none =>
          rw [ho] at hstep
          cases hstep
      | some o =>
          rw [ho] at hstep
          obtain ⟨write, rest⟩ := o
          cases rest with
          | op st k => exact .inl ⟨t, _, st, k, rfl, ho, rfl, (Option.some.inj hstep).symm⟩
          | ret r =>
              cases r with
              | ok r =>
                  refine .inr (.inl ⟨t, _, r, rfl, ho, rfl, ?_, (Option.some.inj hstep).symm⟩)
                  simp [commits, ho]
              | error e => exact .inr (.inr ⟨t, by simp [commits, ho], (Option.some.inj hstep).symm⟩)
  | fail t =>
      obtain ⟨_, _, rfl⟩ := Option.map_eq_some_iff.mp hstep
      exact .inr (.inr ⟨t, rfl, rfl⟩)

/-- A turn keeps `I` if every commit does. -/
theorem Follows.step (hs : Follows I Q s) (hstep : s.step turn = some s')
    (hcommit : s.commits turn = true → ∀ t r w, Q t (.ok r) w → I (w s.committed)) :
    Follows I Q s' := by
  rcases step_cases hstep with ⟨t, o, st, k, -, ho, hrest, rfl⟩ |
    ⟨t, o, r, -, ho, hrest, hcommits, rfl⟩ | ⟨t, -, rfl⟩
  · have hrests := hs.opened t o ho
    rw [hrest] at hrests
    refine ⟨hs.committed, fun t' o' ho' => ?_⟩
    dsimp only at ho'
    by_cases ht : t' = t
    · subst ht
      rw [Function.update_self] at ho'
      obtain rfl := Option.some.inj ho'
      exact hrests s.committed hs.committed
    · rw [Function.update_of_ne ht] at ho'
      exact hs.opened t' o' ho'
  · have hrests := hs.opened t o ho
    rw [hrest] at hrests
    exact ⟨hcommit hcommits t r o.write hrests, (hs.closed t).opened⟩
  · exact hs.closed t

/-- Every run keeps `I` if every commit on it does. -/
theorem Follows.run {C : Transactions σ ε → Turn → Prop} (hs : Follows I Q s)
    {turns : List Turn} (hrun : (transactions σ ε).Guarded C s turns s')
    (hcommit : ∀ s turn, Follows I Q s → C s turn → s.commits turn = true → ∀ t r w,
      Q t (.ok r) w → I (w s.committed)) : Follows I Q s' := by
  refine hrun.invariant (fun s turn s' hs hC hstep => ?_) hs
  exact hs.step hstep fun hcommits => hcommit s turn hs hC hcommits

end Transactions

end SpecterComs
