import Mathlib.Data.List.Basic

/-! # Cells that are filled once

Copies of a value arrive in any order and any number, some of them blank. The first one
that is not blank stays.
-/

namespace SpecterComs

inductive Cell (α : Type*)
  | absent
  | blank
  | filled (a : α)
  deriving DecidableEq, Repr

namespace Cell

variable {α : Type*}

def absorb : Cell α → Option α → Cell α
  | filled a, _ => filled a
  | _, some a => filled a
  | _, none => blank

def absorbAll (c : Cell α) (copies : List (Option α)) : Cell α :=
  copies.foldl absorb c

/-- The copies that are not blank carry one value. -/
def Agree (copies : List (Option α)) : Prop :=
  ∀ a b, some a ∈ copies → some b ∈ copies → a = b

variable {c : Cell α} {copies copies' : List (Option α)}

@[simp] theorem absorbAll_nil : c.absorbAll [] = c := rfl

variable {copy : Option α}

@[simp] theorem absorbAll_cons :
    c.absorbAll (copy :: copies) = (c.absorb copy).absorbAll copies := rfl

theorem absorbAll_append : c.absorbAll (copies ++ copies') = (c.absorbAll copies).absorbAll copies' :=
  List.foldl_append

variable {a : α}

@[simp] theorem absorb_filled : (filled a).absorb copy = filled a := rfl

theorem absorbAll_ne_absent (hc : c ≠ absent) : c.absorbAll copies ≠ absent := by
  induction copies generalizing c with
  | nil => exact hc
  | cons copy copies ih =>
      rw [absorbAll_cons]
      apply ih
      cases c <;> cases copy <;> simp_all [absorb]

/-- A blank copy changes nothing where a copy has been. -/
theorem absorb_none (hc : c ≠ absent) : c.absorb none = c := by
  cases c with
  | absent => exact absurd rfl hc
  | blank => rfl
  | filled a => rfl

theorem absorb_of_open (hc : ∀ a, c ≠ filled a) : c.absorb copy = copy.elim blank filled := by
  cases c with
  | absent => cases copy <;> rfl
  | blank => cases copy <;> rfl
  | filled a => exact absurd rfl (hc a)

/-- A filled cell is final. -/
@[simp] theorem absorbAll_filled : (filled a).absorbAll copies = filled a := by
  induction copies with
  | nil => rfl
  | cons copy copies ih => rw [absorbAll_cons, absorb_filled, ih]

theorem Agree.tail {copy : Option α} (h : Agree (copy :: copies)) : Agree copies :=
  fun a b ha hb => h a b (List.mem_cons_of_mem _ ha) (List.mem_cons_of_mem _ hb)

/-- One copy that is not blank fills the cell. -/
theorem absorbAll_eq_filled (hagree : Agree copies) (hmem : some a ∈ copies)
    (hc : ∀ b, c ≠ filled b) : c.absorbAll copies = filled a := by
  induction copies generalizing c with
  | nil => simp at hmem
  | cons copy copies ih =>
      rw [absorbAll_cons]
      cases copy with
      | some b =>
          have hb : b = a := hagree b a (by simp) hmem
          subst hb
          rw [absorb_of_open hc, Option.elim_some, absorbAll_filled]
      | none =>
          have htail : some a ∈ copies := by simpa using hmem
          refine ih hagree.tail htail ?_
          rw [absorb_of_open hc]
          simp

/-- Blank copies alone leave a cell blank. -/
theorem absorbAll_eq_blank (hblank : ∀ copy ∈ copies, copy = none) (hne : copies ≠ [])
    (hc : ∀ b, c ≠ filled b) : c.absorbAll copies = blank := by
  induction copies generalizing c with
  | nil => exact absurd rfl hne
  | cons copy copies ih =>
      have hcopy : copy = none := hblank copy (by simp)
      subst hcopy
      rw [absorbAll_cons, absorb_of_open hc, Option.elim_none]
      by_cases hnil : copies = []
      · simp [hnil]
      · exact ih (fun x hx => hblank x (List.mem_cons_of_mem _ hx)) hnil (by simp)

/-- What fills a cell is one of the copies. -/
theorem mem_of_absorbAll_eq_filled (hc : ∀ b, c ≠ filled b) (h : c.absorbAll copies = filled a) :
    some a ∈ copies := by
  by_contra hmem
  induction copies generalizing c with
  | nil => exact hc a h
  | cons copy copies ih =>
      have htail : some a ∉ copies := fun hcopy => hmem (List.mem_cons_of_mem _ hcopy)
      rw [absorbAll_cons, absorb_of_open hc] at h
      cases copy with
      | none => exact ih (by simp) h htail
      | some b =>
          have hb : b = a := by simpa using h
          exact hmem (by simp [hb])

/-- The outcome depends only on which copies arrive, not on their order or number. -/
theorem absorbAll_congr (hagree : Agree copies) (h : ∀ copy, copy ∈ copies ↔ copy ∈ copies') :
    c.absorbAll copies = c.absorbAll copies' := by
  by_cases hc : ∃ a, c = filled a
  · obtain ⟨a, rfl⟩ := hc
    simp
  · have hc' : ∀ b, c ≠ filled b := fun b hb => hc ⟨b, hb⟩
    have hagree' : Agree copies' := fun a b ha hb => hagree a b ((h _).mpr ha) ((h _).mpr hb)
    by_cases hsome : ∃ a, some a ∈ copies
    · obtain ⟨a, ha⟩ := hsome
      rw [absorbAll_eq_filled hagree ha hc', absorbAll_eq_filled hagree' ((h _).mp ha) hc']
    · have hblank : ∀ copy ∈ copies, copy = none := by
        intro copy hcopy
        cases copy with
        | none => rfl
        | some a => exact absurd ⟨a, hcopy⟩ hsome
      have hblank' : ∀ copy ∈ copies', copy = none := fun copy hcopy => hblank copy ((h _).mpr hcopy)
      by_cases hnil : copies = []
      · have hnil' : copies' = [] := by
          apply List.eq_nil_iff_forall_not_mem.mpr
          intro copy hcopy
          simpa [hnil] using (h copy).mpr hcopy
        rw [hnil, hnil']
      · have hne' : copies' ≠ [] := by
          intro hnil'
          apply hnil
          apply List.eq_nil_iff_forall_not_mem.mpr
          intro copy hcopy
          simpa [hnil'] using (h copy).mp hcopy
        rw [absorbAll_eq_blank hblank hnil hc', absorbAll_eq_blank hblank' hne' hc']

end Cell

end SpecterComs
