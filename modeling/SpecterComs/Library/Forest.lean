import Mathlib.Order.WellFounded
import Mathlib.Data.Set.Finite.Basic

/-! # Forests

Parents that never lead round in a circle, and ordered trees spelled out from the children of each
node.
-/

namespace SpecterComs

open Relation

variable {α : Type}

/-- Following the parents leads nobody back to where they started. -/
def Acyclic (parent : α → Option α) : Prop :=
  ∀ a, ¬ TransGen (fun a b => parent a = some b) a a

variable {parent : α → Option α}

/-- Whoever is on a circle has a parent, and the parent is on it too. -/
theorem parent_of_circle {a : α} (h : TransGen (fun a b => parent a = some b) a a) :
    ∃ b, parent a = some b ∧ TransGen (fun a b => parent a = some b) b b := by
  obtain ⟨b, hab, hba⟩ := TransGen.head'_iff.mp h
  exact ⟨b, hab, TransGen.tail' hba hab⟩

/-- What holds of everybody whose parent it holds of holds of everybody, if only finitely many
have parents. -/
theorem Acyclic.induction (h : Acyclic parent) {l : List α}
    (hfinite : ∀ a b, parent a = some b → a ∈ l) {P : α → Prop}
    (hstep : ∀ a, (∀ b, parent a = some b → P b) → P a) (a : α) : P a := by
  let r : {x // x ∈ l} → {x // x ∈ l} → Prop :=
    fun b a => TransGen (fun a b => parent a = some b) a.1 b.1
  have : IsTrans {x // x ∈ l} r := ⟨fun _ _ _ hab hbc => TransGen.trans hbc hab⟩
  have : Std.Irrefl r := ⟨fun a ha => h a.1 ha⟩
  have : Finite {x // x ∈ l} := l.finite_toSet.to_subtype
  have hwf : WellFounded r := Finite.wellFounded_of_trans_of_irrefl r
  have hmem : ∀ a : {x // x ∈ l}, P a.1 := by
    intro a
    induction a using hwf.induction with
    | h a ih =>
        refine hstep a.1 fun b hab => ?_
        by_cases hb : b ∈ l
        · exact ih ⟨b, hb⟩ (TransGen.single hab)
        · refine hstep b fun c hbc => ?_
          exact absurd (hfinite b c hbc) hb
  by_cases ha : a ∈ l
  · exact hmem ⟨a, ha⟩
  · refine hstep a fun b hab => ?_
    exact absurd (hfinite a b hab) ha

/-- Parents of a smaller rank make no circle. -/
theorem Acyclic.of_rank (rank : α → ℕ) (h : ∀ a b, parent a = some b → rank b < rank a) :
    Acyclic parent := by
  have hless : ∀ a b, TransGen (fun a b => parent a = some b) a b → rank b < rank a := by
    intro a b hab
    induction hab with
    | single hab => exact h _ _ hab
    | tail _ hbc ih => exact (h _ _ hbc).trans ih
  exact fun a ha => (hless a a ha).false

/-- What maps into a forest is one. -/
theorem Acyclic.of_map {β : Type} {parent' : β → Option β} (h : Acyclic parent) (f : β → α)
    (hf : ∀ a b, parent' a = some b → parent (f a) = some (f b)) : Acyclic parent' :=
  fun a ha => h (f a) (TransGen.lift (p := fun a b => parent a = some b) f hf a a ha)

/-- A new parent makes no circle, unless it is the node itself or below it. -/
theorem Acyclic.link {parent' : α → Option α} {x t : α} (h : Acyclic parent)
    (hnot : ¬ ReflTransGen (fun a b => parent a = some b) t x)
    (hlink : ∀ a b, parent' a = some b → parent a = some b ∨ a = x ∧ b = t) :
    Acyclic parent' := by
  have hpath : ∀ a b, TransGen (fun a b => parent' a = some b) a b →
      TransGen (fun a b => parent a = some b) a b ∨
        ReflTransGen (fun a b => parent a = some b) a x ∧
          ReflTransGen (fun a b => parent a = some b) t b := by
    intro a b hab
    induction hab with
    | single hab =>
        rcases hlink _ _ hab with hab | ⟨rfl, rfl⟩
        · exact .inl (.single hab)
        · exact .inr ⟨.refl, .refl⟩
    | tail _ hbc ih =>
        rcases hlink _ _ hbc with hbc | ⟨rfl, rfl⟩
        · rcases ih with hab | ⟨hax, htb⟩
          · exact .inl (hab.tail hbc)
          · exact .inr ⟨hax, htb.tail hbc⟩
        · rcases ih with hab | ⟨-, htb⟩
          · exact .inr ⟨hab.to_reflTransGen, .refl⟩
          · exact absurd htb hnot
  intro a ha
  rcases hpath a a ha with ha | ⟨hax, hta⟩
  · exact h a ha
  · exact hnot (hta.trans hax)

/-! ## Ordered trees -/

/-- Trees from left to right: the first by its label and the trees under it, and the rest. -/
inductive Trees (α : Type)
  | nil
  | cons (label : α) (children rest : Trees α)

namespace Trees

def roots : Trees α → List α
  | nil => []
  | cons a _ rest => a :: roots rest

/-- All labels, each in front of those under it. -/
def labels : Trees α → List α
  | nil => []
  | cons a children rest => a :: (labels children ++ labels rest)

/-- The labels with their depths, where the roots have depth `d`. -/
def levels : ℕ → Trees α → List (α × ℕ)
  | _, nil => []
  | d, cons a children rest => (a, d) :: (levels (d + 1) children ++ levels d rest)

def height : Trees α → ℕ
  | nil => 0
  | cons _ children rest => max (height children + 1) (height rest)

/-- Under each label are the trees of its children. -/
def Spans (next : α → List α) : Trees α → Prop
  | nil => True
  | cons a children rest => next a = roots children ∧ Spans next children ∧ Spans next rest

/-- Two roots, or two children of one label. -/
def Siblings (next : α → List α) (ts : Trees α) (x y : α) : Prop :=
  x ∈ ts.roots ∧ y ∈ ts.roots ∨ ∃ a ∈ ts.labels, x ∈ next a ∧ y ∈ next a

variable {next : α → List α} {ts children rest : Trees α} {a x y : α} {d : ℕ}

theorem map_fst_levels (d : ℕ) (ts : Trees α) : (levels d ts).map Prod.fst = ts.labels := by
  induction ts generalizing d with
  | nil => rfl
  | cons a children rest ihc ihr => simp [levels, labels, ihc, ihr]

theorem le_of_mem_levels {e : ℕ} (h : (x, e) ∈ ts.levels d) : d ≤ e := by
  induction ts generalizing d with
  | nil => simp [levels] at h
  | cons a children rest ihc ihr =>
      rcases List.mem_cons.mp h with h | h
      · exact (Prod.mk.inj h).2.ge
      · rcases List.mem_append.mp h with h | h
        · exact (Nat.le_succ d).trans (ihc h)
        · exact ihr h

theorem mem_roots_of_mem_levels (h : (x, d) ∈ ts.levels d) : x ∈ ts.roots := by
  induction ts with
  | nil => simp [levels] at h
  | cons a children rest _ ih =>
      rcases List.mem_cons.mp h with h | h
      · exact List.mem_cons.mpr (.inl (Prod.mk.inj h).1)
      · rcases List.mem_append.mp h with h | h
        · exact absurd (le_of_mem_levels h) (Nat.not_succ_le_self d)
        · exact List.mem_cons_of_mem _ (ih h)

theorem roots_subset (ts : Trees α) : ts.roots ⊆ ts.labels := by
  induction ts with
  | nil => simp [roots]
  | cons a children rest _ ih =>
      intro x hx
      rcases List.mem_cons.mp hx with rfl | hx
      · exact List.mem_cons_self
      · exact List.mem_cons_of_mem _ (List.mem_append_right _ (ih hx))

theorem Spans.next_subset (h : ts.Spans next) (ha : a ∈ ts.labels) : next a ⊆ ts.labels := by
  induction ts with
  | nil => simp [labels] at ha
  | cons b children rest ihc ihr =>
      obtain ⟨hb, hc, hr⟩ := h
      rcases List.mem_cons.mp ha with rfl | ha
      · intro x hx
        have hx' : x ∈ children.labels := roots_subset _ (hb ▸ hx)
        exact List.mem_cons_of_mem _ (List.mem_append_left _ hx')
      · rcases List.mem_append.mp ha with ha | ha
        · intro x hx
          exact List.mem_cons_of_mem _ (List.mem_append_left _ (ihc hc ha hx))
        · intro x hx
          exact List.mem_cons_of_mem _ (List.mem_append_right _ (ihr hr ha hx))

theorem Siblings.mem_left (h : ts.Spans next) (hs : ts.Siblings next x y) : x ∈ ts.labels := by
  rcases hs with ⟨hx, -⟩ | ⟨a, ha, hx, -⟩
  · exact roots_subset ts hx
  · exact h.next_subset ha hx

theorem Siblings.mem_right (h : ts.Spans next) (hs : ts.Siblings next x y) : y ∈ ts.labels := by
  rcases hs with ⟨-, hy⟩ | ⟨a, ha, -, hy⟩
  · exact roots_subset ts hy
  · exact h.next_subset ha hy

/-- Siblings are two roots, or siblings in the first tree, or under the others. -/
theorem siblings_cons (h : (cons a children rest).Spans next) :
    (cons a children rest).Siblings next x y ↔
      x ∈ a :: rest.roots ∧ y ∈ a :: rest.roots ∨ children.Siblings next x y ∨
        ∃ b ∈ rest.labels, x ∈ next b ∧ y ∈ next b := by
  simp [Siblings, roots, labels, h.1, or_assoc, or_and_right, exists_or]

theorem disjoint_cons (hnodup : (cons a children rest).labels.Nodup) :
    a ∉ children.labels ∧ a ∉ rest.labels ∧ children.labels.Disjoint rest.labels := by
  obtain ⟨ha, hnodup⟩ := List.nodup_cons.mp hnodup
  rw [List.mem_append, not_or] at ha
  exact ⟨ha.1, ha.2, List.disjoint_of_nodup_append hnodup⟩

theorem nodup_cons (hnodup : (cons a children rest).labels.Nodup) :
    children.labels.Nodup ∧ rest.labels.Nodup := by
  have hboth := (List.nodup_cons.mp hnodup).2
  exact ⟨hboth.of_append_left, hboth.of_append_right⟩

section Cons

variable (h : (cons a children rest).Spans next) (hnodup : (cons a children rest).labels.Nodup)
include h hnodup

/-- Siblings in the first tree are siblings there. -/
theorem siblings_children (hx : x ∈ children.labels) :
    (cons a children rest).Siblings next x y ↔ children.Siblings next x y := by
  obtain ⟨ha, -, hdisjoint⟩ := disjoint_cons hnodup
  rw [siblings_cons h]
  constructor
  · rintro (⟨hroot, -⟩ | hs | ⟨b, hb, hxb, -⟩)
    · rcases List.mem_cons.mp hroot with rfl | hroot
      · exact absurd hx ha
      · exact absurd (roots_subset rest hroot) (hdisjoint hx)
    · exact hs
    · exact absurd (h.2.2.next_subset hb hxb) (hdisjoint hx)
  · exact fun hs => .inr (.inl hs)

/-- Siblings in the other trees are siblings there. -/
theorem siblings_rest (hx : x ∈ rest.labels) (hy : y ∈ rest.labels) :
    (cons a children rest).Siblings next x y ↔ rest.Siblings next x y := by
  obtain ⟨-, ha, hdisjoint⟩ := disjoint_cons hnodup
  rw [siblings_cons h]
  constructor
  · rintro (⟨hxroot, hyroot⟩ | hs | hunder)
    · refine .inl ⟨?_, ?_⟩
      · exact (List.mem_cons.mp hxroot).resolve_left (by rintro rfl; exact ha hx)
      · exact (List.mem_cons.mp hyroot).resolve_left (by rintro rfl; exact ha hy)
    · exact absurd hx (hdisjoint (hs.mem_left h.2.1))
    · exact .inr hunder
  · rintro (⟨hxroot, hyroot⟩ | hunder)
    · exact .inl ⟨List.mem_cons_of_mem _ hxroot, List.mem_cons_of_mem _ hyroot⟩
    · exact .inr (.inr hunder)

/-- Across the first tree and the others only the roots are siblings. -/
theorem siblings_across (hx : x ∈ a :: children.labels) (hy : y ∈ rest.labels) :
    (cons a children rest).Siblings next x y ↔ x = a ∧ y ∈ rest.roots := by
  obtain ⟨-, ha, hdisjoint⟩ := disjoint_cons hnodup
  have hxrest : x ∉ rest.labels := by
    rcases List.mem_cons.mp hx with rfl | hx
    · exact ha
    · exact hdisjoint hx
  rw [siblings_cons h]
  constructor
  · rintro (⟨hxroot, hyroot⟩ | hs | ⟨b, hb, hxb, -⟩)
    · refine ⟨?_, ?_⟩
      · exact (List.mem_cons.mp hxroot).resolve_right fun hxroot =>
          hxrest (roots_subset rest hxroot)
      · exact (List.mem_cons.mp hyroot).resolve_left (by rintro rfl; exact ha hy)
    · exact absurd hy (hdisjoint (hs.mem_right h.2.1))
    · exact absurd (h.2.2.next_subset hb hxb) hxrest
  · rintro ⟨rfl, hyroot⟩
    exact .inl ⟨List.mem_cons_self, List.mem_cons_of_mem _ hyroot⟩

end Cons

end Trees

end SpecterComs
