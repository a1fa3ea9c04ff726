import Mathlib.Data.List.Nodup
import Mathlib.Logic.Relation

/-! # Searching a graph with a worklist

The search takes an element off the frontier and finds those of its successors that were
not found before. The start is found only if some successor leads back to it.
-/

namespace SpecterComs

open Relation

/-- What was found, in order, and what of it still has to be looked at. -/
structure Worklist (α : Type*) where
  found : List α
  frontier : List α

namespace Worklist

variable {α : Type*} [DecidableEq α] {next : α → List α} {w w' : Worklist α} {root a b : α}
  {succs nodes : List α}

def offer (w : Worklist α) (a : α) : Worklist α :=
  if a ∈ w.found then w else ⟨w.found ++ [a], a :: w.frontier⟩

/-- One element is looked at. None when there is nothing left. -/
def round (next : α → List α) (w : Worklist α) : Option (Worklist α) :=
  match w.frontier with
  | [] => none
  | a :: frontier => some ((next a).foldl offer ⟨w.found, frontier⟩)

/-- The search in at most so many rounds, none if it has not ended by then. -/
def search (next : α → List α) : ℕ → Worklist α → Option (List α)
  | 0, _ => none
  | rounds + 1, w =>
      match w.round next with
      | none => some w.found
      | some w => search next rounds w

/-! ## Offers -/

theorem mem_found_offers : b ∈ (succs.foldl offer w).found ↔ b ∈ w.found ∨ b ∈ succs := by
  induction succs generalizing w with
  | nil => simp
  | cons a succs ih =>
      rw [List.foldl_cons, ih, offer]
      split
      · rename_i ha
        constructor
        · rintro (hb | hb)
          · exact .inl hb
          · exact .inr (List.mem_cons_of_mem a hb)
        · rintro (hb | hb)
          · exact .inl hb
          · rcases List.mem_cons.mp hb with rfl | hb
            · exact .inl ha
            · exact .inr hb
      · simp [or_assoc]

theorem nodup_offers (h : w.found.Nodup) : (succs.foldl offer w).found.Nodup := by
  induction succs generalizing w with
  | nil => exact h
  | cons a succs ih =>
      refine ih ?_
      rw [offer]
      split
      · exact h
      · rename_i ha
        exact List.nodup_append.mpr ⟨h, List.nodup_singleton a, by grind⟩

/-- Whoever is found by the offers waits to be looked at. -/
theorem mem_frontier_offers (w : Worklist α) (succs : List α) :
    (∀ b, b ∈ (succs.foldl offer w).frontier → b ∈ w.frontier ∨ b ∈ succs) ∧
      (∀ b ∈ w.frontier, b ∈ (succs.foldl offer w).frontier) ∧
      ∀ b ∈ (succs.foldl offer w).found, b ∈ w.found ∨ b ∈ (succs.foldl offer w).frontier := by
  induction succs generalizing w with
  | nil => exact ⟨fun _ h => .inl h, fun _ h => h, fun _ h => .inl h⟩
  | cons a succs ih =>
      obtain ⟨hsub, hkeep, hfound⟩ := ih (w.offer a)
      rw [List.foldl_cons]
      have hoffer : w.offer a = w ∨ w.offer a = ⟨w.found ++ [a], a :: w.frontier⟩ := by
        rw [offer]
        split
        · exact .inl rfl
        · exact .inr rfl
      rcases hoffer with hsame | hnew
      · rw [hsame] at hsub hkeep hfound ⊢
        exact ⟨fun b hb => (hsub b hb).imp_right (List.mem_cons_of_mem a), hkeep, hfound⟩
      · rw [hnew] at hsub hkeep hfound ⊢
        refine ⟨fun b hb => ?_, fun b hb => hkeep b (List.mem_cons_of_mem a hb), fun b hb => ?_⟩
        · rcases hsub b hb with hb | hb
          · rcases List.mem_cons.mp hb with rfl | hb
            · exact .inr List.mem_cons_self
            · exact .inl hb
          · exact .inr (List.mem_cons_of_mem a hb)
        · rcases hfound b hb with hb | hb
          · rcases List.mem_append.mp hb with hb | hb
            · exact .inl hb
            · rw [List.mem_singleton.mp hb]
              exact .inr (hkeep a List.mem_cons_self)
          · exact .inr hb

/-! ## What is found is what can be reached -/

/-- All that is found can be reached, and what is not waiting has all its successors found. -/
structure Inv (next : α → List α) (root : α) (w : Worklist α) : Prop where
  nodup : w.found.Nodup
  reached : ∀ a ∈ w.found, TransGen (fun a b => b ∈ next a) root a
  frontier : ∀ a ∈ w.frontier, a = root ∨ a ∈ w.found
  closed : ∀ a, a = root ∨ a ∈ w.found → a ∈ w.frontier ∨ ∀ b ∈ next a, b ∈ w.found

omit [DecidableEq α] in
theorem inv_start (next : α → List α) (root : α) : Inv next root ⟨[], [root]⟩ where
  nodup := List.nodup_nil
  reached _ h := nomatch h
  frontier _ h := .inl (List.mem_singleton.mp h)
  closed a h := by
    rcases h with rfl | h
    · exact .inl List.mem_cons_self
    · exact nomatch h

theorem Inv.round (h : Inv next root w) (hround : w.round next = some w') : Inv next root w' := by
  obtain ⟨found, frontier⟩ := w
  cases frontier with
  | nil => cases hround
  | cons a frontier =>
      obtain rfl := Option.some.inj hround
      obtain ⟨hsub, hkeep, hnew⟩ := mem_frontier_offers ⟨found, frontier⟩ (next a)
      refine ⟨nodup_offers h.nodup, fun b hb => ?_, fun b hb => ?_, fun b hb => ?_⟩
      · rcases mem_found_offers.mp hb with hb | hb
        · exact h.reached b hb
        · rcases h.frontier a List.mem_cons_self with rfl | ha
          · exact .single hb
          · exact (h.reached a ha).tail hb
      · rcases hsub b hb with hb | hb
        · exact (h.frontier b (List.mem_cons_of_mem a hb)).imp_right fun hb =>
            mem_found_offers.mpr (.inl hb)
        · exact .inr (mem_found_offers.mpr (.inr hb))
      · by_cases hba : b = a
        · subst hba
          exact .inr fun c hc => mem_found_offers.mpr (.inr hc)
        · have hold : b = root ∨ b ∈ found →
              b ∈ ((next a).foldl offer ⟨found, frontier⟩).frontier ∨
                ∀ c ∈ next b, c ∈ ((next a).foldl offer ⟨found, frontier⟩).found := by
            intro hb
            rcases h.closed b hb with hb | hb
            · exact .inl (hkeep b ((List.mem_cons.mp hb).resolve_left hba))
            · exact .inr fun c hc => mem_found_offers.mpr (.inl (hb c hc))
          rcases hb with hb | hb
          · exact hold (.inl hb)
          · rcases hnew b hb with hb | hb
            · exact hold (.inr hb)
            · exact .inl hb

/-- With nothing left to look at, everything that can be reached is found. -/
theorem Inv.mem_found_iff (h : Inv next root w) (hend : w.round next = none) :
    a ∈ w.found ↔ TransGen (fun a b => b ∈ next a) root a := by
  have hempty : w.frontier = [] := by
    rw [Worklist.round] at hend
    split at hend
    · assumption
    · cases hend
  have hclosed : ∀ a, a = root ∨ a ∈ w.found → ∀ b ∈ next a, b ∈ w.found := by
    intro a ha
    rcases h.closed a ha with hmem | hall
    · rw [hempty] at hmem
      cases hmem
    · exact hall
  constructor
  · exact h.reached a
  · intro hreach
    induction hreach with
    | single hab => exact hclosed root (.inl rfl) _ hab
    | tail _ hbc ih => exact hclosed _ (.inr ih) _ hbc

/-! ## Rounds -/

/-- The rounds that are left at most. -/
def left (nodes : List α) (w : Worklist α) : ℕ :=
  nodes.countP (fun a => a ∉ w.found) + w.frontier.length

theorem left_offers (h : ∀ a ∈ succs, a ∈ nodes) :
    (succs.foldl offer w).left nodes ≤ w.left nodes := by
  induction succs generalizing w with
  | nil => exact Nat.le_refl _
  | cons a succs ih =>
      refine Nat.le_trans (ih fun b hb => h b (List.mem_cons_of_mem a hb)) ?_
      rw [offer]
      split
      · exact Nat.le_refl _
      · rename_i ha
        have hless : ((nodes.filter fun b => b ∉ w.found).filter fun b => b ≠ a).length <
            (nodes.filter fun b => b ∉ w.found).length :=
          List.length_filter_lt_length_iff_exists.mpr
            ⟨a, List.mem_filter.mpr ⟨h a List.mem_cons_self, by simpa using ha⟩, by simp⟩
        have hfound : (nodes.filter fun b => b ∉ w.found ++ [a]) =
            (nodes.filter fun b => b ∉ w.found).filter fun b => b ≠ a := by
          rw [List.filter_filter]
          refine List.filter_congr fun b _ => ?_
          simp [and_comm]
        simp only [left, List.length_cons, List.countP_eq_length_filter] at hless ⊢
        rw [hfound]
        omega

variable {rounds : ℕ}

/-- Every search ends. -/
theorem search_isSome (hnext : ∀ a, ∀ b ∈ next a, b ∈ nodes) (h : w.left nodes < rounds) :
    ∃ result, search next rounds w = some result := by
  induction rounds generalizing w with
  | zero => omega
  | succ rounds ih =>
      obtain ⟨found, frontier⟩ := w
      cases frontier with
      | nil => exact ⟨found, rfl⟩
      | cons a frontier =>
          have hleft := left_offers (w := ⟨found, frontier⟩) (hnext a)
          refine ih (w := (next a).foldl offer ⟨found, frontier⟩) ?_
          simp only [left, List.length_cons] at h hleft ⊢
          omega

/-- More rounds change nothing. -/
theorem search_mono {more : ℕ} {result : List α} (h : search next rounds w = some result)
    (hmore : rounds ≤ more) : search next more w = some result := by
  induction rounds generalizing w more with
  | zero => cases h
  | succ rounds ih =>
      obtain ⟨more, rfl⟩ : ∃ n, more = n + 1 := ⟨more - 1, by omega⟩
      rw [search] at h ⊢
      split at h
      · exact h
      · exact ih h (by omega)

theorem search_spec (h : Inv next root w) {result : List α}
    (hsearch : search next rounds w = some result) :
    result.Nodup ∧ ∀ a, a ∈ result ↔ TransGen (fun a b => b ∈ next a) root a := by
  induction rounds generalizing w with
  | zero => cases hsearch
  | succ rounds ih =>
      rw [search] at hsearch
      split at hsearch
      · rename_i hend
        obtain rfl := Option.some.inj hsearch
        exact ⟨h.nodup, fun a => h.mem_found_iff hend⟩
      · rename_i w' hround
        exact ih (h.round hround) hsearch

end Worklist

end SpecterComs
