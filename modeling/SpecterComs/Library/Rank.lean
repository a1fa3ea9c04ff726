import Mathlib.Data.List.Basic

/-! # Ranks in a sorted list

The first `n` elements of a list sorted by a strict order are those with fewer than `n`
others before them, the last `n` those with fewer than `n` others after them.
-/

namespace SpecterComs

variable {α : Type*} {lt : α → α → Bool} {l : List α} {x : α} {n : ℕ}

/-- How many elements of the list come before `x`. -/
def rank (lt : α → α → Bool) (x : α) (l : List α) : ℕ :=
  l.countP fun y => lt y x

theorem rank_perm {l' : List α} (h : l.Perm l') : rank lt x l = rank lt x l' :=
  h.countP_eq _

theorem mem_take_iff_rank (hsorted : l.Pairwise fun a b => lt a b)
    (hirrefl : ∀ a, lt a a = false) (hasymm : ∀ a b, lt a b → lt b a = false) :
    x ∈ l.take n ↔ x ∈ l ∧ rank lt x l < n := by
  induction l generalizing n with
  | nil => simp
  | cons a l ih =>
      obtain ⟨ha, hl⟩ := List.pairwise_cons.mp hsorted
      cases n with
      | zero => simp
      | succ n =>
          rw [List.take_succ_cons, List.mem_cons, List.mem_cons, ih hl, rank, rank,
            List.countP_cons]
          constructor
          · rintro (rfl | ⟨hx, hrank⟩)
            · have hnone : l.countP (fun y => lt y x) = 0 := by
                rw [List.countP_eq_zero]
                intro y hy
                simp [hasymm x y (ha y hy)]
              refine ⟨.inl rfl, ?_⟩
              simp [hnone, hirrefl]
            · refine ⟨.inr hx, ?_⟩
              split_ifs <;> omega
          · rintro ⟨rfl | hx, hrank⟩
            · exact .inl rfl
            · rw [if_pos (ha x hx)] at hrank
              exact .inr ⟨hx, by omega⟩

theorem drop_eq_reverse_take : l.drop (l.length - n) = (l.reverse.take n).reverse := by
  rw [List.take_reverse, List.reverse_reverse]

variable {p : α → Bool} {m : ℕ}

/-- What comes after does not change a rank. -/
theorem rank_filter_take (hsorted : l.Pairwise fun a b => lt a b)
    (hasymm : ∀ a b, lt a b → lt b a = false) (hx : x ∈ l.take n) :
    rank lt x ((l.take n).filter p) = rank lt x (l.filter p) := by
  have hnone : rank lt x ((l.drop n).filter p) = 0 := by
    rw [rank, List.countP_eq_zero]
    intro y hy
    rw [← List.take_append_drop n l] at hsorted
    have hlt := (List.pairwise_append.mp hsorted).2.2 x hx y (List.mem_of_mem_filter hy)
    simp [hasymm x y hlt]
  conv_rhs => rw [← List.take_append_drop n l, List.filter_append, rank, List.countP_append]
  rw [rank] at hnone
  rw [hnone, rank, Nat.add_zero]

theorem mem_take_filter_take (hsorted : l.Pairwise fun a b => lt a b)
    (hirrefl : ∀ a, lt a a = false) (hasymm : ∀ a b, lt a b → lt b a = false) :
    x ∈ ((l.take n).filter p).take m ↔
      x ∈ l ∧ p x ∧ rank lt x l < n ∧ rank lt x (l.filter p) < m := by
  have hsub : ((l.take n).filter p).Pairwise fun a b => lt a b :=
    hsorted.sublist (List.filter_sublist.trans (List.take_sublist n l))
  rw [mem_take_iff_rank hsub hirrefl hasymm, List.mem_filter]
  constructor
  · rintro ⟨⟨hx, hp⟩, hrank⟩
    rw [rank_filter_take hsorted hasymm hx] at hrank
    obtain ⟨hx, hscan⟩ := (mem_take_iff_rank hsorted hirrefl hasymm).mp hx
    exact ⟨hx, hp, hscan, hrank⟩
  · rintro ⟨hx, hp, hscan, hrank⟩
    have hx' := (mem_take_iff_rank hsorted hirrefl hasymm).mpr ⟨hx, hscan⟩
    refine ⟨⟨hx', hp⟩, ?_⟩
    rwa [rank_filter_take hsorted hasymm hx']

theorem mem_drop_filter_drop (hsorted : l.Pairwise fun a b => lt a b)
    (hirrefl : ∀ a, lt a a = false) (hasymm : ∀ a b, lt a b → lt b a = false) :
    x ∈ ((l.drop (l.length - n)).filter p).drop
        (((l.drop (l.length - n)).filter p).length - m) ↔
      x ∈ l ∧ p x ∧ rank (flip lt) x l < n ∧ rank (flip lt) x (l.filter p) < m := by
  have hsorted' : l.reverse.Pairwise fun a b => flip lt a b :=
    List.pairwise_reverse.mpr hsorted
  rw [drop_eq_reverse_take, drop_eq_reverse_take, List.mem_reverse, List.filter_reverse,
    List.reverse_reverse, mem_take_filter_take hsorted' hirrefl fun a b => hasymm b a,
    List.mem_reverse, rank_perm l.reverse_perm, rank_perm (l.reverse_perm.filter p)]

end SpecterComs
