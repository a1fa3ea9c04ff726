import Mathlib.Data.List.Infix

/-! # Append-only logs

One list for each key, which grows at its end only. A copy of a list is one of its prefixes,
so copies of equal length agree.
-/

structure AppendLogs (ι α : Type*) where
  log : ι → List α

namespace AppendLogs

variable {ι α : Type*}

/-- The later logs begin with the earlier ones. -/
instance : Preorder (AppendLogs ι α) where
  le x y := ∀ i, x.log i <+: y.log i
  le_refl _ _ := List.prefix_rfl
  le_trans _ _ _ hxy hyz i := (hxy i).trans (hyz i)

variable {x y : AppendLogs ι α} {i : ι} {copy copy' : List α} {a : α}

theorem prefix_of_le (h : copy <+: x.log i) (hxy : x ≤ y) : copy <+: y.log i :=
  h.trans (hxy i)

theorem getElem?_of_le {n : ℕ} (h : (x.log i)[n]? = some a) (hxy : x ≤ y) :
    (y.log i)[n]? = some a := by
  obtain ⟨rest, hrest⟩ := hxy i
  rw [← hrest, List.getElem?_append_left (List.getElem?_eq_some_iff.mp h).1]
  exact h

/-- What a log began with it goes on to begin with. -/
theorem take_of_le (hxy : x ≤ y) {n : ℕ} (hn : n ≤ (x.log i).length) :
    (y.log i).take n = (x.log i).take n := by
  obtain ⟨rest, hrest⟩ := hxy i
  rw [← hrest, List.take_append_of_le_length hn]

/-- A copy goes on with the entry that follows it. -/
theorem snoc (h : copy <+: x.log i) (ha : (x.log i)[copy.length]? = some a) :
    copy ++ [a] <+: x.log i := by
  obtain ⟨rest, hrest⟩ := h
  rw [← hrest, List.getElem?_append_right le_rfl, Nat.sub_self] at ha
  cases rest with
  | nil => simp at ha
  | cons b rest =>
      obtain rfl : b = a := by simpa using ha
      exact ⟨rest, by simpa using hrest⟩

theorem agree (h : copy <+: x.log i) (h' : copy' <+: x.log i)
    (hlength : copy.length = copy'.length) : copy = copy' :=
  (List.prefix_of_prefix_length_le h h' hlength.le).eq_of_length hlength

/-- A copy as long as the log is the log. -/
theorem whole (h : copy <+: x.log i) (hlength : copy.length = (x.log i).length) :
    copy = x.log i :=
  h.eq_of_length hlength

end AppendLogs
