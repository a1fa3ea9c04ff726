import Mathlib.Data.List.DropRight

/-! # Lists stripped at both ends

A list is stripped of what a predicate takes, at its front and at its end. What stands in the middle
stays, and can be found again.
-/

namespace Strip

variable {α : Type*} {p : α → Bool} {lead mid rest front back front' back' l : List α}

def strip (p : α → Bool) (l : List α) : List α :=
  (l.dropWhile p).rdropWhile p

/-- The list does not go on with what `p` takes. -/
def Stops (p : α → Bool) (l : List α) : Prop :=
  ∀ a ∈ l.head?, p a = false

theorem takeWhile_append (hfront : ∀ a ∈ front, p a = true) (hstops : Stops p back) :
    (front ++ back).takeWhile p = front := by
  rw [List.takeWhile_append_of_pos hfront]
  cases back with
  | nil => simp
  | cons a back => simp [hstops a rfl]

theorem dropWhile_append (hfront : ∀ a ∈ front, p a = true) (hstops : Stops p back) :
    (front ++ back).dropWhile p = back := by
  rw [List.dropWhile_append_of_pos hfront]
  cases back with
  | nil => rfl
  | cons a back => simp [hstops a rfl]

theorem stops_dropWhile (p : α → Bool) (l : List α) : Stops p (l.dropWhile p) := by
  intro a ha
  have hhead := List.head?_dropWhile_not p l
  rw [ha] at hhead
  simpa using hhead

/-- Where `p` stops taking is one place. -/
theorem append_inj (h : front ++ back = front' ++ back') (hfront : ∀ a ∈ front, p a = true)
    (hfront' : ∀ a ∈ front', p a = true) (hstops : Stops p back) (hstops' : Stops p back') :
    front = front' ∧ back = back' := by
  have htake := congrArg (List.takeWhile p) h
  rw [takeWhile_append hfront hstops, takeWhile_append hfront' hstops'] at htake
  subst htake
  exact ⟨rfl, List.append_cancel_left h⟩

theorem rdropWhile_append (hmid : mid ≠ []) (hlast : p (mid.getLast hmid) = false) :
    (mid ++ rest).rdropWhile p = mid ++ rest.rdropWhile p := by
  induction rest using List.reverseRecOn with
  | nil =>
      rw [List.append_nil, List.rdropWhile_nil, List.append_nil, List.rdropWhile_eq_self_iff]
      intro _
      simp [hlast]
  | append_singleton rest a ih =>
      rw [← List.append_assoc, List.rdropWhile_concat, List.rdropWhile_concat, ih]
      split
      · rfl
      · rw [List.append_assoc]

/-- A middle that `p` takes neither at its front nor at its end stays. -/
theorem strip_append (hlead : ∀ a ∈ lead, p a = true) (hmid : mid ≠ []) (hfirst : Stops p mid)
    (hlast : p (mid.getLast hmid) = false) :
    strip p (lead ++ (mid ++ rest)) = mid ++ rest.rdropWhile p := by
  have hstops : Stops p (mid ++ rest) := by
    intro a ha
    rw [List.head?_append_of_ne_nil _ hmid] at ha
    exact hfirst a ha
  rw [strip, dropWhile_append hlead hstops, rdropWhile_append hmid hlast]

/-- A list whose stripped list starts with such a middle. -/
theorem exists_of_strip (h : strip p l = mid ++ back) (hmid : mid ≠ [])
    (hlast : p (mid.getLast hmid) = false) :
    ∃ lead rest, l = lead ++ (mid ++ rest) ∧ (∀ a ∈ lead, p a = true) ∧
      rest.rdropWhile p = back := by
  have hdrop : l.dropWhile p = mid ++ (back ++ (l.dropWhile p).rtakeWhile p) := by
    rw [← List.append_assoc, ← h, strip, List.rdropWhile_append_rtakeWhile]
  refine ⟨l.takeWhile p, back ++ (l.dropWhile p).rtakeWhile p, ?_, ?_, ?_⟩
  · rw [← hdrop, List.takeWhile_append_dropWhile]
  · intro a ha
    exact List.mem_takeWhile_imp ha
  · have hagain := h
    rw [strip, hdrop, rdropWhile_append hmid hlast] at hagain
    exact List.append_cancel_left hagain

theorem strip_eq_nil_iff : strip p l = [] ↔ ∀ a ∈ l, p a = true := by
  rw [strip, List.rdropWhile_eq_nil_iff]
  constructor
  · intro h a ha
    rw [← l.takeWhile_append_dropWhile (p := p)] at ha
    rcases List.mem_append.mp ha with ha | ha
    · exact List.mem_takeWhile_imp ha
    · exact h a ha
  · intro h a ha
    exact h a ((List.dropWhile_suffix p).subset ha)

theorem strip_strip (p : α → Bool) (l : List α) : strip p (strip p l) = strip p l := by
  by_cases hnil : strip p l = []
  · rw [hnil]
    rfl
  · have hfirst : Stops p (strip p l) := by
      intro a ha
      obtain ⟨tail, htail⟩ := List.rdropWhile_prefix p (l := l.dropWhile p)
      apply stops_dropWhile p l a
      rw [← htail]
      exact (List.head?_append_of_ne_nil _ hnil).symm ▸ ha
    have hlast : p ((strip p l).getLast hnil) = false := by
      exact Bool.not_eq_true _ ▸ List.rdropWhile_last_not p (l.dropWhile p) hnil
    have h := @strip_append _ p [] (strip p l) [] (by simp) hnil hfirst hlast
    simpa using h

end Strip
