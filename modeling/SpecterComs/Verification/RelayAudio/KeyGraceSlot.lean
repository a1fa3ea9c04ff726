import Mathlib.Data.List.Perm.Subperm
import SpecterComs.Model.RelayAudio.KeyGraceSlot

/-! # A slot owns its keys

Each key that was installed is held or has been freed, once. There is a timer for the
previous key, and no other timer is ever armed.
-/

namespace SpecterComs.KeyGrace

variable {Key : Type} {s t : Slot Key} {k : Key} {inputs : List (Slot.Input Key)}

namespace Slot

def Holds (s : Slot Key) (k : Key) : Prop :=
  s.current = some k ∨ s.previous = some k

def freed (s : Slot Key) : List Key :=
  s.frees.map Freed.key

/-! ## Timers -/

/-- There is one timer if there is a previous key, set for it, and none otherwise. -/
structure Timed (s : Slot Key) : Prop where
  current : s.current = none → s.previous = none
  differ : ∀ k, s.current = some k → s.previous ≠ some k
  idle : s.previous = none → s.timer = none ∧ s.armed = []
  armed : ∀ k, s.previous = some k → ∃ id, s.timer = some id ∧ s.armed = [⟨id, some k⟩]
  fresh : ∀ a ∈ s.armed, a.id < s.nextTimer

theorem timed_empty : (empty : Slot Key).Timed where
  current _ := rfl
  differ _ h := nomatch h
  idle _ := ⟨rfl, rfl⟩
  armed _ h := nomatch h
  fresh _ h := nomatch h

theorem cancelTimer_eq (h : s.Timed) : s.cancelTimer = { s with timer := none, armed := [] } := by
  obtain ⟨current, previous, timer, armed, n, frees, installed⟩ := s
  cases previous with
  | none =>
      obtain ⟨rfl, rfl⟩ := h.idle rfl
      rfl
  | some k =>
      obtain ⟨id, rfl, rfl⟩ := h.armed k rfl
      simp [cancelTimer]

theorem expire_eq (h : s.Timed) :
    s.expire =
      { s with
        previous := none
        timer := none
        armed := []
        frees := s.frees ++ s.previous.toList.map (⟨·, s.current, none⟩) } := by
  rw [expire, cancelTimer_eq h]
  obtain ⟨current, previous, timer, armed, n, frees, installed⟩ := s
  cases previous <;> simp [release]

theorem Timed.expire (h : s.Timed) : s.expire.Timed := by
  rw [expire_eq h]
  exact ⟨fun _ => rfl, fun _ _ => nofun, fun _ => ⟨rfl, rfl⟩, nofun, nofun⟩

/-- A timer fires for the previous key. -/
theorem fire_eq {id : ℕ} (h : s.Timed) (harmed : s.armed.any (·.id = id)) :
    ({ s with armed := s.armed.filter (·.id ≠ id) } : Slot Key).expire = s.expire ∧
      ∃ k, s.previous = some k ∧ s.armed = [⟨id, some k⟩] := by
  obtain ⟨current, previous, timer, armed, n, frees, installed⟩ := s
  cases previous with
  | none =>
      obtain ⟨rfl, rfl⟩ := h.idle rfl
      exact absurd harmed Bool.false_ne_true
  | some k =>
      obtain ⟨id', rfl, rfl⟩ := h.armed k rfl
      obtain rfl : id' = id := by simpa using harmed
      exact ⟨by simp [Slot.expire, cancelTimer], k, rfl, rfl⟩

/-! ## Keys -/

/-- Each installed key is held or has been freed, and none was freed while it was held. -/
structure Keys (s : Slot Key) : Prop where
  owned : ∀ k, k ∈ s.installed ↔ s.Holds k ∨ k ∈ s.freed
  unheld : ∀ k ∈ s.freed, ¬ s.Holds k
  once : s.freed.Nodup
  atFree : ∀ f ∈ s.frees, f.current ≠ some f.key ∧ f.previous ≠ some f.key

theorem keys_empty : (empty : Slot Key).Keys where
  owned k := by simp [empty, Holds, freed]
  unheld _ h := nomatch h
  once := List.nodup_nil
  atFree _ h := nomatch h

/-- The keys that were held and no longer are have been freed just now. -/
theorem Keys.move (h : s.Keys) {fs : List (Freed Key)} (hfrees : t.frees = s.frees ++ fs)
    (hinstalled : ∀ k, k ∈ t.installed ↔ k ∈ s.installed ∨ t.Holds k)
    (hnew : ∀ k, t.Holds k → s.Holds k ∨ k ∉ s.installed)
    (hold : ∀ k, s.Holds k → t.Holds k ∨ k ∈ fs.map Freed.key)
    (hfs : ∀ f ∈ fs, s.Holds f.key ∧ ¬ t.Holds f.key ∧
      f.current ≠ some f.key ∧ f.previous ≠ some f.key)
    (hnodup : (fs.map Freed.key).Nodup) : t.Keys := by
  have hfreed : t.freed = s.freed ++ fs.map Freed.key := by
    rw [freed, hfrees, List.map_append, freed]
  have hgone : ∀ k ∈ fs.map Freed.key, s.Holds k ∧ ¬ t.Holds k := by
    intro k hk
    obtain ⟨f, hf, rfl⟩ := List.mem_map.mp hk
    exact ⟨(hfs f hf).1, (hfs f hf).2.1⟩
  have hkept : ∀ k ∈ s.freed, ¬ t.Holds k := by
    intro k hk hholds
    rcases hnew k hholds with hs | hs
    · exact h.unheld k hk hs
    · exact hs ((h.owned k).mpr (.inr hk))
  refine ⟨fun k => ?_, fun k hk => ?_, ?_, fun f hf => ?_⟩
  · rw [hinstalled, h.owned, hfreed, List.mem_append]
    constructor
    · rintro ((hs | hs) | ht)
      · exact (hold k hs).imp_right .inr
      · exact .inr (.inl hs)
      · exact .inl ht
    · rintro (ht | hs | hs)
      · exact .inr ht
      · exact .inl (.inr hs)
      · exact .inl (.inl (hgone k hs).1)
  · rw [hfreed, List.mem_append] at hk
    rcases hk with hk | hk
    · exact hkept k hk
    · exact (hgone k hk).2
  · rw [hfreed]
    exact h.once.append hnodup fun k hk hk' => h.unheld k hk (hgone k hk').1
  · rw [hfrees, List.mem_append] at hf
    rcases hf with hf | hf
    · exact h.atFree f hf
    · exact (hfs f hf).2.2

theorem Keys.expire (h : s.Keys) (htimed : s.Timed) : s.expire.Keys := by
  rw [expire_eq htimed]
  refine h.move rfl (fun k => ?_) (fun k hk => ?_) (fun k hk => ?_) (fun f hf => ?_) ?_
  · constructor
    · exact .inl
    · rintro (hk | hk | hk)
      · exact hk
      · exact (h.owned k).mpr (.inl (.inl hk))
      · cases hk
  · exact .inl (.inl (hk.resolve_right nofun))
  · rcases hk with hk | hk
    · exact .inl (.inl hk)
    · exact .inr (by simp [hk])
  · obtain ⟨k, hk, rfl⟩ := List.mem_map.mp hf
    rw [Option.mem_toList] at hk
    have hne : s.current ≠ some k := fun hc => htimed.differ k hc hk
    exact ⟨.inr hk, fun hholds => hne (hholds.resolve_right nofun), hne, nofun⟩
  · cases s.previous <;> simp

/-! ## Installing and clearing -/

variable [DecidableEq Key]

instance (s : Slot Key) (k : Key) : Decidable (s.Holds k) :=
  inferInstanceAs (Decidable (_ ∨ _))

theorem clear_eq (h : s.Timed) :
    s.clear =
      { s with
        current := none
        previous := none
        timer := none
        armed := []
        frees := s.frees ++ (s.current.toList ++ s.previous.toList).map (⟨·, none, none⟩) } := by
  rw [clear, cancelTimer_eq h]
  obtain ⟨current, previous, timer, armed, n, frees, installed⟩ := s
  cases current with
  | none =>
      obtain rfl : previous = none := h.current rfl
      simp [release]
  | some c =>
      cases previous with
      | none => simp [release]
      | some p =>
          have hne : p ≠ c := fun hpc => h.differ c rfl (congrArg some hpc)
          simp [release, hne]

theorem install_eq (h : s.Timed) (hk : some k ≠ s.current) :
    s.install (some k) =
      { s with
        current := some k
        previous := s.current
        timer := s.current.map fun _ => s.nextTimer
        armed := s.current.toList.map (⟨s.nextTimer, some ·⟩)
        nextTimer := if s.current.isSome then s.nextTimer + 1 else s.nextTimer
        frees := s.frees ++ (s.previous.toList.filter (· ≠ k)).map (⟨·, some k, s.current⟩)
        installed := if k ∈ s.installed then s.installed else s.installed ++ [k] } := by
  obtain ⟨current, previous, timer, armed, n, frees, installed⟩ := s
  have hk' : some k ≠ current := hk
  cases previous with
  | none =>
      obtain ⟨rfl, rfl⟩ := h.idle rfl
      cases current <;> simp [install, hk', release, cancelTimer, setTimer]
  | some p =>
      obtain ⟨id, rfl, rfl⟩ := h.armed p rfl
      cases current with
      | none => exact absurd (h.current rfl) (Option.some_ne_none p)
      | some c =>
          by_cases hpk : p = k
          · simp [install, hk', hpk, cancelTimer, setTimer]
          · simp [install, hk', hpk, release, cancelTimer, setTimer]

theorem Timed.clear (h : s.Timed) : s.clear.Timed := by
  rw [clear_eq h]
  exact ⟨fun _ => rfl, fun _ _ => nofun, fun _ => ⟨rfl, rfl⟩, nofun, nofun⟩

theorem Timed.install (h : s.Timed) (next : Option Key) : (s.install next).Timed := by
  cases next with
  | none => exact h.clear
  | some k =>
      by_cases hk : some k = s.current
      · simpa [Slot.install, hk] using h
      · rw [install_eq h hk]
        refine ⟨nofun, ?_, ?_, ?_, ?_⟩
        · intro c hc hprevious
          exact hk (hc.trans hprevious.symm)
        · intro hprevious
          have hcurrent : s.current = none := hprevious
          simp [hcurrent]
        · intro p hprevious
          have hcurrent : s.current = some p := hprevious
          simp [hcurrent]
        · intro a ha
          obtain ⟨p, hp, rfl⟩ := List.mem_map.mp ha
          rw [Option.mem_toList] at hp
          simp [hp]

theorem Keys.clear (h : s.Keys) (htimed : s.Timed) : s.clear.Keys := by
  rw [clear_eq htimed]
  refine h.move rfl (fun k => ?_) (fun k hk => ?_) (fun k hk => ?_) (fun f hf => ?_) ?_
  · constructor
    · exact .inl
    · rintro (hk | hk | hk)
      · exact hk
      · cases hk
      · cases hk
  · rcases hk with hk | hk
    · cases hk
    · cases hk
  · refine .inr ?_
    rcases hk with hk | hk
    · simp [hk]
    · simp [hk]
  · obtain ⟨k, hk, rfl⟩ := List.mem_map.mp hf
    rw [List.mem_append, Option.mem_toList, Option.mem_toList] at hk
    refine ⟨hk, ?_, nofun, nofun⟩
    rintro (hk | hk)
    · cases hk
    · cases hk
  · cases hcurrent : s.current with
    | none => simp [htimed.current hcurrent]
    | some c =>
        cases hprevious : s.previous with
        | none => simp
        | some p =>
            have hne : c ≠ p := by
              rintro rfl
              exact htimed.differ c hcurrent hprevious
            simp [hne]

theorem Keys.install (h : s.Keys) (htimed : s.Timed) {next : Option Key}
    (hnext : s.mayInstall next) : (s.install next).Keys := by
  cases next with
  | none => exact h.clear htimed
  | some k =>
      by_cases hk : some k = s.current
      · simpa [Slot.install, hk] using h
      · rw [install_eq htimed hk]
        have hmay : s.previous = some k ∨ k ∉ s.installed := by
          simp only [mayInstall, hk, false_or, decide_eq_true_eq] at hnext
          exact hnext.imp_left Eq.symm
        refine h.move rfl (fun j => ?_) (fun j hj => ?_) (fun j hj => ?_) (fun f hf => ?_) ?_
        · have hcurrent : s.current = some j → j ∈ s.installed :=
            fun hj => (h.owned j).mpr (.inl (.inl hj))
          have hmem : (j ∈ if k ∈ s.installed then s.installed else s.installed ++ [k]) ↔
              j ∈ s.installed ∨ k = j := by
            split
            · rename_i hkmem
              exact ⟨.inl, fun hj => hj.elim id fun hj => hj ▸ hkmem⟩
            · simp [eq_comm]
          rw [hmem, Holds, Option.some.injEq]
          constructor
          · exact Or.imp_right .inl
          · rintro (hj | hj | hj)
            · exact .inl hj
            · exact .inr hj
            · exact .inl (hcurrent hj)
        · rcases hj with hj | hj
          · obtain rfl := Option.some.inj hj
            exact hmay.imp_left .inr
          · exact .inl (.inl hj)
        · rcases hj with hj | hj
          · exact .inl (.inr hj)
          · by_cases hjk : j = k
            · exact .inl (.inl (congrArg some hjk.symm))
            · exact .inr (by simp [hj, hjk])
        · obtain ⟨p, hp, rfl⟩ := List.mem_map.mp hf
          obtain ⟨hp, hpk⟩ := List.mem_filter.mp hp
          rw [Option.mem_toList] at hp
          have hne : s.current ≠ some p := fun hc => htimed.differ p hc hp
          have hkp : some k ≠ some p := fun hkp => by simp [Option.some.inj hkp] at hpk
          exact ⟨.inr hp, fun hholds => hholds.elim hkp hne, hkp, hne⟩
        · cases s.previous with
          | none => simp
          | some p =>
              by_cases hpk : p = k
              · simp [hpk]
              · simp [hpk]

/-! ## Runs -/

structure Inv (s : Slot Key) : Prop where
  timed : s.Timed
  keys : s.Keys

theorem Inv.step (h : s.Inv) {input : Input Key} (hstep : s.step input = some t) : t.Inv := by
  cases input with
  | install next =>
      obtain ⟨hnext, ht⟩ := Option.ite_none_right_eq_some.mp hstep
      obtain rfl := Option.some.inj ht
      exact ⟨h.timed.install next, h.keys.install h.timed hnext⟩
  | expire =>
      obtain rfl := Option.some.inj hstep
      exact ⟨h.timed.expire, h.keys.expire h.timed⟩
  | clear =>
      obtain rfl := Option.some.inj hstep
      exact ⟨h.timed.clear, h.keys.clear h.timed⟩
  | fire id =>
      obtain ⟨harmed, ht⟩ := Option.ite_none_right_eq_some.mp hstep
      obtain rfl := (Option.some.inj ht).symm.trans (fire_eq h.timed harmed).1
      exact ⟨h.timed.expire, h.keys.expire h.timed⟩

theorem inv_run (h : (graceSlot Key).Run .empty inputs s) : s.Inv :=
  h.invariant (fun _ _ _ hs hstep => hs.step hstep) ⟨timed_empty, keys_empty⟩

/-- The timers that were set since there were `n`. -/
structure Since (n : ℕ) (s : Slot Key) : Prop where
  next : n ≤ s.nextTimer
  armed : ∀ a ∈ s.armed, n ≤ a.id

theorem Since.step {n : ℕ} (h : s.Since n) (htimed : s.Timed) {input : Input Key}
    (hstep : s.step input = some t) : t.Since n := by
  have hexpire : s.expire.Since n := by
    rw [expire_eq htimed]
    exact ⟨h.next, nofun⟩
  have hclear : s.clear.Since n := by
    rw [clear_eq htimed]
    exact ⟨h.next, nofun⟩
  cases input with
  | install next =>
      obtain ⟨-, ht⟩ := Option.ite_none_right_eq_some.mp hstep
      obtain rfl := Option.some.inj ht
      cases next with
      | none => exact hclear
      | some k =>
          by_cases hk : some k = s.current
          · simpa [Slot.install, hk] using h
          · rw [install_eq htimed hk]
            constructor
            · dsimp only
              split
              · exact Nat.le_succ_of_le h.next
              · exact h.next
            · intro a ha
              obtain ⟨p, -, rfl⟩ := List.mem_map.mp ha
              exact h.next
  | expire =>
      obtain rfl := Option.some.inj hstep
      exact hexpire
  | clear =>
      obtain rfl := Option.some.inj hstep
      exact hclear
  | fire id =>
      obtain ⟨harmed, ht⟩ := Option.ite_none_right_eq_some.mp hstep
      obtain rfl := (Option.some.inj ht).symm.trans (fire_eq htimed harmed).1
      exact hexpire

/-- What a slot owes to its keys. -/
structure Owns (s : Slot Key) : Prop where
  /-- No key is freed while it is held. -/
  atFree : ∀ f ∈ s.frees, f.current ≠ some f.key ∧ f.previous ≠ some f.key
  freed : ∀ k ∈ s.installed, s.freed.count k = if s.Holds k then 0 else 1
  two : ∀ keys : List Key, keys.Nodup → (∀ k ∈ keys, k ∈ s.installed ∧ k ∉ s.freed) →
    keys.length ≤ 2
  timer : ∀ k, s.previous = some k → ∃ id, s.timer = some id ∧ ⟨id, some k⟩ ∈ s.armed
  /-- A timer frees the key for which it was set. -/
  fires : ∀ id t, s.step (.fire id) = some t →
    ∃ k, ⟨id, some k⟩ ∈ s.armed ∧ t.frees = s.frees ++ [⟨k, s.current, none⟩]

/-- Nothing is held, and whatever timer is armed later was set later. -/
structure Over (s : Slot Key) : Prop where
  holds : ∀ k, ¬ s.Holds k
  armed : s.armed = []
  later : ∀ inputs t, (graceSlot Key).Run s inputs t → ∀ a ∈ t.armed, s.nextTimer ≤ a.id

theorem Inv.owns (h : s.Inv) : s.Owns where
  atFree := h.keys.atFree
  freed k hk := by
    split
    · rename_i hholds
      exact List.count_eq_zero.mpr fun hfreed => h.keys.unheld k hfreed hholds
    · rename_i hholds
      exact List.count_eq_one_of_mem h.keys.once (((h.keys.owned k).mp hk).resolve_left hholds)
  two keys hnodup hkeys := by
    have hsub : keys ⊆ s.current.toList ++ s.previous.toList := by
      intro k hk
      obtain ⟨hinstalled, hfreed⟩ := hkeys k hk
      rw [List.mem_append, Option.mem_toList, Option.mem_toList]
      exact ((h.keys.owned k).mp hinstalled).resolve_right hfreed
    have hlength := (List.Nodup.subperm hnodup hsub).length_le
    have hheld : (s.current.toList ++ s.previous.toList).length ≤ 2 := by
      cases s.current <;> cases s.previous <;> simp
    exact Nat.le_trans hlength hheld
  timer k hk := by
    obtain ⟨id, htimer, harmed⟩ := h.timed.armed k hk
    exact ⟨id, htimer, by simp [harmed]⟩
  fires id t hstep := by
    obtain ⟨harmed, ht⟩ := Option.ite_none_right_eq_some.mp hstep
    obtain ⟨hexpire, k, hk, heq⟩ := fire_eq h.timed harmed
    obtain rfl := (Option.some.inj ht).symm.trans hexpire
    refine ⟨k, by simp [heq], ?_⟩
    rw [expire_eq h.timed]
    simp [hk]

theorem Inv.isOver (h : s.Inv) : s.clear.Over := by
  have hclear : s.clear.Inv := ⟨h.timed.clear, h.keys.clear h.timed⟩
  have heq := clear_eq h.timed
  refine ⟨fun k hk => ?_, congrArg Slot.armed heq, fun inputs t hrun => ?_⟩
  · rw [heq] at hk
    rcases hk with hk | hk
    · cases hk
    · cases hk
  · have hsince : t.Inv ∧ t.Since s.clear.nextTimer := by
      refine hrun.invariant (P := fun t => t.Inv ∧ t.Since s.clear.nextTimer)
        (fun _ _ _ hs hstep => ⟨hs.1.step hstep, hs.2.step hs.1.timed hstep⟩)
        ⟨hclear, Nat.le_refl _, fun a ha => ?_⟩
      rw [congrArg Slot.armed heq] at ha
      cases ha
    exact hsince.2.armed

end Slot

variable [DecidableEq Key]

/-- After every sequence of calls and timers the slot owns its keys, and a call of `clear` ends
that. -/
theorem slot_owns_keys (h : (graceSlot Key).Run .empty inputs s) : s.Owns ∧ s.clear.Over :=
  ⟨(Slot.inv_run h).owns, (Slot.inv_run h).isOver⟩

/-- A rekey, a swap back, another rekey, and the timer of the last one. -/
theorem slot_owns_keys_swapped :
    ∃ s, (graceSlot ℕ).Run .empty
      [.install (some 1), .install (some 2), .install (some 1), .install (some 3), .fire 2] s ∧
        s.freed = [2, 1] ∧ s.Owns ∧ s.clear.Over := by
  have hrun : (graceSlot ℕ).Run .empty
      [.install (some 1), .install (some 2), .install (some 1), .install (some 3), .fire 2] _ :=
    StepSystem.exec_eq_some_iff.mp rfl
  exact ⟨_, hrun, rfl, slot_owns_keys hrun⟩

end SpecterComs.KeyGrace
