import SpecterComs.Library.AntiReplay
import SpecterComs.Model.RelayAudio
import Mathlib.Order.Bounds.Basic

/-! # The bitmap window is a sliding anti-replay filter -/

namespace SpecterComs.RelayAudio.ReplayWindow

/-! ## Single bits -/

variable {i seq t s : ℕ}

theorem and_shiftLeft_one_ne_zero {b : BitVec 128} (hi : i < 128) :
    b &&& (1#128 <<< i) ≠ 0#128 ↔ b.getLsbD i = true := by
  constructor
  · intro h
    by_contra hbit
    apply h
    apply BitVec.eq_of_getLsbD_eq
    intro j hj
    simp only [BitVec.getLsbD_and, BitVec.getLsbD_shiftLeft, BitVec.getLsbD_one,
      BitVec.getLsbD_zero, hj, decide_true, Bool.true_and]
    by_cases hij : j = i
    · subst j
      simp [Bool.eq_false_iff.mpr hbit]
    · have hone : ¬ (j < i) → ¬ (j - i = 0) := by omega
      by_cases hlt : j < i
      · simp [hlt]
      · simp [hlt, hone hlt]
  · intro hbit hzero
    have h : (b &&& (1#128 <<< i)).getLsbD i = true := by
      simp only [BitVec.getLsbD_and, hbit, BitVec.getLsbD_shiftLeft, BitVec.getLsbD_one, hi]
      simp
    rw [hzero, BitVec.getLsbD_zero] at h
    cases h

theorem getLsbD_or_shiftLeft_one {b : BitVec 128} {j : ℕ} (hj : j < 128) :
    (b ||| (1#128 <<< i)).getLsbD j = true ↔ b.getLsbD j = true ∨ j = i := by
  simp only [BitVec.getLsbD_or, BitVec.getLsbD_shiftLeft, BitVec.getLsbD_one, hj, decide_true,
    Bool.true_and, Bool.or_eq_true, Bool.and_eq_true, Bool.not_eq_eq_eq_not, Bool.not_true,
    decide_eq_false_iff_not, decide_eq_true_eq]
  constructor
  · rintro (h | ⟨h₁, h₂, h₃⟩)
    · exact Or.inl h
    · exact Or.inr (by omega)
  · rintro (h | h)
    · exact Or.inl h
    · exact Or.inr (by omega)

/-! ## Refused sequence numbers -/

/-- The sequence numbers the window refuses. -/
def refused (w : ReplayWindow) : Set ℕ :=
  {seq | w.check seq = .error .replay}

variable {w : ReplayWindow}

/-- A check either passes or reports a replay. -/
theorem check_eq_ok_iff : w.check seq = .ok () ↔ seq ∉ w.refused := by
  simp only [refused, Set.mem_ofPred_eq, check]
  split
  · simp
  · split
    · simp
    · split <;> simp

theorem mem_refused :
    seq ∈ w.refused ↔ seq ≤ w.highest ∧
      (replayWindow ≤ w.highest - seq ∨ w.bitmap.getLsbD (w.highest - seq) = true) := by
  simp only [refused, Set.mem_ofPred_eq, check]
  by_cases hlt : w.highest < seq
  · simp [hlt]
  · rw [if_neg hlt]
    have hle : seq ≤ w.highest := Nat.le_of_not_lt hlt
    by_cases hfar : replayWindow ≤ w.highest - seq
    · simp [hfar, hle]
    · have hback : w.highest - seq < 128 := by
        simpa [replayWindow] using hfar
      rw [if_neg hfar]
      have hbit := and_shiftLeft_one_ne_zero (b := w.bitmap) hback
      by_cases hseen : w.bitmap.getLsbD (w.highest - seq) = true
      · simp [hbit.mpr hseen, hle, hseen]
      · have hclear : ¬ (w.bitmap &&& (1#128 <<< (w.highest - seq)) ≠ 0#128) :=
          fun h => hseen (hbit.mp h)
        rw [if_neg hclear]
        simp [hfar, hseen]

theorem le_highest_of_mem_refused (h : seq ∈ w.refused) : seq ≤ w.highest :=
  (mem_refused.mp h).1

@[simp] theorem highest_accept (w : ReplayWindow) (seq : ℕ) :
    (w.accept seq).highest = max w.highest seq := by
  unfold ReplayWindow.accept
  split
  · rename_i hlt
    exact (max_eq_right hlt.le).symm
  · rename_i hlt
    exact (max_eq_left (Nat.le_of_not_lt hlt)).symm

/-! ## The three shapes of an acceptance -/

/-- A number at or below the highest one sets its own bit. -/
theorem accept_of_le (h : t ≤ w.highest) :
    w.accept t = ⟨w.highest, w.bitmap ||| (1#128 <<< (w.highest - t))⟩ :=
  if_neg (Nat.not_lt.mpr h)

/-- A jump past the whole window forgets it. -/
theorem accept_of_far (h : w.highest < t) (hfar : replayWindow ≤ t - w.highest) :
    w.accept t = ⟨t, 1#128⟩ := by
  simp [ReplayWindow.accept, h, hfar]

/-- A smaller jump moves every bit up by the shift. -/
theorem accept_of_near (h : w.highest < t) (hnear : ¬ replayWindow ≤ t - w.highest) :
    w.accept t = ⟨t, w.bitmap <<< (t - w.highest) ||| 1#128⟩ := by
  simp [ReplayWindow.accept, h, hnear]

private theorem mem_refused_accept_of_le (h : t ≤ w.highest) :
    s ∈ (w.accept t).refused ↔ s ∈ w.refused ∨ s = t ∨ s + replayWindow ≤ t := by
  rw [mem_refused, mem_refused, accept_of_le h]
  have hbit : w.highest - s < 128 → ((w.bitmap ||| 1#128 <<< (w.highest - t)).getLsbD
      (w.highest - s) = true ↔
        w.bitmap.getLsbD (w.highest - s) = true ∨ w.highest - s = w.highest - t) :=
    fun hback => getLsbD_or_shiftLeft_one hback
  by_cases hback : w.highest - s < 128
  · simp only [replayWindow, hbit hback]
    by_cases hseen : w.bitmap.getLsbD (w.highest - s) = true
    · simp only [hseen, true_or, or_true, and_true]
      omega
    · simp only [hseen, Bool.false_eq_true, false_or, or_false]
      omega
  · simp only [replayWindow]
    have hfar : 128 ≤ w.highest - s := Nat.le_of_not_lt hback
    simp only [hfar, true_or, and_true]
    omega

private theorem mem_refused_accept_of_far (h : w.highest < t)
    (hfar : replayWindow ≤ t - w.highest) :
    s ∈ (w.accept t).refused ↔ s ∈ w.refused ∨ s = t ∨ s + replayWindow ≤ t := by
  rw [mem_refused, mem_refused, accept_of_far h hfar]
  have hbit : (1#128).getLsbD (t - s) = true ↔ t - s = 0 := by
    simp [BitVec.getLsbD_one]
  simp only [replayWindow, hbit] at hfar ⊢
  by_cases hs : s ≤ w.highest
  · have hold : s + 128 ≤ t := by omega
    simp only [hold, or_true, iff_true]
    omega
  · simp only [hs, false_and, false_or]
    omega

private theorem mem_refused_accept_of_near (h : w.highest < t)
    (hnear : ¬ replayWindow ≤ t - w.highest) :
    s ∈ (w.accept t).refused ↔ s ∈ w.refused ∨ s = t ∨ s + replayWindow ≤ t := by
  rw [mem_refused, mem_refused, accept_of_near h hnear]
  by_cases hback : t - s < 128
  · have hbit : (w.bitmap <<< (t - w.highest) ||| 1#128).getLsbD (t - s) = true ↔
        (t - w.highest ≤ t - s ∧ w.bitmap.getLsbD (t - s - (t - w.highest)) = true) ∨
          t - s = 0 := by
      have h₁ := getLsbD_or_shiftLeft_one (b := w.bitmap <<< (t - w.highest)) (i := 0) hback
      rw [BitVec.shiftLeft_zero] at h₁
      rw [h₁, BitVec.getLsbD_shiftLeft]
      simp [hback]
    simp only [replayWindow, hbit] at hnear ⊢
    by_cases hs : s ≤ w.highest
    · -- the bit of `s` sits at `w.highest - s` before the shift
      have hidx : t - s - (t - w.highest) = w.highest - s := by omega
      rw [hidx]
      by_cases hseen : w.bitmap.getLsbD (w.highest - s) = true
      · simp only [hseen, or_true, and_true]
        omega
      · simp only [hseen, Bool.false_eq_true, and_false, or_false, false_or]
        omega
    · simp only [hs, false_and, false_or]
      omega
  · simp only [replayWindow] at hnear ⊢
    have hfar : 128 ≤ t - s := Nat.le_of_not_lt hback
    simp only [hfar, true_or, and_true]
    omega

/-- Accepting a number moves the bitmap exactly as it moves the set of refused
numbers, whatever the shift. -/
theorem refused_accept (w : ReplayWindow) (t : ℕ) :
    (w.accept t).refused = AntiReplay.accept replayWindow w.refused t := by
  ext s
  rw [AntiReplay.mem_accept]
  by_cases hlt : w.highest < t
  · by_cases hfar : replayWindow ≤ t - w.highest
    · exact mem_refused_accept_of_far hlt hfar
    · exact mem_refused_accept_of_near hlt hfar
  · exact mem_refused_accept_of_le (Nat.le_of_not_lt hlt)

theorem mem_refused_accept_self (w : ReplayWindow) (seq : ℕ) : seq ∈ (w.accept seq).refused := by
  rw [refused_accept]
  exact AntiReplay.mem_accept_self

/-- Whatever is accepted next, a refused number stays refused. -/
theorem refused_subset_accept (w : ReplayWindow) (seq : ℕ) :
    w.refused ⊆ (w.accept seq).refused := by
  rw [refused_accept]
  exact AntiReplay.subset_accept

/-- A resumed window refuses everything up to the retired mark. -/
theorem refused_resumed (highest : ℕ) : (resumed highest).refused = {s | s ≤ highest} := by
  ext s
  rw [mem_refused]
  simp only [resumed, Set.mem_ofPred_eq, and_iff_left_iff_imp]
  intro _
  by_cases hback : highest - s < 128
  · right
    rw [BitVec.getLsbD_allOnes]
    exact decide_eq_true hback
  · left
    simpa [replayWindow] using hback

end SpecterComs.RelayAudio.ReplayWindow

/-! ## A window refuses the set of numbers it should

Whatever is checked and accepted, a window refuses the numbers that were accepted, those up to the
mark it resumed from and those that have fallen out, and its arithmetic never panics.
-/

namespace SpecterComs.RelayAudio

namespace ReplayWindow

variable {w w' : ReplayWindow} {seq : ℕ}

/-! ## Arithmetic that cannot panic -/

theorem subU64_eq {a b : ℕ} (h : b ≤ a) : subU64 a b = some (a - b) :=
  if_pos h

theorem shlU128_eq {x : BitVec 128} {amount : ℕ} (h : amount < 128) :
    shlU128 x amount = some (x <<< amount) :=
  if_pos h

theorem checkedCheck_eq (w : ReplayWindow) (seq : ℕ) :
    w.checkedCheck seq = some (w.check seq) := by
  unfold checkedCheck check
  by_cases hlt : w.highest < seq
  · rw [if_pos hlt, if_pos hlt]
  · rw [if_neg hlt, if_neg hlt, subU64_eq (Nat.le_of_not_lt hlt)]
    simp only [Option.bind_eq_bind, Option.bind_some, Option.pure_def]
    by_cases hfar : replayWindow ≤ w.highest - seq
    · rw [if_pos hfar, if_pos hfar]
    · rw [if_neg hfar, if_neg hfar, shlU128_eq (Nat.lt_of_not_le hfar)]
      simp only [Option.bind_some]
      split <;> rfl

/-- A number that passed its check is at most 127 below the highest one. -/
theorem back_lt_of_check (h : w.check seq = .ok ()) (hle : seq ≤ w.highest) :
    w.highest - seq < 128 := by
  have hrefused := check_eq_ok_iff.mp h
  rw [mem_refused, not_and_or, not_or] at hrefused
  rcases hrefused with habove | ⟨hnear, -⟩
  · exact absurd hle habove
  · exact Nat.lt_of_not_le hnear

theorem checkedAccept_eq (h : w.check seq = .ok ()) :
    w.checkedAccept seq = some (w.accept seq) := by
  unfold checkedAccept accept
  by_cases hlt : w.highest < seq
  · rw [if_pos hlt, if_pos hlt, subU64_eq hlt.le]
    simp only [Option.bind_eq_bind, Option.bind_some, Option.pure_def]
    by_cases hfar : replayWindow ≤ seq - w.highest
    · rw [if_pos hfar, if_pos hfar]
    · rw [if_neg hfar, if_neg hfar, shlU128_eq (Nat.lt_of_not_le hfar)]
      rfl
  · have hle := Nat.le_of_not_lt hlt
    rw [if_neg hlt, if_neg hlt, subU64_eq hle]
    simp only [Option.bind_eq_bind, Option.bind_some, Option.pure_def]
    rw [shlU128_eq (back_lt_of_check h hle)]
    rfl

/-! ## Runs of calls -/

/-- How a window comes about. -/
inductive Start
  | fresh (seq : ℕ)
  | resumed (highest : ℕ)
  deriving DecidableEq, Repr

namespace Start

def window : Start → ReplayWindow
  | fresh seq => ReplayWindow.fresh seq
  | resumed highest => ReplayWindow.resumed highest

/-- A fresh window accepts its own number first. -/
def calls : Start → List WindowCall
  | fresh seq => [.accept seq]
  | resumed _ => []

/-- The numbers that count as seen from the start. -/
def mark : Start → Set ℕ
  | fresh _ => ∅
  | resumed highest => {s | s ≤ highest}

def first : Start → ℕ
  | fresh seq => seq
  | resumed highest => highest

end Start

/-- The numbers refused are the accepted ones, the marked ones and those that have fallen out. -/
structure Refines (accepted mark : Set ℕ) (first : ℕ) (w : ReplayWindow) : Prop where
  refused : ∀ s, s ∈ w.refused ↔ s ∈ accepted ∨ s ∈ mark ∨ s + replayWindow ≤ w.highest
  highest : IsGreatest (insert first accepted) w.highest

variable {accepted mark : Set ℕ} {first : ℕ} {start : Start}
  {calls : List WindowCall}

theorem refines_start (start : Start) : Refines ∅ start.mark start.first start.window := by
  have hhighest : start.window.highest = start.first := by cases start <;> rfl
  constructor
  · intro s
    cases start with
    | fresh seq =>
        rw [mem_refused]
        simp only [Start.window, Start.mark, ReplayWindow.fresh, Set.mem_empty_iff_false,
          BitVec.getLsbD_zero, Bool.false_eq_true, or_false, false_or, replayWindow]
        omega
    | resumed highest =>
        change s ∈ (ReplayWindow.resumed highest).refused ↔ _
        rw [refused_resumed]
        simp only [Start.window, Start.mark, ReplayWindow.resumed, Set.mem_ofPred_eq,
          Set.mem_empty_iff_false, false_or, replayWindow]
        omega
  · rw [hhighest]
    simp

theorem Refines.accept (h : Refines accepted mark first w) (seq : ℕ) :
    Refines (insert seq accepted) mark first (w.accept seq) := by
  constructor
  · intro s
    rw [refused_accept, AntiReplay.mem_accept, h.refused, highest_accept, Set.mem_insert_iff]
    have hout : s + replayWindow ≤ max w.highest seq ↔
        s + replayWindow ≤ w.highest ∨ s + replayWindow ≤ seq := le_max_iff
    rw [hout]
    tauto
  · rw [highest_accept, Set.insert_comm, max_comm]
    exact h.highest.insert seq

theorem Refines.run (h : Refines accepted mark first w) (hrun : windowCalls.Run w calls w') :
    Refines ({s | .accept s ∈ calls} ∪ accepted) mark first w' := by
  induction hrun generalizing accepted with
  | nil w => simpa using h
  | @cons w u w' call calls hstep hrest ih =>
      cases call with
      | check seq =>
          obtain rfl := Option.some.inj hstep
          have hcalls : {s | .accept s ∈ WindowCall.check seq :: calls} =
              {s | .accept s ∈ calls} := by simp
          rw [hcalls]
          exact ih h
      | accept seq =>
          obtain ⟨-, hstep⟩ := Option.ite_none_right_eq_some.mp hstep
          obtain rfl := Option.some.inj hstep
          have hcalls : {s | .accept s ∈ WindowCall.accept seq :: calls} ∪ accepted =
              {s | .accept s ∈ calls} ∪ insert seq accepted := by
            ext s
            simp only [List.mem_cons, WindowCall.accept.injEq, Set.mem_union, Set.mem_ofPred_eq,
              Set.mem_insert_iff]
            tauto
          rw [hcalls]
          exact ih (h.accept seq)

/-- In a debug build the call ends, and it does what it does in a release build. -/
def Completes (w : ReplayWindow) (w' : ReplayWindow) : WindowCall → Prop
  | .check seq => w.checkedCheck seq = some (w.check seq) ∧ w' = w
  | .accept seq => w.checkedAccept seq = some w'

theorem completes_of_step {call : WindowCall} (h : windowCalls.step w call = some w') :
    Completes w w' call := by
  cases call with
  | check seq => exact ⟨checkedCheck_eq w seq, (Option.some.inj h).symm⟩
  | accept seq =>
      obtain ⟨hcheck, h⟩ := Option.ite_none_right_eq_some.mp h
      rw [← Option.some.inj h]
      exact checkedAccept_eq hcheck

/-- After any calls a number fails its check exactly if it was accepted, or marked when the window
was resumed, or is `replayWindow` or more below the highest one; and no call panics. -/
theorem window_refines_set (h : windowCalls.Run start.window (start.calls ++ calls) w) :
    (∀ seq, w.check seq ≠ .ok () ↔ .accept seq ∈ start.calls ++ calls ∨ seq ∈ start.mark ∨
        seq + replayWindow ≤ w.highest) ∧
      IsGreatest (insert start.first {seq | .accept seq ∈ start.calls ++ calls}) w.highest ∧
      ∀ u call u', windowCalls.Passes start.window (start.calls ++ calls) u call u' →
        Completes u u' call := by
  have hrefines := (refines_start start).run h
  rw [Set.union_empty] at hrefines
  refine ⟨fun seq => ?_, hrefines.highest, fun u call u' hpass => completes_of_step hpass.step⟩
  rw [ne_eq, check_eq_ok_iff, not_not]
  exact hrefines.refused seq

/-- After a jump of 127 the first number is still in the window, and still refused. -/
theorem window_refines_set_jump :
    (((fresh 10).accept 10).accept 137).check 10 ≠ .ok () := by
  have hrun : windowCalls.Run (Start.fresh 10).window
      ((Start.fresh 10).calls ++ [.accept 137, .check 10])
      (((fresh 10).accept 10).accept 137) := StepSystem.exec_eq_some_iff.mp rfl
  exact ((window_refines_set hrun).1 10).mpr (.inl (by decide))

end ReplayWindow

end SpecterComs.RelayAudio
