import SpecterComs.Model.Audio.Resample
import Mathlib.Tactic.Positivity

/-! # Resampling in chunks

However a stream is cut into calls, output `k` is read at `k` steps into the stream.
-/

namespace SpecterComs.Resample

variable {s x : ℚ} {xs input out : List Int16} {prev : Int16} {k n fuel : ℕ}

/-! ## Rounding -/

theorem le_round {z : ℤ} (h : (z : ℚ) ≤ x) : z ≤ round x := by
  unfold round
  split
  · apply Int.le_floor.mpr
    linarith
  · apply Int.le_ceil_iff.mpr
    linarith

theorem round_le {z : ℤ} (h : x ≤ z) : round x ≤ z := by
  unfold round
  split
  · apply Int.floor_le_iff.mpr
    linarith
  · apply Int.ceil_le.mpr
    linarith

theorem toInt_interpolate {s0 s1 : Int16} {t : ℚ} {lo hi : ℤ} (hlo : -2 ^ 15 ≤ lo)
    (hhi : hi < 2 ^ 15) (hle : (lo : ℚ) ≤ s0.toInt + t * (s1.toInt - s0.toInt))
    (hge : s0.toInt + t * (s1.toInt - s0.toInt) ≤ (hi : ℚ)) :
    lo ≤ (interpolate s0 s1 t).toInt ∧ (interpolate s0 s1 t).toInt ≤ hi := by
  have h0 := le_round hle
  have h1 := round_le hge
  have hclamp : clamp (round (s0.toInt + t * (s1.toInt - s0.toInt))) =
      round (s0.toInt + t * (s1.toInt - s0.toInt)) := by
    unfold clamp
    omega
  simp only [interpolate, hclamp]
  rw [Int16.toInt_ofInt_of_le (by omega) (by omega)]
  exact ⟨h0, h1⟩

/-- An output lies between its two neighbours. -/
theorem interpolate_between (s0 s1 : Int16) {t : ℚ} (h0 : 0 ≤ t) (h1 : t ≤ 1) :
    min s0.toInt s1.toInt ≤ (interpolate s0 s1 t).toInt ∧
      (interpolate s0 s1 t).toInt ≤ max s0.toInt s1.toInt := by
  have hlo0 := s0.le_toInt
  have hlo1 := s1.le_toInt
  have hhi0 := s0.toInt_lt
  have hhi1 := s1.toInt_lt
  rcases Int.le_total s0.toInt s1.toInt with hle | hle
  · have hdiff : (0 : ℚ) ≤ s1.toInt - s0.toInt := sub_nonneg.mpr (Int.cast_le.mpr hle)
    rw [min_eq_left hle, max_eq_right hle]
    apply toInt_interpolate hlo0 hhi1
    · linarith [mul_nonneg h0 hdiff]
    · linarith [mul_le_of_le_one_left hdiff h1]
  · have hdiff : (0 : ℚ) ≤ s0.toInt - s1.toInt := sub_nonneg.mpr (Int.cast_le.mpr hle)
    rw [min_eq_right hle, max_eq_left hle]
    apply toInt_interpolate hlo1 hhi0
    · linarith [mul_le_of_le_one_left hdiff h1]
    · linarith [mul_nonneg h0 hdiff]

/-! ## The outputs of a stream -/

/-- How many outputs lie between two of the first `n` samples. -/
def count (s : ℚ) (n : ℕ) : ℕ :=
  ⌈((n : ℚ) - 1) / s⌉₊

def outputAt (s : ℚ) (xs : List Int16) (k : ℕ) : Int16 :=
  interpolate (xs[⌊k * s⌋₊]?.getD 0) (xs[⌊k * s⌋₊ + 1]?.getD 0) (Int.fract (k * s))

def outputs (s : ℚ) (xs : List Int16) : List Int16 :=
  (List.range (count s xs.length)).map (outputAt s xs)

theorem floor_eq (hs : 0 < s) (k : ℕ) : ⌊(k : ℚ) * s⌋ = (⌊(k : ℚ) * s⌋₊ : ℤ) :=
  (Int.natCast_floor_eq_floor (by positivity)).symm

theorem lt_count (hs : 0 < s) : k < count s n ↔ ⌊(k : ℚ) * s⌋₊ + 1 < n := by
  rw [count, Nat.lt_ceil, lt_div_iff₀ hs, ← Int.ofNat_lt, Int.natCast_add, ← floor_eq hs,
    ← lt_sub_iff_add_lt, Int.floor_lt]
  norm_num

theorem count_mono (hs : 0 < s) {m : ℕ} (h : n ≤ m) : count s n ≤ count s m := by
  apply Nat.ceil_mono
  have hcast : (n : ℚ) ≤ m := Nat.cast_le.mpr h
  gcongr

theorem count_zero (hs : 0 < s) : count s 0 = 0 := by
  have hneg : ((0 : ℕ) - 1 : ℚ) / s ≤ 0 :=
    div_nonpos_of_nonpos_of_nonneg (by norm_num) hs.le
  rw [count, Nat.ceil_eq_zero.mpr hneg]

theorem outputAt_append (hs : 0 < s) (hk : k < count s xs.length) :
    outputAt s (xs ++ input) k = outputAt s xs k := by
  have hlt := (lt_count hs).mp hk
  rw [outputAt, outputAt, List.getElem?_append_left hlt, List.getElem?_append_left (by omega)]

theorem outputs_append (hs : 0 < s) : outputs s (xs ++ input) = outputs s xs ++
    (List.range' (count s xs.length) (count s (xs ++ input).length - count s xs.length)).map
      (outputAt s (xs ++ input)) := by
  have hle : count s xs.length ≤ count s (xs ++ input).length :=
    count_mono hs (by simp)
  have hfirst : outputs s xs = (List.range (count s xs.length)).map (outputAt s (xs ++ input)) :=
    List.map_congr_left fun k hk => (outputAt_append hs (List.mem_range.mp hk)).symm
  have hrange := @List.range'_append_1 0 (count s xs.length)
    (count s (xs ++ input).length - count s xs.length)
  rw [Nat.zero_add, Nat.add_sub_cancel' hle] at hrange
  rw [hfirst, ← List.map_append, List.range_eq_range', hrange, outputs, List.range_eq_range']

/-! ## One call -/

/-- What stands at a place of the stream, read from the slice or the sample before it. -/
theorem read_eq {i : ℕ} (hprev : xs ≠ [] → xs.getLast? = some prev) (hi : xs.length ≤ i + 1) :
    readSample prev input ((i : ℤ) - xs.length) = (xs ++ input)[i]? := by
  unfold readSample
  by_cases hlt : i < xs.length
  · have hlast : xs.getLast? = some prev := hprev (List.ne_nil_of_length_pos (by omega))
    rw [if_pos (by omega), List.getElem?_append_left hlt, ← hlast, List.getLast?_eq_getElem?]
    congr
    omega
  · rw [if_neg (by omega), index, if_neg (by omega), List.getElem?_append_right (by omega)]
    congr
    omega

theorem index_eq {i : ℕ} (hi : xs.length ≤ i) :
    index input ((i : ℤ) - xs.length) = (xs ++ input)[i]? := by
  rw [index, if_neg (by omega), List.getElem?_append_right hi]
  congr
  omega

section Round

variable {pos : ℚ} {s0 s1 : Int16}

theorem loop_done (h : (input.length : ℤ) ≤ ⌊pos⌋ + 1) :
    loop prev input s (fuel + 1) pos out = some (pos, out) := by
  rw [loop, if_pos h]
  rfl

theorem loop_push (h : ⌊pos⌋ + 1 < (input.length : ℤ))
    (h0 : readSample prev input ⌊pos⌋ = some s0) (h1 : index input (⌊pos⌋ + 1) = some s1) :
    loop prev input s (fuel + 1) pos out =
      loop prev input s fuel (pos + s) (out ++ [interpolate s0 s1 (Int.fract pos)]) := by
  rw [loop, if_neg (not_le.mpr h), h0, h1]
  rfl

end Round

theorem loop_eq (hs : 0 < s) (hprev : xs ≠ [] → xs.getLast? = some prev)
    (hk : count s xs.length ≤ k) (hkm : k ≤ count s (xs ++ input).length)
    (hfuel : count s (xs ++ input).length < fuel + k) :
    loop prev input s fuel (k * s - xs.length) out =
      some (count s (xs ++ input).length * s - xs.length,
        out ++ (List.range' k (count s (xs ++ input).length - k)).map
          (outputAt s (xs ++ input))) := by
  induction fuel generalizing k out with
  | zero => omega
  | succ fuel ih =>
      have hfloor : ⌊(k : ℚ) * s - (xs.length : ℚ)⌋ = (⌊(k : ℚ) * s⌋₊ : ℤ) - xs.length := by
        rw [Int.floor_sub_natCast, floor_eq hs]
      have hnear := mt (@lt_count s k xs.length hs).mpr (Nat.not_lt.mpr hk)
      have hmore := @lt_count s k (xs ++ input).length hs
      rcases Nat.eq_or_lt_of_le hkm with hdone | hlt
      · rw [loop_done, ← hdone, Nat.sub_self]
        · simp
        · have hnot := mt hmore.mpr (Nat.not_lt.mpr hdone.ge)
          rw [List.length_append] at hnot
          omega
      · have hreach := hmore.mp hlt
        have hlength : ⌊(k : ℚ) * s⌋₊ + 1 < xs.length + input.length := by
          rwa [List.length_append] at hreach
        have hnext : (⌊(k : ℚ) * s⌋₊ : ℤ) - xs.length + 1 =
            ((⌊(k : ℚ) * s⌋₊ + 1 : ℕ) : ℤ) - xs.length := by
          omega
        have hrange : List.range' k (count s (xs ++ input).length - k) =
            k :: List.range' (k + 1) (count s (xs ++ input).length - (k + 1)) := by
          rw [← List.range'_succ]
          congr
          omega
        have hpos : (k : ℚ) * s - xs.length + s = ((k + 1 : ℕ) : ℚ) * s - xs.length := by
          push_cast
          ring
        have hfirst : readSample prev input ⌊(k : ℚ) * s - (xs.length : ℚ)⌋ =
            some ((xs ++ input)[⌊(k : ℚ) * s⌋₊]?.getD 0) := by
          rw [hfloor, read_eq hprev (by omega), List.getElem?_eq_getElem (Nat.lt_of_succ_lt hreach)]
          rfl
        have hsecond : index input (⌊(k : ℚ) * s - (xs.length : ℚ)⌋ + 1) =
            some ((xs ++ input)[⌊(k : ℚ) * s⌋₊ + 1]?.getD 0) := by
          rw [hfloor, hnext, index_eq (by omega), List.getElem?_eq_getElem hreach]
          rfl
        rw [loop_push (by omega) hfirst hsecond, hpos, ih (by omega) hlt (by omega), hrange,
          Int.fract_sub_natCast, List.map_cons, List.append_assoc]
        rfl

/-! ## Any number of calls -/

/-- What a call leaves behind the samples consumed so far. -/
structure Consumed (ratio : ℚ) (xs : List Int16) (r : LinearResampler) : Prop where
  ratio_eq : r.ratio = ratio
  pos_eq : r.pos = count (1 / ratio) xs.length * (1 / ratio) - xs.length
  prev_eq : xs ≠ [] → xs.getLast? = some r.prev

variable {ratio : ℚ} {r : LinearResampler}

theorem process_eq (hratio : 0 < ratio) (h : Consumed ratio xs r) (input : List Int16) :
    ∃ r', process r input (outputs (1 / ratio) xs) = some (r', outputs (1 / ratio) (xs ++ input)) ∧
      Consumed ratio (xs ++ input) r' := by
  have hs : 0 < 1 / ratio := one_div_pos.mpr hratio
  cases hlast : input.getLast? with
  | none =>
      obtain rfl := List.getLast?_eq_none_iff.mp hlast
      rw [List.append_nil]
      exact ⟨r, rfl, h⟩
  | some last =>
      have hmono : count (1 / ratio) xs.length ≤ count (1 / ratio) (xs ++ input).length :=
        count_mono hs (by simp)
      have hfuel : count (1 / ratio) (xs ++ input).length <
          ⌈((input.length : ℚ) - r.pos) / (1 / ratio)⌉₊ + 1 + count (1 / ratio) xs.length := by
        have hrest : ((xs ++ input).length - 1 : ℚ) / (1 / ratio) ≤
            ((input.length : ℚ) - r.pos) / (1 / ratio) + count (1 / ratio) xs.length := by
          rw [div_add' _ _ _ hs.ne', div_le_div_iff_of_pos_right hs, h.pos_eq, List.length_append]
          push_cast
          linarith
        have hceil := (Nat.ceil_mono hrest).trans (Nat.ceil_add_le _ _)
        rw [Nat.ceil_natCast] at hceil
        rw [count]
        omega
      have hloop := @loop_eq _ xs input (outputs (1 / ratio) xs) _ _ _ hs h.prev_eq
        (Nat.le_refl _) hmono hfuel
      refine ⟨⟨r.ratio, count (1 / ratio) (xs ++ input).length * (1 / ratio) - xs.length -
        input.length, last⟩, ?_, h.ratio_eq, ?_, fun _ => ?_⟩
      · rw [outputs_append hs, process, hlast]
        simp only [h.ratio_eq, h.pos_eq] at hloop ⊢
        rw [hloop]
        rfl
      · rw [List.length_append]
        push_cast
        ring
      · rw [List.getLast?_append, hlast]
        rfl

theorem processAll_eq (hratio : 0 < ratio) (h : Consumed ratio xs r) (chunks : List (List Int16)) :
    ∃ r', processAll r chunks (outputs (1 / ratio) xs) =
      some (r', outputs (1 / ratio) (xs ++ chunks.flatten)) := by
  induction chunks generalizing xs r with
  | nil => exact ⟨r, by rw [List.flatten_nil, List.append_nil]; rfl⟩
  | cons input chunks ih =>
      obtain ⟨r', hprocess, hconsumed⟩ := process_eq hratio h input
      rw [processAll, hprocess, List.flatten_cons, ← List.append_assoc]
      exact ih hconsumed

theorem consumed_new {inputRate outputRate : ℕ} (h : (0 : ℚ) < outputRate / inputRate) :
    Consumed (outputRate / inputRate : ℚ) [] (.new inputRate outputRate) where
  ratio_eq := rfl
  pos_eq := by
    rw [List.length_nil, count_zero (one_div_pos.mpr h)]
    simp [LinearResampler.new]
  prev_eq h := absurd rfl h

/-- Output `k` of a stream is the rounded interpolation between the two samples around `k`
steps. -/
theorem outputs_spec (hs : 0 < s) {sample : Int16} (hk : (outputs s xs)[k]? = some sample) :
    ∃ s0 s1, xs[⌊k * s⌋₊]? = some s0 ∧ xs[⌊k * s⌋₊ + 1]? = some s1 ∧
      sample = interpolate s0 s1 (Int.fract (k * s)) ∧
      min s0.toInt s1.toInt ≤ sample.toInt ∧ sample.toInt ≤ max s0.toInt s1.toInt := by
  obtain ⟨hlt, rfl⟩ := List.getElem?_eq_some_iff.mp hk
  simp only [outputs, List.length_map, List.length_range] at hlt
  have hreach := (lt_count hs).mp hlt
  obtain ⟨s0, h0⟩ : ∃ s0, xs[⌊(k : ℚ) * s⌋₊]? = some s0 :=
    ⟨_, List.getElem?_eq_getElem (Nat.lt_of_succ_lt hreach)⟩
  obtain ⟨s1, h1⟩ : ∃ s1, xs[⌊(k : ℚ) * s⌋₊ + 1]? = some s1 :=
    ⟨_, List.getElem?_eq_getElem hreach⟩
  refine ⟨s0, s1, h0, h1, ?_⟩
  simpa [outputs, outputAt, h0, h1] using
    interpolate_between s0 s1 (Int.fract_nonneg (k * s)) (Int.fract_lt_one (k * s)).le

/-- The output does not depend on how the stream is cut into calls. -/
theorem processAll_flatten {inputRate outputRate : ℕ} (hin : 0 < inputRate) (hout : 0 < outputRate)
    (chunks : List (List Int16)) :
    ∃ r r' out, processAll (.new inputRate outputRate) chunks [] = some (r, out) ∧
      process (.new inputRate outputRate) chunks.flatten [] = some (r', out) ∧
      out.length = ⌈((chunks.flatten.length : ℚ) - 1) / (inputRate / outputRate)⌉₊ ∧
      ∀ (k : ℕ) (sample : Int16), out[k]? = some sample →
        ∃ s0 s1, chunks.flatten[⌊(k * (inputRate / outputRate) : ℚ)⌋₊]? = some s0 ∧
          chunks.flatten[⌊(k * (inputRate / outputRate) : ℚ)⌋₊ + 1]? = some s1 ∧
          sample = interpolate s0 s1 (Int.fract (k * (inputRate / outputRate))) ∧
          min s0.toInt s1.toInt ≤ sample.toInt ∧ sample.toInt ≤ max s0.toInt s1.toInt := by
  have hrates : (0 : ℚ) < inputRate ∧ (0 : ℚ) < outputRate :=
    ⟨Nat.cast_pos.mpr hin, Nat.cast_pos.mpr hout⟩
  have hratio : (0 : ℚ) < outputRate / inputRate := div_pos hrates.2 hrates.1
  have hstep : (1 : ℚ) / (outputRate / inputRate) = inputRate / outputRate := one_div_div _ _
  have hnew := consumed_new hratio
  have hnone : outputs (1 / (outputRate / inputRate : ℚ)) [] = [] := by
    rw [outputs, List.length_nil, count_zero (one_div_pos.mpr hratio)]
    rfl
  obtain ⟨r, hall⟩ := processAll_eq hratio hnew chunks
  obtain ⟨r', hone, -⟩ := process_eq hratio hnew chunks.flatten
  rw [hnone, hstep, List.nil_append] at hall hone
  refine ⟨r, r', _, hall, hone, by simp [outputs, count], fun k sample hk => ?_⟩
  exact outputs_spec (hstep ▸ one_div_pos.mpr hratio) hk

/-- Three samples for each output, fed one by one as the playback does. -/
def thirds : List (List Int16) :=
  [[10], [], [20], [30], [40], [50], [-60], [75, 80]]

theorem processAll_flatten_thirds : ∃ r' out,
    process (.new 48000 16000) thirds.flatten [] = some (r', out) ∧ out = [10, 40, 75] := by
  obtain ⟨r, r', out, hall, hone, -⟩ :=
    processAll_flatten (by decide : 0 < 48000) (by decide : 0 < 16000) thirds
  have hout : (processAll (.new 48000 16000) thirds []).map (·.2) = some [10, 40, 75] := by
    decide +kernel
  rw [hall] at hout
  exact ⟨r', out, hone, Option.some.inj hout⟩

end SpecterComs.Resample
