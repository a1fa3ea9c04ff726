import SpecterComs.Model.Portal.AnnexB
import Mathlib.Data.List.Infix
import Mathlib.Data.Nat.Find

/-! # Units between start codes

The scans read inside of the buffer and end. A stream of units that hold no start code is cut
where the units were joined.
-/

namespace SpecterComs.AnnexB

variable {data pre nal tail out : Bytes} {nalUnits : List Bytes} {i j k start fuel : ℕ}

/-! ## Start codes -/

/-- `00 00 01` at `j`. -/
def CodeAt (data : Bytes) (j : ℕ) : Prop :=
  data[j]? = some 0 ∧ data[j + 1]? = some 0 ∧ data[j + 2]? = some 1

instance : Decidable (CodeAt data j) :=
  inferInstanceAs (Decidable (_ ∧ _))

theorem CodeAt.lt (h : CodeAt data j) : j + 2 < data.length :=
  (List.getElem?_eq_some_iff.mp h.2.2).1

theorem codeAt_append : CodeAt (pre ++ data) (pre.length + j) ↔ CodeAt data j := by
  simp only [CodeAt, Nat.add_assoc, List.getElem?_append_right, Nat.le_add_right,
    Nat.add_sub_cancel_left]

theorem readsCode_eq (h : j + 2 < data.length) :
    readsCode data j = some (decide (CodeAt data j)) := by
  have h0 : j < data.length := by omega
  have h1 : j + 1 < data.length := by omega
  simp only [readsCode, CodeAt, List.getElem?_eq_getElem, h, h0, h1, Option.some.injEq]
  by_cases hb0 : data[j] = 0
  · by_cases hb1 : data[j + 1] = 0
    · simp [hb0, hb1]
    · simp [hb0, hb1]
  · simp [hb0]

theorem readsShortCode_eq : readsShortCode data i = some (decide (CodeAt data i)) := by
  unfold readsShortCode
  split
  · rename_i h
    exact readsCode_eq h
  · rename_i h
    simp [mt CodeAt.lt h]

theorem readsLongCode_eq : readsLongCode data i =
    some (decide (data[i]? = some 0 ∧ CodeAt data (i + 1))) := by
  unfold readsLongCode
  split
  · rename_i h
    have h0 : i < data.length := by omega
    have h1 : i + 1 < data.length := by omega
    have h2 : i + 2 < data.length := by omega
    simp only [getUint32, CodeAt, List.getElem?_eq_getElem, h, h0, h1, h2, Nat.add_assoc,
      Nat.reduceAdd, Option.some.injEq, Option.bind_eq_bind, Option.bind_some, Option.map_some,
      Option.pure_def, ← UInt8.toNat_inj, UInt8.toNat_zero, UInt8.toNat_one]
    have hb1 := (data[i + 1]).toNat_lt
    have hb2 := (data[i + 2]).toNat_lt
    have hb3 := (data[i + 3]).toNat_lt
    apply decide_eq_decide.mpr
    omega
  · rename_i h
    rw [eq_comm, Option.some.injEq, decide_eq_false_iff_not]
    exact fun hcode => h hcode.2.lt

theorem startCodeLen_eq : startCodeLen data i =
    some (if data[i]? = some 0 ∧ CodeAt data (i + 1) then 4
      else if CodeAt data i then 3 else 0) := by
  simp only [startCodeLen, readsLongCode_eq, readsShortCode_eq, Option.bind_eq_bind,
    Option.bind_some, decide_eq_true_eq]
  split
  · rfl
  · split <;> rfl

/-! ## The end of a unit -/

theorem nalEndFrom_of_none {rounds : ℕ} (hrounds : j + rounds + 2 ≤ data.length ∨ rounds = 0)
    (h : ∀ k, j ≤ k → ¬ CodeAt data k) :
    nalEndFrom data rounds j = some data.length := by
  induction rounds generalizing j with
  | zero => rfl
  | succ rounds ih =>
      have hj : j + 2 < data.length := by omega
      have hnext := @ih (j + 1) (by omega) fun k hk => h k (by omega)
      simp [nalEndFrom, readsCode_eq hj, h j (Nat.le_refl j), hnext]

theorem nalEndFrom_of_first {rounds : ℕ} (hrounds : j + rounds + 2 = data.length) (hjk : j ≤ k)
    (hcode : CodeAt data k) (h : ∀ m, j ≤ m → m < k → ¬ CodeAt data m) :
    nalEndFrom data rounds j =
      some (if 0 < k ∧ data[k - 1]? = some 0 then k - 1 else k) := by
  have hk := hcode.lt
  induction rounds generalizing j with
  | zero => omega
  | succ rounds ih =>
      have hj : j + 2 < data.length := by omega
      rcases Nat.eq_or_lt_of_le hjk with rfl | hlt
      · have hj1 : j - 1 < data.length := by omega
        by_cases h0 : 0 < j
        · simp [nalEndFrom, readsCode_eq hj, hcode, h0, List.getElem?_eq_getElem hj1]
        · simp [nalEndFrom, readsCode_eq hj, hcode, h0]
      · have hnext := @ih (j + 1) (by omega) hlt fun m hm => h m (by omega)
        simp [nalEndFrom, readsCode_eq hj, h j (Nat.le_refl j) hlt, hnext]

theorem nalEnd_of_none (h : ∀ k, start ≤ k → ¬ CodeAt data k) :
    nalEnd data start = some data.length :=
  nalEndFrom_of_none (by omega) h

theorem nalEnd_of_first (hk : start ≤ k) (hcode : CodeAt data k)
    (h : ∀ m, start ≤ m → m < k → ¬ CodeAt data m) :
    nalEnd data start = some (if 0 < k ∧ data[k - 1]? = some 0 then k - 1 else k) :=
  nalEndFrom_of_first (by have := hcode.lt; omega) hk hcode h

/-- A unit that starts behind a one ends inside of the buffer. -/
theorem nalEnd_bounds (hstart : data[start - 1]? = some 1) (h0 : 0 < start) :
    ∃ stop, nalEnd data start = some stop ∧ start ≤ stop ∧ stop ≤ data.length := by
  have hlt : start - 1 < data.length := (List.getElem?_eq_some_iff.mp hstart).1
  by_cases hex : ∃ k, start ≤ k ∧ CodeAt data k
  · obtain ⟨hk, hcode⟩ := Nat.find_spec hex
    have hlast := hcode.lt
    refine ⟨_, nalEnd_of_first hk hcode fun m hm hmk hc => Nat.find_min hex hmk ⟨hm, hc⟩, ?_⟩
    generalize Nat.find hex = k at hk hcode hlast ⊢
    split
    · rename_i hzero
      have hne : k ≠ start := by
        rintro rfl
        simp [hstart] at hzero
      omega
    · omega
  · push Not at hex
    exact ⟨_, nalEnd_of_none hex, by omega, Nat.le_refl _⟩

/-! ## Any bytes -/

theorem startCodeLen_cases : startCodeLen data i = some 0 ∨
    ∃ codeLen, startCodeLen data i = some (codeLen + 1) ∧
      data[i + codeLen]? = some 1 := by
  rw [startCodeLen_eq]
  split
  · rename_i h
    exact .inr ⟨3, rfl, h.2.2.2⟩
  · split
    · rename_i h
      exact .inr ⟨2, rfl, h.2.2⟩
    · exact .inl rfl

theorem scan_done (h : data.length ≤ i) : scan data fuel i = some [] := by
  cases fuel with
  | zero => rw [scan, if_neg (Nat.not_lt.mpr h)]
  | succ fuel => rw [scan, if_neg (Nat.not_lt.mpr h)]; rfl

theorem scan_skip (hi : i < data.length) (h : startCodeLen data i = some 0) :
    scan data (fuel + 1) i = scan data fuel (i + 1) := by
  simp [scan, hi, h]

theorem scan_unit {codeLen stop : ℕ} (hi : i < data.length)
    (hlen : startCodeLen data i = some (codeLen + 1))
    (hstop : nalEnd data (i + (codeLen + 1)) = some stop) :
    scan data (fuel + 1) i = (scan data fuel stop).map fun nalUnits =>
      if 0 < (slice data (i + (codeLen + 1)) stop).length then
        slice data (i + (codeLen + 1)) stop :: nalUnits
      else nalUnits := by
  rw [scan, if_pos hi, hlen]
  simp only [Option.bind_eq_bind, Option.bind_some, hstop, Option.map_eq_bind]
  rfl

theorem slice_isInfix (start stop : ℕ) : slice data start stop <:+: data :=
  (List.drop_suffix _ _).isInfix.trans (List.take_prefix _ _).isInfix

theorem scan_isSome (h : data.length ≤ i + fuel) : ∃ nalUnits,
    scan data fuel i = some nalUnits ∧ ∀ nal ∈ nalUnits, nal ≠ [] ∧ nal <:+: data := by
  induction fuel generalizing i with
  | zero => exact ⟨[], scan_done h, by simp⟩
  | succ fuel ih =>
      by_cases hi : i < data.length
      · rcases @startCodeLen_cases data i with hzero | ⟨codeLen, hlen, hone⟩
        · rw [scan_skip hi hzero]
          exact ih (by omega)
        · obtain ⟨stop, hstop, hle, -⟩ :=
            @nalEnd_bounds data (i + (codeLen + 1)) (by simpa using hone) (by omega)
          obtain ⟨nalUnits, hscan, hne⟩ := @ih stop (by omega)
          rw [scan_unit hi hlen hstop, hscan]
          refine ⟨_, rfl, ?_⟩
          split
          · rename_i hpos
            simp only [List.mem_cons, forall_eq_or_imp]
            exact ⟨⟨List.ne_nil_of_length_pos hpos, slice_isInfix _ _⟩, hne⟩
          · exact hne
      · exact ⟨[], scan_done (Nat.le_of_not_lt hi), by simp⟩

/-! ## Streams of units -/

/-- A unit that can be cut out of a stream again. -/
structure NalUnit where
  bytes : Bytes
  ne_nil : bytes ≠ []
  no_code : ¬ [0, 0, 1] <:+: bytes
  no_zero : bytes.getLast? ≠ some 0

inductive StartCode
  | short
  | long

def StartCode.bytes : StartCode → Bytes
  | short => [0, 0, 1]
  | long => [0, 0, 0, 1]

def stream (units : List (StartCode × NalUnit)) : Bytes :=
  units.flatMap fun (code, nal) => code.bytes ++ nal.bytes

/-- Length and unit in turn. -/
def avcc (nalUnits : List Bytes) : Bytes :=
  nalUnits.flatMap fun nal => uint32 nal.length ++ nal

theorem CodeAt.isInfix (h : CodeAt data j) : [0, 0, 1] <:+: data := by
  have hlt := h.lt
  obtain ⟨h0, h1, h2⟩ := h
  refine ⟨data.take j, data.drop (j + 3), ?_⟩
  have hdrop : data.drop j = [0, 0, 1] ++ data.drop (j + 3) := by
    rw [List.drop_eq_getElem_cons (by omega), List.drop_eq_getElem_cons (by omega),
      List.drop_eq_getElem_cons hlt, (List.getElem?_eq_some_iff.mp h0).2,
      (List.getElem?_eq_some_iff.mp h1).2, (List.getElem?_eq_some_iff.mp h2).2]
    rfl
  rw [List.append_assoc, ← hdrop, List.take_append_drop]

/-- No code starts in a unit, whatever follows it. -/
theorem NalUnit.not_codeAt (nal : NalUnit) (hj : j < nal.bytes.length) :
    ¬ CodeAt (nal.bytes ++ tail) j := by
  intro h
  have hlast := nal.no_zero
  rw [List.getLast?_eq_getElem?] at hlast
  by_cases hin : j + 2 < nal.bytes.length
  · apply nal.no_code
    apply CodeAt.isInfix (j := j)
    simpa [CodeAt, List.getElem?_append_left, hin, hj, (by omega : j + 1 < nal.bytes.length)]
      using h
  · obtain ⟨h0, h1, -⟩ := h
    rcases (by omega : nal.bytes.length - 1 = j ∨ nal.bytes.length - 1 = j + 1) with he | he
    · rw [he, ← List.getElem?_append_left (by omega)] at hlast
      exact hlast h0
    · rw [he, ← List.getElem?_append_left (by omega)] at hlast
      exact hlast h1

theorem getElem?_pre (j : ℕ) : (pre ++ data)[pre.length + j]? = data[j]? := by
  rw [List.getElem?_append_right (Nat.le_add_right _ _), Nat.add_sub_cancel_left]

theorem startCodeLen_code (code : StartCode) :
    startCodeLen (pre ++ (code.bytes ++ data)) pre.length = some code.bytes.length := by
  have hbyte := @getElem?_pre (code.bytes ++ data) pre 0
  have hnear := @codeAt_append (code.bytes ++ data) pre 0
  have hfar := @codeAt_append (code.bytes ++ data) pre 1
  rw [Nat.add_zero] at hbyte hnear
  simp only [startCodeLen_eq, hbyte, hnear, hfar]
  cases code <;> simp [CodeAt, StartCode.bytes]

/-- A unit ends where the next start code begins. -/
theorem nalEnd_unit (nal : NalUnit) (units : List (StartCode × NalUnit)) :
    nalEnd (pre ++ (nal.bytes ++ stream units)) pre.length =
      some (pre.length + nal.bytes.length) := by
  have hnone (tail : Bytes) (k : ℕ) (hk : pre.length ≤ k)
      (hlt : k < pre.length + nal.bytes.length) : ¬ CodeAt (pre ++ (nal.bytes ++ tail)) k := by
    obtain ⟨m, rfl⟩ := Nat.exists_eq_add_of_le hk
    rw [codeAt_append]
    exact nal.not_codeAt (by omega)
  have hat (tail : Bytes) (j : ℕ) :
      CodeAt (pre ++ (nal.bytes ++ tail)) (pre.length + nal.bytes.length + j) ↔ CodeAt tail j := by
    rw [Nat.add_assoc, codeAt_append, codeAt_append]
  have hbyte (tail : Bytes) (j : ℕ) :
      (pre ++ (nal.bytes ++ tail))[pre.length + nal.bytes.length + j]? = tail[j]? := by
    rw [Nat.add_assoc, getElem?_pre, getElem?_pre]
  cases units with
  | nil =>
      rw [nalEnd_of_none]
      · simp [stream]
      · intro k hk hcode
        have hlt := hcode.lt
        simp only [stream, List.flatMap_nil, List.append_nil, List.length_append] at hlt
        exact hnone _ k hk (by omega) hcode
  | cons unit units =>
      obtain ⟨code, next⟩ := unit
      have hpos := List.length_pos_of_ne_nil nal.ne_nil
      cases code with
      | short =>
          rw [nalEnd_of_first (Nat.le_add_right _ nal.bytes.length) _ (hnone _), if_neg]
          · rintro ⟨-, hzero⟩
            apply nal.no_zero
            rwa [Nat.add_sub_assoc hpos, getElem?_pre, List.getElem?_append_left (by omega),
              ← List.getLast?_eq_getElem?] at hzero
          · exact (hat _ 0).mpr (by simp [CodeAt, stream, StartCode.bytes])
      | long =>
          have hfirst := hbyte (stream ((.long, next) :: units)) 0
          rw [nalEnd_of_first (k := pre.length + nal.bytes.length + 1) (by omega), if_pos]
          · rfl
          · exact ⟨Nat.succ_pos _, hfirst⟩
          · exact (hat _ 1).mpr (by simp [CodeAt, stream, StartCode.bytes])
          · intro k hk hlt
            rcases Nat.lt_succ_iff_lt_or_eq.mp hlt with hlt | rfl
            · exact hnone _ k hk hlt
            · exact mt (hat _ 0).mp (by simp [CodeAt, stream, StartCode.bytes])

theorem slice_mid : slice (pre ++ (nal ++ tail)) pre.length (pre.length + nal.length) = nal := by
  rw [slice, ← List.length_append, ← List.append_assoc, List.take_left, List.drop_left]

theorem scan_stream {units : List (StartCode × NalUnit)} (h : (stream units).length ≤ fuel) :
    scan (pre ++ stream units) fuel pre.length = some (units.map fun unit => unit.2.bytes) := by
  induction units generalizing pre fuel with
  | nil => exact scan_done (by simp [stream])
  | cons unit units ih =>
      obtain ⟨code, nal⟩ := unit
      have hstream : stream ((code, nal) :: units) =
          code.bytes ++ (nal.bytes ++ stream units) := by
        simp [stream]
      obtain ⟨codeLen, hcodeLen⟩ : ∃ n, code.bytes.length = n + 1 := by
        cases code
        · exact ⟨2, rfl⟩
        · exact ⟨3, rfl⟩
      have hpos := List.length_pos_of_ne_nil nal.ne_nil
      simp only [hstream, List.length_append] at h
      obtain ⟨fuel, rfl⟩ : ∃ n, fuel = n + 1 := ⟨fuel - 1, by omega⟩
      have hlen : startCodeLen (pre ++ (code.bytes ++ (nal.bytes ++ stream units))) pre.length =
          some (codeLen + 1) := by
        rw [startCodeLen_code, hcodeLen]
      have hstop := @nalEnd_unit (pre ++ code.bytes) nal units
      have hslice := @slice_mid (pre ++ code.bytes) nal.bytes (stream units)
      have hrest := @ih (pre ++ (code.bytes ++ nal.bytes)) fuel (by omega)
      simp only [List.append_assoc, List.length_append, hcodeLen] at hstop hslice hrest
      rw [← Nat.add_assoc] at hrest
      rw [hstream, scan_unit (by simp; omega) hlen hstop, hrest]
      simp [hslice, hpos]

/-! ## The output -/

@[simp] theorem length_uint32 (n : ℕ) : (uint32 n).length = 4 :=
  rfl

theorem length_le_avcc : nalUnits.length ≤ (avcc nalUnits).length := by
  induction nalUnits with
  | nil => exact Nat.le_refl 0
  | cons nal nalUnits ih =>
      simp only [avcc, List.flatMap_cons, List.length_append, length_uint32, List.length_cons]
      simp only [avcc] at ih
      omega

theorem set_zeros {n : ℕ} (h : nal.length ≤ n) :
    set (pre ++ List.replicate n 0) nal pre.length =
      some (pre ++ nal ++ List.replicate (n - nal.length) 0) := by
  rw [set, if_pos (by simp [h]), List.take_left, ← List.drop_drop, List.drop_left,
    List.drop_replicate]

theorem assemble_eq {n : ℕ} (h : n = totalLen nalUnits) :
    assemble nalUnits (pre ++ List.replicate n 0) pre.length = some (pre ++ avcc nalUnits) := by
  induction nalUnits generalizing pre n with
  | nil => simp [h, assemble, totalLen, avcc]
  | cons nal nalUnits ih =>
      have htotal : n = 4 + nal.length + totalLen nalUnits := h
      have hprefix := @set_zeros pre (uint32 nal.length) n (by simp; omega)
      have hunit := @set_zeros (pre ++ uint32 nal.length) nal (n - 4) (by omega)
      have hrest := @ih (pre ++ uint32 nal.length ++ nal) (n - 4 - nal.length) (by omega)
      simp only [List.length_append, length_uint32] at hprefix hunit hrest
      simp only [assemble, hprefix, hunit, hrest, Option.bind_eq_bind, Option.bind_some]
      simp [avcc]

theorem annexBToAvcc_of_scan (h : scan data data.length 0 = some nalUnits) :
    annexBToAvcc data = some (if nalUnits = [] then data else avcc nalUnits) := by
  have hout := @assemble_eq [] nalUnits _ rfl
  simp only [List.nil_append, List.length_nil] at hout
  rw [annexBToAvcc, h]
  simp only [Option.bind_eq_bind, Option.bind_some]
  split
  · rfl
  · exact hout

/-! ## Reading the output -/

/-- The unit in front of a buffer, and what is behind it. -/
def takeUnit : Bytes → Option (Bytes × Bytes)
  | b0 :: b1 :: b2 :: b3 :: out =>
      let n := ((b0.toNat * 256 + b1.toNat) * 256 + b2.toNat) * 256 + b3.toNat
      if n ≤ out.length then some (out.take n, out.drop n) else none
  | _ => none

/-- The units of a buffer that is whole units. -/
def splitUnits : (fuel : ℕ) → Bytes → Option (List Bytes)
  | _, [] => some []
  | 0, _ :: _ => none
  | fuel + 1, out => do
      let (nal, rest) ← takeUnit out
      return nal :: (← splitUnits fuel rest)

theorem takeUnit_avcc (h : nal.length < 2 ^ 32) :
    takeUnit (uint32 nal.length ++ nal ++ tail) = some (nal, tail) := by
  have hn : (((UInt8.ofNat (nal.length / 256 ^ 3)).toNat * 256 +
      (UInt8.ofNat (nal.length / 256 ^ 2)).toNat) * 256 +
        (UInt8.ofNat (nal.length / 256)).toNat) * 256 + (UInt8.ofNat nal.length).toNat =
          nal.length := by
    simp only [UInt8.toNat_ofNat']
    omega
  have hle : nal.length ≤ (nal ++ tail).length := by simp
  change (if _ ≤ (nal ++ tail).length then some ((nal ++ tail).take _, (nal ++ tail).drop _)
    else none) = some (nal, tail)
  rw [hn, if_pos hle, List.take_left, List.drop_left]

theorem splitUnits_avcc (h : ∀ nal ∈ nalUnits, nal.length < 2 ^ 32)
    (hfuel : nalUnits.length ≤ fuel) : splitUnits fuel (avcc nalUnits) = some nalUnits := by
  induction nalUnits generalizing fuel with
  | nil => rw [avcc, List.flatMap_nil, splitUnits]
  | cons nal nalUnits ih =>
      obtain ⟨fuel, rfl⟩ : ∃ n, fuel = n + 1 := ⟨fuel - 1, by simp at hfuel; omega⟩
      have hunit := @takeUnit_avcc nal (avcc nalUnits) (h nal List.mem_cons_self)
      have hrest := @ih fuel (fun n hn => h n (List.mem_cons_of_mem _ hn)) (by simpa using hfuel)
      rw [show avcc (nal :: nalUnits) = uint32 nal.length ++ nal ++ avcc nalUnits from rfl]
      rw [splitUnits, hunit]
      · simp [hrest]
      · simp [uint32]

/-- Any stream of units is converted to their lengths and bytes, and any bytes at all are returned
as they are or as whole units. -/
theorem annexBToAvcc_units :
    (∀ units : List (StartCode × NalUnit),
      annexBToAvcc (stream units) = some (avcc (units.map fun unit => unit.2.bytes))) ∧
    ∀ data : Bytes, ∃ out, annexBToAvcc data = some out ∧
      (out = data ∨ ∃ nalUnits, out = avcc nalUnits ∧ (∀ nal ∈ nalUnits, nal <:+: data) ∧
        ((∀ nal ∈ nalUnits, nal.length < 2 ^ 32) →
          splitUnits out.length out = some nalUnits)) := by
  constructor
  · intro units
    have hscan := @scan_stream [] (stream units).length units (Nat.le_refl _)
    rw [List.nil_append, List.length_nil] at hscan
    rw [annexBToAvcc_of_scan hscan]
    cases units with
    | nil => rfl
    | cons unit units => simp
  · intro data
    obtain ⟨nalUnits, hscan, hunits⟩ := @scan_isSome data 0 data.length (by omega)
    refine ⟨_, annexBToAvcc_of_scan hscan, ?_⟩
    split
    · exact .inl rfl
    · refine .inr ⟨nalUnits, rfl, fun nal hnal => (hunits nal hnal).2, fun hlt => ?_⟩
      exact splitUnits_avcc hlt length_le_avcc

/-! ## An example -/

def firstUnit : NalUnit := ⟨[103, 0, 66], by decide, by decide, by decide⟩

def secondUnit : NalUnit := ⟨[0, 104], by decide, by decide, by decide⟩

theorem annexBToAvcc_units_two :
    annexBToAvcc [0, 0, 0, 1, 103, 0, 66, 0, 0, 1, 0, 104] =
        some [0, 0, 0, 3, 103, 0, 66, 0, 0, 0, 2, 0, 104] ∧
      splitUnits 13 [0, 0, 0, 3, 103, 0, 66, 0, 0, 0, 2, 0, 104] =
        some [[103, 0, 66], [0, 104]] :=
  ⟨annexBToAvcc_units.1 [(.long, firstUnit), (.short, secondUnit)], by decide +kernel⟩

end SpecterComs.AnnexB
