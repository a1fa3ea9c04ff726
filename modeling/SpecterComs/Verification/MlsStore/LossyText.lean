import Mathlib.Data.List.TakeWhile
import SpecterComs.Model.MlsStore.Msgcache

/-! # Bytes as lossy text

`String::from_utf8_lossy` takes the bytes unit by unit: a character, or an ill-formed part that
becomes one U+FFFD.
-/

namespace SpecterComs.MlsStore

variable {first second b : UInt8} {bytes rest following front back : Bytes} {n : ℕ}

/-- A byte that only goes on with a character. -/
def isContinuation (b : UInt8) : Bool :=
  0x80 ≤ b && b ≤ 0xBF

theorem isContinuation_iff : isContinuation b ↔ 0x80 ≤ b.toNat ∧ b.toNat ≤ 0xBF := by
  simp [isContinuation, UInt8.le_iff_toNat_le]

theorem utf8Width_eq : utf8Width first =
    if first.toNat < 0x80 then 1
    else if 0xC2 ≤ first.toNat ∧ first.toNat ≤ 0xDF then 2
    else if 0xE0 ≤ first.toNat ∧ first.toNat ≤ 0xEF then 3
    else if 0xF0 ≤ first.toNat ∧ first.toNat ≤ 0xF4 then 4
    else 0 := by
  simp [utf8Width, UInt8.lt_iff_toNat_lt, UInt8.le_iff_toNat_le]

theorem utf8Second_iff : utf8Second first second ↔
    (if first.toNat = 0xE0 then 0xA0 else if first.toNat = 0xF0 then 0x90 else 0x80) ≤ second.toNat ∧
      second.toNat ≤
        (if first.toNat = 0xED then 0x9F else if first.toNat = 0xF4 then 0x8F else 0xBF) := by
  simp only [utf8Second, UInt8.le_iff_toNat_le, ← UInt8.toNat_inj, UInt8.reduceToNat]
  split_ifs <;> simp_all

theorem isContinuation_of_utf8Second (h : utf8Second first second) : isContinuation second := by
  rw [utf8Second_iff] at h
  rw [isContinuation_iff]
  split_ifs at h <;> omega

/-! ## Runs -/

theorem utf8Run_zero : utf8Run first 0 rest = 0 := by
  cases rest <;> simp [utf8Run]

theorem utf8Run_cons : utf8Run first n (second :: rest) =
    if 0 < n && utf8Second first second then 1 + min (n - 1) (rest.takeWhile isContinuation).length
    else 0 := by
  have hrun : ((rest.take (n - 1)).takeWhile fun b => 0x80 ≤ b && b ≤ 0xBF) =
      (rest.takeWhile isContinuation).take (n - 1) := List.take_takeWhile.symm
  simp only [utf8Run, hrun, List.length_take]

theorem utf8Run_le (first : UInt8) (n : ℕ) (rest : Bytes) : utf8Run first n rest ≤ rest.length := by
  cases rest with
  | nil => simp [utf8Run]
  | cons second rest =>
      have hrun := (List.takeWhile_sublist isContinuation (l := rest)).length_le
      rw [utf8Run_cons]
      split
      · simp only [List.length_cons]
        omega
      · simp

/-- The run of a text that is cut short is cut short. -/
theorem utf8Run_append (first : UInt8) (n : ℕ) (front rest : Bytes) :
    utf8Run first n front = min front.length (utf8Run first n (front ++ rest)) := by
  cases front with
  | nil => simp [utf8Run]
  | cons second front =>
      have hcut : front.takeWhile isContinuation =
          ((front ++ rest).takeWhile isContinuation).take front.length := by
        rw [List.take_takeWhile, List.take_left]
      rw [List.cons_append, utf8Run_cons, utf8Run_cons, hcut]
      split
      · simp only [List.length_take, List.length_cons]
        omega
      · simp

/-- A run holds nothing but continuation bytes. -/
theorem isContinuation_of_mem_run (h : b ∈ rest.take (utf8Run first n rest)) : isContinuation b := by
  cases rest with
  | nil => simp at h
  | cons second rest =>
      rw [utf8Run_cons] at h
      split at h
      · rename_i hsecond
        rw [Nat.add_comm, List.take_succ_cons] at h
        rcases List.mem_cons.mp h with rfl | hrest
        · exact isContinuation_of_utf8Second (Bool.and_eq_true_iff.mp hsecond).2
        · have hrun : rest.take (rest.takeWhile isContinuation).length = rest.takeWhile isContinuation :=
            (List.prefix_iff_eq_take.mp (List.takeWhile_prefix _)).symm
          have hmem : b ∈ rest.takeWhile isContinuation := by
            rw [← hrun]
            exact List.take_subset_take_left rest (Nat.min_le_right _ _) hrest
          exact List.mem_takeWhile_imp hmem
      · simp at h

/-! ## Units -/

/-- How many bytes become the first character. -/
def unitLength : Bytes → ℕ
  | [] => 0
  | first :: rest => utf8Run first (utf8Width first - 1) rest + 1

/-- The first character. -/
def unitChar : Bytes → Char
  | [] => '\uFFFD'
  | first :: rest =>
      let found := utf8Run first (utf8Width first - 1) rest
      if utf8Width first ≠ 0 ∧ found = utf8Width first - 1 then utf8Char first (rest.take found)
      else '\uFFFD'

/-- `fromUtf8Lossy`, as characters. -/
def lossyText (bytes : Bytes) : List Char :=
  lossyFrom bytes.length bytes

theorem lossyFrom_eq (h : bytes.length ≤ n) : lossyFrom n bytes = lossyText bytes := by
  unfold lossyText
  induction n using Nat.strongRecOn generalizing bytes with
  | ind n ih =>
      cases bytes with
      | nil => cases n <;> rfl
      | cons first rest =>
          obtain ⟨n, rfl⟩ : ∃ m, n = m + 1 := ⟨n - 1, by simp at h; omega⟩
          simp only [List.length_cons, Nat.add_le_add_iff_right] at h
          have hdrop : (rest.drop (utf8Run first (utf8Width first - 1) rest)).length ≤ rest.length := by
            simp
          simp only [lossyFrom, List.length_cons]
          rw [ih n (Nat.lt_succ_self n) (hdrop.trans h), ih rest.length (by omega) hdrop]

theorem lossyText_cons :
    lossyText (first :: rest) =
      unitChar (first :: rest) :: lossyText ((first :: rest).drop (unitLength (first :: rest))) := by
  have hdrop : (rest.drop (utf8Run first (utf8Width first - 1) rest)).length ≤ rest.length := by simp
  simp only [lossyText, List.length_cons, lossyFrom, unitChar, unitLength, List.drop_succ_cons]
  rw [lossyFrom_eq hdrop]
  rfl

theorem unitLength_pos (h : bytes ≠ []) : 0 < unitLength bytes := by
  cases bytes with
  | nil => exact absurd rfl h
  | cons first rest => simp [unitLength]

theorem unitLength_le (bytes : Bytes) : unitLength bytes ≤ bytes.length := by
  cases bytes with
  | nil => simp [unitLength]
  | cons first rest =>
      have hrun := utf8Run_le first (utf8Width first - 1) rest
      simp only [unitLength, List.length_cons]
      omega

/-- A unit that is cut short goes on to the cut. -/
theorem unitLength_append (h : front ≠ []) (back : Bytes) :
    unitLength front = min front.length (unitLength (front ++ back)) := by
  cases front with
  | nil => exact absurd rfl h
  | cons first front =>
      have hrun := utf8Run_append first (utf8Width first - 1) front back
      simp only [unitLength, List.cons_append, List.length_cons]
      omega

theorem unitChar_append (h : front ≠ []) (hunit : unitLength (front ++ back) ≤ front.length) :
    unitChar front = unitChar (front ++ back) := by
  cases front with
  | nil => exact absurd rfl h
  | cons first front =>
      have hrun := utf8Run_append first (utf8Width first - 1) front back
      simp only [unitLength, List.cons_append, List.length_cons] at hunit
      have hsame : utf8Run first (utf8Width first - 1) (front ++ back) =
          utf8Run first (utf8Width first - 1) front := by omega
      have htake : (front ++ back).take (utf8Run first (utf8Width first - 1) front) =
          front.take (utf8Run first (utf8Width first - 1) front) :=
        List.take_append_of_le_length (utf8Run_le _ _ _)
      simp only [unitChar, List.cons_append, hsame, htake]

theorem isContinuation_of_mem_unit (h : b ∈ (bytes.take (unitLength bytes)).tail) :
    isContinuation b := by
  cases bytes with
  | nil => simp at h
  | cons first rest =>
      rw [unitLength, List.take_succ_cons, List.tail_cons] at h
      exact isContinuation_of_mem_run h

/-- A continuation byte that stands alone. -/
theorem unit_continuation (h : isContinuation first) (rest : Bytes) :
    unitLength (first :: rest) = 1 ∧ unitChar (first :: rest) = '\uFFFD' := by
  rw [isContinuation_iff] at h
  have hwidth : utf8Width first = 0 := by
    rw [utf8Width_eq]
    split_ifs <;> omega
  simp [unitLength, unitChar, hwidth, utf8Run_zero]

theorem unit_newline (rest : Bytes) : unitLength (10 :: rest) = 1 ∧ unitChar (10 :: rest) = '\n' := by
  have hwidth : utf8Width 10 = 1 := by decide
  have hchar : utf8Char 10 [] = '\n' := by decide
  simp [unitLength, unitChar, hwidth, utf8Run_zero, hchar]

theorem le_foldl_utf8 (lead : ℕ) (following : Bytes) :
    lead ≤ following.foldl (fun n b => n * 64 + b.toNat % 64) lead := by
  induction following generalizing lead with
  | nil => simp
  | cons b following ih =>
      have hstep : lead ≤ lead * 64 + b.toNat % 64 := by omega
      exact hstep.trans (ih _)

theorem ofNat_ne_newline (h : n ≠ 10) : Char.ofNat n ≠ '\n' := by
  intro heq
  by_cases hvalid : n.isValidChar
  · rw [Char.ofNat, dif_pos hvalid] at heq
    exact h (congrArg Char.toNat heq)
  · rw [Char.ofNat, dif_neg hvalid] at heq
    exact absurd heq (by decide)

/-- What the first byte gives to a character of `n` further bytes. -/
def utf8Lead (first : UInt8) : ℕ → ℕ
  | 0 => first.toNat
  | 1 => first.toNat % 32
  | 2 => first.toNat % 16
  | _ => first.toNat % 8

theorem utf8Char_eq : utf8Char first following =
    Char.ofNat (following.foldl (fun n b => n * 64 + b.toNat % 64)
      (utf8Lead first following.length)) := by
  unfold utf8Char utf8Lead
  rfl

/-- A character of more than one byte is no ASCII one. -/
theorem utf8Lead_gt (hwidth : utf8Width first = n + 2) (hsecond : utf8Second first second) :
    10 < utf8Lead first (n + 1) * 64 + second.toNat % 64 := by
  rw [utf8Width_eq] at hwidth
  rw [utf8Second_iff] at hsecond
  split_ifs at hwidth
  · omega
  · obtain rfl : n = 0 := by omega
    simp only [utf8Lead]
    omega
  · obtain rfl : n = 1 := by omega
    simp only [utf8Lead]
    split_ifs at hsecond <;> omega
  · obtain rfl : n = 2 := by omega
    simp only [utf8Lead]
    split_ifs at hsecond <;> omega

/-- No other unit than a line feed becomes one. -/
theorem unitChar_ne_newline (h : first ≠ 10) : unitChar (first :: rest) ≠ '\n' := by
  have hfirst : first.toNat ≠ 10 := by
    intro heq
    exact h (UInt8.toNat_inj.mp heq)
  unfold unitChar
  dsimp only
  split
  · rename_i hwhole
    obtain ⟨hpos, hfound⟩ := hwhole
    by_cases hone : utf8Width first = 1
    · simp only [hone, Nat.sub_self, utf8Run_zero, List.take_zero, utf8Char]
      exact ofNat_ne_newline hfirst
    · cases rest with
      | nil =>
          simp only [utf8Run] at hfound
          omega
      | cons second rest =>
          rw [utf8Run_cons] at hfound ⊢
          split at hfound
          · rename_i hsecond
            rw [if_pos hsecond, Nat.add_comm, List.take_succ_cons]
            have hsecond := (Bool.and_eq_true_iff.mp hsecond).2
            have hlength : (rest.take (min (utf8Width first - 1 - 1)
                (rest.takeWhile isContinuation).length)).length = utf8Width first - 2 := by
              have hrun := (List.takeWhile_sublist isContinuation (l := rest)).length_le
              rw [List.length_take]
              omega
            generalize rest.take _ = following at hlength ⊢
            have hle := le_foldl_utf8 (utf8Lead first (following.length + 1) * 64 +
              second.toNat % 64) following
            have hgt := utf8Lead_gt (n := following.length) (by omega) hsecond
            rw [utf8Char_eq]
            refine ofNat_ne_newline fun hvalue => ?_
            rw [List.length_cons, List.foldl_cons] at hvalue
            omega
          · omega
  · decide

/-- A whole character of more than one byte. -/
theorem unit_char (rest : Bytes) (hwidth : utf8Width first = following.length + 2)
    (hsecond : utf8Second first second) (hfollowing : ∀ b ∈ following, isContinuation b) :
    unitLength (first :: second :: (following ++ rest)) = following.length + 2 ∧
      unitChar (first :: second :: (following ++ rest)) = utf8Char first (second :: following) := by
  have hrun : utf8Run first (utf8Width first - 1) (second :: (following ++ rest)) =
      following.length + 1 := by
    rw [utf8Run_cons, List.takeWhile_append_of_pos hfollowing]
    simp only [hwidth, hsecond, List.length_append]
    simp
    omega
  constructor
  · simp only [unitLength, hrun]
  · simp only [unitChar, hrun]
    simp [hwidth]

/-! ## Text that is well-formed -/

theorem lossyText_unit (following : Bytes) {c : Char} (hwidth : utf8Width first = following.length + 2)
    (hsecond : utf8Second first second) (hfollowing : ∀ b ∈ following, isContinuation b)
    (hvalue : following.foldl (fun n b => n * 64 + b.toNat % 64)
      (utf8Lead first (following.length + 1) * 64 + second.toNat % 64) = c.toNat) :
    lossyText (first :: second :: (following ++ rest)) = c :: lossyText rest := by
  obtain ⟨hlength, hchar⟩ := unit_char rest hwidth hsecond hfollowing
  have hdrop : (first :: second :: (following ++ rest)).drop (following.length + 2) = rest := by
    simp
  rw [lossyText_cons, hlength, hchar, hdrop, utf8Char_eq, List.length_cons, List.foldl_cons, hvalue,
    Char.ofNat_toNat]

theorem lossyText_ascii {c : Char} (h : first.toNat < 0x80) (hvalue : first.toNat = c.toNat) :
    lossyText (first :: rest) = c :: lossyText rest := by
  have hwidth : utf8Width first = 1 := by
    rw [utf8Width_eq, if_pos h]
  have hchar : Char.ofNat first.toNat = c := by
    rw [hvalue, Char.ofNat_toNat]
  rw [lossyText_cons]
  simp [unitLength, unitChar, hwidth, utf8Run_zero, utf8Char, hchar]

theorem lossyText_encodeChar (c : Char) :
    lossyText (String.utf8EncodeChar c ++ rest) = c :: lossyText rest := by
  have hbyte : ∀ n < 256, ∃ b, UInt8.ofNat n = b ∧ b.toNat = n := by
    intro n hn
    exact ⟨_, rfl, by simp; omega⟩
  have hvalid : c.toNat < 0xD800 ∨ 0xDFFF < c.toNat ∧ c.toNat < 0x110000 := c.valid
  have htoNat : c.val.toNat = c.toNat := rfl
  unfold String.utf8EncodeChar
  simp only [htoNat]
  generalize hv : c.toNat = v at hvalid
  split_ifs with hone htwo hthree
  · obtain ⟨first, hfirst, hf⟩ := hbyte v (by omega)
    rw [hfirst]
    exact lossyText_ascii (by omega) (by omega)
  · obtain ⟨first, hfirst, hf⟩ := hbyte (v / 64 % 32 + 192) (by omega)
    obtain ⟨second, hsecond, hs⟩ := hbyte (v % 64 + 128) (by omega)
    rw [hfirst, hsecond]
    refine lossyText_unit [] ?_ ?_ (by simp) ?_
    · rw [utf8Width_eq]
      simp only [List.length_nil]
      split_ifs <;> omega
    · rw [utf8Second_iff]
      split_ifs <;> omega
    · simp [utf8Lead]
      omega
  · obtain ⟨first, hfirst, hf⟩ := hbyte (v / 4096 % 16 + 224) (by omega)
    obtain ⟨second, hsecond, hs⟩ := hbyte (v / 64 % 64 + 128) (by omega)
    obtain ⟨third, hthird, ht⟩ := hbyte (v % 64 + 128) (by omega)
    rw [hfirst, hsecond, hthird]
    refine lossyText_unit [third] ?_ ?_ ?_ ?_
    · rw [utf8Width_eq]
      simp only [List.length_cons, List.length_nil]
      split_ifs <;> omega
    · rw [utf8Second_iff]
      split_ifs <;> omega
    · simp [isContinuation_iff]
      omega
    · simp [utf8Lead]
      omega
  · obtain ⟨first, hfirst, hf⟩ := hbyte (v / 262144 % 8 + 240) (by omega)
    obtain ⟨second, hsecond, hs⟩ := hbyte (v / 4096 % 64 + 128) (by omega)
    obtain ⟨third, hthird, ht⟩ := hbyte (v / 64 % 64 + 128) (by omega)
    obtain ⟨fourth, hfourth, hfo⟩ := hbyte (v % 64 + 128) (by omega)
    rw [hfirst, hsecond, hthird, hfourth]
    refine lossyText_unit [third, fourth] ?_ ?_ ?_ ?_
    · rw [utf8Width_eq]
      simp only [List.length_cons, List.length_nil]
      split_ifs <;> omega
    · rw [utf8Second_iff]
      split_ifs <;> omega
    · simp [isContinuation_iff]
      omega
    · simp [utf8Lead]
      omega

theorem utf8_eq (s : String) : utf8 s = s.toList.flatMap String.utf8EncodeChar := by
  rw [utf8, String.toUTF8, ← String.utf8Encode_toList, List.utf8Encode]
  simp

/-- Text is read back as it was. -/
theorem fromUtf8Lossy_utf8 (s : String) : fromUtf8Lossy (utf8 s) = s := by
  have hread (cs : List Char) : lossyText (cs.flatMap String.utf8EncodeChar) = cs := by
    induction cs with
    | nil => rfl
    | cons c cs ih => rw [List.flatMap_cons, lossyText_encodeChar, ih]
  calc fromUtf8Lossy (utf8 s) = String.ofList (lossyText (utf8 s)) := rfl
    _ = s := by rw [utf8_eq, hread, String.ofList_toList]

end SpecterComs.MlsStore
