import SpecterComs.Model.MediaServer.Ssrc
import SpecterComs.Verification.Chat.Dates

/-! # Client and relay hash a user id alike

Both sides compute the polynomial of the codes at 31, one exactly with a cut to 32 bits after each
character, the other wrapping at every operation. They part where the hash is zero.
-/

namespace SpecterComs.MediaServer

def IsAscii (id : UserId) : Prop :=
  ∀ c ∈ id.toList, c.toNat < 128

instance (id : UserId) : Decidable (IsAscii id) :=
  List.decidableBAll (fun c : Char => c.toNat < 128) id.toList

/-- The hash before it is cut to 32 bits: the codes as digits, the last one lowest. -/
def hashNumber (codes : List ℕ) : ℕ :=
  Nat.ofDigits 31 codes.reverse

theorem hashNumber_snoc (codes : List ℕ) (code : ℕ) :
    hashNumber (codes ++ [code]) = 31 * hashNumber codes + code := by
  rw [hashNumber, List.reverse_append, List.reverse_singleton, List.singleton_append,
    Nat.ofDigits_cons, hashNumber]
  simp [Nat.add_comm]

/-! ## The client -/

theorem bmod_hash (x code : ℤ) (m : ℕ) :
    ((x.bmod m * 2 ^ 5).bmod m - x.bmod m + code).bmod m = (31 * x + code).bmod m := by
  have hsum : (x.bmod m * 2 ^ 5).bmod m - x.bmod m + code =
      (x.bmod m * 2 ^ 5).bmod m + (code - x.bmod m) := by
    rw [sub_add_eq_add_sub, add_sub_assoc]
  have hthirtyone : x.bmod m * 2 ^ 5 + (code - x.bmod m) = 31 * x.bmod m + code := by
    ring
  rw [hsum, Int.bmod_add_bmod, hthirtyone, ← Int.bmod_add_bmod, Int.mul_bmod_bmod,
    Int.bmod_add_bmod]

/-- The cuts in between do not matter. -/
theorem hashStep_toInt32 (x : ℤ) (code : ℕ) :
    hashStep (toInt32 x) code = toInt32 (31 * x + code) := by
  unfold hashStep shiftLeft toInt32
  rw [Int.bmod_bmod]
  exact bmod_hash x code _

theorem foldl_hashStep (codes : List ℕ) :
    codes.foldl hashStep 0 = toInt32 (hashNumber codes) := by
  induction codes using List.reverseRecOn with
  | nil => rfl
  | append_singleton codes code ih =>
      rw [List.foldl_append, ih, List.foldl_cons, List.foldl_nil, hashStep_toInt32,
        hashNumber_snoc]
      push_cast
      rfl

/-! ## The relay -/

theorem ssrcStep_ofNat (n : ℕ) (c : Char) :
    ssrcStep (BitVec.ofNat 32 n) c = BitVec.ofNat 32 (31 * n + c.toNat) := by
  unfold ssrcStep
  apply BitVec.eq_of_toNat_eq
  simp only [BitVec.toNat_add, BitVec.toNat_sub, BitVec.toNat_shiftLeft, BitVec.toNat_ofNat,
    Nat.shiftLeft_eq]
  omega

theorem foldl_ssrcStep (cs : List Char) :
    cs.foldl ssrcStep 0 = BitVec.ofNat 32 (hashNumber (cs.map Char.toNat)) := by
  induction cs using List.reverseRecOn with
  | nil => rfl
  | append_singleton cs c ih =>
      rw [List.foldl_append, ih, List.foldl_cons, List.foldl_nil, ssrcStep_ofNat, List.map_append,
        List.map_singleton, hashNumber_snoc]

/-- The two absolute values are the same, also of the lowest number. -/
theorem toNat_abs (x : BitVec 32) : (x.abs.toNat : ℤ) = toUint32 |x.toInt| := by
  have hx := x.isLt
  rw [BitVec.toNat_abs, BitVec.toInt_eq_msb_cond]
  by_cases hmsb : x.msb = true
  · have hhigh : x.toNat ≥ 2 ^ 31 := BitVec.toNat_ge_of_msb_true hmsb
    have hneg : (x.toNat : ℤ) - (2 ^ 32 : ℕ) ≤ 0 := by omega
    rw [if_pos hmsb, if_pos hmsb, abs_of_nonpos hneg]
    unfold toUint32
    omega
  · rw [if_neg hmsb, if_neg hmsb, abs_of_nonneg (by omega)]
    unfold toUint32
    omega

theorem abs_eq_zero {x : BitVec 32} : x.abs.toNat = 0 ↔ x.toNat = 0 := by
  have hx := x.isLt
  rw [BitVec.toNat_abs]
  by_cases hmsb : x.msb = true
  · have hhigh : x.toNat ≥ 2 ^ 31 := BitVec.toNat_ge_of_msb_true hmsb
    rw [if_pos hmsb]
    omega
  · rw [if_neg hmsb]

/-! ## Both -/

theorem utf16_ascii {id : UserId} (hascii : IsAscii id) :
    Chat.utf16 id = id.toList.map Char.toNat := by
  have h := Chat.utf16_ofList fun c hc => (hascii c hc).trans (by norm_num)
  rwa [String.ofList_toList] at h

theorem canonicalSsrc_eq (id : UserId) :
    canonicalSsrc id = (BitVec.ofNat 32 (hashNumber (id.toList.map Char.toNat))).abs := by
  rw [canonicalSsrc, foldl_ssrcStep]

/-- The client takes 1 where the hash is zero. -/
theorem hashUserId_eq {id : UserId} (hascii : IsAscii id) :
    hashUserId id =
      if (canonicalSsrc id).toNat = 0 then 1 else ((canonicalSsrc id).toNat : ℤ) := by
  have hint : ∀ n : ℕ, (BitVec.ofNat 32 n).toInt = toInt32 n := BitVec.toInt_ofNat
  unfold hashUserId
  split
  · rename_i hempty
    subst hempty
    rfl
  · simp only [utf16_ascii hascii, foldl_hashStep, ← hint, ← toNat_abs, ← canonicalSsrc_eq,
      Nat.cast_eq_zero]

/-- Client and relay agree on a user exactly where the 32 bits of the hash are not all zero. -/
theorem canonicalSsrc_eq_hashUserId (id : UserId) (hascii : IsAscii id) :
    ((canonicalSsrc id).toNat : ℤ) = hashUserId id ↔
      ¬ 2 ^ 32 ∣ Nat.ofDigits 31 (id.toList.map Char.toNat).reverse := by
  have hzero : (canonicalSsrc id).toNat = 0 ↔
      2 ^ 32 ∣ Nat.ofDigits 31 (id.toList.map Char.toNat).reverse := by
    rw [canonicalSsrc_eq, abs_eq_zero, BitVec.toNat_ofNat, Nat.dvd_iff_mod_eq_zero, hashNumber]
  rw [hashUserId_eq hascii, ← hzero]
  split
  · rename_i h
    simp [h]
  · rename_i h
    simp [h]

/-- A user whose hash is the lowest 32-bit number. -/
theorem canonicalSsrc_eq_hashUserId_lowest :
    ((canonicalSsrc "3b241101-e2bb-4255-8caf-42998100f8ae").toNat : ℤ) =
      hashUserId "3b241101-e2bb-4255-8caf-42998100f8ae" :=
  (canonicalSsrc_eq_hashUserId _ (by decide +kernel)).mpr (by decide +kernel)

/-- A user whose hash is zero: the client seals under 1, the relay announces 0. -/
theorem zero_hash_parts :
    ¬ ∀ id : UserId, IsAscii id → ((canonicalSsrc id).toNat : ℤ) = hashUserId id := by
  intro hclaim
  have hsame := hclaim "3b241101-e2bb-4255-8caf-41bafb0039e4" (by decide +kernel)
  have hparts : ¬ ((canonicalSsrc "3b241101-e2bb-4255-8caf-41bafb0039e4").toNat : ℤ) =
    hashUserId "3b241101-e2bb-4255-8caf-41bafb0039e4" := by decide +kernel
  exact hparts hsame

end SpecterComs.MediaServer
