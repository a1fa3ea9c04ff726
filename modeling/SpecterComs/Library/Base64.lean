import Mathlib.Data.List.GetD
import Mathlib.Data.List.Nodup

/-! # Base64

The standard alphabet with padding, read back only in its canonical form.
-/

namespace Base64

def alphabet : List Char :=
  "ABCDEFGHIJKLMNOPQRSTUVWXYZabcdefghijklmnopqrstuvwxyz0123456789+/".toList

def digit (n : ℕ) : Char :=
  alphabet.getD n '='

def value (c : Char) : Option ℕ :=
  let i := alphabet.idxOf c
  if i < 64 then some i else none

def encode : List UInt8 → List Char
  | [] => []
  | [a] =>
      let n := a.toNat * 16
      [digit (n / 64), digit (n % 64), '=', '=']
  | [a, b] =>
      let n := (a.toNat * 256 + b.toNat) * 4
      [digit (n / 4096), digit (n / 64 % 64), digit (n % 64), '=']
  | a :: b :: c :: rest =>
      let n := a.toNat * 65536 + b.toNat * 256 + c.toNat
      digit (n / 262144) :: digit (n / 4096 % 64) :: digit (n / 64 % 64) :: digit (n % 64) ::
        encode rest

/-- The bits after the last byte must be zero. -/
def decode : List Char → Option (List UInt8)
  | [] => some []
  | c :: d :: e :: f :: rest => do
      let x ← value c
      let y ← value d
      if e = '=' ∧ f = '=' ∧ rest = [] then
        let n := x * 64 + y
        if n % 16 = 0 then some [UInt8.ofNat (n / 16)] else none
      else do
        let z ← value e
        if f = '=' ∧ rest = [] then
          let n := (x * 64 + y) * 64 + z
          if n % 4 = 0 then some [UInt8.ofNat (n / 1024), UInt8.ofNat (n / 4 % 256)] else none
        else do
          let w ← value f
          let bytes ← decode rest
          let n := ((x * 64 + y) * 64 + z) * 64 + w
          some (UInt8.ofNat (n / 65536) :: UInt8.ofNat (n / 256 % 256) :: UInt8.ofNat (n % 256) ::
            bytes)
  | _ => none

theorem alphabet_eq : alphabet =
    ['A', 'B', 'C', 'D', 'E', 'F', 'G', 'H', 'I', 'J', 'K', 'L', 'M', 'N', 'O', 'P', 'Q', 'R', 'S', 'T',
      'U', 'V', 'W', 'X', 'Y', 'Z', 'a', 'b', 'c', 'd', 'e', 'f', 'g', 'h', 'i', 'j', 'k', 'l', 'm', 'n',
      'o', 'p', 'q', 'r', 's', 't', 'u', 'v', 'w', 'x', 'y', 'z', '0', '1', '2', '3', '4', '5', '6', '7',
      '8', '9', '+', '/'] :=
  String.toList_ofList

theorem map_toNat_alphabet : alphabet.map Char.toNat =
    List.range' 65 26 ++ (List.range' 97 26 ++ (List.range' 48 10 ++ [43, 47])) := by
  rw [alphabet_eq]
  rfl

theorem nodup_alphabet : alphabet.Nodup := by
  refine List.Nodup.of_map Char.toNat ?_
  rw [map_toNat_alphabet]
  refine List.nodup_append.mpr ⟨List.nodup_range' .., List.nodup_append.mpr
    ⟨List.nodup_range' .., List.nodup_append.mpr ⟨List.nodup_range' .., by decide, ?_⟩, ?_⟩, ?_⟩
  all_goals
    intro a ha b hb
    simp only [List.mem_append, List.mem_range'_1, List.mem_cons, List.not_mem_nil, or_false] at ha hb
    omega

variable {n : ℕ}

theorem value_digit (h : n < 64) : value (digit n) = some n := by
  have hlt : n < alphabet.length := by
    rw [alphabet_eq]
    exact h
  have hdigit : digit n = alphabet[n] := List.getD_eq_getElem _ _ hlt
  have hidx : alphabet.idxOf (digit n) = n := by
    rw [hdigit]
    exact nodup_alphabet.idxOf_getElem n hlt
  unfold value
  rw [hidx]
  exact if_pos h
theorem value_pad : value '=' = none := by
  unfold value
  rw [alphabet_eq]
  rfl

theorem digit_ne_pad (h : n < 64) : digit n ≠ '=' := by
  intro heq
  have hvalue := value_digit h
  rw [heq, value_pad] at hvalue
  exact nomatch hvalue

theorem ofNat_of_eq {a : UInt8} (h : n = a.toNat) : UInt8.ofNat n = a := by
  rw [h, UInt8.ofNat_toNat]

theorem decode_encode (bytes : List UInt8) : decode (encode bytes) = some bytes := by
  induction bytes using encode.induct with
  | case1 => rfl
  | case2 a =>
      have ha := a.toNat_lt
      unfold encode
      dsimp only
      generalize hn : a.toNat * 16 = n
      have hjoin : n / 64 * 64 + n % 64 = n := by omega
      have hbyte : UInt8.ofNat (n / 16) = a := ofNat_of_eq (by omega)
      have hzero : n % 16 = 0 := by omega
      simp [decode, value_digit (show n / 64 < 64 by omega), value_digit (show n % 64 < 64 by omega),
        hjoin, hzero, hbyte]
  | case3 a b =>
      have ha := a.toNat_lt
      have hb := b.toNat_lt
      unfold encode
      dsimp only
      generalize hn : (a.toNat * 256 + b.toNat) * 4 = n
      have hjoin : (n / 4096 * 64 + n / 64 % 64) * 64 + n % 64 = n := by omega
      have hz : n % 64 < 64 := by omega
      have hfirst : UInt8.ofNat (n / 1024) = a := ofNat_of_eq (by omega)
      have hsecond : UInt8.ofNat (n / 4 % 256) = b := ofNat_of_eq (by omega)
      have hzero : n % 4 = 0 := by omega
      simp [decode, value_digit (show n / 4096 < 64 by omega),
        value_digit (show n / 64 % 64 < 64 by omega), value_digit hz, digit_ne_pad hz, hjoin, hzero,
        hfirst, hsecond]
  | case4 a b c rest ih =>
      have ha := a.toNat_lt
      have hb := b.toNat_lt
      have hc := c.toNat_lt
      unfold encode
      dsimp only
      generalize hn : a.toNat * 65536 + b.toNat * 256 + c.toNat = n
      have hjoin : ((n / 262144 * 64 + n / 4096 % 64) * 64 + n / 64 % 64) * 64 + n % 64 = n := by
        omega
      have hw : n % 64 < 64 := by omega
      have hfirst : UInt8.ofNat (n / 65536) = a := ofNat_of_eq (by omega)
      have hsecond : UInt8.ofNat (n / 256 % 256) = b := ofNat_of_eq (by omega)
      have hthird : UInt8.ofNat (n % 256) = c := ofNat_of_eq (by omega)
      simp [decode, value_digit (show n / 262144 < 64 by omega),
        value_digit (show n / 4096 % 64 < 64 by omega), value_digit (show n / 64 % 64 < 64 by omega),
        value_digit hw, digit_ne_pad hw, ih, hjoin, hfirst, hsecond, hthird]

variable {bytes : List UInt8}

theorem encode_eq_nil (h : encode bytes = []) : bytes = [] := by
  have hdecode := decode_encode bytes
  rw [h] at hdecode
  exact (Option.some.inj hdecode).symm

theorem digit_mem (n : ℕ) : digit n ∈ '=' :: alphabet := by
  rw [digit, List.getD_eq_getElem?_getD]
  cases h : alphabet[n]? with
  | none => exact List.mem_cons_self
  | some c => exact List.mem_cons_of_mem _ (List.mem_of_getElem? h)

/-- Only digits and padding are written. -/
theorem mem_encode {c : Char} (h : c ∈ encode bytes) : c ∈ '=' :: alphabet := by
  induction bytes using encode.induct with
  | case1 => exact nomatch h
  | case2 a =>
      simp only [encode, List.mem_cons, List.not_mem_nil, or_false] at h
      obtain rfl | rfl | rfl | rfl := h
      · exact digit_mem _
      · exact digit_mem _
      · exact List.mem_cons_self
      · exact List.mem_cons_self
  | case3 a b =>
      simp only [encode, List.mem_cons, List.not_mem_nil, or_false] at h
      obtain rfl | rfl | rfl | rfl := h
      · exact digit_mem _
      · exact digit_mem _
      · exact digit_mem _
      · exact List.mem_cons_self
  | case4 a b c' rest ih =>
      simp only [encode, List.mem_cons] at h
      obtain rfl | rfl | rfl | rfl | h := h
      · exact digit_mem _
      · exact digit_mem _
      · exact digit_mem _
      · exact digit_mem _
      · exact ih h

end Base64
