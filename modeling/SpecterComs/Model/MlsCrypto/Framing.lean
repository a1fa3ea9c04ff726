import Mathlib.Data.List.Basic
import Mathlib.Algebra.GroupWithZero.Nat

/-! # Framed key packages

`frame_bytes_list`, `frame_key_packages` and `decode_framed` of `mls-crypto/src/lib.rs`, as they run
on wasm32: a `usize` has 32 bits, and no buffer is longer than `isize::MAX`.
-/

namespace SpecterComs.Framing

abbrev Bytes := List UInt8

/-- A byte slice or vector of a 32-bit process. -/
abbrev Buffer := {bytes : Bytes // bytes.length < 2 ^ 31}

/-- `u32::to_le_bytes`. -/
def toLeBytes (n : ℕ) : Bytes :=
  [.ofNat n, .ofNat (n / 256), .ofNat (n / 65536), .ofNat (n / 16777216)]

/-- `u32::from_le_bytes` of the first four bytes. -/
def fromLeBytes : Bytes → ℕ
  | a :: b :: c :: d :: _ => a.toNat + 256 * b.toNat + 65536 * c.toNat + 16777216 * d.toNat
  | _ => 0

/-- `item.len() as u32`, then the item. -/
def frameItem (item : Bytes) : Bytes :=
  toLeBytes (item.length % 2 ^ 32) ++ item

def frameBytesList : List Bytes → Bytes
  | [] => []
  | item :: items => frameItem item ++ frameBytesList items

/-- A vector that would grow beyond `isize::MAX` panics. -/
def frameKeyPackages (keyPackages : List Buffer) : Option Buffer :=
  let out := frameBytesList (keyPackages.map Subtype.val)
  if h : out.length < 2 ^ 31 then some ⟨out, h⟩ else none

/-- `+` on `usize`, in a build with overflow checks or without them. -/
def usizeAdd (overflowChecks : Bool) (a b : ℕ) : Option ℕ :=
  if a + b < 2 ^ 32 then some (a + b)
  else if overflowChecks then none
  else some ((a + b) % 2 ^ 32)

/-- `bytes[start..stop]`. -/
def slice (bytes : Bytes) (start stop : ℕ) : Option Bytes :=
  if start ≤ stop ∧ stop ≤ bytes.length then some ((bytes.take stop).drop start) else none

/-- The loop of `decode_framed`; `none` is a panic. -/
def decodeFrom (overflowChecks : Bool) (bytes : Bytes) :
    ℕ → ℕ → List Bytes → Option (Except String (List Bytes))
  | 0, i, out => if i < bytes.length then none else some (.ok out)
  | rounds + 1, i, out =>
      if i < bytes.length then do
        let start ← usizeAdd overflowChecks i 4
        if bytes.length < start then
          some (.error "truncated length prefix in framed buffer")
        else
          let len := fromLeBytes (bytes.drop i)
          let stop ← usizeAdd overflowChecks start len
          if bytes.length < stop then
            some (.error "truncated entry in framed buffer")
          else
            let entry ← slice bytes start stop
            decodeFrom overflowChecks bytes rounds stop (out ++ [entry])
      else some (.ok out)

/-- Every round reads at least one byte. -/
def decodeFramed (overflowChecks : Bool) (bytes : Buffer) : Option (Except String (List Bytes)) :=
  decodeFrom overflowChecks bytes.val bytes.val.length 0 []

end SpecterComs.Framing
