import SpecterComs.Model.Chat.Dates
import SpecterComs.Model.MediaServer.Rooms

/-! # The ssrc of a user

A client seals its frames under `hashUserId` of `CommLink.jsx`. The relay writes `canonical_ssrc` of
`media-rust/src/main.rs` into every frame it forwards.
-/

namespace SpecterComs.MediaServer

/-! ## The media server -/

/-- `hash.wrapping_shl(5).wrapping_sub(hash).wrapping_add(c as i32)`. -/
def ssrcStep (hash : BitVec 32) (c : Char) : BitVec 32 :=
  hash <<< 5 - hash + BitVec.ofNat 32 c.toNat

/-- The `i32` hash of the characters, and its `unsigned_abs`. -/
def canonicalSsrc (userId : UserId) : BitVec 32 :=
  (userId.toList.foldl ssrcStep 0).abs

/-! ## The client

A number is exact as long as it stays within 53 bits.
-/

/-- `x | 0`. -/
def toInt32 (x : ℤ) : ℤ :=
  x.bmod (2 ^ 32)

/-- `x >>> 0`. -/
def toUint32 (x : ℤ) : ℤ :=
  x % 2 ^ 32

/-- `hash << 5`, on the 32 bits of the hash. -/
def shiftLeft (hash : ℤ) : ℤ :=
  toInt32 (toInt32 hash * 2 ^ 5)

def hashStep (hash : ℤ) (code : ℕ) : ℤ :=
  toInt32 (shiftLeft hash - hash + code)

def hashUserId (id : UserId) : ℤ :=
  if id = "" then 1
  else
    let hash := toUint32 |(Chat.utf16 id).foldl hashStep 0|
    if hash = 0 then 1 else hash

end SpecterComs.MediaServer
