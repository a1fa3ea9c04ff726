import Mathlib.Data.List.Basic
import Mathlib.Algebra.GroupWithZero.Nat

/-! # Annex-B to AVCC

`annexBToAvcc` of `CommLink.jsx`. A read or a write outside of a buffer has no result here, and
neither has a scan that takes more rounds than there are bytes.
-/

namespace SpecterComs.AnnexB

abbrev Bytes := List UInt8

/-! ## The scans -/

/-- `view.getUint32(i)`. -/
def getUint32 (data : Bytes) (i : ℕ) : Option ℕ := do
  let b0 ← data[i]?
  let b1 ← data[i + 1]?
  let b2 ← data[i + 2]?
  let b3 ← data[i + 3]?
  return ((b0.toNat * 256 + b1.toNat) * 256 + b2.toNat) * 256 + b3.toNat

/-- `data[j] === 0 && data[j+1] === 0 && data[j+2] === 1`. -/
def readsCode (data : Bytes) (j : ℕ) : Option Bool := do
  if (← data[j]?) ≠ 0 then return false
  else if (← data[j + 1]?) ≠ 0 then return false
  else return (← data[j + 2]?) = 1

def readsLongCode (data : Bytes) (i : ℕ) : Option Bool :=
  if i + 3 < data.length then (getUint32 data i).map (· = 1) else some false

def readsShortCode (data : Bytes) (i : ℕ) : Option Bool :=
  if i + 2 < data.length then readsCode data i else some false

/-- The length of the start code at `i`, 0 where there is none. -/
def startCodeLen (data : Bytes) (i : ℕ) : Option ℕ := do
  if ← readsLongCode data i then return 4
  else if ← readsShortCode data i then return 3
  else return 0

/-- The inner loop, with the rounds that are left of it. -/
def nalEndFrom (data : Bytes) : (rounds : ℕ) → (j : ℕ) → Option ℕ
  | 0, _ => some data.length
  | rounds + 1, j => do
      if ← readsCode data j then
        if 0 < j then return if (← data[j - 1]?) = 0 then j - 1 else j
        else return j
      else nalEndFrom data rounds (j + 1)

def nalEnd (data : Bytes) (nalStart : ℕ) : Option ℕ :=
  nalEndFrom data (data.length - 2 - nalStart) nalStart

/-- `data.slice(start, stop)`. -/
def slice (data : Bytes) (start stop : ℕ) : Bytes :=
  (data.take stop).drop start

/-- The outer loop: the units found from `i` on. -/
def scan (data : Bytes) : (fuel : ℕ) → (i : ℕ) → Option (List Bytes)
  | 0, i => if i < data.length then none else some []
  | fuel + 1, i => do
      if i < data.length then
        match ← startCodeLen data i with
        | 0 => scan data fuel (i + 1)
        | codeLen =>
            let nalStart := i + codeLen
            let stop ← nalEnd data nalStart
            let nalUnit := slice data nalStart stop
            let nalUnits ← scan data fuel stop
            return if 0 < nalUnit.length then nalUnit :: nalUnits else nalUnits
      else return []

/-! ## The output -/

/-- A number in four bytes, the highest first: what `setUint32` writes. -/
def uint32 (n : ℕ) : Bytes :=
  [.ofNat (n / 256 ^ 3), .ofNat (n / 256 ^ 2), .ofNat (n / 256), .ofNat n]

/-- `out.set(bytes, offset)`. -/
def set (out bytes : Bytes) (offset : ℕ) : Option Bytes :=
  if offset + bytes.length ≤ out.length then
    some (out.take offset ++ bytes ++ out.drop (offset + bytes.length))
  else none

/-- The loop that fills `out`. -/
def assemble : (nalUnits : List Bytes) → (out : Bytes) → (offset : ℕ) → Option Bytes
  | [], out, _ => some out
  | nal :: nalUnits, out, offset => do
      let out ← set out (uint32 nal.length) offset
      let out ← set out nal (offset + 4)
      assemble nalUnits out (offset + 4 + nal.length)

def totalLen (nalUnits : List Bytes) : ℕ :=
  (nalUnits.map fun nal => 4 + nal.length).sum

def annexBToAvcc (data : Bytes) : Option Bytes := do
  let nalUnits ← scan data data.length 0
  if nalUnits = [] then return data
  else assemble nalUnits (List.replicate (totalLen nalUnits) 0) 0

end SpecterComs.AnnexB
