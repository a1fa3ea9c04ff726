import SpecterComs.Model.RelayAudio

/-! # `specter.v1.AudioFrame` in protobuf

The hand-written encoder and decoder of `voiceRelayAudio.js`. The bit operators of
JavaScript work on signed 32-bit numbers, shift amounts are taken modulo 32, and reading
outside of an array gives `undefined`, which they take for 0.
-/

namespace SpecterComs.FrameProto

open RelayAudio (Bytes)

structure AudioFrame where
  opusBytes : Option Bytes
  ssrc : ℕ
  sequence : ℕ
  isGlobalBroadcast : Bool
  senderSignature : Option Bytes
  deriving DecidableEq, Repr

/-! ## Decoder -/

/-- `bytes[pos]`. -/
def byteAt (bytes : Bytes) (pos : ℤ) : UInt8 :=
  if pos < 0 then 0 else bytes[pos.toNat]?.getD 0

/-- `bytes.slice(start, stop)`: a negative index counts from the end. -/
def slice (bytes : Bytes) (start stop : ℤ) : Bytes :=
  let index (i : ℤ) : ℕ := (if i < 0 then bytes.length + i else i).toNat
  (bytes.take (index stop)).drop (index start)

/-- The loop over a varint, with at most `left` bytes before the end: the bits so far, how
many there are, and the position. -/
def varintLoop (bytes : Bytes) : (left : ℕ) → ℤ → BitVec 32 → ℕ → BitVec 32 × ℤ
  | 0, pos, val, _ => (val, pos)
  | left + 1, pos, val, shift =>
      let b := byteAt bytes pos
      let val := val ||| BitVec.ofNat 32 (b &&& 0x7f).toNat <<< (shift % 32)
      if b &&& 0x80 = 0 then (val, pos + 1)
      else varintLoop bytes left (pos + 1) val (shift + 7)

/-- A varint at `pos`, with the position behind it. -/
def readVarint (bytes : Bytes) (pos : ℤ) : BitVec 32 × ℤ :=
  varintLoop bytes (bytes.length - pos).toNat pos 0 0

def fieldNumber (tag : BitVec 32) : ℕ :=
  (tag >>> 3).toNat

def wireType (tag : BitVec 32) : ℕ :=
  (tag &&& 7).toNat

structure Decoding where
  pos : ℤ
  frame : AudioFrame
  deriving DecidableEq, Repr

def start : Decoding :=
  ⟨0, ⟨none, 0, 0, false, none⟩⟩

def AudioFrame.setVarint (frame : AudioFrame) (field : ℕ) (val : BitVec 32) : AudioFrame :=
  if field = 2 then { frame with ssrc := val.toNat }
  else if field = 3 then { frame with sequence := val.toNat }
  else if field = 4 then { frame with isGlobalBroadcast := val ≠ 0 }
  else frame

def AudioFrame.setBytes (frame : AudioFrame) (field : ℕ) (data : Bytes) : AudioFrame :=
  if field = 1 then { frame with opusBytes := some data }
  else if field = 5 then { frame with senderSignature := some data }
  else frame

/-- One iteration of the outer loop, none when it is left. -/
def decodeField (bytes : Bytes) (d : Decoding) : Option Decoding :=
  if d.pos < bytes.length then
    let (tag, pos) := readVarint bytes d.pos
    if wireType tag = 0 then
      let (val, pos) := readVarint bytes pos
      some ⟨pos, d.frame.setVarint (fieldNumber tag) val⟩
    else if wireType tag = 2 then
      let (len, pos) := readVarint bytes pos
      let data := slice bytes pos (pos + len.toInt)
      some ⟨pos + len.toInt, d.frame.setBytes (fieldNumber tag) data⟩
    else none
  else none

/-- The outer loop in at most so many iterations, none if it has not been left by then. -/
def decodeLoop (bytes : Bytes) : ℕ → Decoding → Option AudioFrame
  | 0, _ => none
  | rounds + 1, d =>
      match decodeField bytes d with
      | none => some d.frame
      | some d => decodeLoop bytes rounds d

/-- `decodeAudioFrameProto` returns the frame. -/
def Decodes (bytes : Bytes) (frame : AudioFrame) : Prop :=
  ∃ rounds, decodeLoop bytes rounds start = some frame

/-- The datagrams that `routeAudioDatagram` decodes. -/
def isAudio (bytes : Bytes) : Bool :=
  2 ≤ bytes.length ∧ bytes.head? ≠ some 0xff

/-! ## Encoder -/

/-- The loop of `writeVarint`. Five bytes take all 32 bits. -/
def varintBytes : ℕ → ℕ → Bytes
  | 0, _ => []
  | bytes + 1, value =>
      if 0x7f < value then UInt8.ofNat ((value &&& 0x7f) ||| 0x80) :: varintBytes bytes (value >>> 7)
      else [UInt8.ofNat (value &&& 0x7f)]

/-- `writeVarint`, of a number that `>>> 0` makes unsigned. -/
def writeVarint (value : ℕ) : Bytes :=
  varintBytes 5 (value % 2 ^ 32)

/-- `encodeAudioFrameProto`. -/
def encode (ssrc : ℕ) (sequence : ℤ) (opusBytes : Bytes) (isGlobalBroadcast : Bool)
    (senderSignature : Option Bytes) : Bytes :=
  writeVarint (1 <<< 3 ||| 2) ++ writeVarint opusBytes.length ++ opusBytes ++
    writeVarint (2 <<< 3 ||| 0) ++ writeVarint ssrc ++
    writeVarint (3 <<< 3 ||| 0) ++
      writeVarint (BitVec.ofInt 32 sequence &&& 0x7fffffff#32).toNat ++
    (if isGlobalBroadcast then writeVarint (4 <<< 3 ||| 0) ++ writeVarint 1 else []) ++
    match senderSignature with
    | none => []
    | some signature =>
        if 0 < signature.length then
          writeVarint (5 <<< 3 ||| 2) ++ writeVarint signature.length ++ signature
        else []

end SpecterComs.FrameProto
