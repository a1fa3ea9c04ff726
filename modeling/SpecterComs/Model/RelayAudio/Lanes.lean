import SpecterComs.Model.RelayAudio.FrameProto
import SpecterComs.Model.RelayAudio.KeyGraceSlot

/-! # Opening audio frames across rekeys

`openAudioFrame` and `retainOrReplaceRelayCipher` of `voiceRelayAudio.js` over the grace
slots of the two lanes. A receiver is an object of the wasm module; its handle is its
place in the list of all that were created.
-/

namespace SpecterComs.RelayLanes

open RelayAudio FrameProto KeyGrace

/-- A `RelayAudioReceiver`. `evicted` records the sessions it evicted, in order. -/
structure Receiver where
  core : ReceiverCore
  evicted : List SessionKey

structure Lanes where
  receivers : List Receiver
  channel : Slot ℕ
  cascade : Slot ℕ

inductive DropReason
  | noKey
  | decryptFailed
  | replay
  | badFormat
  | stale
  | unexpectedRelayFrame
  deriving DecidableEq, Repr

/-- What `openAudioFrame` returns. -/
inductive Opening
  | play (opusBytes : Option Bytes) (previousKey : Bool)
  | drop (reason : DropReason) (error : Option String) (previousKey : Bool)
  deriving DecidableEq, Repr

def Opening.played : Opening → Option Bytes
  | .play opusBytes _ => opusBytes
  | .drop .. => none

/-- The keys that `openAudioFrame` is given. -/
structure LaneKeys where
  channelKey : Option ℕ
  cascadeKey : Option ℕ
  channelPrevKey : Option ℕ
  cascadePrevKey : Option ℕ
  deriving DecidableEq, Repr

def dropReasonForOpenError (code : String) : DropReason :=
  if code = "replay" then .replay
  else if code = "stale-timestamp" then .stale
  else if code = "unsupported-version" ∨ code = "malformed" then .badFormat
  else .decryptFailed

def laneOf (frame : AudioFrame) : Lane :=
  .fromGlobalBroadcast frame.isGlobalBroadcast

namespace Lanes

def empty : Lanes := ⟨[], .empty, .empty⟩

def slot (s : Lanes) : Lane → Slot ℕ
  | .channel => s.channel
  | .cascade => s.cascade

def setSlot (s : Lanes) (lane : Lane) (slot : Slot ℕ) : Lanes :=
  match lane with
  | .channel => { s with channel := slot }
  | .cascade => { s with cascade := slot }

/-! ## Receivers -/

def isFreed (s : Lanes) (handle : ℕ) : Bool :=
  (s.channel.frees ++ s.cascade.frees).any (·.key = handle)

/-- The object behind a handle, unless it was freed. -/
def live (s : Lanes) (handle : ℕ) : Option Receiver :=
  if s.isFreed handle then none else s.receivers[handle]?

/-- `receiver.open(bytes, ssrc)` at the clock `nowMs`, with what it throws. -/
def openWith (p : Primitives) (s : Lanes) (handle : ℕ) (bytes : Option Bytes) (ssrc : UInt32)
    (nowMs : ℕ) : Except String Bytes × Lanes :=
  match bytes, s.live handle with
  | none, _ => (.error "Cannot read properties of null (reading 'length')", s)
  | some _, none => (.error "null pointer passed to rust", s)
  | some bytes, some rx =>
      let opened := rx.core.openFrame p bytes ssrc nowMs
      (opened.result.mapError RelayError.code,
        { s with
          receivers := s.receivers.set handle ⟨opened.core, rx.evicted ++ opened.evicted⟩ })

/-- `new RelayAudioReceiver(secret, isCascade)`. -/
def create (p : Primitives) (s : Lanes) (lane : Lane) (secret : Bytes) :
    Except RelayError (ℕ × Lanes) := do
  let core ← ReceiverCore.new p secret lane
  .ok (s.receivers.length, { s with receivers := s.receivers ++ [⟨core, []⟩] })

/-- A call of `matches_secret` on a freed receiver throws, which counts as no match. -/
def retainOrReplaceRelayCipher (p : Primitives) (s : Lanes) (prev : Option ℕ) (secret : Bytes)
    (create : Lanes → Except RelayError (ℕ × Lanes)) : Except RelayError (ℕ × Lanes) :=
  match prev with
  | none => create s
  | some handle =>
      if (s.live handle).any (·.core.matchesSecret p secret) then .ok (handle, s) else create s

/-! ## Frames -/

/-- The two reads of the clock are one for each receiver. -/
def openAudioFrame (p : Primitives) (s : Lanes) (frame : AudioFrame) (relayMode : Bool)
    (keys : LaneKeys) (nowMs prevNowMs : ℕ) : Opening × Lanes :=
  let ssrc := UInt32.ofNat frame.ssrc
  if !relayMode then
    if ssrc ≠ 0 then (.drop .unexpectedRelayFrame none false, s)
    else (.play frame.opusBytes false, s)
  else
    let receiver := if frame.isGlobalBroadcast then keys.cascadeKey else keys.channelKey
    let previous := if frame.isGlobalBroadcast then keys.cascadePrevKey else keys.channelPrevKey
    match receiver with
    | none => (.drop .noKey none false, s)
    | some receiver =>
        match s.openWith p receiver frame.opusBytes ssrc nowMs with
        | (.ok opusBytes, s) => (.play (some opusBytes) false, s)
        | (.error firstError, s) =>
            let reason := dropReasonForOpenError firstError
            -- only a failed AEAD check can mean that the frame is sealed under the other key
            match if reason ≠ .decryptFailed then none else previous.filter (· ≠ receiver) with
            | none => (.drop reason (some firstError) false, s)
            | some previous =>
                match s.openWith p previous frame.opusBytes ssrc prevNowMs with
                | (.ok opusBytes, s) => (.play (some opusBytes) true, s)
                | (.error error, s) =>
                    let reason := dropReasonForOpenError error
                    if reason = .replay ∨ reason = .stale then
                      (.drop reason (some error) true, s)
                    else
                      (.drop .decryptFailed (some firstError) false, s)

def keys (s : Lanes) : LaneKeys :=
  ⟨s.channel.current, s.cascade.current, s.channel.previous, s.cascade.previous⟩

/-- A frame arrives in relay mode. -/
def receive (p : Primitives) (s : Lanes) (frame : AudioFrame) (nowMs prevNowMs : ℕ) :
    Opening × Lanes :=
  s.openAudioFrame p frame true s.keys nowMs prevNowMs

/-! ## Rekeys -/

/-- An export of the lane's secret is installed, or nothing happens because the constructor
throws. -/
def rekey (p : Primitives) (s : Lanes) (lane : Lane) (secret : Bytes) : Lanes :=
  match s.retainOrReplaceRelayCipher p (s.slot lane).current secret (create p · lane secret) with
  | .error _ => s
  | .ok (next, s) => s.setSlot lane ((s.slot lane).install (some next))

inductive Input
  | receive (frame : AudioFrame) (nowMs prevNowMs : ℕ)
  | rekey (lane : Lane) (secret : Bytes)
  /-- The previous receiver is installed again. -/
  | swapBack (lane : Lane)
  | expire (lane : Lane)
  | clear (lane : Lane)
  | fire (lane : Lane) (id : ℕ)
  deriving DecidableEq, Repr

def step (p : Primitives) (s : Lanes) : Input → Option Lanes
  | .receive frame nowMs prevNowMs => some (s.receive p frame nowMs prevNowMs).2
  | .rekey lane secret => some (s.rekey p lane secret)
  | .swapBack lane => some (s.setSlot lane ((s.slot lane).install (s.slot lane).previous))
  | .expire lane => some (s.setSlot lane (s.slot lane).expire)
  | .clear lane => some (s.setSlot lane (s.slot lane).clear)
  | .fire lane id => ((s.slot lane).step (.fire id)).map (s.setSlot lane)

end Lanes

/-- Every sequence of frames, rekeys and timers. -/
def lanes (p : Primitives) : StepSystem Lanes Lanes.Input where
  step := Lanes.step p

end SpecterComs.RelayLanes
