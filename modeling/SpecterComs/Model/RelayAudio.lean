import Mathlib.Data.List.AList
import Mathlib.Data.List.MinMax
import SpecterComs.Library.StepSystem
import Mathlib.Algebra.GroupWithZero.Nat
import Mathlib.Algebra.Group.Int.Defs

/-! # Relay-mode voice frames, wire version 3

The frame format, the sending session and the receiver of
`wasm-crypto/src/relay_audio.rs`. HKDF-SHA256 and ChaCha20-Poly1305 are the
third-party crates; they enter as `Primitives`. Sequence numbers, timestamps and
the tick are `u64` in the source and natural numbers below `2 ^ 64` here.
-/

namespace SpecterComs.RelayAudio

abbrev Bytes := List UInt8

def version : UInt8 := 0x03
def sessionIdLen : ℕ := 16
def seqOffset : ℕ := 1 + sessionIdLen
def tsOffset : ℕ := seqOffset + 8
def headerLen : ℕ := tsOffset + 8
def tagLen : ℕ := 16
def groupSecretLen : ℕ := 32
def maxSkewMs : ℕ := 30000

/-- Replay window width in frames: one bit each of a `u128`. -/
def replayWindow : ℕ := 128
def maxSessionsPerSsrc : ℕ := 8
def maxSessionsTotal : ℕ := 256
def maxRetired : ℕ := 4096

inductive RelayError
  | badSecret
  | rng
  | sequenceExhausted
  | malformed
  | unsupportedVersion
  | replay
  | authFailed
  | staleTimestamp
  deriving DecidableEq, Repr

/-- The stable strings `voiceRelayAudio.js` matches drop reasons on. -/
def RelayError.code : RelayError → String
  | .badSecret => "bad-secret"
  | .rng => "rng-failed"
  | .sequenceExhausted => "sequence-exhausted"
  | .malformed => "malformed"
  | .unsupportedVersion => "unsupported-version"
  | .replay => "replay"
  | .authFailed => "auth-failed"
  | .staleTimestamp => "stale-timestamp"

inductive Lane
  | channel
  | cascade
  deriving DecidableEq, Repr

def Lane.toByte : Lane → UInt8
  | .channel => 0
  | .cascade => 1

def Lane.fromGlobalBroadcast (isGlobalBroadcast : Bool) : Lane :=
  if isGlobalBroadcast then .cascade else .channel

/-! ## Wire format -/

/-- Big-endian bytes of `n`, `width` of them. -/
def toBeBytes (width n : ℕ) : Bytes :=
  (List.range width).reverse.map fun i => UInt8.ofNat (n / 256 ^ i)

def fromBeBytes (bytes : Bytes) : ℕ :=
  bytes.foldl (fun n b => n * 256 + b.toNat) 0

def nonceFor (seq : ℕ) : Bytes :=
  List.replicate 4 0 ++ toBeBytes 8 seq

def headerFor (sessionId : Bytes) (seq tsMs : ℕ) : Bytes :=
  version :: sessionId ++ toBeBytes 8 seq ++ toBeBytes 8 tsMs

def withinSkew (tsMs nowMs : ℕ) : Bool :=
  (max tsMs nowMs - min tsMs nowMs) ≤ maxSkewMs

def aadFor (header : Bytes) (ssrc : UInt32) (lane : Lane) : Bytes :=
  header ++ toBeBytes 4 ssrc.toNat ++ [lane.toByte]

/-- A v3 header that has been parsed but not authenticated. -/
structure ParsedHeader where
  sessionId : Bytes
  seq : ℕ
  tsMs : ℕ
  header : Bytes
  body : Bytes
  deriving DecidableEq, Repr

def parse (frame : Bytes) : Except RelayError ParsedHeader :=
  if frame.isEmpty then
    .error .malformed
  else if frame.head? ≠ some version then
    .error .unsupportedVersion
  else if frame.length < headerLen + tagLen then
    .error .malformed
  else
    .ok {
      sessionId := (frame.take seqOffset).drop 1
      seq := fromBeBytes ((frame.take tsOffset).drop seqOffset)
      tsMs := fromBeBytes ((frame.take headerLen).drop tsOffset)
      header := frame.take headerLen
      body := frame.drop headerLen }

/-! ## Keys -/

abbrev SessionKey := UInt32 × Bytes

/-- The replay state of one session. Bit `i` of `bitmap` stands for `highest - i`. -/
structure ReplayWindow where
  highest : ℕ
  bitmap : BitVec 128
  deriving DecidableEq, Repr

structure SessionState where
  cipher : Bytes
  window : ReplayWindow
  lastUsed : ℕ
  deriving DecidableEq, Repr

/-- The third-party primitives, and the order in which the standard `HashMap`
iterates over the session table, which the language leaves open. -/
structure Primitives where
  hkdfExpand : (salt ikm info : Bytes) → Bytes
  encrypt : (key nonce aad msg : Bytes) → Option Bytes
  decrypt : (key nonce aad ciphertext : Bytes) → Option Bytes
  hashIter : List (Σ _ : SessionKey, SessionState) → List (Σ _ : SessionKey, SessionState)
  hashIter_perm : ∀ entries, (hashIter entries).Perm entries

def kdfSalt : Bytes := "specter/relay-audio/v3".toUTF8.toList
def kdfInfoPrefix : Bytes := "specter/relay-audio/v3/session-key".toUTF8.toList
def kdfFingerprintInfo : Bytes := "specter/relay-audio/v3/secret-fingerprint".toUTF8.toList

/-- The extracted group secret, with the fingerprint that recognises a re-export. -/
structure GroupKdf where
  groupSecret : Bytes
  fingerprint : Bytes
  deriving DecidableEq, Repr

def GroupKdf.new (p : Primitives) (groupSecret : Bytes) : Except RelayError GroupKdf :=
  if groupSecret.length ≠ groupSecretLen then
    .error .badSecret
  else
    .ok ⟨groupSecret, p.hkdfExpand kdfSalt groupSecret kdfFingerprintInfo⟩

def GroupKdf.sessionCipher (p : Primitives) (kdf : GroupKdf) (lane : Lane) (sessionId : Bytes) :
    Bytes :=
  p.hkdfExpand kdfSalt kdf.groupSecret (kdfInfoPrefix ++ [lane.toByte] ++ sessionId)

/-- A re-export of the secret is recognised by its fingerprint. -/
def GroupKdf.matches (p : Primitives) (kdf : GroupKdf) (groupSecret : Bytes) : Bool :=
  match GroupKdf.new p groupSecret with
  | .ok other => kdf.fingerprint = other.fingerprint
  | .error _ => false

/-! ## Sender -/

structure SenderCore where
  kdf : GroupKdf
  lane : Lane
  sessionId : Bytes
  cipher : Bytes
  nextSeq : ℕ
  lastTsMs : ℕ
  deriving DecidableEq, Repr

def SenderCore.withSessionId (p : Primitives) (groupSecret : Bytes) (lane : Lane)
    (sessionId : Bytes) : Except RelayError SenderCore := do
  let kdf ← GroupKdf.new p groupSecret
  .ok ⟨kdf, lane, sessionId, kdf.sessionCipher p lane sessionId, 0, 0⟩

/-- `random` is what `getrandom` filled in, or nothing when it failed. -/
def SenderCore.new (p : Primitives) (groupSecret : Bytes) (lane : Lane) (random : Option Bytes) :
    Except RelayError SenderCore :=
  match random with
  | none => .error .rng
  | some sessionId => SenderCore.withSessionId p groupSecret lane sessionId

/-- Seals one frame. The counter is consumed before encrypting, and dies at `u64::MAX`. -/
def SenderCore.seal (p : Primitives) (tx : SenderCore) (payload : Bytes) (ssrc : UInt32)
    (nowMs : ℕ) : Except RelayError Bytes × SenderCore :=
  let seq := tx.nextSeq
  if seq = 2 ^ 64 - 1 then
    (.error .sequenceExhausted, tx)
  else
    let tsMs := max nowMs tx.lastTsMs
    let tx' := { tx with nextSeq := seq + 1, lastTsMs := tsMs }
    let header := headerFor tx.sessionId seq tsMs
    match p.encrypt tx.cipher (nonceFor seq) (aadFor header ssrc tx.lane) payload with
    | none => (.error .authFailed, tx')
    | some ct => (.ok (header ++ ct), tx')

/-- One call of `seal`: any payload, any ssrc, any sender clock. -/
structure SealCall where
  payload : Bytes
  ssrc : UInt32
  nowMs : UInt64
  deriving DecidableEq, Repr

def SealCall.run (p : Primitives) (tx : SenderCore) (c : SealCall) :
    Except RelayError Bytes × SenderCore :=
  tx.seal p c.payload c.ssrc c.nowMs.toNat

/-- The sender after a sequence of calls. -/
def senderAfter (p : Primitives) (tx : SenderCore) (calls : List SealCall) : SenderCore :=
  calls.foldl (fun tx c => (c.run p tx).2) tx

/-- A frame that was sealed, with the call, the number and the timestamp it was sealed under. -/
structure SealedFrame where
  call : SealCall
  seq : ℕ
  tsMs : ℕ
  frame : Bytes
  deriving DecidableEq, Repr

/-- The frames that a sequence of calls returned, in order. -/
def sealedFrames (p : Primitives) (tx : SenderCore) : List SealCall → List SealedFrame
  | [] => []
  | c :: calls =>
      let tx' := (c.run p tx).2
      match (c.run p tx).1 with
      | .error _ => sealedFrames p tx' calls
      | .ok frame => ⟨c, tx.nextSeq, tx'.lastTsMs, frame⟩ :: sealedFrames p tx' calls

/-! ## Replay window -/

namespace ReplayWindow

def fresh (seq : ℕ) : ReplayWindow :=
  ⟨seq, 0#128⟩

/-- The window of a session re-admitted after eviction: everything at or below
its high-water mark counts as seen. -/
def resumed (highest : ℕ) : ReplayWindow :=
  ⟨highest, BitVec.allOnes 128⟩

def check (w : ReplayWindow) (seq : ℕ) : Except RelayError Unit :=
  if w.highest < seq then
    .ok ()
  else
    let back := w.highest - seq
    if replayWindow ≤ back then
      .error .replay
    else if w.bitmap &&& (1#128 <<< back) ≠ 0#128 then
      .error .replay
    else
      .ok ()

def accept (w : ReplayWindow) (seq : ℕ) : ReplayWindow :=
  if w.highest < seq then
    let shift := seq - w.highest
    let bitmap := if replayWindow ≤ shift then 0#128 else w.bitmap <<< shift
    ⟨seq, bitmap ||| 1#128⟩
  else
    ⟨w.highest, w.bitmap ||| (1#128 <<< (w.highest - seq))⟩

/-! The same code with the arithmetic of a debug build, where `-` of `u64` and `<<` of `u128` panic. -/

def subU64 (a b : ℕ) : Option ℕ :=
  if b ≤ a then some (a - b) else none

def shlU128 (x : BitVec 128) (amount : ℕ) : Option (BitVec 128) :=
  if amount < 128 then some (x <<< amount) else none

/-- `check`, or nothing when it panics. -/
def checkedCheck (w : ReplayWindow) (seq : ℕ) : Option (Except RelayError Unit) :=
  if w.highest < seq then
    some (.ok ())
  else do
    let back ← subU64 w.highest seq
    if replayWindow ≤ back then
      return .error .replay
    let bit ← shlU128 1#128 back
    if w.bitmap &&& bit ≠ 0#128 then
      return .error .replay
    return .ok ()

/-- `accept`, or nothing when it panics. -/
def checkedAccept (w : ReplayWindow) (seq : ℕ) : Option ReplayWindow :=
  if w.highest < seq then do
    let shift ← subU64 seq w.highest
    let bitmap ← if replayWindow ≤ shift then some 0#128 else shlU128 w.bitmap shift
    return ⟨seq, bitmap ||| 1#128⟩
  else do
    let back ← subU64 w.highest seq
    let bit ← shlU128 1#128 back
    return ⟨w.highest, w.bitmap ||| bit⟩

/-- A call on a window. -/
inductive WindowCall
  | check (seq : ℕ)
  | accept (seq : ℕ)
  deriving DecidableEq, Repr

/-- Calls on one window; a number is accepted only after a check that passed. -/
def windowCalls : StepSystem ReplayWindow WindowCall where
  step w
    | .check _ => some w
    | .accept seq => if w.check seq = .ok () then some (w.accept seq) else none

end ReplayWindow

/-! ## Receiver -/

structure ReceiverCore where
  kdf : GroupKdf
  lane : Lane
  sessions : AList fun _ : SessionKey => SessionState
  retired : AList fun _ : SessionKey => ℕ
  retiredOrder : List SessionKey
  tick : ℕ

namespace ReceiverCore

def new (p : Primitives) (groupSecret : Bytes) (lane : Lane) : Except RelayError ReceiverCore := do
  let kdf ← GroupKdf.new p groupSecret
  .ok ⟨kdf, lane, ∅, ∅, [], 0⟩

def matchesSecret (p : Primitives) (rx : ReceiverCore) (groupSecret : Bytes) : Bool :=
  rx.kdf.matches p groupSecret

/-- The loop of `retire`: the oldest marks go until at most `maxRetired` remain. -/
def trimRetired (retired : AList fun _ : SessionKey => ℕ) :
    List SessionKey → (AList fun _ : SessionKey => ℕ) × List SessionKey
  | [] => (retired, [])
  | old :: order =>
      if maxRetired < (old :: order).length then
        trimRetired (retired.erase old) order
      else
        (retired, old :: order)

def retire (rx : ReceiverCore) (key : SessionKey) (highest : ℕ) : ReceiverCore :=
  let order := if (rx.retired.lookup key).isNone then rx.retiredOrder ++ [key] else rx.retiredOrder
  let trimmed := trimRetired (rx.retired.insert key highest) order
  { rx with retired := trimmed.1, retiredOrder := trimmed.2 }

/-- The least recently used session, of one ssrc or of all. -/
def victim (p : Primitives) (rx : ReceiverCore) (onlySsrc : Option UInt32) : Option SessionKey :=
  (((p.hashIter rx.sessions.entries).filter fun e => onlySsrc.all (· == e.1.1)).argmin
    fun e => e.2.lastUsed).map Sigma.fst

/-- Evicts the victim, and names it. -/
def evictLru (p : Primitives) (rx : ReceiverCore) (onlySsrc : Option UInt32) :
    ReceiverCore × List SessionKey :=
  match victim p rx onlySsrc with
  | none => (rx, [])
  | some key =>
      match rx.sessions.lookup key with
      | none => (rx, [])
      | some st =>
          (retire { rx with sessions := rx.sessions.erase key } key st.window.highest, [key])

def sameSsrc (rx : ReceiverCore) (ssrc : UInt32) : ℕ :=
  (rx.sessions.keys.filter fun key => key.1 == ssrc).length

/-- Makes room for one more session, and lists the keys evicted for it in order. -/
def makeRoomFor (p : Primitives) (rx : ReceiverCore) (ssrc : UInt32) :
    ReceiverCore × List SessionKey :=
  let first :=
    if maxSessionsPerSsrc ≤ rx.sameSsrc ssrc then evictLru p rx (some ssrc) else (rx, [])
  let second :=
    if maxSessionsTotal ≤ first.1.sessions.keys.length then evictLru p first.1 none
    else (first.1, [])
  (second.1, first.2 ++ second.2)

/-- Takes the mark of a session that comes back out of the retired ones. -/
def unretire (rx : ReceiverCore) (key : SessionKey) : ReceiverCore :=
  if (rx.retired.lookup key).isSome then
    { rx with
      retired := rx.retired.erase key
      retiredOrder := rx.retiredOrder.filter (· ≠ key) }
  else
    rx

/-- The window an unknown or evicted session starts from, once `seq` passed its check. -/
def admission (rx : ReceiverCore) (key : SessionKey) (seq : ℕ) : Except RelayError ReplayWindow :=
  match rx.retired.lookup key with
  | some highest =>
      let w := ReplayWindow.resumed highest
      (w.check seq).map fun () => w
  | none => .ok (ReplayWindow.fresh seq)

/-- What one call of `open` leaves behind. `evicted` records the sessions it
evicted, oldest eviction first; the source only removes them. -/
structure Opened where
  core : ReceiverCore
  result : Except RelayError Bytes
  evicted : List SessionKey

/-- `ReceiverCore::open`. -/
def openFrame (p : Primitives) (rx : ReceiverCore) (frame : Bytes) (ssrc : UInt32) (nowMs : ℕ) :
    Opened :=
  match parse frame with
  | .error e => ⟨rx, .error e, []⟩
  | .ok parsed =>
      let fresh := withinSkew parsed.tsMs nowMs
      let key : SessionKey := (ssrc, parsed.sessionId)
      let aad := aadFor parsed.header ssrc rx.lane
      let nonce := nonceFor parsed.seq
      let rx := { rx with tick := (rx.tick + 1) % 2 ^ 64 }
      match rx.sessions.lookup key with
      | some state =>
          match state.window.check parsed.seq with
          | .error e => ⟨rx, .error e, []⟩
          | .ok () =>
              match p.decrypt state.cipher nonce aad parsed.body with
              | none => ⟨rx, .error .authFailed, []⟩
              | some pt =>
                  if fresh then
                    let state :=
                      { state with window := state.window.accept parsed.seq, lastUsed := rx.tick }
                    ⟨{ rx with sessions := rx.sessions.insert key state }, .ok pt, []⟩
                  else
                    ⟨rx, .error .staleTimestamp, []⟩
      | none =>
          -- nothing is stored for an unknown session until the tag has verified
          match rx.admission key parsed.seq with
          | .error e => ⟨rx, .error e, []⟩
          | .ok window =>
              let cipher := rx.kdf.sessionCipher p rx.lane parsed.sessionId
              match p.decrypt cipher nonce aad parsed.body with
              | none => ⟨rx, .error .authFailed, []⟩
              | some pt =>
                  if fresh then
                    let room := makeRoomFor p (rx.unretire key) ssrc
                    let state : SessionState := ⟨cipher, window.accept parsed.seq, rx.tick⟩
                    ⟨{ room.1 with sessions := room.1.sessions.insert key state }, .ok pt, room.2⟩
                  else
                    ⟨rx, .error .staleTimestamp, []⟩

end ReceiverCore

/-! ## Runs of calls -/

/-- One call of `open`: any bytes, any ssrc, any receiver clock. -/
structure Call where
  frame : Bytes
  ssrc : UInt32
  nowMs : ℕ
  deriving DecidableEq, Repr

def Call.run (p : Primitives) (rx : ReceiverCore) (c : Call) : ReceiverCore.Opened :=
  rx.openFrame p c.frame c.ssrc c.nowMs

/-- The receiver after a sequence of calls. -/
def after (p : Primitives) (rx : ReceiverCore) (calls : List Call) : ReceiverCore :=
  calls.foldl (fun rx c => (c.run p rx).core) rx

/-- Every eviction of a sequence of calls, in order. -/
def evictions (p : Primitives) (rx : ReceiverCore) : List Call → List SessionKey
  | [] => []
  | c :: calls => (c.run p rx).evicted ++ evictions p (c.run p rx).core calls

/-- The plaintexts that a sequence of calls returned, in order. -/
def returned (p : Primitives) (rx : ReceiverCore) : List Call → List Bytes
  | [] => []
  | c :: calls =>
      match (c.run p rx).result with
      | .error _ => returned p (c.run p rx).core calls
      | .ok pt => pt :: returned p (c.run p rx).core calls

/-- A sealed frame that reaches the receiver under the ssrc it was sealed for. -/
structure Delivery where
  sealed : SealedFrame
  nowMs : ℕ
  deriving DecidableEq, Repr

def Delivery.call (d : Delivery) : Call :=
  ⟨d.sealed.frame, d.sealed.call.ssrc, d.nowMs⟩

def Delivery.inSkew (d : Delivery) : Bool :=
  withinSkew d.sealed.tsMs d.nowMs

/-- The call is answered with a plaintext, for frame `seq` of session `key`. -/
def Accepts (p : Primitives) (rx : ReceiverCore) (c : Call) (key : SessionKey) (seq : ℕ) : Prop :=
  ∃ parsed pt, parse c.frame = .ok parsed ∧ key = (c.ssrc, parsed.sessionId) ∧
    seq = parsed.seq ∧ (c.run p rx).result = .ok pt

end SpecterComs.RelayAudio
