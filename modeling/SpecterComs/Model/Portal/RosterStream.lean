import SpecterComs.Library.JsonText
import SpecterComs.Model.MlsStore.Msgcache

/-! # The roster stream of a monitored channel

`readIncomingStreams` and `readRosterStream` of `useMonitorChannel.js`, for one incoming stream
of a monitor that goes on.
-/

namespace SpecterComs.RosterStream

open JsonText (Text Value)
open MlsStore (Bytes fromUtf8Lossy)

/-! ## One line -/

/-- `new TextDecoder().decode`, which leaves out a byte order mark in front. -/
def decode (bytes : Bytes) : Text :=
  match (fromUtf8Lossy bytes).toList with
  | '\uFEFF' :: text => text
  | text => text

/-- The white space and the line ends that `trim` removes. -/
def isWhitespace (c : Char) : Bool :=
  let n := c.toNat
  9 ≤ n && n ≤ 13 || 0x2000 ≤ n && n ≤ 0x200A ||
    [0x20, 0xA0, 0x1680, 0x2028, 0x2029, 0x202F, 0x205F, 0x3000, 0xFEFF].contains n

def trim (text : Text) : Text :=
  ((text.dropWhile isWhitespace).reverse.dropWhile isWhitespace).reverse

/-- What a line hands to `handleRosterMsg`, if anything. -/
def lineMessage (bytes : Bytes) : Option Value :=
  let line := trim (decode bytes)
  if line = [] then none else JsonText.parse line

/-! ## The readers -/

/-- `buf.indexOf(0x0a)`: the line in front of it, and what is behind it. -/
def splitLine : Bytes → Option (Bytes × Bytes)
  | [] => none
  | b :: buf =>
      if b = 0x0A then some ([], buf)
      else (splitLine buf).map fun (line, buf) => (b :: line, buf)

/-- The inner loop: the messages handled, and what stays in `buf`. A round takes a byte out of
it. -/
def drainLines : ℕ → Bytes → List Value × Bytes
  | 0, buf => ([], buf)
  | rounds + 1, buf =>
      match splitLine buf with
      | none => ([], buf)
      | some (line, rest) =>
          let (messages, buf) := drainLines rounds rest
          ((lineMessage line).toList ++ messages, buf)

/-- The messages handled of the chunks that come behind what is in `buf`. -/
def readRosterStream (buf : Bytes) : List Bytes → List Value
  | [] => []
  | chunk :: chunks =>
      let buf := buf ++ chunk
      let (messages, buf) := drainLines buf.length buf
      messages ++ readRosterStream buf chunks

/-- The first chunk is read for the type of the stream alone. -/
def readIncomingStreams : List Bytes → List Value
  | [] => []
  | firstChunk :: chunks =>
      if firstChunk.head? = some 0x01 then readRosterStream [] chunks else []

end SpecterComs.RosterStream
