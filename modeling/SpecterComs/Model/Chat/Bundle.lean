import SpecterComs.Library.JsonText
import SpecterComs.Model.Chat.Sync

/-! # Bundle documents

The JSON texts that the chunks of an answer travel as: `chunkBundle` writes them and
`parseBundle` reads them (`engine/chatSyncCore.js`).
-/

namespace SpecterComs.Chat

open JsonText (Text Value)

/-! ## Writing -/

def nullable : Option String → Value
  | none => .null
  | some s => .string s.toList

/-- An item as `JSON.stringify` sees it. -/
def BundleItem.value (item : BundleItem) : Value :=
  .object
    [("id".toList, nullable item.id),
      ("sender_id".toList, nullable item.senderId),
      ("callsign".toList, nullable item.callsign),
      ("global_tag".toList, nullable item.globalTag),
      ("timestamp".toList, nullable item.timestamp),
      ("text".toList, nullable item.text),
      ("image_url".toList, nullable item.imageUrl)]

def bundleDoc (items : List BundleItem) : Value :=
  .object
    [("v".toList, .number 1 0),
      ("items".toList, .array (items.map BundleItem.value))]

/-- `wrap`. -/
def wrap (items : List BundleItem) : Text :=
  JsonText.write (bundleDoc items)

/-- The length of a text in UTF-8. -/
def byteLength (t : Text) : ℕ :=
  (t.map Char.utf8Size).sum

def itemLength (item : BundleItem) : ℕ :=
  byteLength (JsonText.write item.value)

/-- The `json` of each chunk. -/
def chunkTexts (items : List BundleItem) (maxBytes : ℕ) : List Text :=
  (chunkBundle itemLength items maxBytes).map wrap

/-! ## Reading -/

/-- A decimal that is read as the number 1: it is within half a unit in the last place. -/
def isVersion (mantissa exponent : ℤ) : Bool :=
  let up := 10 ^ exponent.toNat
  let down := 10 ^ (-exponent).toNat
  (2 ^ 54 - 1) * down ≤ 2 ^ 54 * mantissa * up && 2 ^ 53 * mantissa * up ≤ (2 ^ 53 + 1) * down

/-- A member of an item, where it is a string. -/
def stringMember (key : String) (v : Value) : Option String :=
  match v.get? key.toList with
  | some (.string s) => some (String.ofList s)
  | _ => none

def itemOf (v : Value) : BundleItem where
  id := stringMember "id" v
  senderId := stringMember "sender_id" v
  callsign := stringMember "callsign" v
  globalTag := stringMember "global_tag" v
  timestamp := stringMember "timestamp" v
  text := stringMember "text" v
  imageUrl := stringMember "image_url" v

/-- The items of a document of this version. -/
def docItems (json : Text) : Option (List BundleItem) := do
  let doc ← JsonText.parse json
  match doc.get? "v".toList, doc.get? "items".toList with
  | some (.number mantissa exponent), some (.array items) =>
      if isVersion mantissa exponent then some (items.map itemOf) else none
  | _, _ => none

/-- `parseBundle`, of any text. -/
def parseText (platform : Platform) (channelId : String) (relayedBy : Option String)
    (now : String) (json : Text) : List (Incoming ChannelExtra) :=
  match docItems json with
  | some items => parseBundle platform channelId relayedBy now items
  | none => []

end SpecterComs.Chat
