import SpecterComs.Model.Chat.Rows
import SpecterComs.Library.StepSystem

/-! # Catch-up between peers

What a device asks its peers for, what a peer answers with, and the bundles the answer
travels in (`engine/chatSyncCore.js`, `engine/useChannelChat.js`), with the reads of
`messageStore.js` they use.
-/

namespace SpecterComs.Chat

abbrev ChannelRow := Row ChannelExtra
abbrev ChannelStore := Store ChannelExtra

/-- `SYNC_REPLY_MAX`. -/
def syncReplyMax : ℕ := 200
/-- `STORE_WINDOW`. -/
def storeWindow : ℕ := 500
/-- `BUNDLE_MAX_BYTES`. -/
def bundleMaxBytes : ℕ := 48000

variable (platform : Platform) {Extra : Type}

/-! ## Order -/

/-- `sort` by `localeCompare` of the timestamps. It is stable. -/
def sortByTimestamp (rows : List (Row Extra)) : List (Row Extra) :=
  rows.mergeSort fun a b => platform.localeCompare a.timestamp b.timestamp != .gt

/-- `slice(-n)`. -/
def lastOf {α : Type} (n : ℕ) (xs : List α) : List α :=
  xs.drop (xs.length - n)

/-! ## Reads of the store -/

/-- The rows of one channel between two timestamps, in the order of the index: by
timestamp, then by id. -/
def indexRange (s : Store Extra) (place : String) (above : Option String) : List (Row Extra) :=
  (s.rows.filter fun row =>
    row.place == some place && !before "\uFFFF" row.timestamp &&
      above.all fun since => before since row.timestamp).mergeSort fun a b =>
        before a.timestamp b.timestamp ||
          (!before b.timestamp a.timestamp && !before b.id a.id)

/-- `getChannelMessages`: the newest `limit` rows, oldest first. -/
def getChannelMessages (s : Store Extra) (channelId : String) (limit : ℕ) : List (Row Extra) :=
  lastOf limit (sortByTimestamp platform (indexRange s channelId none))

/-- `getChannelMessagesSince`: the oldest `limit` rows after `since`. -/
def getChannelMessagesSince (s : Store Extra) (channelId since : String) (limit : ℕ) :
    List (Row Extra) :=
  (sortByTimestamp platform
    (indexRange s channelId (if since = "" then none else some since))).take limit

/-! ## Asking -/

/-- `computeSyncSince`. A stored timestamp is not empty. -/
def computeSyncSince (rows : List (Row Extra)) : Option String :=
  let sorted := sortByTimestamp platform rows
  match (sorted.find? fun row => !row.isReadable).bind fun row =>
      platform.dateParse row.timestamp with
  | some t => if 0 < t then some (toISOString (t - 1)) else none
  | none => sorted.getLast?.map Row.timestamp

/-- One channel of a catch-up request. -/
structure SyncChannel where
  channelId : String
  since : Option String
  deriving DecidableEq, Repr

/-- The list cut into slices of `n`. -/
def slices {α : Type} (n : ℕ) : ℕ → List α → List (List α)
  | 0, _ => []
  | fuel + 1, xs => if xs.isEmpty then [] else xs.take n :: slices n fuel (xs.drop n)

/-- `requestCatchUp`: what is asked for each channel, in requests of 500 channels. -/
def requestCatchUp (s : ChannelStore) (channelIds : List String) : List (List SyncChannel) :=
  let channels := channelIds.map fun channelId =>
    ⟨channelId, computeSyncSince platform (getChannelMessages platform s channelId storeWindow)⟩
  slices 500 channels.length channels

/-! ## The server's schema -/

open DeliveryService (Issues isUuid)

/-- A channel of a request body. -/
structure SyncChannelBody where
  channelId : DeliveryService.Field String
  since : DeliveryService.Field String
  deriving DecidableEq, Repr

def SyncChannel.body (c : SyncChannel) : SyncChannelBody :=
  ⟨.value c.channelId, c.since.elim .null .value⟩

/-- `z.string().datetime().nullable().optional()`. -/
def sinceOk : DeliveryService.Field String → Bool
  | .value s => isDatetime s
  | .mistyped => false
  | _ => true

def uuidOk : DeliveryService.Field String → Bool
  | .value s => isUuid s
  | _ => false

/-- `ORG_SYNC_MAX_CHANNELS`. -/
def orgSyncMaxChannels : ℕ := 500

/-- The issues of one element of `channels`. -/
def channelIssues (index : ℕ) (c : SyncChannelBody) : Issues :=
  (if uuidOk c.channelId then [] else ["channels." ++ toString index ++ ".channel_id"]) ++
    if sinceOk c.since then [] else ["channels." ++ toString index ++ ".since"]

/-- `orgSyncRequestSchema`: the paths of its issues, none where the body is taken. -/
def orgSyncRequestIssues (channels : List SyncChannelBody) : Issues :=
  channels.zipIdx.flatMap (fun c => channelIssues c.2 c.1) ++
    if 1 ≤ channels.length ∧ channels.length ≤ orgSyncMaxChannels then [] else ["channels"]

/-! ## Answering -/

/-- `selectReplyRows`. -/
def selectReplyRows (rows : List ChannelRow) (since : Option String) (max : ℕ) :
    List ChannelRow :=
  let readable := sortByTimestamp platform (rows.filter Row.isReadable)
  match since.filter (· ≠ "") with
  | none => lastOf max readable
  | some since => (readable.filter fun row => before since row.timestamp).take max

/-- One item of a bundle. Any field may be missing where a peer made the bundle. -/
structure BundleItem where
  id : Option String
  senderId : Option String
  callsign : Option String
  globalTag : Option String
  timestamp : Option String
  text : Option String
  imageUrl : Option String
  deriving DecidableEq, Repr

def toBundleItem (row : ChannelRow) : BundleItem where
  id := row.id
  senderId := row.senderId
  callsign := row.callsign
  globalTag := row.extra.globalTag
  timestamp := row.timestamp
  text := row.plaintext
  imageUrl := row.extra.imageUrl

/-- The bytes of `{"v":1,"items":[]}`. -/
def bundleOverhead : ℕ := 18

/-- The chunks made so far and the one being filled, with its bytes. -/
structure Chunking where
  done : List (List BundleItem)
  current : List BundleItem
  bytes : ℕ

/-- One item of `chunkBundle`. `byteLength` is that of the item's JSON text. -/
def chunkItem (byteLength : BundleItem → ℕ) (maxBytes : ℕ) (c : Chunking) (item : BundleItem) :
    Chunking :=
  let item :=
    if maxBytes < bundleOverhead + (byteLength item + 1) ∧ item.imageUrl.any (· ≠ "") then
      { item with imageUrl := none }
    else item
  let size := byteLength item + 1
  if maxBytes < bundleOverhead + size then c
  else if maxBytes < c.bytes + size ∧ c.current ≠ [] then
    ⟨c.done ++ [c.current], [item], bundleOverhead + size⟩
  else
    { c with current := c.current ++ [item], bytes := c.bytes + size }

/-- `chunkBundle`. -/
def chunkBundle (byteLength : BundleItem → ℕ) (items : List BundleItem) (maxBytes : ℕ) :
    List (List BundleItem) :=
  let c := items.foldl (chunkItem byteLength maxBytes) ⟨[], [], bundleOverhead⟩
  c.done ++ if c.current = [] then [] else [c.current]

/-- `str(v, max)`. -/
def str (v : Option String) (max : ℕ) : Option String :=
  v.filter fun s => DeliveryService.jsLength s ≤ max

/-- One item of `parseBundle`. -/
def parseItem (channelId : String) (relayedBy : Option String) (now : String)
    (item : BundleItem) : Option (Incoming ChannelExtra) := do
  let id ← (str item.id 128).filter (· ≠ "")
  let timestamp ← (str item.timestamp 64).filter (· ≠ "")
  let text ← str item.text 20000
  let _ ← platform.dateParse timestamp
  some
    { msg :=
        { id
          place := channelId
          senderId := str item.senderId 128
          callsign := str item.callsign 128
          encryptedContent := none
          plaintext := text
          timestamp
          receivedAt := now
          failReason := none
          attempts := none
          relayedBy
          extra := ⟨str item.globalTag 128, str item.imageUrl 800000⟩ }
      now }

/-- `parseBundle`, of a document of this version. -/
def parseBundle (channelId : String) (relayedBy : Option String) (now : String)
    (items : List BundleItem) : List (Incoming ChannelExtra) :=
  (items.take syncReplyMax).filterMap (parseItem platform channelId relayedBy now)

/-- `answerOrgSync` for one channel: the bundles it sends. -/
def answerOrgSync (byteLength : BundleItem → ℕ) (s : ChannelStore) (channelId : String)
    (since : Option String) : List (List BundleItem) :=
  let rows :=
    match since.filter (· ≠ "") with
    | some since => getChannelMessagesSince platform s channelId since (syncReplyMax * 3)
    | none => getChannelMessages platform s channelId (syncReplyMax * 2)
  chunkBundle byteLength ((selectReplyRows platform rows since syncReplyMax).map toBundleItem)
    bundleMaxBytes

/-! ## Merging an answer -/

/-- `handleSyncResponse` for a bundle that was decrypted, with the rows it wrote. -/
def handleSyncResponse (s : ChannelStore) (channelId : String) (relayedBy : Option String)
    (now : String) (bundle : List BundleItem) : ChannelStore × List ChannelRow :=
  saveMessages s channelId (parseBundle platform channelId relayedBy now bundle)

/-- All bundles of an answer, one after another. -/
def mergeBundles (s : ChannelStore) (channelId : String) (relayedBy : Option String)
    (now : String) : List (List BundleItem) → ChannelStore × List ChannelRow
  | [] => (s, [])
  | bundle :: bundles =>
      let first := handleSyncResponse platform s channelId relayedBy now bundle
      let rest := mergeBundles first.1 channelId relayedBy now bundles
      (rest.1, first.2 ++ rest.2)

end SpecterComs.Chat

/-! # A device, its peer and the channel between them

Live relays, catch-up requests, their answers and the bundles of these come in any order.
A device that is offline gets no relays; a round whose bundles are lost does not end.
-/

namespace SpecterComs.Chat

/-- A catch-up round: not yet begun, asked for, or answered with bundles still to merge. -/
inductive Round
  | fresh
  | asked (since : Option String)
  | answered (bundles : List (List BundleItem))

structure Network where
  /-- A peer that holds the whole history of the channel. -/
  peer : ChannelStore
  own : ChannelStore
  rounds : ℕ → Round

/-- A step of the network. Rounds are numbered. -/
inductive NetworkAction
  /-- A member sends a message; the server gives it a new id and its time. -/
  | publish (row : ChannelRow) (t : ℤ)
  /-- A copy of a message is stored: a relay, or another try to decrypt it. -/
  | relay (incoming : Incoming ChannelExtra)
  | ask (round : ℕ)
  | answer (round : ℕ)
  /-- The next bundle of a round arrives. -/
  | merge (round : ℕ) (now : String)

variable (platform : Platform) (byteLength : BundleItem → ℕ) (relayedBy : Option String)
  (channelId : String)

/-- A message as the server publishes it. -/
def published (row : ChannelRow) (t : ℤ) : ChannelRow :=
  { row with place := some channelId, timestamp := toISOString t }

/-- The copy is one of a message of the channel, readable or not. -/
def isCopy (peer : ChannelStore) (incoming : Incoming ChannelExtra) : Bool :=
  incoming.msg.place == some channelId &&
    (peer.rows.any fun row =>
      row.place == some channelId && incoming.msg.key == some (row.id, row.timestamp) &&
        (incoming.msg.plaintext.isNone || incoming.msg.plaintext == row.plaintext))

def Network.step (net : Network) : NetworkAction → Option Network
  | .publish row t =>
      if (net.peer.get row.id).isNone ∧ (net.own.get row.id).isNone ∧ row.isReadable ∧
          0 ≤ t ∧ t < 253402300800000 then
        some { net with peer := net.peer.put (published channelId row t) }
      else none
  | .relay incoming =>
      if isCopy channelId net.peer incoming then
        some { net with own := (saveMessage net.own incoming).1 }
      else none
  | .ask r =>
      match net.rounds r with
      | .fresh =>
          let since :=
            computeSyncSince platform (getChannelMessages platform net.own channelId storeWindow)
          some { net with rounds := Function.update net.rounds r (.asked since) }
      | _ => none
  | .answer r =>
      match net.rounds r with
      | .asked since =>
          let bundles := answerOrgSync platform byteLength net.peer channelId since
          some { net with rounds := Function.update net.rounds r (.answered bundles) }
      | _ => none
  | .merge r now =>
      match net.rounds r with
      | .answered (bundle :: bundles) =>
          some
            { net with
              own := (handleSyncResponse platform net.own channelId relayedBy now bundle).1
              rounds := Function.update net.rounds r (.answered bundles) }
      | _ => none

def network : StepSystem Network NetworkAction where
  step := Network.step platform byteLength relayedBy channelId

end SpecterComs.Chat
