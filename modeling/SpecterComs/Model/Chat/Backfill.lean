import SpecterComs.Model.Chat.Sync

/-! # A peer's answer, from the event to the store

`handleSyncResponse` of `engine/useChannelChat.js` with its two formats: bundles, and the
legacy list of one ciphertext per message. The MLS session and the JSON of a decrypted
bundle come from outside.
-/

namespace SpecterComs.Chat

/-- What a `sync_response` carries. -/
inductive SyncContent
  | bundle (ciphertext : String)
  | messages (messages : List (Msg ChannelExtra))

structure SyncPayload where
  channelId : Option String
  relayedBy : Option String
  content : SyncContent

/-- The MLS session, with its own state, and `JSON.parse` of a bundle of `BUNDLE_VERSION`. -/
structure Decryption (σ : Type) where
  /-- `decryptChannel`: the plaintext, or the reason of the failure. -/
  decryptChannel : σ → String → Option String → Except String String × σ
  bundleItems : String → Option (List BundleItem)

/-- How the store fares: `getChannelMessages` and `saveChannelMessages` may fail. -/
structure StoreFates where
  read : Bool
  write : Bool

variable (platform : Platform) {σ : Type} (mls : Decryption σ)

/-- The rows of a decrypted bundle. -/
def bundleRows (channelId : String) (relayedBy : Option String) (now : String) (session : σ)
    (ciphertext : String) : List (Incoming ChannelExtra) × σ :=
  match mls.decryptChannel session channelId ciphertext with
  | (.error _, session) => ([], session)
  | (.ok json, session) =>
      (parseBundle platform channelId relayedBy now ((mls.bundleItems json).getD []), session)

/-- A legacy message with what its decryption gave. -/
def legacyRow (channelId : String) (relayedBy : Option String) (msg : Msg ChannelExtra)
    (opened : Except String String) : Msg ChannelExtra :=
  match opened with
  | .ok plaintext =>
      { msg with
        place := channelId
        plaintext
        failReason := none
        attempts := some 0
        relayedBy }
  | .error reason =>
      { msg with
        place := channelId
        plaintext := none
        failReason := reason
        attempts := some 1
        relayedBy }

/-- The loop over a legacy answer: each message with id and timestamp that is not readable
yet is decrypted once. -/
def legacyLoop (known : List ChannelRow) (channelId : String) (relayedBy : Option String)
    (clock : Msg ChannelExtra → String) :
    σ → List (Msg ChannelExtra) → List (Incoming ChannelExtra) × σ
  | session, [] => ([], session)
  | session, msg :: rest =>
      match msg.key with
      | none => legacyLoop known channelId relayedBy clock session rest
      | some key =>
          if known.any fun row => row.id == key.1 && row.isReadable then
            legacyLoop known channelId relayedBy clock session rest
          else
            let (opened, session) := mls.decryptChannel session channelId msg.encryptedContent
            let (rows, session) := legacyLoop known channelId relayedBy clock session rest
            (⟨legacyRow channelId relayedBy msg opened, clock msg⟩ :: rows, session)

/-- The rows of a legacy answer, oldest first. `known` are the rows stored for the channel. -/
def legacyRows (s : ChannelStore) (fates : StoreFates) (channelId : String)
    (relayedBy : Option String) (clock : Msg ChannelExtra → String) (session : σ)
    (messages : List (Msg ChannelExtra)) : List (Incoming ChannelExtra) × σ :=
  let known := if fates.read then sortByTimestamp platform (indexRange s channelId none) else []
  let ordered := messages.mergeSort fun a b =>
    platform.localeCompare (a.timestamp.getD "") (b.timestamp.getD "") != .gt
  legacyLoop mls known channelId relayedBy clock session ordered

/-- The rows an answer parses to. -/
def answerRows (s : ChannelStore) (fates : StoreFates) (channelId : String)
    (relayedBy : Option String) (clock : Msg ChannelExtra → String) (now : String) (session : σ) :
    SyncContent → List (Incoming ChannelExtra) × σ
  | .bundle ciphertext => bundleRows platform mls channelId relayedBy now session ciphertext
  | .messages messages => legacyRows platform mls s fates channelId relayedBy clock session messages

/-- `handleSyncResponse` of a logged-in account: the answer is parsed, then
`saveChannelMessages` merges it in one transaction. -/
def handleSyncPayload (s : ChannelStore) (fates : StoreFates) (clock : Msg ChannelExtra → String)
    (now : String) (session : σ) (payload : SyncPayload) : ChannelStore × σ :=
  match payload.channelId.filter (· ≠ "") with
  | none => (s, session)
  | some channelId =>
      let (rows, session) :=
        answerRows platform mls s fates channelId payload.relayedBy clock now session
          payload.content
      if fates.write then ((saveMessages s channelId rows).1, session) else (s, session)

end SpecterComs.Chat
