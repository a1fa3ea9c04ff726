import SpecterComs.Model.Chat.Dates

/-! # Stored rows and their merge

The rows of `engine/chatSyncCore.js` and the stores of `messageStore.js`. Channel and DM
rows follow the same rules; `Extra` holds the fields only one of them has.
-/

namespace SpecterComs.Chat

structure ChannelExtra where
  globalTag : Option String
  imageUrl : Option String
  deriving DecidableEq, Repr

structure DmExtra where
  toUserId : Option String
  deriving DecidableEq, Repr

/-- What is handed to the store. Any field may be missing, and a text that is no string
counts as missing. -/
structure Msg (Extra : Type) where
  id : Option String
  /-- `channel_id` or `conversation_id`. -/
  place : Option String
  senderId : Option String
  callsign : Option String
  encryptedContent : Option String
  plaintext : Option String
  timestamp : Option String
  receivedAt : Option String
  failReason : Option String
  attempts : Option ℕ
  relayedBy : Option String
  extra : Extra
  deriving DecidableEq, Repr

structure Row (Extra : Type) where
  id : String
  place : Option String
  senderId : Option String
  callsign : Option String
  encryptedContent : Option String
  plaintext : Option String
  timestamp : String
  receivedAt : String
  pending : Bool
  failReason : Option String
  attempts : ℕ
  relayedBy : Option String
  extra : Extra
  deriving DecidableEq, Repr

variable {Extra : Type}

def Row.isReadable (row : Row Extra) : Bool :=
  row.plaintext.isSome

/-- A row as it is handed to the store again. -/
def Row.toMsg (row : Row Extra) : Msg Extra where
  id := row.id
  place := row.place
  senderId := row.senderId
  callsign := row.callsign
  encryptedContent := row.encryptedContent
  plaintext := row.plaintext
  timestamp := row.timestamp
  receivedAt := row.receivedAt
  failReason := row.failReason
  attempts := row.attempts
  relayedBy := row.relayedBy
  extra := row.extra

/-- The id and the timestamp, where both are there and not empty. -/
def Msg.key (msg : Msg Extra) : Option (String × String) := do
  let id ← msg.id.filter (· ≠ "")
  let timestamp ← msg.timestamp.filter (· ≠ "")
  some (id, timestamp)

/-- `normalizeRow` and `normalizeDmRow`, of a message with this id and timestamp. -/
def normalizeRow (now : String) (key : String × String) (place : Option String)
    (msg : Msg Extra) : Row Extra :=
  let readable := msg.plaintext.isSome
  { id := key.1
    place
    senderId := msg.senderId
    callsign := msg.callsign
    encryptedContent := msg.encryptedContent
    plaintext := msg.plaintext
    timestamp := key.2
    receivedAt := msg.receivedAt.getD now
    pending := !readable
    failReason := if readable then none else msg.failReason
    attempts := if readable then 0 else msg.attempts.getD 0
    relayedBy := msg.relayedBy
    extra := msg.extra }

/-- An unreadable row after another unreadable copy. -/
def refresh (existing next : Row Extra) : Row Extra :=
  { existing with
    pending := true
    encryptedContent := existing.encryptedContent.or next.encryptedContent
    failReason := next.failReason.or existing.failReason
    attempts := max existing.attempts next.attempts }

/-- Whether a refresh changed nothing. -/
def unchanged (existing merged : Row Extra) : Bool :=
  merged.encryptedContent == existing.encryptedContent &&
    merged.failReason == existing.failReason &&
    merged.attempts == existing.attempts && existing.pending

/-- `mergeNormalized`: the row to store, if any. -/
def mergeNormalized (existing : Option (Row Extra)) (next : Row Extra) : Option (Row Extra) :=
  match existing with
  | none => some next
  | some existing =>
      if existing.isReadable then none
      else if next.isReadable then
        some { next with
          encryptedContent := next.encryptedContent.or existing.encryptedContent
          receivedAt := existing.receivedAt }
      else
        let merged := refresh existing next
        if unchanged existing merged then none else some merged

/-- `mergeChannelRow` and `mergeDmRow`. -/
def mergeRow (now : String) (existing : Option (Row Extra)) (key : String × String)
    (msg : Msg Extra) : Option (Row Extra) :=
  mergeNormalized existing
    (normalizeRow now key (msg.place.or (existing.bind Row.place)) msg)

/-! ## The object store -/

/-- An object store with `keyPath: 'id'`. -/
structure Store (Extra : Type) where
  rows : List (Row Extra)
  nodup : (rows.map Row.id).Nodup

namespace Store

def empty : Store Extra := ⟨[], List.nodup_nil⟩

def get (s : Store Extra) (id : String) : Option (Row Extra) :=
  s.rows.find? fun row => row.id == id

def put (s : Store Extra) (row : Row Extra) : Store Extra where
  rows := s.rows.filter (fun other => other.id != row.id) ++ [row]
  nodup := by
    rw [List.map_append, List.nodup_append]
    refine ⟨s.nodup.sublist (List.filter_sublist.map _), by simp, ?_⟩
    intro id hid other hother
    obtain ⟨kept, hkept, rfl⟩ := List.mem_map.mp hid
    have hne : kept.id ≠ row.id := by simpa using (List.mem_filter.mp hkept).2
    simp only [List.map_cons, List.map_nil, List.mem_singleton] at hother
    rwa [hother]

end Store

/-- A message to merge, with the clock when it is. -/
structure Incoming (Extra : Type) where
  msg : Msg Extra
  now : String

/-- The requests of one transaction are served in the order they were made. All reads
are made at once, before the first of them succeeds and makes its write, so every read
comes before every write. -/
def serve (s : Store Extra) (writes : List (Row Extra)) :
    List (Incoming Extra × (String × String)) → Store Extra × List (Row Extra)
  | [] => (writes.foldl Store.put s, writes)
  | (incoming, key) :: reads =>
      serve s (writes ++ (mergeRow incoming.now (s.get key.1) key incoming.msg).toList) reads

/-- `mergeRowsInto`, with the rows it wrote. Messages without id or timestamp are left
out, and `fixed` replaces their place. -/
def mergeRowsInto (s : Store Extra) (fixed : Option String) (batch : List (Incoming Extra)) :
    Store Extra × List (Row Extra) :=
  serve s [] (batch.filterMap fun incoming =>
    incoming.msg.key.map fun key =>
      ({ incoming with msg := { incoming.msg with place := fixed.or incoming.msg.place } }, key))

/-- `saveChannelMessage` and `saveDmMessage`. -/
def saveMessage (s : Store Extra) (incoming : Incoming Extra) : Store Extra × List (Row Extra) :=
  mergeRowsInto s none [incoming]

/-- `saveChannelMessages` and `saveDmMessages`. -/
def saveMessages (s : Store Extra) (place : String) (batch : List (Incoming Extra)) :
    Store Extra × List (Row Extra) :=
  if batch.isEmpty then (s, []) else mergeRowsInto s (some place) batch

end SpecterComs.Chat
