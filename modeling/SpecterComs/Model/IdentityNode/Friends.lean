import SpecterComs.Library.StepSystem
import SpecterComs.Library.Uuid
import SpecterComs.Model.Chat.Dates

/-! # Friends and direct messages

The handlers of `identity-node/src/controllers/friendController.ts` and `sendDirectMessage` of
`dmController.ts`. A handler checks its request when it arrives and makes its statement later. The
caller's id comes out of a token and is spelled as the database spells it; the other id is spelled as
the request has it.
-/

namespace SpecterComs.Friends

open Uuid (Spelling)

inductive Status
  | pending
  | accepted
  deriving DecidableEq

/-- A row of `friendships`. -/
structure Friendship where
  userA : Uuid
  userB : Uuid
  status : Status
  initiatedBy : Option Uuid
  deriving DecidableEq

namespace Friendship

variable (f : Friendship)

def key : Uuid × Uuid :=
  (f.userA, f.userB)

/-- `status = 0 AND (initiated_by IS NULL OR initiated_by != $3)` in the row of the key. -/
def awaits (k : Uuid × Uuid) (userId : Uuid) : Bool :=
  f.key = k && f.status = .pending && f.initiatedBy ≠ some userId

end Friendship

structure DirectMessage where
  me : Uuid
  recipientId : Spelling
  encryptedContent : String
  /-- `crypto.randomUUID()`. -/
  msgId : String
  timestamp : String
  deriving DecidableEq

inductive Request
  | sendFriendRequest (userId : Uuid) (targetId : Spelling)
  | acceptFriendRequest (userId : Uuid) (targetId : Spelling)
  | declineFriendRequest (userId : Uuid) (targetId : Spelling)
  | removeFriend (userId : Uuid) (targetId : Spelling)
  | sendDirectMessage (dm : DirectMessage)
  deriving DecidableEq

structure Response where
  status : ℕ
  body : List (String × String)
  deriving DecidableEq

def Response.ofMessage (status : ℕ) (message : String) : Response :=
  ⟨status, [("message", message)]⟩

def serverError : Response :=
  .ofMessage 500 "Server error"

/-! ## Ids -/

def userA (userId : Uuid) (targetId : Spelling) : Spelling :=
  if userId.write < targetId then userId.write else targetId

def userB (userId : Uuid) (targetId : Spelling) : Spelling :=
  if userId.write < targetId then targetId else userId.write

/-- `(user_a_id, user_b_id)` of a statement, if the database can read both. -/
def key (userId : Uuid) (targetId : Spelling) : Option (Uuid × Uuid) := do
  let a ← Uuid.read (userA userId targetId)
  let b ← Uuid.read (userB userId targetId)
  some (a, b)

def isHex (c : Char) : Bool :=
  (Uuid.hexValue c).isSome

/-- Digits of either case in groups of these lengths, with a hyphen between two of them. -/
def matchesGroups : List ℕ → Spelling → Bool
  | [], cs => cs.isEmpty
  | [n], cs => cs.length = n && cs.all isHex
  | n :: ns, cs =>
      (cs.take n).length = n && (cs.take n).all isHex && (cs.drop n).head? = some '-' &&
        matchesGroups ns (cs.drop (n + 1))

/-- `UUID_RE`. -/
def uuidRe (cs : Spelling) : Bool :=
  matchesGroups [8, 4, 4, 4, 12] cs

/-- `[me, recipientId].sort().join('-')`. -/
def convId (me recipientId : Spelling) : Spelling :=
  if recipientId < me then recipientId ++ '-' :: me else me ++ '-' :: recipientId

/-! ## What is published -/

inductive Subject
  /-- `specter.event.user.<userId>`. -/
  | user (userId : Spelling)
  /-- `specter.msg.dm.<convId>`. -/
  | dm (convId : Spelling)
  deriving DecidableEq

/-- What the event stream of the user subscribes to. -/
def streamSubject (userId : Uuid) : Subject :=
  .user userId.write

structure RelayPayload where
  id : String
  conversationId : Spelling
  senderId : Spelling
  toUserId : Spelling
  callsign : String
  encryptedContent : String
  timestamp : String
  deriving DecidableEq

inductive Event
  | dmReceived (fromUserId : Spelling) (fromCallsign : String)
  /-- A `message_relay` of the context `dm`. -/
  | messageRelay (partnerId : Spelling) (message : RelayPayload)
  | raw (message : RelayPayload)
  deriving DecidableEq

structure Publication where
  subject : Subject
  event : Event
  deriving DecidableEq

def relayPayload (fromCallsign : String) (dm : DirectMessage) : RelayPayload where
  id := dm.msgId
  conversationId := convId dm.me.write dm.recipientId
  senderId := dm.me.write
  toUserId := dm.recipientId
  callsign := fromCallsign
  encryptedContent := dm.encryptedContent
  timestamp := dm.timestamp

def relays (fromCallsign : String) (dm : DirectMessage) : List Publication :=
  let message := relayPayload fromCallsign dm
  [⟨.user dm.recipientId, .dmReceived dm.me.write fromCallsign⟩,
    ⟨.user dm.recipientId, .messageRelay dm.me.write message⟩,
    ⟨.user dm.me.write, .messageRelay dm.recipientId message⟩,
    ⟨.dm message.conversationId, .raw message⟩]

/-! ## Requests -/

/-- An entry of `requestCounts`. -/
structure RequestCount where
  count : ℕ
  resetAt : ℕ
  deriving DecidableEq

structure State where
  friendships : List Friendship
  requestCounts : Uuid → Option RequestCount
  /-- `Date.now()`. -/
  now : ℕ
  /-- The requests that have yet to make their statement. -/
  waiting : ℕ → Option Request

def State.start : State where
  friendships := []
  requestCounts _ := none
  now := 0
  waiting _ := none

namespace State

variable (s : State)

def checkRateLimit (userId : Uuid) : State × Bool :=
  let put (entry : RequestCount) :=
    { s with requestCounts := Function.update s.requestCounts userId (some entry) }
  match s.requestCounts userId with
  | none => (put ⟨1, s.now + 3600000⟩, true)
  | some entry =>
      if entry.resetAt < s.now then (put ⟨1, s.now + 3600000⟩, true)
      else if entry.count ≥ 20 then (s, false)
      else (put { entry with count := entry.count + 1 }, true)

/-- The checks before the statement, and the answer where one of them fails. -/
def check : Request → State × Option Response
  | .sendFriendRequest userId targetId =>
      if targetId = [] then (s, some (.ofMessage 400 "Missing parameters"))
      else if userId.write = targetId then (s, some (.ofMessage 400 "Cannot add yourself"))
      else
        match s.checkRateLimit userId with
        | (s', true) => (s', none)
        | (s', false) => (s', some (.ofMessage 429 "Too many friend requests. Try again later."))
  | .acceptFriendRequest _ targetId | .declineFriendRequest _ targetId
  | .removeFriend _ targetId =>
      (s, if targetId = [] then some (.ofMessage 400 "Missing parameters") else none)
  | .sendDirectMessage dm =>
      (s,
        if ¬ uuidRe dm.recipientId then some (.ofMessage 400 "Invalid userId")
        else if dm.me.write = dm.recipientId then some (.ofMessage 400 "Cannot DM yourself")
        else
          let length := (Chat.utf16 dm.encryptedContent).length
          if length < 1 ∨ length > 8000 then
            some (.ofMessage 400 "encrypted_content must be 1–8000 characters")
          else none)

/-- `ON CONFLICT (user_a_id, user_b_id) DO NOTHING`. -/
def insert (k : Uuid × Uuid) (initiatedBy : Uuid) : State :=
  if s.friendships.any fun f => f.key = k then s
  else { s with friendships := s.friendships ++ [⟨k.1, k.2, .pending, some initiatedBy⟩] }

def areFriends (u v : Uuid) : Bool :=
  s.friendships.any fun f => f.status = .accepted && (f.key = (u, v) || f.key = (v, u))

/-- The statement, and the answer. The checks have been made. -/
def execute : Request → State × Response
  | .sendFriendRequest userId targetId =>
      match key userId targetId with
      | none => (s, serverError)
      | some k => (s.insert k userId, .ofMessage 200 "Friend request sent")
  | .acceptFriendRequest userId targetId =>
      match key userId targetId with
      | none => (s, serverError)
      | some k =>
          if s.friendships.any fun f => f.awaits k userId then
            ({ s with
                friendships := s.friendships.map fun f =>
                  if f.awaits k userId then { f with status := .accepted } else f },
              .ofMessage 200 "Friend request accepted")
          else (s, .ofMessage 404 "Pending request not found or you are the initiator")
  | .declineFriendRequest userId targetId =>
      match key userId targetId with
      | none => (s, serverError)
      | some k =>
          if s.friendships.any fun f => f.awaits k userId then
            ({ s with friendships := s.friendships.filter fun f => !f.awaits k userId },
              .ofMessage 200 "Friend request declined")
          else (s, .ofMessage 404 "Pending request not found or you are the initiator")
  | .removeFriend userId targetId =>
      match key userId targetId with
      | none => (s, serverError)
      | some k =>
          if s.friendships.any fun f => f.key = k then
            ({ s with friendships := s.friendships.filter fun f => f.key ≠ k },
              .ofMessage 200 "Friend removed")
          else (s, .ofMessage 404 "Friendship not found")
  | .sendDirectMessage dm =>
      (s,
        match Uuid.read dm.recipientId with
        | none => serverError
        | some recipient =>
            if s.areFriends dm.me recipient then ⟨201, [("id", dm.msgId), ("timestamp", dm.timestamp)]⟩
            else .ofMessage 403 "Not friends")

/-- What `sendDirectMessage` publishes once its statement is made. Nothing that happens after the
statement changes it. -/
def published (callsigns : Uuid → Option String) (dm : DirectMessage) : List Publication :=
  match Uuid.read dm.recipientId with
  | none => []
  | some recipient =>
      if s.areFriends dm.me recipient then relays ((callsigns dm.me).getD "Unknown") dm else []

end State

inductive Turn
  | tick (ms : ℕ)
  | arrive (n : ℕ) (req : Request)
  /-- The statement is made, or fails. -/
  | execute (n : ℕ) (ok : Bool)
  deriving DecidableEq

/-- Requests and their statements, in any order. -/
def friends : StepSystem State Turn where
  step s
    | .tick ms => some { s with now := s.now + ms }
    | .arrive n req =>
        match s.waiting n, s.check req with
        | some _, _ => none
        | none, (s', some _) => some s'
        | none, (s', none) => some { s' with waiting := Function.update s'.waiting n (some req) }
    | .execute n ok =>
        match s.waiting n with
        | none => none
        | some req =>
            let t := if ok then (s.execute req).1 else s
            some { t with waiting := Function.update t.waiting n none }

end SpecterComs.Friends
