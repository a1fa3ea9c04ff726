import SpecterComs.Model.IdentityNode.Presence

/-! # Event streams

`eventStream` of `identity-node/src/controllers/sseController.ts`: the subjects that a connection
subscribes to, while `joinOrg`, `kickMember`, `banMember` and `unbanMember` change who is a member and
channels come and go. What the handlers of a kick and a ban publish is published by them; whatever
else is published comes from outside. A message reaches those who are subscribed when it is
published.
-/

namespace SpecterComs.EventStream

open DeliveryService (UserId)
open Presence (Moderation checkModerationPermission)

/-- An organization and a user. -/
abbrev Key := String × UserId

inductive Subject
  /-- `specter.event.user.<userId>`. -/
  | user (userId : UserId)
  /-- `specter.event.org.<orgId>`. -/
  | org (orgId : String)
  /-- `specter.msg.channel.<channelId>`. -/
  | channel (channelId : String)
  deriving DecidableEq, Repr

structure Message where
  subject : Subject
  type : String
  deriving DecidableEq, Repr

structure Channel where
  id : String
  orgId : String
  /-- The row is gone; its id is not given to another one. -/
  deleted : Bool
  deriving DecidableEq, Repr

/-- What a connection does next. -/
inductive Setup
  | selectOrgs
  | connectNats (orgIds : List String)
  | selectChannels
  | done
  deriving DecidableEq, Repr

structure Connection where
  userId : UserId
  setup : Setup
  /-- The subjects of `subs`. -/
  subjects : List Subject
  /-- What was forwarded. -/
  received : List Message
  deriving DecidableEq, Repr

structure State where
  /-- The rows of `org_members`. -/
  members : List Key
  /-- The rows of `org_bans`, all of them without an end. -/
  bans : List Key
  channels : List Channel
  connections : ℕ → Option Connection
  /-- What the handlers of kicks and bans have still to publish. -/
  due : ℕ → List Message

def State.start (members bans : List Key) (channels : List Channel) : State where
  members := members
  bans := bans
  channels := channels
  connections _ := none
  due _ := []

inductive Turn
  | connect (n : ℕ) (userId : UserId)
  /-- The next statement of a connection, which may fail. -/
  | setup (n : ℕ) (ok : Bool)
  | close (n : ℕ)
  | join (key : Key)
  | kickMember (t : ℕ) (adminId : UserId) (key : Key)
  | banMember (t : ℕ) (adminId : UserId) (key : Key)
  | unbanMember (adminId : UserId) (key : Key)
  | createChannel (channelId orgId : String)
  | deleteChannel (channelId : String)
  /-- A handler of a kick or a ban goes on to its next message. -/
  | publishDue (t : ℕ)
  | publish (m : Message)
  deriving DecidableEq, Repr

namespace State

variable (s : State)

/-- The organization that a message is of. -/
def orgOf : Subject → Option String
  | .user _ => none
  | .org orgId => some orgId
  | .channel channelId => (s.channels.find? fun c => c.id = channelId).map Channel.orgId

/-- `SELECT org_id FROM org_members WHERE user_id = $1`. -/
def orgIds (userId : UserId) : List String :=
  (s.members.filter fun key => key.2 = userId).map Prod.fst

/-- `SELECT c.id FROM channels c JOIN org_members om ON om.org_id = c.org_id WHERE om.user_id = $1`. -/
def channelIds (userId : UserId) : List String :=
  (s.channels.filter fun c => !c.deleted && (c.orgId, userId) ∈ s.members).map Channel.id

def setConnection (n : ℕ) (c : Option Connection) : State :=
  { s with connections := Function.update s.connections n c }

/-- The next statement of a connection. -/
def setup (c : Connection) (ok : Bool) : Option Connection :=
  match c.setup with
  | .selectOrgs => some { c with setup := .connectNats (if ok then s.orgIds c.userId else []) }
  | .connectNats orgIds =>
      if ok then
        some { c with
          setup := if orgIds = [] then .done else .selectChannels
          subjects := .user c.userId :: orgIds.map .org }
      else some { c with setup := .done }
  | .selectChannels =>
      some { c with
        setup := .done
        subjects := c.subjects ++ if ok then (s.channelIds c.userId).map .channel else [] }
  | .done => none

/-- Everybody who is subscribed to the subject gets the message. -/
def deliver (m : Message) : State :=
  { s with
    connections := fun n => (s.connections n).map fun c =>
      if m.subject ∈ c.subjects then { c with received := c.received ++ [m] } else c }

/-- A member goes, and the handler has two messages to publish. -/
def removeMember (t : ℕ) (key : Key) : State :=
  { s with
    members := s.members.filter (· ≠ key)
    due := Function.update s.due t
      [⟨.org key.1, "member_removed"⟩, ⟨.user key.2, "orgs_changed"⟩] }

/-- `adminId` may remove the member: not himself, not without the permission, and not the owner. -/
def mayRemove (m : Moderation) (adminId : UserId) (key : Key) (requiredPerm : String) : Bool :=
  key.2 ≠ adminId && checkModerationPermission m adminId key.1 requiredPerm &&
    m.owners.lookup key.1 ≠ some key.2

def step (m : Moderation) : Turn → Option State
  | .connect n userId =>
      match s.connections n with
      | some _ => none
      | none => some (s.setConnection n (some ⟨userId, .selectOrgs, [], []⟩))
  | .setup n ok => do
      let c ← s.connections n
      let c' ← s.setup c ok
      some (s.setConnection n (some c'))
  | .close n => some (s.setConnection n none)
  | .join key =>
      if key ∈ s.members ∨ key ∈ s.bans then none
      else some { s with members := s.members ++ [key] }
  | .kickMember t adminId key =>
      if mayRemove m adminId key "can_kick" ∧ key ∈ s.members ∧ s.due t = [] then
        some (s.removeMember t key)
      else none
  | .banMember t adminId key =>
      if mayRemove m adminId key "can_ban" ∧ s.due t = [] then
        some { s.removeMember t key with bans := s.bans ++ [key] }
      else none
  | .unbanMember adminId key =>
      if checkModerationPermission m adminId key.1 "can_ban" then
        some { s with bans := s.bans.filter (· ≠ key) }
      else none
  | .createChannel channelId orgId =>
      if s.channels.any fun c => c.id = channelId then none
      else some { s with channels := s.channels ++ [⟨channelId, orgId, false⟩] }
  | .deleteChannel channelId =>
      some { s with
        channels := s.channels.map fun c => if c.id = channelId then { c with deleted := true } else c }
  | .publishDue t =>
      match s.due t with
      | [] => none
      | m :: rest => some { s.deliver m with due := Function.update s.due t rest }
  | .publish m => some (s.deliver m)

/-- What a turn publishes. -/
def published : Turn → Option Message
  | .publishDue t => (s.due t).head?
  | .publish m => some m
  | _ => none

end State

/-- Connections and changes of membership, one statement or message after the other. -/
def eventStreams (m : Moderation) : StepSystem State Turn where
  step s := s.step m

end SpecterComs.EventStream
