import SpecterComs.Library.StepSystem
import SpecterComs.Model.DeliveryService.ChannelAccess

/-! # Voice presence

The presence operations of `identity-node/src/controllers/channelController.ts`. The rows of
`channel_subscriptions`, unique by user and organization, are written by queries; the map
`channelPresence` is written when a query has been answered, and other requests may run in
between. What the operations answer and publish are the callsigns present in a channel by then;
it changes nothing and is left out, and so are queries that fail for other reasons than a missing
channel. Times are in milliseconds.
-/

namespace SpecterComs.Presence

open DeliveryService (UserId Roster)

def stalePresenceSeconds : ℕ := 90

/-- A user in an organization. -/
abbrev Key := UserId × String

structure Subscription where
  channelId : String
  userId : UserId
  orgId : String
  joinedAt : ℕ
  deriving DecidableEq, Repr

def Subscription.key (sub : Subscription) : Key :=
  (sub.userId, sub.orgId)

/-- A user who visits a channel of an organization. -/
structure Visit where
  orgId : String
  channelId : String
  userId : UserId
  callsign : String
  deriving DecidableEq, Repr

def Visit.key (v : Visit) : Key :=
  (v.userId, v.orgId)

inductive Request
  | joinChannelPresence (v : Visit)
  | leaveChannelPresence (orgId channelId : String) (userId : UserId)
  | pingChannelPresence (v : Visit)
  | evictUserPresence (userId : UserId) (orgId channelId : String)
  | sweep
  | bulkMoveUsers (orgId : String) (fromChannelIds : List String) (toChannelId : String)
  deriving DecidableEq, Repr

/-- What a request does when it goes on: its next query, or what it does with the answer. -/
inductive Await
  | joinSelect (v : Visit)
  | joinLeaveOld (v : Visit) (oldChannelId : String)
  | joinUpsert (v : Visit)
  | joinEnter (v : Visit)
  | pingUpsert (v : Visit)
  | pingEnter (v : Visit)
  | evictDelete (userId : UserId) (orgId channelId : String)
  | evictRemove (userId : UserId) (orgId channelId : String)
  | sweepDelete
  | sweepRemove (stale : List Subscription)
  | moveSelect (orgId : String) (fromChannelIds : List String) (toChannelId : String)
  | moveUpsert (orgId toChannelId : String) (subs : List Subscription)
  | moveEnter (orgId toChannelId : String) (subs : List Subscription)
  deriving DecidableEq, Repr

structure State where
  subscriptions : List Subscription
  /-- `channelPresence`: the users in a channel with their callsigns. -/
  presence : String → List (UserId × String)
  clock : ℕ
  /-- The requests that wait, by their numbers. -/
  waiting : List (ℕ × Await)

def State.initial : State where
  subscriptions := []
  presence _ := []
  clock := 0
  waiting := []

/-- The channel is one of the organization that the user may use. -/
def mayUse (t : Roster) (userId : UserId) (channelId orgId : String) : Bool :=
  (t.getChannelScope channelId orgId).any fun scope => t.canUseChannel scope userId

def channelExists (t : Roster) (channelId : String) : Bool :=
  t.channels.any fun c => c.id = channelId

namespace State

variable (s : State)

/-- `SELECT channel_id FROM channel_subscriptions WHERE user_id = $1 AND org_id = $2`. -/
def row (k : Key) : Option String :=
  (s.subscriptions.find? fun sub => sub.key = k).map Subscription.channelId

/-- `INSERT INTO channel_subscriptions … ON CONFLICT (user_id, org_id) DO UPDATE …`. -/
def upsert (channelId : String) (k : Key) : State :=
  { s with
    subscriptions :=
      if s.subscriptions.any fun sub => sub.key = k then
        s.subscriptions.map fun sub =>
          if sub.key = k then { sub with channelId := channelId, joinedAt := s.clock } else sub
      else s.subscriptions ++ [⟨channelId, k.1, k.2, s.clock⟩] }

def delete (p : Subscription → Bool) : State :=
  { s with subscriptions := s.subscriptions.filter fun sub => !p sub }

/-- `joined_at < NOW() - ($1::int * INTERVAL '1 second')`. -/
def isStale (sub : Subscription) : Bool :=
  sub.joinedAt + stalePresenceSeconds * 1000 < s.clock

def isPresent (channelId : String) (userId : UserId) : Bool :=
  (s.presence channelId).any fun e => e.1 = userId

/-- `channelPresence.get(channelId)!.set(userId, callsign)`. -/
def enter (channelId : String) (userId : UserId) (callsign : String) : State :=
  let map := s.presence channelId
  { s with
    presence := Function.update s.presence channelId
      (if map.any fun e => e.1 = userId then
        map.map fun e => if e.1 = userId then (userId, callsign) else e
      else map ++ [(userId, callsign)]) }

/-- `map.delete(userId)`. -/
def remove (channelId : String) (userId : UserId) : State :=
  { s with
    presence := Function.update s.presence channelId
      ((s.presence channelId).filter fun e => e.1 ≠ userId) }

/-- The request waits for its next turn, or has finished. -/
def go (t : ℕ) (a : Option Await) : State :=
  { s with waiting := (s.waiting.filter fun e => e.1 ≠ t) ++ (a.map fun a => (t, a)).toList }

end State

/-- The callsigns of the users, and the channels that exist and whom they admit. -/
structure Env where
  roster : Roster
  callsign : UserId → String
  channelKeys : (roster.channels.map DeliveryService.Channel.id).Nodup

namespace State

variable (env : Env) (s : State)

/-- What a request waits for when it comes in, unless it is refused. -/
def arrive : Request → Option Await
  | .joinChannelPresence v =>
      if mayUse env.roster v.userId v.channelId v.orgId then some (.joinSelect v) else none
  | .leaveChannelPresence orgId channelId userId => some (.evictDelete userId orgId channelId)
  | .pingChannelPresence v => some (.pingUpsert v)
  | .evictUserPresence userId orgId channelId => some (.evictDelete userId orgId channelId)
  | .sweep => some .sweepDelete
  | .bulkMoveUsers orgId fromChannelIds toChannelId =>
      if fromChannelIds = [] then none else some (.moveSelect orgId fromChannelIds toChannelId)

/-- The subscriptions of some channels. -/
def subscribed (channelIds : List String) : List Subscription :=
  s.subscriptions.filter fun sub => sub.channelId ∈ channelIds

/-- A request goes on: the rows and the map after it, and what it waits for next. -/
def proceed : Await → State × Option Await
  | .joinSelect v =>
      match s.row v.key with
      | some oldChannelId =>
          if oldChannelId ≠ v.channelId then (s, some (.joinLeaveOld v oldChannelId))
          else (s, some (.joinUpsert v))
      | none => (s, some (.joinUpsert v))
  | .joinLeaveOld v oldChannelId => (s.remove oldChannelId v.userId, some (.joinUpsert v))
  | .joinUpsert v => (s.upsert v.channelId v.key, some (.joinEnter v))
  | .joinEnter v => (s.enter v.channelId v.userId v.callsign, none)
  | .pingUpsert v =>
      -- a foreign key: the channel has been deleted since
      if channelExists env.roster v.channelId then
        (s.upsert v.channelId v.key, some (.pingEnter v))
      else (s, none)
  | .pingEnter v => (s.enter v.channelId v.userId v.callsign, none)
  | .evictDelete userId orgId channelId =>
      (s.delete fun sub => sub.key = (userId, orgId) && sub.channelId = channelId,
        some (.evictRemove userId orgId channelId))
  | .evictRemove userId _ channelId => (s.remove channelId userId, none)
  | .sweepDelete =>
      let stale := s.subscriptions.filter s.isStale
      (s.delete s.isStale, if stale = [] then none else some (.sweepRemove stale))
  | .sweepRemove stale =>
      (stale.foldl (fun s sub => s.remove sub.channelId sub.userId) s, none)
  | .moveSelect orgId fromChannelIds toChannelId =>
      let subs := s.subscribed fromChannelIds
      (s, if subs = [] then none else some (.moveUpsert orgId toChannelId subs))
  | .moveUpsert orgId toChannelId subs =>
      -- one statement may not update a row twice
      if channelExists env.roster toChannelId ∧ (subs.map Subscription.userId).Nodup then
        (subs.foldl (fun s sub => s.upsert toChannelId (sub.userId, orgId)) s,
          some (.moveEnter orgId toChannelId subs))
      else (s, none)
  | .moveEnter _ toChannelId subs =>
      (subs.foldl (fun s sub => (s.remove sub.channelId sub.userId).enter toChannelId sub.userId
        (env.callsign sub.userId)) s, none)

end State

inductive Turn
  | begin (t : ℕ) (r : Request)
  | next (t : ℕ)
  | tick (ms : ℕ)
  deriving DecidableEq, Repr

def State.step (env : Env) (s : State) : Turn → Option State
  | .begin t r =>
      match s.waiting.lookup t with
      | some _ => none
      | none => some (s.go t (State.arrive env r))
  | .next t =>
      match s.waiting.lookup t with
      | none => none
      | some a => some ((s.proceed env a).1.go t (s.proceed env a).2)
  | .tick ms => some { s with clock := s.clock + ms }

/-- Requests on the presence of users, one query or answer of one of them after the other. -/
def presence (env : Env) : StepSystem State Turn where
  step := State.step env

/-! # Moving one member

`moveMember` of `identity-node/src/controllers/modController.ts`, which hands the move to
`bulkMoveUsers` of `channelController.ts`. Nothing else runs in between here. The presence that
`bulkMoveUsers` publishes is left out, as it is with the operations on presence.
-/

/-- What the permission check reads. -/
structure Moderation where
  /-- The owners of the organizations. -/
  owners : List (String × UserId)
  /-- `org_members m JOIN org_roles r ON r.id = m.role_id`: the flags that the role grants. -/
  memberRoles : List (String × UserId × List String)
  deriving DecidableEq, Repr

def checkModerationPermission (m : Moderation) (userId : UserId) (orgId requiredPerm : String) :
    Bool :=
  m.owners.lookup orgId = some userId ||
    m.memberRoles.any fun row => row.1 = orgId && row.2.1 = userId && requiredPerm ∈ row.2.2

/-- `bulkMoveUsers` from its first query to its end, or nothing when its upsert fails. -/
def State.bulkMoveUsers (env : Env) (s : State) (orgId : String) (fromChannelIds : List String)
    (toChannelId : String) : Option State :=
  if fromChannelIds = [] then
    some s
  else
    match s.proceed env (.moveSelect orgId fromChannelIds toChannelId) with
    | (s, none) => some s
    | (s, some upsert) =>
        match s.proceed env upsert with
        | (_, none) => none
        | (s, some enter) => some (s.proceed env enter).1

structure MoveRequest where
  adminId : Option UserId
  orgId : String
  targetUserId : UserId
  /-- `channel_id` of the body, empty when there is none. -/
  channelId : String
  deriving DecidableEq, Repr

/-- The command on `specter.cmd.move.<user>.<channel>`, which only reaches that user. -/
structure MoveCommand where
  userId : UserId
  channelId : String
  orgId : String
  adminId : UserId
  deriving DecidableEq, Repr

structure Moved where
  state : State
  status : ℕ
  message : String
  command : Option MoveCommand

def moveMember (env : Env) (m : Moderation) (s : State) (req : MoveRequest) : Moved :=
  match req.adminId with
  | none => ⟨s, 401, "Unauthorized", none⟩
  | some adminId =>
      if req.channelId = "" then
        ⟨s, 400, "channel_id required", none⟩
      else if !checkModerationPermission m adminId req.orgId "can_manage_channels" then
        ⟨s, 403, "Forbidden: Missing permission", none⟩
      else if !env.roster.channels.any fun c => c.id = req.channelId && c.orgId = req.orgId then
        ⟨s, 404, "Target channel not found", none⟩
      else
        let fromChannels := (s.row (req.targetUserId, req.orgId)).toList
        match s.bulkMoveUsers env req.orgId fromChannels req.channelId with
        | none => ⟨s, 500, "Internal Server Error", none⟩
        | some s' =>
            ⟨s', 200, "Move command sent",
              some ⟨req.targetUserId, req.channelId, req.orgId, adminId⟩⟩

end SpecterComs.Presence
