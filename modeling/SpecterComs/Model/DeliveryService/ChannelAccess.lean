import SpecterComs.Model.DeliveryService.Handlers
import SpecterComs.Model.Events.Tables

/-! # Who may use a channel

`identity-node/src/utils/eventChannelAccess.ts` over the tables it reads, and the endpoint that
lists the members a channel's group should hold.
-/

namespace SpecterComs.DeliveryService

open Events (Status)

/-! ## Tables -/

structure Channel where
  id : String
  orgId : String
  eventId : Option String
  isFrequency : Bool
  deriving DecidableEq, Repr

structure EventRow where
  id : String
  orgId : String
  commanderUserId : Option UserId
  creatorId : Option UserId
  commandChannelId : Option String
  deriving DecidableEq, Repr

structure EventPlanner where
  eventId : String
  userId : UserId
  deriving DecidableEq, Repr

structure EventGroup where
  id : String
  eventId : String
  channelId : Option String
  deriving DecidableEq, Repr

structure EventGroupMember where
  groupId : String
  userId : UserId
  roleId : Option String
  status : Status
  deriving DecidableEq, Repr

structure EventFrequency where
  id : String
  channelId : Option String
  deriving DecidableEq, Repr

structure EventFrequencyRole where
  frequencyId : String
  roleId : String
  deriving DecidableEq, Repr

structure OrgMember where
  orgId : String
  userId : UserId
  deriving DecidableEq, Repr

structure Roster where
  channels : List Channel
  events : List EventRow
  planners : List EventPlanner
  groups : List EventGroup
  members : List EventGroupMember
  frequencies : List EventFrequency
  frequencyRoles : List EventFrequencyRole
  orgMembers : List OrgMember
  /-- The pairs of `friendships` with status 1. -/
  friendships : List (UserId × UserId)
  deriving DecidableEq, Repr

/-- A roster as launches lay it out: the channel of a group is of the event of the group. -/
structure EventLayout extends Roster where
  ownEvent : ∀ g ∈ groups, ∀ c ∈ channels, g.channelId = some c.id → c.eventId = some g.eventId

/-! ## Audiences -/

namespace Roster

variable (t : Roster)

def isOrgMember (orgId : String) (userId : UserId) : Bool :=
  t.orgMembers.any fun m => m.orgId = orgId && m.userId = userId

/-- `getChannelScope`. -/
def getChannelScope (channelId orgId : String) : Option ChannelScope := do
  let c ← t.channels.find? fun c => c.id = channelId && c.orgId = orgId
  match c.eventId with
  | none => some (.org orgId channelId)
  | some eventId =>
      let commandChannelId := (t.events.find? fun e => e.id = eventId).bind EventRow.commandChannelId
      let groupId := (t.groups.find? fun g => g.channelId = some c.id).map EventGroup.id
      let frequencyId := (t.frequencies.find? fun f => f.channelId = some c.id).map EventFrequency.id
      let kind : ChannelKind :=
        if commandChannelId = some channelId then .command
        else if c.isFrequency then .frequency
        else if groupId.isSome then .group
        else .other
      some (.event orgId channelId eventId kind groupId frequencyId)

/-- `STAFF_SQL`. -/
def staff (eventId : String) : List UserId :=
  (t.events.filter fun e => e.id = eventId).filterMap EventRow.commanderUserId ++
    (t.events.filter fun e => e.id = eventId).filterMap EventRow.creatorId ++
    (t.planners.filter fun p => p.eventId = eventId).map EventPlanner.userId

/-- The member is in a group of the event. -/
def inEvent (eventId : String) (m : EventGroupMember) : Bool :=
  t.groups.any fun g => g.id = m.groupId && g.eventId = eventId

/-- `eventParticipantsSql`. -/
def eventParticipants (eventId : String) : List UserId :=
  (t.members.filter fun m => t.inEvent eventId m && m.status = .accepted).map
    EventGroupMember.userId

/-- The accepted members of a group. -/
def groupMembers (groupId : Option String) : List UserId :=
  (t.members.filter fun m => groupId = some m.groupId && m.status = .accepted).map
    EventGroupMember.userId

/-- The role is assigned to the frequency. -/
def grants (frequencyId roleId : Option String) : Bool :=
  t.frequencyRoles.any fun r => frequencyId = some r.frequencyId && roleId = some r.roleId

/-- The accepted members who hold a role of the frequency. -/
def frequencyMembers (eventId : String) (frequencyId : Option String) : List UserId :=
  (t.members.filter fun m =>
    t.grants frequencyId m.roleId && m.status = .accepted && t.inEvent eventId m).map
      EventGroupMember.userId

def channelMemberUserIds : ChannelScope → List UserId
  | .org orgId _ => (t.orgMembers.filter fun m => m.orgId = orgId).map OrgMember.userId
  | .event _ _ eventId kind groupId frequencyId =>
      List.dedup <|
        match kind with
        | .group => t.groupMembers groupId
        | .frequency => t.frequencyMembers eventId frequencyId ++ t.staff eventId
        | .command | .other => t.eventParticipants eventId ++ t.staff eventId

def eventCascadeMemberUserIds (eventId : String) : List UserId :=
  (t.eventParticipants eventId ++ t.staff eventId).dedup

/-- Callers check that the user of an org channel is a member. -/
def canUseChannel (scope : ChannelScope) (userId : UserId) : Bool :=
  match scope with
  | .org _ _ => true
  | .event _ _ _ _ _ _ => (t.channelMemberUserIds scope).contains userId

/-- What the handlers read of the roster. -/
def directory : Directory where
  friends a b := t.friendships.any fun p => p = (a, b) || p = (b, a)
  isOrgMember := t.isOrgMember
  getChannelScope := t.getChannelScope
  channelMemberUserIds := t.channelMemberUserIds
  eventExists eventId orgId := t.events.any fun e => e.id = eventId && e.orgId = orgId
  eventCascadeMemberUserIds := t.eventCascadeMemberUserIds

end Roster

/-! ## The member list -/

structure MembersReply where
  isEvent : Bool
  eventKind : Option (String × ChannelKind)
  userIds : List UserId
  deriving DecidableEq, Repr

def getChannelMlsMembers (dir : Directory) (user : Option UserId) (orgId chanId : String) :
    Except Refusal MembersReply := do
  let userId ← requireUser user
  checkOrgMember dir orgId userId
  let scope ← channelScope dir orgId chanId (some "CHANNEL_NOT_FOUND")
  .ok
    { isEvent := scope.isEvent
      eventKind :=
        match scope with
        | .org _ _ => none
        | .event _ _ eventId kind _ _ => some (eventId, kind)
      userIds := dir.channelMemberUserIds scope }

end SpecterComs.DeliveryService
