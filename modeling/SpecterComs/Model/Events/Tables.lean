import SpecterComs.Library.Statements

/-! # The tables of an event's plan and roster

The rows `identity-node/src/controllers/eventsController.ts` reads and writes, in the order
they were inserted. A column read through `COALESCE` is taken with its default. The schema is
not in the repository: that a user has one member row and one claim in a group is what the
`ON CONFLICT` clauses and the comments rely on.
-/

namespace SpecterComs.Events

inductive AccessMode
  | open
  | restricted
  deriving DecidableEq, Repr

inductive AssignmentMode
  | open
  | direct
  deriving DecidableEq, Repr

inductive Status
  | pending
  | accepted
  | declined
  deriving DecidableEq, Repr

/-- `status IN ('accepted','pending')`. -/
def Status.active : Status → Bool
  | accepted | pending => true
  | declined => false

structure Organization where
  id : ℕ
  ownerId : ℕ
  deriving DecidableEq, Repr

/-- A member of an organization with the permissions of their role. -/
structure OrgMember where
  orgId : ℕ
  userId : ℕ
  canCreateEvents : Bool
  canManageChannels : Bool
  deriving DecidableEq, Repr

structure Event where
  id : ℕ
  orgId : ℕ
  accessMode : AccessMode
  creatorId : ℕ
  commanderUserId : Option ℕ
  launched : Bool
  commandChannelId : Option ℕ
  deriving DecidableEq, Repr

structure Planner where
  eventId : ℕ
  userId : ℕ
  deriving DecidableEq, Repr

structure Group where
  id : ℕ
  eventId : ℕ
  name : String
  leaderUserId : Option ℕ
  parentGroupId : Option ℕ
  linkedGroupId : Option ℕ
  maxMembers : ℕ
  deriving DecidableEq, Repr

structure Role where
  id : ℕ
  groupId : ℕ
  name : String
  priority : ℕ
  assignmentMode : AssignmentMode
  maxSlots : ℕ
  sortOrder : ℕ
  seatLabels : List String
  isCommander : Bool
  autoApprove : Bool
  reservedSlots : ℕ
  deriving DecidableEq, Repr

structure Member where
  groupId : ℕ
  userId : ℕ
  roleId : Option ℕ
  status : Status
  role : Option String
  seatLabel : Option String
  claimedShipId : Option ℕ
  reservedSeatsRoleId : Option ℕ
  reservedSeatsCount : ℕ
  deriving DecidableEq, Repr

structure GroupShip where
  groupId : ℕ
  shipSlug : String
  shipName : String
  shipIconUrl : Option String
  quantity : ℕ
  sortOrder : ℕ
  deriving DecidableEq, Repr

structure ShipClaim where
  groupId : ℕ
  shipSlug : String
  slotIndex : ℕ
  userId : ℕ
  userShipId : ℕ
  claimedShipSlug : String
  deriving DecidableEq, Repr

structure UserShip where
  id : ℕ
  userId : ℕ
  shipSlug : String
  /-- Hardpoint names. -/
  lockedSeats : List String
  deriving DecidableEq, Repr

structure RawSeat where
  hardpointName : String
  role : String
  seatLabel : String
  deriving DecidableEq, Repr

structure GameShip where
  slug : String
  rawSeats : List RawSeat
  /-- `combat_stats->>'role'`. -/
  combatRole : Option String
  deriving DecidableEq, Repr

structure Frequency where
  id : ℕ
  eventId : ℕ
  name : String
  sortOrder : ℕ
  isLeadership : Bool
  channelId : Option ℕ
  deriving DecidableEq, Repr

structure FrequencyRole where
  frequencyId : ℕ
  roleId : ℕ
  deriving DecidableEq, Repr

structure Db where
  organizations : List Organization
  orgMembers : List OrgMember
  events : List Event
  planners : List Planner
  groups : List Group
  roles : List Role
  members : List Member
  ships : List GroupShip
  claims : List ShipClaim
  userShips : List UserShip
  gameShips : List GameShip
  frequencies : List Frequency
  frequencyRoles : List FrequencyRole
  /-- The next id of a generated row. -/
  nextId : ℕ
  deriving DecidableEq, Repr

/-! ## Names of ship roles, from `utils/scunpackedSync.ts` -/

def roleDisplayNames : List (String × String) :=
  [("Captain", "Captain"), ("Helmsman", "Pilot"), ("CoHelmsman", "Co-Pilot"),
    ("Turret", "Turret Gunner"), ("Bridge", "Bridge Officer"), ("Operator", "Operator"),
    ("Gunner", "Gunner"), ("MiningOperator", "Mining Operator"),
    ("RemoteTurretOperator", "Remote Turret Operator"), ("TorpedoOperator", "Torpedo Operator"),
    ("Engineering", "Lead Engineer")]

/-- A blank between a small letter or a digit and a capital. -/
def spaceCapitals : List Char → List Char
  | a :: b :: rest =>
      if (a.isLower || a.isDigit) && b.isUpper then a :: ' ' :: spaceCapitals (b :: rest)
      else a :: spaceCapitals (b :: rest)
  | rest => rest

def capitalize : List Char → List Char
  | [] => []
  | c :: rest => c.toUpper :: rest.map Char.toLower

def humanizeSegment (seg : String) : String :=
  let words := (spaceCapitals (seg.toList.map fun c => if c = '_' then ' ' else c)).splitOn ' '
  " ".intercalate ((words.filter fun word => !word.isEmpty).map fun word =>
    String.ofList (capitalize word))

def roleDisplayName (role : String) : String :=
  (roleDisplayNames.lookup role).getD (humanizeSegment role)

/-! ## Rows -/

/-- The plain member row of an upsert that names no other column. -/
def Member.plain (groupId userId : ℕ) (status : Status) : Member where
  groupId := groupId
  userId := userId
  roleId := none
  status := status
  role := none
  seatLabel := none
  claimedShipId := none
  reservedSeatsRoleId := none
  reservedSeatsCount := 0

/-- The member row of a user in a group. -/
def Member.isOf (groupId userId : ℕ) (m : Member) : Bool :=
  m.groupId = groupId && m.userId = userId

def ShipClaim.isOf (groupId userId : ℕ) (c : ShipClaim) : Bool :=
  c.groupId = groupId && c.userId = userId

namespace Db

variable (db : Db)

/-! ## Reads -/

/-- `SELECT … FROM events WHERE id = $1 AND org_id = $2`. -/
def event (eventId orgId : ℕ) : Option Event :=
  db.events.find? fun e => e.id = eventId && e.orgId = orgId

def isOrgMember (orgId userId : ℕ) : Bool :=
  db.orgMembers.any fun m => m.orgId = orgId && m.userId = userId

/-- `SELECT 1 FROM event_groups WHERE id = $1 AND event_id = $2`. -/
def groupOfEvent (groupId eventId : ℕ) : Bool :=
  db.groups.any fun g => g.id = groupId && g.eventId = eventId

/-- `group_id IN (SELECT id FROM event_groups WHERE event_id = $1)`. -/
def inEvent (eventId : ℕ) (m : Member) : Bool :=
  db.groupOfEvent m.groupId eventId

def member (groupId userId : ℕ) : Option Member :=
  db.members.find? (Member.isOf groupId userId)

/-- The active members of a role. -/
def filledSlots (roleId : ℕ) : ℕ :=
  db.members.countP fun m => m.roleId = some roleId && m.status.active

/-- The active members of a role that are members of the group. -/
def filledSlotsIn (groupId roleId : ℕ) : ℕ :=
  db.members.countP fun m => m.roleId = some roleId && m.groupId = groupId && m.status.active

/-- The active members of a group. -/
def filled (groupId : ℕ) : ℕ :=
  db.members.countP fun m => m.groupId = groupId && m.status.active

def role (roleId groupId : ℕ) : Option Role :=
  db.roles.find? fun r => r.id = roleId && r.groupId = groupId

def group (groupId : ℕ) : Option Group :=
  db.groups.find? fun g => g.id = groupId

/-- The slugs of a group's composition. -/
def compSlugs (groupId : ℕ) : List String :=
  (db.ships.filter fun s => s.groupId = groupId).map GroupShip.shipSlug

def claimed (groupId : ℕ) : Option String → Bool
  | some slug => db.claims.any fun c => c.groupId = groupId && c.shipSlug = slug
  | none => db.claims.any fun c => c.groupId = groupId

def userShip (shipId userId : ℕ) : Option UserShip :=
  db.userShips.find? fun s => s.id = shipId && s.userId = userId

def gameShip (slug : String) : Option GameShip :=
  db.gameShips.find? fun s => s.slug = slug

/-! ## Permissions -/

def canManageEvents (userId orgId : ℕ) : Bool :=
  (db.organizations.any fun o => o.id = orgId && o.ownerId = userId) ||
    db.orgMembers.any fun m =>
      m.orgId = orgId && m.userId = userId && (m.canCreateEvents || m.canManageChannels)

def canManageThisEvent (userId orgId eventId : ℕ) : Bool :=
  db.canManageEvents userId orgId ||
    ((db.event eventId orgId).any fun e => e.creatorId = userId || e.commanderUserId = some userId) ||
    db.planners.any fun p => p.eventId = eventId && p.userId = userId

/-! ## Writes -/

/-- `UPDATE event_group_roles SET reserved_slots = GREATEST(0, reserved_slots - $1) WHERE id = $2`. -/
def releaseSlots (count roleId : ℕ) : Db :=
  { db with
    roles := db.roles.map fun r =>
      if r.id = roleId then { r with reservedSlots := r.reservedSlots - count } else r }

/-- `UPDATE event_group_roles SET reserved_slots = reserved_slots + $1
WHERE group_id = $2 AND name = $3`. -/
def reserveSlots (count groupId : ℕ) (name : String) : Db :=
  { db with
    roles := db.roles.map fun r =>
      if r.groupId = groupId ∧ r.name = name then { r with reservedSlots := r.reservedSlots + count }
      else r }

/-- `INSERT INTO event_group_members … ON CONFLICT (group_id, user_id) DO UPDATE SET …`. -/
def upsertMember (m : Member) (set : Member → Member) : Db :=
  { db with
    members :=
      if db.members.any (Member.isOf m.groupId m.userId) then
        db.members.map fun m' => if m'.isOf m.groupId m.userId then set m' else m'
      else db.members ++ [m] }

def updateMembers (p : Member → Bool) (set : Member → Member) : Db :=
  { db with members := db.members.map fun m => if p m then set m else m }

def deleteMembers (p : Member → Bool) : Db :=
  { db with members := db.members.filter fun m => !p m }

def deleteClaims (p : ShipClaim → Bool) : Db :=
  { db with claims := db.claims.filter fun c => !p c }

/-- The slot is taken. -/
def slotClaimed (c : ShipClaim) : Bool :=
  db.claims.any fun c' =>
    c'.groupId = c.groupId && c'.shipSlug = c.shipSlug && c'.slotIndex = c.slotIndex

/-- `INSERT … ON CONFLICT (group_id, ship_slug, slot_index) DO NOTHING`. -/
def insertClaim (c : ShipClaim) : Db :=
  if db.slotClaimed c then db else { db with claims := db.claims ++ [c] }

end Db

end SpecterComs.Events
