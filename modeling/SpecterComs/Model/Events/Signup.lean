import SpecterComs.Model.Events.Tables
import Mathlib.Data.List.Sort

/-! # Signing up for an event and leaving it

The handlers of `eventsController.ts` a member calls for themselves. Whoever calls one is
logged in. What a handler publishes after it has answered is left out.
-/

namespace SpecterComs.Events

open Handler

structure Response where
  status : ℕ
  message : String
  updated : Option ℕ
  deriving DecidableEq, Repr

def reply (status : ℕ) (message : String) : Response :=
  { status := status, message := message, updated := none }

def ok (message : String) : Response :=
  reply 200 message

abbrev Endpoint := Handler Db Response Response

def eventNotFound : Response := reply 404 "Event not found"
def notAMember : Response := reply 403 "Not a member"

def restrictedToPlanners : Response :=
  reply 403 "This event is restricted. Only planners can assign members."

/-- The role names of whoever brings the hull. -/
def isPilotRole (name : String) : Bool :=
  name = "Pilot" || name = "Captain"

/-- A text of the body: nothing if it is empty, and at most 80 characters. -/
def seatLabelOf (body : Option String) : Option String :=
  match body with
  | some label => if label = "" then none else some (String.ofList (label.toList.take 80))
  | none => none

/-- `seatLabels[0] || null`. -/
def firstLabel (seatLabels : List String) : Option String :=
  seatLabels.head?.filter fun label => label ≠ ""

/-! ## Groups -/

def joinEventGroup (orgId eventId groupId userId : ℕ) : Endpoint := do
  let ev ← select fun db => db.event eventId orgId
  let ev ← found ev eventNotFound
  require (ev.accessMode = .open) restrictedToPlanners
  let member ← select fun db => db.isOrgMember orgId userId
  require member notAMember
  let group ← select fun db => db.groupOfEvent groupId eventId
  require group (reply 404 "Group not found")
  update fun db =>
    db.upsertMember (.plain groupId userId .accepted) fun m => { m with status := .accepted }
  pure (ok "Joined group")

/-- Gives back what a member row has reserved. -/
def release (m : Option Member) (db : Db) : Db :=
  match m with
  | none => db
  | some m =>
      match m.reservedSeatsRoleId with
      | some roleId => if 0 < m.reservedSeatsCount then db.releaseSlots m.reservedSeatsCount roleId else db
      | none => db

def leaveEventGroup (groupId userId : ℕ) : Endpoint := do
  let member ← select fun db => db.member groupId userId
  update (release member)
  update fun db => db.deleteClaims (ShipClaim.isOf groupId userId)
  update fun db => db.deleteMembers (Member.isOf groupId userId)
  pure (ok "Left group")

/-! ## Roles -/

/-- The slug whose hull must have been claimed, where it can be told. -/
def requiredSlug (db : Db) (compSlugs : List String) (seatLabel : Option String) : Option String :=
  match compSlugs with
  | [slug] => some slug
  | _ =>
      match seatLabel with
      | none => none
      | some label =>
          let ships := db.gameShips.filter fun s => s.slug ∈ compSlugs
          match ships.filter fun s => s.rawSeats.any fun seat => seat.seatLabel = label with
          | [ship] => some ship.slug
          | _ => none

def notClaimed : Option String → Response
  | some slug => reply 403 ("No " ++ slug ++ " has been claimed for this group yet.")
  | none => reply 403 "No ship has been claimed for this group yet."

/-- The gate of a group with ships. -/
def requireHull (groupId : ℕ) (role : Role) (seatLabel : Option String) :
    Handler Db Response Unit := do
  let compSlugs ← select fun db => db.compSlugs groupId
  if compSlugs = [] then pure ()
  else
    require (!isPilotRole role.name) (reply 403 "Claim a ship for this group to join as Pilot/Captain.")
    let slug ← select fun db => requiredSlug db compSlugs (seatLabel.or (firstLabel role.seatLabels))
    let claimed ← select fun db => db.claimed groupId slug
    require claimed (notClaimed slug)

/-- The seat to store. -/
def chooseSeat (roleId userId : ℕ) (seatLabels : List String) (seatLabel : Option String) :
    Handler Db Response (Option String) :=
  if 1 < seatLabels.length then do
    let label ← found seatLabel (reply 400 "Select a seat for this role.")
    require (label ∈ seatLabels) (reply 400 "Invalid seat for this role.")
    let taken ← select fun db => db.members.any fun m =>
      m.roleId = some roleId && m.seatLabel = some label && m.status.active && m.userId ≠ userId
    require (!taken) (reply 409 "That seat is already taken.")
    pure (some label)
  else pure (firstLabel seatLabels)

/-- `countsByRoleName`: how many of the locked seats each role name has, in the order the names
come up. -/
def countsByRoleName (rawSeats : List RawSeat) : List String → List (String × ℕ)
  | [] => []
  | hp :: rest =>
      match rawSeats.find? fun s => s.hardpointName = hp with
      | none => countsByRoleName rawSeats rest
      | some seat =>
          let name := roleDisplayName seat.role
          let counts := countsByRoleName rawSeats rest
          (name, (counts.lookup name).getD 0 + 1) :: counts.filter fun c => c.1 ≠ name

structure Reservation where
  claimedShipId : Option ℕ
  roleId : Option ℕ
  count : ℕ
  deriving DecidableEq, Repr

def Reservation.none : Reservation :=
  { claimedShipId := .none, roleId := .none, count := 0 }

/-- What the row remembers of a reservation on the roles `ids`: only the first one of all. -/
def Reservation.add (r : Reservation) (shipId count : ℕ) (ids : List ℕ) : Reservation :=
  match ids with
  | [] => r
  | id :: _ =>
      if r.roleId.isSome then { r with claimedShipId := some shipId }
      else { claimedShipId := some shipId, roleId := some id, count := count }

/-- Reserves seats on every role of the group with one of the names. -/
def reserveSeats (groupId shipId : ℕ) :
    List (String × ℕ) → Reservation → Handler Db Response Reservation
  | [], r => pure r
  | (name, count) :: rest, r => do
      let ids ← updateReturning (fun db => db.reserveSlots count groupId name) fun db =>
        (db.roles.filter fun r => r.groupId = groupId && r.name = name).map Role.id
      reserveSeats groupId shipId rest (r.add shipId count ids)

/-- The reservation for a hangar ship with locked seats. -/
def reserveFor (groupId userId : ℕ) (claimedShipId : Option ℕ) :
    Handler Db Response Reservation :=
  match claimedShipId with
  | none => pure Reservation.none
  | some shipId => do
      let ship ← select fun db => db.userShip shipId userId
      match ship with
      | none => pure Reservation.none
      | some ship => do
          let comp ← select fun db =>
            !ship.lockedSeats.isEmpty && decide (ship.shipSlug ∈ db.compSlugs groupId)
          if comp then do
            let rawSeats ← select fun db =>
              ((db.gameShip ship.shipSlug).map GameShip.rawSeats).getD []
            reserveSeats groupId shipId (countsByRoleName rawSeats ship.lockedSeats) Reservation.none
          else pure Reservation.none

/-- A full role: the group without a role, while the group has room. -/
def joinWithoutRole (groupId userId : ℕ) (roleName : String) : Endpoint := do
  let cap ← select fun db => (db.group groupId).map fun g => (g.maxMembers, db.filled groupId)
  require (cap.all fun c => c.1 = 0 || c.2 < c.1) (reply 409 "This group is full.")
  update fun db =>
    db.upsertMember (.plain groupId userId .accepted) fun _ => .plain groupId userId .accepted
  pure (ok ((if roleName = "" then "That role" else roleName) ++
    " is full — joined the group without a specific role."))

def Role.joinStatus (r : Role) : Status :=
  if r.autoApprove then .accepted else .pending

def joinWithRole (groupId userId : ℕ) (role : Role) (claimedShipId : Option ℕ)
    (seatLabel : Option String) : Endpoint := do
  let seat ← chooseSeat role.id userId role.seatLabels seatLabel
  let reservation ← reserveFor groupId userId claimedShipId
  let row : Member :=
    { groupId := groupId
      userId := userId
      roleId := some role.id
      status := role.joinStatus
      role := some role.name
      seatLabel := seat
      claimedShipId := reservation.claimedShipId
      reservedSeatsRoleId := reservation.roleId
      reservedSeatsCount := reservation.count }
  update fun db => db.upsertMember row fun _ => row
  pure (ok (if role.autoApprove then "Joined role" else "Join request pending approval"))

def joinEventRole (orgId eventId groupId roleId userId : ℕ) (claimedShipId : Option ℕ)
    (bodySeatLabel : Option String) : Endpoint := do
  let seatLabel := seatLabelOf bodySeatLabel
  let ev ← select fun db => db.event eventId orgId
  let ev ← found ev eventNotFound
  require (ev.accessMode = .open) restrictedToPlanners
  let member ← select fun db => db.isOrgMember orgId userId
  require member notAMember
  let row ← select fun db =>
    (db.role roleId groupId).map fun r => (r, db.filledSlotsIn groupId roleId)
  let row ← found row (reply 404 "Role not found")
  let role := row.1
  require (role.assignmentMode = .open) (reply 403 "This role requires direct assignment.")
  requireHull groupId role seatLabel
  let prev ← select fun db => db.member groupId userId
  update (release prev)
  if row.2 + role.reservedSlots < role.maxSlots then
    joinWithRole groupId userId role claimedShipId seatLabel
  else joinWithoutRole groupId userId role.name

/-! ## Quick signup -/

/-- `ORDER BY priority DESC, sort_order ASC, created_at ASC`. -/
def Role.before (a b : Role) : Bool :=
  b.priority < a.priority || (a.priority = b.priority && a.sortOrder ≤ b.sortOrder)

/-- The open roles of an event with their active members. -/
def openRoles (db : Db) (eventId : ℕ) : List (Role × ℕ) :=
  ((db.roles.filter fun r => db.groupOfEvent r.groupId eventId && r.assignmentMode = .open).insertionSort
    fun a b => a.before b).map fun r => (r, db.filledSlots r.id)

def quickJoinEvent (orgId eventId userId : ℕ) : Endpoint := do
  let ev ← select fun db => db.event eventId orgId
  let ev ← found ev eventNotFound
  require (ev.accessMode = .open)
    (reply 403 "This event is restricted. Wait for assignment approval.")
  let already ← select fun db => db.members.any fun m => db.inEvent eventId m && m.userId = userId
  if already then pure (ok "Already signed up")
  else do
    let roles ← select fun db => openRoles db eventId
    match roles.find? fun r => r.2 < r.1.maxSlots with
    | some (role, _) => do
        update fun db =>
          db.upsertMember
            { Member.plain role.groupId userId role.joinStatus with
              roleId := some role.id
              role := some role.name }
            fun m =>
              { m with
                roleId := some role.id
                status := role.joinStatus
                role := some role.name }
        pure (ok (if role.autoApprove then "Signed up" else "Signup request pending approval"))
    | none => do
        let groups ← select fun db =>
          (db.groups.filter fun g => g.eventId = eventId).map fun g => (g, db.filled g.id)
        let group ← found (groups.find? fun g => g.1.maxMembers = 0 || g.2 < g.1.maxMembers)
          (reply 409 "No open slots available right now.")
        update fun db =>
          db.upsertMember (.plain group.1.id userId .accepted) fun m => { m with status := .accepted }
        pure (ok "Signed up")

/-! ## Leaving -/

/-- Releases what each of the rows has reserved. -/
def releaseAll (rows : List Member) (db : Db) : Db :=
  rows.foldl (fun db m => release (some m) db) db

def leaveMyEventSignup (eventId userId : ℕ) : Endpoint := do
  let rows ← select fun db => db.members.filter fun m =>
    m.userId = userId && db.inEvent eventId m && m.reservedSeatsRoleId.isSome &&
      0 < m.reservedSeatsCount
  update (releaseAll rows)
  update fun db => db.deleteMembers fun m => m.userId = userId && db.inEvent eventId m
  pure (ok "Signup removed")

def leaveEventRole (groupId roleId userId : ℕ) : Endpoint := do
  let member ← select fun db =>
    db.members.find? fun m => m.isOf groupId userId && m.roleId = some roleId
  update (release member)
  update fun db => db.deleteClaims (ShipClaim.isOf groupId userId)
  update fun db => db.deleteMembers fun m => m.isOf groupId userId && m.roleId = some roleId
  pure (ok "Left role")

/-! ## Ship slots -/

def shipRolesMatch (db : Db) (slugA slugB : String) : Bool :=
  slugA = slugB ||
    match (db.gameShip slugA).bind GameShip.combatRole, (db.gameShip slugB).bind GameShip.combatRole with
    | some roleA, some roleB => roleA ≠ "" && roleA = roleB
    | _, _ => false

/-- The roles of a group that bring the hull, a captain before a pilot. -/
def pilotRole (db : Db) (groupId : ℕ) : Option Role :=
  (db.roles.find? fun r => r.groupId = groupId && r.name = "Captain").or
    (db.roles.find? fun r => r.groupId = groupId && r.name = "Pilot")

def claimShipSlot (orgId eventId groupId : ℕ) (shipSlug : String) (userId : ℕ)
    (userShipId : Option ℕ) (slotIndex : Option ℕ) : Endpoint := do
  let userShipId ← found userShipId (reply 400 "Missing or invalid user_ship_id/slot_index")
  let slotIndex ← found slotIndex (reply 400 "Missing or invalid user_ship_id/slot_index")
  let ev ← select fun db => db.event eventId orgId
  let ev ← found ev eventNotFound
  require (ev.accessMode = .open) restrictedToPlanners
  let member ← select fun db => db.isOrgMember orgId userId
  require member notAMember
  let ship ← select fun db => db.userShip userShipId userId
  let ship ← found ship (reply 404 "Hangar ship not found")
  let approved ← select fun db => shipRolesMatch db ship.shipSlug shipSlug
  require approved (reply 400 "That ship is not an approved match for this slot.")
  let entry ← select fun db => db.ships.find? fun s => s.groupId = groupId && s.shipSlug = shipSlug
  require (entry.any fun s => slotIndex < s.quantity) (reply 400 "Invalid slot for this composition.")
  update fun db => db.deleteClaims (ShipClaim.isOf groupId userId)
  let claim : ShipClaim :=
    { groupId := groupId
      shipSlug := shipSlug
      slotIndex := slotIndex
      userId := userId
      userShipId := userShipId
      claimedShipSlug := ship.shipSlug }
  let inserted ← updateReturning (fun db => db.insertClaim claim) fun db => !db.slotClaimed claim
  require inserted (reply 409 "That slot was just claimed.")
  let prev ← select fun db => db.member groupId userId
  update (release prev)
  let role ← select fun db =>
    (pilotRole db groupId).map fun r => (r, db.filledSlotsIn groupId r.id)
  match role with
  | some (role, filledSlots) =>
      if filledSlots < role.maxSlots then do
        update fun db =>
          db.upsertMember
            { Member.plain groupId userId role.joinStatus with
              roleId := some role.id
              role := some role.name
              claimedShipId := some userShipId
              seatLabel := firstLabel role.seatLabels }
            fun m =>
              { m with
                roleId := some role.id
                status := role.joinStatus
                role := some role.name
                claimedShipId := some userShipId
                seatLabel := firstLabel role.seatLabels
                reservedSeatsRoleId := none
                reservedSeatsCount := 0 }
        pure (ok "Ship slot claimed")
      else pure (ok "Ship slot claimed")
  | none => pure (ok "Ship slot claimed")

def releaseShipSlot (groupId userId : ℕ) : Endpoint := do
  let claims ← updateReturning (fun db => db.deleteClaims (ShipClaim.isOf groupId userId)) fun db =>
    db.claims.filter (ShipClaim.isOf groupId userId)
  require (claims ≠ []) (reply 404 "No claim to release")
  update fun db => db.deleteMembers fun m =>
    m.isOf groupId userId &&
      db.roles.any fun r => r.groupId = groupId && isPilotRole r.name && m.roleId = some r.id
  pure (ok "Ship slot released")

/-! ## What planners do with the roster, and the answer to an assignment -/

def forbidden : Response := reply 403 "Forbidden"

def approveGroupMember (orgId eventId groupId userId requesterId : ℕ) : Endpoint := do
  let manages ← select fun db => db.canManageThisEvent requesterId orgId eventId
  require manages forbidden
  let found ← updateReturning
    (fun db => db.updateMembers (Member.isOf groupId userId) fun m => { m with status := .accepted })
    fun db => (db.member groupId userId).isSome
  require found (reply 404 "Member not found")
  pure (ok "Approved")

def approveAllGroupMembers (orgId eventId groupId requesterId : ℕ) : Endpoint := do
  let manages ← select fun db => db.canManageThisEvent requesterId orgId eventId
  require manages forbidden
  let updated ← updateReturning
    (fun db => db.updateMembers (fun m => m.groupId = groupId && m.status = .pending)
      fun m => { m with status := .accepted })
    fun db => db.members.countP fun m => m.groupId = groupId && m.status = .pending
  pure { ok "Approved pending members" with updated := some updated }

def removeGroupMember (orgId eventId groupId userId requesterId : ℕ) : Endpoint := do
  let manages ← select fun db => db.canManageThisEvent requesterId orgId eventId
  require manages forbidden
  let member ← select fun db => db.member groupId userId
  update (release member)
  update fun db => db.deleteMembers (Member.isOf groupId userId)
  pure (ok "Removed")

def respondEventAssignment (eventId userId : ℕ) (accept : Bool) : Endpoint := do
  let status := if accept then Status.accepted else Status.declined
  let rows ← updateReturning
    (fun db => db.updateMembers (fun m => m.userId = userId && db.inEvent eventId m)
      fun m => { m with status := status })
    fun db => db.members.filter fun m => m.userId = userId && db.inEvent eventId m
  require (rows ≠ []) (reply 404 "No assignment found for this event")
  update (if accept then id else releaseAll rows)
  pure (ok (if accept then "Assignment accepted" else "Assignment declined"))

end SpecterComs.Events
