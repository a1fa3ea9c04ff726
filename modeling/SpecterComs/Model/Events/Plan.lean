import SpecterComs.Model.Events.Signup
import SpecterComs.Library.StepSystem

/-! # Saving the plan of an event

`saveEventGroups`: rows are matched by the ids the planner loaded, and only what the payload
leaves out is deleted. Ids are generated one after the other.
-/

namespace SpecterComs.Events

open Handler

/-! ## The body -/

structure ShipPayload where
  shipSlug : String
  shipName : String
  shipIconUrl : Option String
  /-- `parseInt(s.quantity, 10)`. -/
  quantity : Option ℤ
  deriving DecidableEq, Repr

structure RolePayload where
  id : Option ℕ
  name : String
  /-- `parseInt(role.priority)`. -/
  priority : Option ℤ
  assignmentMode : AssignmentMode
  assignedUserId : Option ℕ
  /-- `parseInt(role.max_slots)`. -/
  maxSlots : Option ℤ
  isCommander : Bool
  autoApprove : Bool
  seatLabels : Option (List String)
  deriving DecidableEq, Repr

structure GroupPayload where
  id : Option ℕ
  name : String
  leaderUserId : Option ℕ
  parentIndex : Option ℕ
  linkedIndex : Option ℕ
  maxMembers : ℕ
  ships : Option (List ShipPayload)
  roles : Option (List RolePayload)
  memberUserIds : Option (List ℕ)
  memberRoles : List (ℕ × String)
  deriving DecidableEq, Repr

structure RoleRef where
  groupIndex : Option ℕ
  roleIndex : Option ℕ
  deriving DecidableEq, Repr

structure FrequencyPayload where
  id : Option ℕ
  name : String
  isLeadership : Option Bool
  roleRefs : List RoleRef
  deriving DecidableEq, Repr

structure PlanPayload where
  groups : Option (List GroupPayload)
  frequencies : Option (List FrequencyPayload)
  deriving DecidableEq, Repr

def slice (n : ℕ) (s : String) : String :=
  String.ofList (s.toList.take n)

/-- `s || fallback`. -/
def orElse (fallback s : String) : String :=
  if s = "" then fallback else s

/-- `parseInt(…) || fallback`. -/
def intOr (fallback : ℤ) (n : Option ℤ) : ℤ :=
  match n with
  | some n => if n = 0 then fallback else n
  | none => fallback

namespace RolePayload

variable (r : RolePayload)

def storedName : String :=
  slice 64 (orElse "Role" r.name)

def storedMaxSlots : ℕ :=
  (max 1 (intOr 1 r.maxSlots)).toNat

def storedPriority : ℕ :=
  (min 5 (max 1 (intOr 3 r.priority))).toNat

def storedSeatLabels : List String :=
  ((r.seatLabels.getD []).take 20).map (slice 80)

end RolePayload

namespace Db

variable (db : Db)

/-! ## Groups -/

def insertGroup (g : Group) : Db :=
  { db with groups := db.groups ++ [{ g with id := db.nextId }], nextId := db.nextId + 1 }

def updateGroup (groupId eventId : ℕ) (set : Group → Group) : Db :=
  { db with
    groups := db.groups.map fun g => if g.id = groupId ∧ g.eventId = eventId then set g else g }

def setLinked (groupId : ℕ) (linked : Option ℕ) : Db :=
  { db with
    groups := db.groups.map fun g => if g.id = groupId then { g with linkedGroupId := linked } else g }

/-- The rows of the groups go with them. -/
def deleteGroups (ids : List ℕ) : Db :=
  let gone (groupId : ℕ) : Bool := groupId ∈ ids
  let goneRole (roleId : ℕ) : Bool := db.roles.any fun r => gone r.groupId && r.id = roleId
  { db with
    groups := (db.groups.filter fun g => !gone g.id).map fun g =>
      { g with
        parentGroupId := g.parentGroupId.filter fun id => !gone id
        linkedGroupId := g.linkedGroupId.filter fun id => !gone id }
    roles := db.roles.filter fun r => !gone r.groupId
    members := (db.members.filter fun m => !gone m.groupId).map fun m =>
      { m with roleId := m.roleId.filter fun id => !goneRole id }
    ships := db.ships.filter fun s => !gone s.groupId
    claims := db.claims.filter fun c => !gone c.groupId
    frequencyRoles := db.frequencyRoles.filter fun f => !goneRole f.roleId }

/-! ## Ships -/

def deleteShips (groupId : ℕ) : Db :=
  { db with ships := db.ships.filter fun s => s.groupId ≠ groupId }

def insertShip (s : GroupShip) : Db :=
  { db with ships := db.ships ++ [s] }

/-! ## Roles -/

def insertRole (r : Role) : Db :=
  { db with roles := db.roles ++ [{ r with id := db.nextId }], nextId := db.nextId + 1 }

def updateRole (roleId groupId : ℕ) (set : Role → Role) : Db :=
  { db with
    roles := db.roles.map fun r => if r.id = roleId ∧ r.groupId = groupId then set r else r }

/-- `event_group_members.role_id` is `ON DELETE SET NULL`. -/
def deleteRoles (ids : List ℕ) : Db :=
  let gone (roleId : ℕ) : Bool := roleId ∈ ids
  { db with
    roles := db.roles.filter fun r => !gone r.id
    members := db.members.map fun m => { m with roleId := m.roleId.filter fun id => !gone id }
    frequencyRoles := db.frequencyRoles.filter fun f => !gone f.roleId }

/-! ## Frequencies -/

def insertFrequency (f : Frequency) : Db :=
  { db with
    frequencies := db.frequencies ++ [{ f with id := db.nextId }]
    nextId := db.nextId + 1 }

def updateFrequency (frequencyId eventId : ℕ) (set : Frequency → Frequency) : Db :=
  { db with
    frequencies := db.frequencies.map fun f =>
      if f.id = frequencyId ∧ f.eventId = eventId then set f else f }

/-- A channel for a frequency that is added after the launch. -/
def openFrequencyChannel (frequencyId : ℕ) : Db :=
  { db with
    frequencies := db.frequencies.map fun f =>
      if f.id = frequencyId then { f with channelId := some db.nextId } else f
    nextId := db.nextId + 1 }

def clearFrequencyRoles (frequencyId : ℕ) : Db :=
  { db with frequencyRoles := db.frequencyRoles.filter fun f => f.frequencyId ≠ frequencyId }

def insertFrequencyRole (f : FrequencyRole) : Db :=
  if f ∈ db.frequencyRoles then db else { db with frequencyRoles := db.frequencyRoles ++ [f] }

def deleteFrequencies (ids : List ℕ) : Db :=
  { db with
    frequencies := db.frequencies.filter fun f => f.id ∉ ids
    frequencyRoles := db.frequencyRoles.filter fun f => f.frequencyId ∉ ids }

def setCommander (eventId : ℕ) (commander : Option ℕ) : Db :=
  { db with
    events := db.events.map fun e =>
      if e.id = eventId then { e with commanderUserId := commander } else e }

end Db

/-! ## First pass: groups, ships and the claims they carry -/

def createdId (created : List ℕ) (index : Option ℕ) : Option ℕ :=
  index.bind fun i => created[i]?

def saveGroup (eventId : ℕ) (existing created : List ℕ) (g : GroupPayload) :
    Handler Db Response ℕ :=
  match g.id.filter fun id => id ∈ existing with
  | some id => do
      update fun db => db.updateGroup id eventId fun row =>
        { row with
          name := orElse "Squad" g.name
          leaderUserId := g.leaderUserId
          parentGroupId := createdId created g.parentIndex
          maxMembers := g.maxMembers }
      pure id
  | none =>
      updateReturning
        (fun db => db.insertGroup
          { id := 0
            eventId := eventId
            name := orElse "Squad" g.name
            leaderUserId := g.leaderUserId
            parentGroupId := createdId created g.parentIndex
            linkedGroupId := none
            maxMembers := g.maxMembers })
        Db.nextId

/-- The rows of a composition, in the order of the payload. -/
def shipRows (groupId : ℕ) : ℕ → List ShipPayload → List GroupShip
  | _, [] => []
  | sortOrder, s :: rest =>
      let slug := slice 64 s.shipSlug
      let name := slice 128 s.shipName
      if slug = "" ∨ name = "" then shipRows groupId sortOrder rest
      else
        { groupId := groupId
          shipSlug := slug
          shipName := name
          shipIconUrl := (s.shipIconUrl.filter fun url => url ≠ "").map (slice 2048)
          quantity := (max 1 (intOr 1 s.quantity)).toNat
          sortOrder := sortOrder } :: shipRows groupId (sortOrder + 1) rest

/-- `newQuantityBySlug`: the last row of a slug counts. -/
def newQuantity (rows : List GroupShip) (slug : String) : Option ℕ :=
  (rows.reverse.find? fun s => s.shipSlug = slug).map GroupShip.quantity

def staleClaim (rows : List GroupShip) (c : ShipClaim) : Bool :=
  (newQuantity rows c.shipSlug).all fun quantity => quantity ≤ c.slotIndex

/-- Replaces the composition, and prunes the claims it no longer supports with the members that
made them. -/
def saveShips (groupId : ℕ) (ships : Option (List ShipPayload)) : Handler Db Response Unit := do
  update fun db => db.deleteShips groupId
  let rows := shipRows groupId 0 (ships.getD [])
  rows.forM fun s => update fun db => db.insertShip s
  let stale ← select fun db =>
    db.claims.filter fun c => c.groupId = groupId && staleClaim rows c
  update fun db => db.deleteClaims fun c => c ∈ stale
  update fun db => db.deleteMembers fun m =>
    m.groupId = groupId && stale.any fun c => c.userId = m.userId

def saveGroups (eventId : ℕ) (existing : List ℕ) :
    List ℕ → List GroupPayload → Handler Db Response (List ℕ)
  | created, [] => pure created
  | created, g :: rest => do
      let groupId ← saveGroup eventId existing created g
      saveShips groupId g.ships
      saveGroups eventId existing (created ++ [groupId]) rest

/-! ## Second pass: links -/

def saveLinks (created : List ℕ) : ℕ → List GroupPayload → Handler Db Response Unit
  | _, [] => pure ()
  | i, g :: rest => do
      let linked := createdId created (g.linkedIndex.filter fun j => j ≠ i)
      update fun db => (created[i]?).elim db fun groupId => db.setLinked groupId linked
      saveLinks created (i + 1) rest

/-! ## Third pass: roles and direct assignments -/

def saveRole (groupId : ℕ) (existing : List ℕ) (sortOrder : ℕ) (r : RolePayload) :
    Handler Db Response ℕ :=
  match r.id.filter fun id => id ∈ existing with
  | some id => do
      update fun db => db.updateRole id groupId fun row =>
        { row with
          name := r.storedName
          priority := r.storedPriority
          assignmentMode := r.assignmentMode
          maxSlots := r.storedMaxSlots
          sortOrder := sortOrder
          isCommander := r.isCommander
          autoApprove := r.autoApprove
          seatLabels := r.storedSeatLabels }
      pure id
  | none =>
      updateReturning
        (fun db => db.insertRole
          { id := 0
            groupId := groupId
            name := r.storedName
            priority := r.storedPriority
            assignmentMode := r.assignmentMode
            maxSlots := r.storedMaxSlots
            sortOrder := sortOrder
            seatLabels := r.storedSeatLabels
            isCommander := r.isCommander
            autoApprove := r.autoApprove
            reservedSlots := 0 })
        Db.nextId

/-- Members of a direct role other than the one the payload assigns are superseded. -/
def reconcile (groupId roleId : ℕ) (r : RolePayload) : Handler Db Response Unit :=
  match r.assignmentMode, r.assignedUserId with
  | .open, _ => pure ()
  | .direct, some assigned => do
      update fun db => db.deleteMembers fun m => m.roleId = some roleId && m.userId ≠ assigned
      update fun db =>
        db.upsertMember
          { Member.plain groupId assigned .pending with
            roleId := some roleId
            role := some r.storedName }
          fun m =>
            { m with
              roleId := some roleId
              role := some r.storedName
              status := .pending }
  | .direct, none => update fun db => db.deleteMembers fun m => m.roleId = some roleId

def saveRolesFrom (groupId : ℕ) (existing : List ℕ) :
    List ℕ → List RolePayload → Handler Db Response (List ℕ)
  | created, [] => pure created
  | created, r :: rest => do
      let roleId ← saveRole groupId existing created.length r
      reconcile groupId roleId r
      saveRolesFrom groupId existing (created ++ [roleId]) rest

/-- The format before there were roles. -/
def saveLegacyMembers (groupId : ℕ) (restricted : Bool) (g : GroupPayload) :
    Handler Db Response Unit :=
  (g.memberUserIds.getD []).forM fun uid =>
    let role := slice 64 ((g.memberRoles.lookup uid).getD "")
    let status := if restricted then Status.pending else Status.accepted
    update fun db =>
      db.upsertMember { Member.plain groupId uid status with role := some role }
        fun m => { m with role := some role }

def saveRoles (restricted : Bool) (groupId : ℕ) (g : GroupPayload) :
    Handler Db Response (List ℕ) := do
  let existing ← select fun db => (db.roles.filter fun r => r.groupId = groupId).map Role.id
  match g.roles.getD [] with
  | [] => do
      saveLegacyMembers groupId restricted g
      update fun db => db.deleteRoles existing
      pure []
  | roles => do
      let created ← saveRolesFrom groupId existing [] roles
      update fun db => db.deleteRoles (existing.filter fun id => id ∉ created)
      pure created

def saveAllRoles (restricted : Bool) :
    List (ℕ × GroupPayload) → Handler Db Response (List (List ℕ))
  | [] => pure []
  | (groupId, g) :: rest => do
      let created ← saveRoles restricted groupId g
      let others ← saveAllRoles restricted rest
      pure (created :: others)

/-- The groups and roles of the payload; what is returned is `createdRoleIds`. -/
def saveRoster (eventId : ℕ) (restricted : Bool) :
    Option (List GroupPayload) → Handler Db Response (List (List ℕ))
  | none => pure []
  | some groups => do
    let existing ← select fun db => (db.groups.filter fun g => g.eventId = eventId).map Group.id
    let created ← saveGroups eventId existing [] groups
    update fun db => db.deleteGroups (existing.filter fun id => id ∉ created)
    saveLinks created 0 groups
    saveAllRoles restricted (created.zip groups)

/-! ## Commander and frequencies -/

def derivedCommander (groups : List GroupPayload) : Option ℕ :=
  (groups.flatMap fun g => g.roles.getD []).findSome? fun r =>
    if r.isCommander ∧ r.assignmentMode = .direct then r.assignedUserId else none

def saveFrequency (eventId sortOrder : ℕ) (existing : List ℕ) (opensChannels : Bool)
    (f : FrequencyPayload) : Handler Db Response ℕ :=
  let name := slice 32 (orElse "FREQ" f.name)
  match f.id.filter fun id => id ∈ existing with
  | some id => do
      update fun db => db.updateFrequency id eventId fun row =>
        { row with
          name := name
          sortOrder := sortOrder
          isLeadership := f.isLeadership.getD row.isLeadership }
      pure id
  | none => do
      let id ← updateReturning
        (fun db => db.insertFrequency
          { id := 0
            eventId := eventId
            name := name
            sortOrder := sortOrder
            isLeadership := f.isLeadership.getD false
            channelId := none })
        Db.nextId
      update fun db => if opensChannels then db.openFrequencyChannel id else db
      pure id

def saveRoleRefs (roleIds : List (List ℕ)) (frequencyId : ℕ) (refs : List RoleRef) :
    Handler Db Response Unit := do
  update fun db => db.clearFrequencyRoles frequencyId
  refs.forM fun ref =>
    match (createdRole ref.groupIndex ref.roleIndex : Option ℕ) with
    | some roleId => update fun db => db.insertFrequencyRole ⟨frequencyId, roleId⟩
    | none => pure ()
where
  createdRole (groupIndex roleIndex : Option ℕ) : Option ℕ := do
    let gi ← groupIndex
    let ri ← roleIndex
    let ids ← roleIds[gi]?
    ids[ri]?

def saveFrequencies (eventId : ℕ) (existing : List ℕ) (opensChannels : Bool)
    (roleIds : List (List ℕ)) :
    List ℕ → List FrequencyPayload → Handler Db Response (List ℕ)
  | kept, [] => pure kept
  | kept, f :: rest => do
      let id ← saveFrequency eventId kept.length existing opensChannels f
      saveRoleRefs roleIds id f.roleRefs
      saveFrequencies eventId existing opensChannels roleIds (kept ++ [id]) rest

def saveEventGroups (orgId eventId userId : ℕ) (body : PlanPayload) : Endpoint := do
  let manages ← select fun db => db.canManageThisEvent userId orgId eventId
  require manages forbidden
  let ev ← select fun db => db.event eventId orgId
  let ev ← found ev eventNotFound
  let roleIds ← saveRoster eventId (ev.accessMode = .restricted) body.groups
  update fun db => db.setCommander eventId (derivedCommander (body.groups.getD []))
  let existing ← select fun db =>
    (db.frequencies.filter fun f => f.eventId = eventId).map Frequency.id
  let kept ← saveFrequencies eventId existing (ev.launched && ev.commandChannelId.isSome) roleIds []
    (body.frequencies.getD [])
  update fun db => db.deleteFrequencies (existing.filter fun id => id ∉ kept)
  pure (ok "Groups saved")

/-! ## Requests, one after the other -/

/-- A request with the ids of its URL, its body and the user who makes it. -/
inductive Request
  | joinEventGroup (orgId eventId groupId userId : ℕ)
  | leaveEventGroup (groupId userId : ℕ)
  | joinEventRole (orgId eventId groupId roleId userId : ℕ) (claimedShipId : Option ℕ)
      (seatLabel : Option String)
  | quickJoinEvent (orgId eventId userId : ℕ)
  | leaveMyEventSignup (eventId userId : ℕ)
  | leaveEventRole (groupId roleId userId : ℕ)
  | claimShipSlot (orgId eventId groupId : ℕ) (shipSlug : String) (userId : ℕ)
      (userShipId slotIndex : Option ℕ)
  | releaseShipSlot (groupId userId : ℕ)
  | respondEventAssignment (eventId userId : ℕ) (accept : Bool)
  | approveGroupMember (orgId eventId groupId userId requesterId : ℕ)
  | approveAllGroupMembers (orgId eventId groupId requesterId : ℕ)
  | removeGroupMember (orgId eventId groupId userId requesterId : ℕ)
  | saveEventGroups (orgId eventId requesterId : ℕ) (body : PlanPayload)
  deriving DecidableEq, Repr

namespace Request

/-- The handler of a request; the ones that take a client run in a transaction. -/
def serve : Request → Db → Response × Db
  | joinEventGroup orgId eventId groupId userId =>
      (Events.joinEventGroup orgId eventId groupId userId).autocommit
  | leaveEventGroup groupId userId => (Events.leaveEventGroup groupId userId).transaction
  | joinEventRole orgId eventId groupId roleId userId claimedShipId seatLabel =>
      (Events.joinEventRole orgId eventId groupId roleId userId claimedShipId seatLabel).transaction
  | quickJoinEvent orgId eventId userId => (Events.quickJoinEvent orgId eventId userId).autocommit
  | leaveMyEventSignup eventId userId => (Events.leaveMyEventSignup eventId userId).transaction
  | leaveEventRole groupId roleId userId => (Events.leaveEventRole groupId roleId userId).transaction
  | claimShipSlot orgId eventId groupId shipSlug userId userShipId slotIndex =>
      (Events.claimShipSlot orgId eventId groupId shipSlug userId userShipId slotIndex).transaction
  | releaseShipSlot groupId userId => (Events.releaseShipSlot groupId userId).transaction
  | respondEventAssignment eventId userId accept =>
      (Events.respondEventAssignment eventId userId accept).autocommit
  | approveGroupMember orgId eventId groupId userId requesterId =>
      (Events.approveGroupMember orgId eventId groupId userId requesterId).autocommit
  | approveAllGroupMembers orgId eventId groupId requesterId =>
      (Events.approveAllGroupMembers orgId eventId groupId requesterId).autocommit
  | removeGroupMember orgId eventId groupId userId requesterId =>
      (Events.removeGroupMember orgId eventId groupId userId requesterId).autocommit
  | saveEventGroups orgId eventId requesterId body =>
      (Events.saveEventGroups orgId eventId requesterId body).transaction

/-- The user who makes the request. -/
def requester : Request → ℕ
  | joinEventGroup _ _ _ userId | leaveEventGroup _ userId | joinEventRole _ _ _ _ userId _ _
  | quickJoinEvent _ _ userId | leaveMyEventSignup _ userId | leaveEventRole _ _ userId
  | claimShipSlot _ _ _ _ userId _ _ | releaseShipSlot _ userId
  | respondEventAssignment _ userId _ => userId
  | approveGroupMember _ _ _ _ requesterId | approveAllGroupMembers _ _ _ requesterId
  | removeGroupMember _ _ _ _ requesterId | saveEventGroups _ _ requesterId _ => requesterId

end Request

/-- Requests one after the other; what they answer does not matter here. -/
def requests : StepSystem Db Request where
  step db r := some (r.serve db).2

end SpecterComs.Events
