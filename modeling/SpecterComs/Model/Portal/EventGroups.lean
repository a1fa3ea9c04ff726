import SpecterComs.Library.StepSystem

/-! # The group plan of an operation

`web-portal/src/utils/eventGroups.js`: the groups of a plan point to their parents and to the
groups they are linked with by index. An absent index is one the source takes for `null` or
`undefined`. The fields that only the display reads are left out.
-/

namespace SpecterComs.EventGroups

structure Ship where
  shipSlug : String
  shipName : String
  shipIconUrl : Option String
  quantity : ℕ
  deriving DecidableEq, Repr

structure Role where
  id : Option String
  name : String
  priority : ℕ
  assignmentMode : String
  assignedUserId : String
  maxSlots : ℕ
  isCommander : Bool
  autoApprove : Option Bool
  seatLabels : Option (List String)
  deriving DecidableEq, Repr

structure Group where
  id : Option String
  name : String
  maxMembers : ℕ
  leaderUserId : Option String
  parentIndex : Option ℕ
  linkedIndex : Option ℕ
  ships : List Ship
  roles : List Role
  deriving DecidableEq, Repr

/-- A role by the index of its group and its index in it. -/
structure RoleRef where
  groupIndex : Option ℕ
  roleIndex : ℕ
  deriving DecidableEq, Repr

structure Frequency where
  id : Option String
  name : String
  isLeadership : Bool
  roleRefs : List RoleRef
  deriving DecidableEq, Repr

/-! ## The tree -/

def parentOf (groups : List Group) (idx : ℕ) : Option ℕ :=
  groups[idx]?.bind Group.parentIndex

/-- The groups under `cur`, in their order. -/
def childrenOf (groups : List Group) (cur : ℕ) : List ℕ :=
  (List.range groups.length).filter fun i => parentOf groups i = some cur

/-- The search for `targetIdx` below the queue, in at most so many rounds. -/
def searchBelow (groups : List Group) (targetIdx : ℕ) : ℕ → List ℕ → List ℕ → Option Bool
  | 0, _, _ => none
  | _ + 1, [], _ => some false
  | rounds + 1, cur :: queue, visited =>
      if cur = targetIdx then some true
      else if cur ∈ visited then searchBelow groups targetIdx rounds queue visited
      else searchBelow groups targetIdx rounds (queue ++ childrenOf groups cur) (cur :: visited)

/-- Every group but the first is queued by its parent, so that two more rounds than groups are
enough. -/
def wouldCreateCycle (targetIdx dragIdx : ℕ) (groups : List Group) : Bool :=
  targetIdx = dragIdx ||
    (searchBelow groups targetIdx (groups.length + 2) [dragIdx] []).getD false

/-- The depth of a group and the memo with it, unless the recursion goes deeper than `depth`. -/
def computeDepth (groups : List Group) :
    ℕ → ℕ → List (ℕ × ℕ) → Option (ℕ × List (ℕ × ℕ))
  | 0, _, _ => none
  | depth + 1, idx, memo =>
      match memo.lookup idx with
      | some d => some (d, memo)
      | none =>
          match parentOf groups idx with
          | some pi =>
              (computeDepth groups depth pi memo).map fun r => (r.1 + 1, (idx, r.1 + 1) :: r.2)
          | none => some (1, (idx, 1) :: memo)

/-! ## Edits -/

def newGroup (name : String) (parentIndex : Option ℕ) : Group where
  id := none
  name := name
  maxMembers := 0
  leaderUserId := none
  parentIndex := parentIndex
  linkedIndex := none
  ships := []
  roles := []

/-- An index once `i` is gone. -/
def shiftIndex (i : ℕ) (idx : Option ℕ) : Option ℕ :=
  idx.bind fun p => if p = i then none else if i < p then some (p - 1) else some p

def removeGroupAt (groups : List Group) (i : ℕ) : List Group :=
  (groups.eraseIdx i).map fun g =>
    { g with
      parentIndex := shiftIndex i g.parentIndex
      linkedIndex := shiftIndex i g.linkedIndex }

def setParent (groups : List Group) (idx : ℕ) (target : Option ℕ) : List Group :=
  groups.modify idx fun g => { g with parentIndex := target }

def reparentGroup (groups : List Group) (idx parentIdx : Option ℕ) : List Group :=
  match idx with
  | none => groups
  | some idx =>
      match groups[idx]? with
      | none => groups
      | some g =>
          if parentIdx.any fun target => target = idx || wouldCreateCycle target idx groups then
            groups
          else if g.parentIndex = parentIdx then groups
          else setParent groups idx parentIdx

/-- An edit of the tree. -/
inductive Edit
  | newGroup (name : String) (parentIndex : Option ℕ)
  | removeGroupAt (i : ℕ)
  | reparentGroup (idx parentIdx : Option ℕ)
  deriving DecidableEq, Repr

/-- The planners name a group of the plan, or none, as a parent. -/
def isParent (groups : List Group) (idx : Option ℕ) : Bool :=
  idx.all fun p => p < groups.length

def edits : StepSystem (List Group) Edit where
  step groups
    | .newGroup name parentIndex =>
        if isParent groups parentIndex then some (groups ++ [newGroup name parentIndex]) else none
    | .removeGroupAt i => some (removeGroupAt groups i)
    | .reparentGroup idx parentIdx =>
        if isParent groups parentIdx then some (reparentGroup groups idx parentIdx) else none

/-! ## The payload -/

/-- What has been visited, and what has been sorted. -/
structure Sorting where
  visited : List ℕ
  sortedIndices : List ℕ
  deriving DecidableEq, Repr

/-- The ancestors of a group, and then the group. None where there is no such group, or the
recursion goes deeper than `depth`. -/
def visit (groups : List Group) : ℕ → ℕ → Sorting → Option Sorting
  | 0, _, _ => none
  | depth + 1, idx, s =>
      if idx ∈ s.visited then some s
      else do
        let s := { s with visited := idx :: s.visited }
        let g ← groups[idx]?
        let s ←
          match g.parentIndex with
          | some pi => visit groups depth pi s
          | none => some s
        some { s with sortedIndices := s.sortedIndices ++ [idx] }

def sortIndices (groups : List Group) (depth : ℕ) : Option (List ℕ) :=
  ((List.range groups.length).foldlM (fun s i => visit groups depth i s) ⟨[], []⟩).map
    Sorting.sortedIndices

/-- The new index of each old one that is sorted. -/
def oldToNew (sortedIndices : List ℕ) : ℕ → Option ℕ :=
  sortedIndices.zipIdx.foldl (fun m p => Function.update m p.1 (some p.2)) fun _ => none

/-- `x || null` of a text. -/
def orNull (x : Option String) : Option String :=
  x.filter fun s => s ≠ ""

/-- `n || d` of a number. -/
def orElse (n d : ℕ) : ℕ :=
  if n = 0 then d else n

structure PayloadRole where
  id : Option String
  name : String
  priority : ℕ
  assignmentMode : String
  assignedUserId : Option String
  maxSlots : ℕ
  isCommander : Bool
  autoApprove : Bool
  seatLabels : Option (List String)
  deriving DecidableEq, Repr

structure PayloadGroup where
  id : Option String
  name : String
  maxMembers : ℕ
  leaderUserId : Option String
  parentIndex : Option ℕ
  linkedIndex : Option ℕ
  ships : List Ship
  roles : List PayloadRole
  deriving DecidableEq, Repr

structure Payload where
  groups : List PayloadGroup
  frequencies : List Frequency
  deriving DecidableEq, Repr

def payloadShip (s : Ship) : Ship :=
  { s with
    shipIconUrl := orNull s.shipIconUrl
    quantity := orElse s.quantity 1 }

def payloadRole (r : Role) : PayloadRole where
  id := orNull r.id
  name := r.name
  priority := orElse r.priority 3
  assignmentMode := if r.assignmentMode = "" then "open" else r.assignmentMode
  assignedUserId := orNull (some r.assignedUserId)
  maxSlots := orElse r.maxSlots 1
  isCommander := r.isCommander
  autoApprove := r.autoApprove ≠ some false
  seatLabels := r.seatLabels

def payloadGroup (newIndex : ℕ → Option ℕ) (g : Group) : PayloadGroup where
  id := orNull g.id
  name := g.name
  maxMembers := g.maxMembers
  leaderUserId := orNull g.leaderUserId
  parentIndex := g.parentIndex.bind newIndex
  linkedIndex := g.linkedIndex.bind newIndex
  ships := g.ships.map payloadShip
  roles := g.roles.map payloadRole

/-- A reference keeps its group index where that is not the index of a group. -/
def payloadRef (newIndex : ℕ → Option ℕ) (ref : RoleRef) : RoleRef :=
  { ref with groupIndex := ref.groupIndex.map fun gi => (newIndex gi).getD gi }

def payloadFrequency (newIndex : ℕ → Option ℕ) (f : Frequency) : Frequency :=
  { f with
    id := orNull f.id
    roleRefs := (f.roleRefs.map (payloadRef newIndex)).filter fun r => r.groupIndex.isSome }

def buildEventGroupsPayload (groups : List Group) (frequencies : List Frequency) (depth : ℕ) :
    Option Payload := do
  let sortedIndices ← sortIndices groups depth
  let newIndex := oldToNew sortedIndices
  some
    { groups := (sortedIndices.filterMap fun oldIdx => groups[oldIdx]?).map (payloadGroup newIndex)
      frequencies := frequencies.map (payloadFrequency newIndex) }

/-! ## Roles and frequencies -/

def newRole (name : String) : Role where
  id := none
  name := name
  priority := 3
  assignmentMode := "open"
  assignedUserId := ""
  maxSlots := 1
  isCommander := false
  autoApprove := none
  seatLabels := none

/-- A crew role of a ship. -/
structure ShipRole where
  displayName : String
  count : ℕ
  seatLabels : List String
  deriving DecidableEq, Repr

def shipRoleToGroupRole (r : ShipRole) : Role :=
  { newRole r.displayName with
    maxSlots := r.count
    seatLabels := some r.seatLabels }

/-- A group of a preset's layout. -/
structure LayoutGroup where
  name : String
  maxMembers : ℕ
  parentIndex : Option ℕ
  linkedIndex : Option ℕ
  deriving DecidableEq, Repr

def groupsFromPresetLayout (layout : List LayoutGroup) : List Group :=
  layout.zipIdx.map fun (g, i) =>
    { newGroup (if g.name = "" then "Group " ++ toString (i + 1) else g.name) g.parentIndex with
      maxMembers := g.maxMembers
      linkedIndex := g.linkedIndex }

def hasRef (f : Frequency) (gi ri : ℕ) : Bool :=
  f.roleRefs.any fun ref => ref.groupIndex = some gi && ref.roleIndex = ri

/-- The references of a frequency once role `ri` of group `gi` is gone. -/
def removeRoleFromFrequency (gi ri : ℕ) (f : Frequency) : Frequency :=
  { f with
    roleRefs :=
      (f.roleRefs.filter fun ref => !(ref.groupIndex = some gi && ref.roleIndex = ri)).map fun ref =>
        if ref.groupIndex = some gi && ri < ref.roleIndex then
          { ref with roleIndex := ref.roleIndex - 1 }
        else ref }

def removeRoleFromFrequencies (frequencies : List Frequency) (gi ri : ℕ) : List Frequency :=
  frequencies.map (removeRoleFromFrequency gi ri)

/-! ## The planners

What `OperationPlanner.jsx` and the pages of the tray strip's planner do with the plan.
-/

structure Plan where
  groups : List Group
  frequencies : List Frequency
  deriving DecidableEq, Repr

def rolesOf (groups : List Group) (gi : ℕ) : List Role :=
  ((groups[gi]?).map Group.roles).getD []

def setRoles (groups : List Group) (gi : ℕ) (fn : List Role → List Role) : List Group :=
  groups.modify gi fun g => { g with roles := fn g.roles }

inductive PlanEdit
  /-- A new group, at the top or under another. -/
  | addGroup (name : String) (parentIndex : Option ℕ)
  | removeGroup (i : ℕ)
  | reparentGroup (idx parentIdx : Option ℕ)
  /-- `update({ parent_index })` of the strip's group page. -/
  | updateParent (idx : ℕ) (parentIndex : Option ℕ)
  | setLink (idx : ℕ) (target : Option ℕ)
  | addRole (gi : ℕ) (name : String)
  | importShipRoles (gi : ℕ) (roles : List ShipRole)
  /-- The crew roles of the ships, for a group that has no roles. -/
  | autoFill (gi : ℕ) (roles : List ShipRole)
  /-- `removeRole` of the full planner. -/
  | removeRole (gi ri : ℕ)
  /-- `onRemove` of the strip's role page. -/
  | onRemove (gi ri : ℕ)
  | applyPreset (layout : List LayoutGroup)
  /-- The planner chooses the roles of the frequencies, or the default of a new role does. -/
  | setFrequencies (frequencies : List Frequency)
  deriving DecidableEq, Repr

def Plan.edit (p : Plan) : PlanEdit → Plan
  | .addGroup name parentIndex => { p with groups := p.groups ++ [newGroup name parentIndex] }
  | .removeGroup i => { p with groups := removeGroupAt p.groups i }
  | .reparentGroup idx parentIdx => { p with groups := reparentGroup p.groups idx parentIdx }
  | .updateParent idx parentIndex => { p with groups := setParent p.groups idx parentIndex }
  | .setLink idx target =>
      { p with groups := p.groups.modify idx fun g => { g with linkedIndex := target } }
  | .addRole gi name => { p with groups := setRoles p.groups gi fun rs => rs ++ [newRole name] }
  | .importShipRoles gi roles =>
      { p with groups := setRoles p.groups gi fun rs => rs ++ roles.map shipRoleToGroupRole }
  | .autoFill gi roles =>
      if (rolesOf p.groups gi).length = 0 then
        { p with groups := setRoles p.groups gi fun _ => roles.map shipRoleToGroupRole }
      else p
  | .removeRole gi ri => { p with groups := setRoles p.groups gi fun rs => rs.eraseIdx ri }
  | .onRemove gi ri =>
      { groups := setRoles p.groups gi fun rs => rs.eraseIdx ri
        frequencies := removeRoleFromFrequencies p.frequencies gi ri }
  | .applyPreset layout => { p with groups := groupsFromPresetLayout layout }
  | .setFrequencies frequencies => { p with frequencies := frequencies }

def planners : StepSystem Plan PlanEdit where
  step p e := some (p.edit e)

end SpecterComs.EventGroups
