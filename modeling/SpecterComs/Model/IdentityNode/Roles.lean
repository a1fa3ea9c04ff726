import Mathlib.Algebra.Order.Ring.Int

/-! # Roles of an organization

`controllers/roleController.ts`, and `assignMemberRole` and `checkModerationPermission` of
`controllers/modController.ts`, over the roles and the members of one organization, each found by
its key. Whoever sends a request is logged in, and levels are whole numbers.
-/

namespace SpecterComs.Roles

structure Role where
  name : String
  /-- The flags that the object grants. -/
  permissions : List String
  level : Option ℤ
  deriving DecidableEq, Repr

/-- `COALESCE(level, 0)`. -/
def Role.rank (role : Role) : ℤ :=
  role.level.getD 0

structure Member where
  roleId : Option ℕ
  deriving DecidableEq, Repr

/-- The tables for an organization: a role that a member has exists. -/
structure Org where
  ownerId : ℕ
  roles : ℕ → Option Role
  members : ℕ → Option Member
  exists_role : ∀ userId member id, members userId = some member → member.roleId = some id →
    (roles id).isSome

namespace Org

variable (org : Org)

def roleIdOf (userId : ℕ) : Option ℕ :=
  (org.members userId).bind Member.roleId

/-- `org_members m JOIN org_roles r ON r.id = m.role_id`. -/
def roleOf (userId : ℕ) : Option Role :=
  (org.roleIdOf userId).bind org.roles

end Org

structure RequesterInfo where
  isOwner : Bool
  canManage : Bool
  level : ℤ
  deriving DecidableEq, Repr

/-- `Number.MAX_SAFE_INTEGER`. -/
def maxSafeInteger : ℤ := 2 ^ 53 - 1

def getRequesterInfo (org : Org) (userId : ℕ) : RequesterInfo :=
  if userId = org.ownerId then
    { isOwner := true
      canManage := true
      level := maxSafeInteger }
  else
    match org.roleOf userId with
    | none =>
        { isOwner := false
          canManage := false
          level := 0 }
    | some role =>
        { isOwner := false
          canManage := "can_manage_roles" ∈ role.permissions
          level := if 0 < role.rank then role.rank else 0 }

/-- `checkModerationPermission`. -/
def checkModerationPermission (org : Org) (userId : ℕ) (requiredPerm : String) : Bool :=
  userId = org.ownerId || (org.roleOf userId).any fun role => requiredPerm ∈ role.permissions

/-- An answer other than success. -/
structure Refusal where
  status : ℕ
  message : String
  deriving DecidableEq, Repr

/-! ## Writes -/

namespace Org

variable (org : Org)

def putRole (id : ℕ) (role : Role) : Org where
  ownerId := org.ownerId
  roles := Function.update org.roles id (some role)
  members := org.members
  exists_role userId member id' hmember hid := by
    by_cases h : id' = id
    · rw [h, Function.update_self]
      rfl
    · rw [Function.update_of_ne h]
      exact org.exists_role userId member id' hmember hid

def dropRole (id : ℕ) : Org where
  ownerId := org.ownerId
  roles := Function.update org.roles id none
  members userId := (org.members userId).map fun member =>
    if member.roleId = some id then { roleId := none } else member
  exists_role userId member id' hmember hid := by
    obtain ⟨old, hold, rfl⟩ := Option.map_eq_some_iff.mp hmember
    split at hid
    · cases hid
    · rename_i hne
      have h : id' ≠ id := fun h => hne (h ▸ hid)
      rw [Function.update_of_ne h]
      exact org.exists_role userId old id' hold hid

/-- `UPDATE org_members SET role_id = $1 WHERE …`, where the role is none or there. -/
def setMemberRole (target : ℕ) (roleId : Option ℕ)
    (h : ∀ id, roleId = some id → (org.roles id).isSome) : Org where
  ownerId := org.ownerId
  roles := org.roles
  members := Function.update org.members target ((org.members target).map fun _ => { roleId })
  exists_role userId member id hmember hid := by
    by_cases htarget : userId = target
    · rw [htarget, Function.update_self] at hmember
      obtain ⟨_, _, rfl⟩ := Option.map_eq_some_iff.mp hmember
      exact h id hid
    · rw [Function.update_of_ne htarget] at hmember
      exact org.exists_role userId member id hmember hid

end Org

/-! ## Requests -/

def forbidden : Refusal where
  status := 403
  message := "Forbidden: Cannot manage roles"

variable (org : Org) (userId : ℕ)

/-- `!requester.isOwner && level >= requester.level`. -/
def RequesterInfo.outranked (requester : RequesterInfo) (level : ℤ) : Bool :=
  !requester.isOwner && requester.level ≤ level

/-- The id of the row is what `gen_random_uuid()` gives. -/
def createRole (id : ℕ) (name : String) (permissions : Option (List String)) (level : Option ℤ) :
    Except Refusal Org :=
  let requester := getRequesterInfo org userId
  if requester.canManage then
    let newLevel := level.getD 0
    if requester.outranked newLevel then
      .error ⟨403, "Forbidden: Cannot create a role at or above your own rank"⟩
    else if (org.roles id).isSome then .error ⟨500, "Server error creating role"⟩
    else
      .ok (org.putRole id
        { name := name
          permissions := permissions.getD []
          level := some newLevel })
  else .error forbidden

def updateRole (roleId : ℕ) (name : Option String) (permissions : Option (List String))
    (level : Option ℤ) : Except Refusal Org :=
  let requester := getRequesterInfo org userId
  if requester.canManage then
    match org.roles roleId with
    | none => .error ⟨404, "Role not found"⟩
    | some role =>
        if requester.outranked role.rank then
          .error ⟨403, "Forbidden: Cannot modify a role at or above your own rank"⟩
        else if level.any requester.outranked then
          .error ⟨403, "Forbidden: Cannot assign a level at or above your own rank"⟩
        else
          .ok (org.putRole roleId
            { name := name.getD role.name
              permissions := permissions.getD role.permissions
              level := level.or role.level })
  else .error forbidden

/-- Whether a role can go while members refer to it is up to the schema, which is not part of the
sources. Where it can, they have none then. -/
def deleteRole (mayDelete : Org → ℕ → Bool) (roleId : ℕ) : Except Refusal Org :=
  let requester := getRequesterInfo org userId
  if requester.canManage then
    match org.roles roleId with
    | none => .error ⟨404, "Role not found"⟩
    | some role =>
        if requester.outranked role.rank then
          .error ⟨403, "Forbidden: Cannot delete a role at or above your own rank"⟩
        else if mayDelete org roleId then .ok (org.dropRole roleId)
        else .error ⟨500, "Server error deleting role"⟩
  else .error forbidden

def assignMemberRole (target : ℕ) (roleId : Option ℕ) : Except Refusal Org :=
  let requester := getRequesterInfo org userId
  if requester.canManage then
    match roleId with
    | none => .ok (org.setMemberRole target none nofun)
    | some id =>
        match h : org.roles id with
        | none => .error ⟨404, "Role not found in this organization"⟩
        | some role =>
            if requester.outranked role.rank then
              .error ⟨403, "Forbidden: Cannot assign a role at or above your own rank"⟩
            else .ok (org.setMemberRole target (some id) (by rintro _ ⟨⟩; rw [h]; rfl))
  else .error forbidden

inductive Action
  | createRole (id : ℕ) (name : String) (permissions : Option (List String)) (level : Option ℤ)
  | updateRole (roleId : ℕ) (name : Option String) (permissions : Option (List String))
      (level : Option ℤ)
  | deleteRole (roleId : ℕ)
  | assignMemberRole (target : ℕ) (roleId : Option ℕ)
  deriving DecidableEq, Repr

structure Request where
  userId : ℕ
  action : Action
  deriving DecidableEq, Repr

def handle (mayDelete : Org → ℕ → Bool) (org : Org) (r : Request) : Except Refusal Org :=
  match r.action with
  | .createRole id name permissions level => createRole org r.userId id name permissions level
  | .updateRole roleId name permissions level =>
      updateRole org r.userId roleId name permissions level
  | .deleteRole roleId => deleteRole org r.userId mayDelete roleId
  | .assignMemberRole target roleId => assignMemberRole org r.userId target roleId

end SpecterComs.Roles
