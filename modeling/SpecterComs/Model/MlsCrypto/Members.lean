import SpecterComs.Model.MlsSession.Crypto
import SpecterComs.Model.MlsStore.Msgcache

/-! # Members of a group

`group_member_labels_impl`, `add_member_impl` and `remove_member_impl` of `mls-crypto/src/lib.rs`:
what they do to the leaves of the group. Labels are text, and credentials are bytes.
-/

namespace SpecterComs.Members

open MlsSession (GroupId Label)
open MlsStore (Bytes fromUtf8Lossy utf8)

/-- A leaf, as `members()` shows it. -/
structure Member where
  index : ℕ
  credential : Bytes
  deriving DecidableEq, Repr

/-- The credential as a label. -/
def Member.label (m : Member) : Label :=
  fromUtf8Lossy m.credential

/-- A group that this device is in. -/
structure Group where
  members : List Member
  ownLeafIndex : ℕ
  distinct : (members.map Member.index).Nodup
  own_mem : ownLeafIndex ∈ members.map Member.index

/-- The leaves of the other devices. -/
def Group.others (group : Group) : List Member :=
  group.members.filter (·.index ≠ group.ownLeafIndex)

/-- What is in OpenMLS. `keyPackage` is `KeyPackageIn::tls_deserialize` and `validate`, and tells the
credential. -/
structure OpenMls where
  keyPackage : Bytes → Except String Bytes
  addMembers : Group → List Bytes → Except String Group
  removeMembers : Group → List ℕ → Except String Group

/-- A device that is in a group has an identity. -/
structure DeviceState where
  signer : Option Bytes
  credential : Option Bytes
  groups : GroupId → Option Group
  identified : ∀ groupId group, groups groupId = some group → signer.isSome ∧ credential.isSome

variable (M : OpenMls)

def groupMemberLabels (group : Group) : List Label :=
  group.members.map Member.label

/-! ## Removing -/

/-- The leaves with the bytes of the label, without this device's own. -/
def matchingLeaves (group : Group) (label : Label) : List ℕ :=
  (group.members.filter fun m => m.credential = utf8 label && m.index ≠ group.ownLeafIndex).map
    Member.index

def pushNew (found : List ℕ) (index : ℕ) : List ℕ :=
  if found.contains index then found else found ++ [index]

/-- The loop over `device_labels`. -/
def leafIndices (group : Group) : List ℕ → List Label → Except String (List ℕ)
  | found, [] => .ok found
  | found, label :: labels =>
      if (matchingLeaves group label).isEmpty then
        .error s!"device_label '{label}' not found among current group members"
      else leafIndices group ((matchingLeaves group label).foldl pushNew found) labels

def removeMember (group : Group) (labels : List Label) : Except String Group := do
  let indices ← leafIndices group [] labels
  M.removeMembers group indices

/-! ## Adding -/

def addMember (group : Group) (keyPackages : List Bytes) : Except String Group := do
  let credentials ← keyPackages.mapM M.keyPackage
  M.addMembers group credentials

/-! ## Device states -/

namespace DeviceState

variable (state : DeviceState) (groupId : GroupId)

/-- The state with the group's new leaves. -/
def withGroup (group : Group) (hgroup : (state.groups groupId).isSome) : DeviceState where
  signer := state.signer
  credential := state.credential
  groups := Function.update state.groups groupId (some group)
  identified := by
    intro id g hg
    obtain ⟨held, hheld⟩ := Option.isSome_iff_exists.mp hgroup
    by_cases hid : id = groupId
    · exact state.identified groupId held hheld
    · rw [Function.update_of_ne hid] at hg
      exact state.identified id g hg

def groupMemberLabelsImpl : Except String (List Label) :=
  match state.groups groupId with
  | none => .error "group not found in device state"
  | some group => .ok (groupMemberLabels group)

/-- A function on a loaded group, and the state that is saved behind it. -/
def onGroup (f : Group → Except String Group) : Except String DeviceState :=
  if state.signer.isNone then .error "no signer in device state"
  else if state.credential.isNone then .error "no credential in device state"
  else
    match hgroup : state.groups groupId with
    | none => .error "group not found in device state"
    | some group => do
        let group ← f group
        .ok (state.withGroup groupId group (by rw [hgroup]; rfl))

def removeMemberImpl (labels : List Label) : Except String DeviceState :=
  state.onGroup groupId fun group => removeMember M group labels

def addMemberImpl (keyPackages : List Bytes) : Except String DeviceState :=
  state.onGroup groupId fun group => addMember M group keyPackages

end DeviceState

end SpecterComs.Members
