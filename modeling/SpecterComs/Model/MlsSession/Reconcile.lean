import SpecterComs.Model.MlsCrypto.Members

/-! # Reconciling a group

`reconcileGroupDevices` of `mlsSession.js` on the leaves of the group: an own commit that removes
leaves, `fetchDevicesOf`, and an own commit that adds leaves.
-/

namespace SpecterComs.Reconcile

open Members
open MlsSession (UserId Label DeviceId credentialFor userIdOfLabel)
open MlsStore (Bytes)

/-- An element of `fetchDevicesOf`'s list. The server takes no device id but a UUID. -/
structure Device where
  userId : UserId
  deviceId : DeviceId
  keyPackage : Bytes

def Device.label (d : Device) : Label :=
  credentialFor d.userId d.deviceId.text

/-- The server's list of each user's devices; an error leaves it empty. -/
abbrev Devices := UserId → List (DeviceId × Bytes)

def fetchDevicesOf (devices : Devices) (userIds : List UserId) : List Device :=
  userIds.flatMap fun userId => (devices userId).map fun d => ⟨userId, d.1, d.2⟩

variable (M : OpenMls) (currentUserId : UserId) (currentMemberIds : List UserId)

/-- The label's user is a member. -/
def IsCurrent (label : Label) : Prop :=
  userIdOfLabel label ∈ currentMemberIds

instance (label : Label) : Decidable (IsCurrent currentMemberIds label) :=
  inferInstanceAs (Decidable (_ ∈ _))

def staleLabels (group : Group) : List Label :=
  ((groupMemberLabels group).filter fun label => !IsCurrent currentMemberIds label).eraseDups

/-- The first `build`. Without a stale label there is no commit. -/
def removeStale (group : Group) : Except String Group :=
  if (staleLabels currentMemberIds group).isEmpty then .ok group
  else removeMember M group (staleLabels currentMemberIds group)

def fetched (devices : Devices) : List Device :=
  fetchDevicesOf devices (currentMemberIds.filter (· ≠ currentUserId))

def missing (devices : List Device) (group : Group) : List Device :=
  devices.filter fun d => !(groupMemberLabels group).contains d.label

/-- The second `build`. Without a missing device there is no commit. -/
def addMissing (devices : List Device) (group : Group) : Except String Group :=
  if (missing devices group).isEmpty then .ok group
  else addMember M group ((missing devices group).map Device.keyPackage)

/-- What other commits have changed, all in all, while the devices were fetched. -/
structure Interim where
  removed : List ℕ
  added : List Member

/-- A run whose commits are accepted. The group may be any at its begin, and the second commit is
built on what the other commits have left. -/
structure Run (devices : Devices) where
  before : Group
  reduced : Group
  interim : Interim
  met : Group
  after : Group
  removal : removeStale M currentMemberIds before = .ok reduced
  others : ∀ m, m ∈ met.members ↔
    m ∈ reduced.members ∧ m.index ∉ interim.removed ∨ m ∈ interim.added
  addition : addMissing M (fetched currentUserId currentMemberIds devices) met = .ok after

end SpecterComs.Reconcile
