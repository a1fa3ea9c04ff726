import SpecterComs.Model.MlsSession.Crypto

/-! # The leaves that commits add

`registerDevice` and `getUserDeviceKeyPackages` of `identity-node`, `attemptGroupGenesis` and
`reconcileGroupDevices` of `mlsSession.js`, and `add_member_impl` of `mls-crypto`. Honest members
commit on the newest state of a group; a commit that the server does not take leaves it as it is.
-/

namespace SpecterComs.Leaves

open MlsSession (Bytes UserId GroupId Label DeviceId credentialFor userIdOfLabel)
open DeliveryService (isUuid jsLength)

/-- A `KeyPackageIn`: its credential as `group_member_labels` shows it, and what `validate` checks:
the signatures and the end of its lifetime. -/
structure KeyPackage where
  credential : Label
  signed : Bool
  notAfter : ℕ
  deriving DecidableEq, Repr

def KeyPackage.validate (now : ℕ) (k : KeyPackage) : Bool :=
  k.signed && now ≤ k.notAfter

/-- Node's decoders, and what is in OpenMLS: `KeyPackageIn::tls_deserialize`, and what `add_members`
asks of the tree and the packages. -/
structure Platform where
  fromBase64 : String → Bytes
  utf8 : Bytes → String
  deserialize : Bytes → Option KeyPackage
  accepts : List Label → List KeyPackage → Bool

/-! ## `user_devices` -/

structure DeviceRow where
  id : String
  userId : UserId
  keyPackage : Bytes
  credential : Bytes
  signingPublicKey : Option Bytes
  revoked : Bool
  deriving DecidableEq, Repr

structure RegisterBody where
  deviceId : String
  keyPackage : String
  credential : String
  publicKey : Option String
  deriving DecidableEq, Repr

/-- An answer other than success. -/
structure Refusal where
  status : ℕ
  message : String
  deriving DecidableEq, Repr

variable (P : Platform)

/-- `registerDeviceSchema`. -/
def RegisterBody.isValid (body : RegisterBody) : Bool :=
  isUuid body.deviceId && jsLength body.keyPackage ≤ 20000 && jsLength body.credential ≤ 2000 &&
    body.publicKey.all (jsLength · ≤ 500)

/-- The registered row; an empty public key is none. -/
def RegisterBody.row (userId : UserId) (body : RegisterBody) : DeviceRow where
  id := body.deviceId
  userId := userId
  keyPackage := P.fromBase64 body.keyPackage
  credential := P.fromBase64 body.credential
  signingPublicKey := (body.publicKey.filter (· ≠ "")).map P.fromBase64
  revoked := false

def registerDevice (db : List DeviceRow) (userId : UserId) (body : RegisterBody) :
    Except Refusal (List DeviceRow) :=
  if body.isValid then
    if P.utf8 (P.fromBase64 body.credential) = credentialFor userId body.deviceId then
      match db.find? (·.id = body.deviceId) with
      | none => .ok (db ++ [body.row P userId])
      | some row =>
          if row.userId = userId then
            .ok (db.map fun row => if row.id = body.deviceId then body.row P userId else row)
          else
            .error ⟨409,
              "This device id is registered to another account — generate a new one and retry"⟩
    else .error ⟨400, "credential must match this account and device_id exactly"⟩
  else .error ⟨400, "Validation failed"⟩

/-- An element of `fetchDevicesOf`'s list. -/
structure Device where
  userId : UserId
  deviceId : String
  keyPackage : Bytes
  deriving DecidableEq, Repr

def getUserDeviceKeyPackages (db : List DeviceRow) (userId : UserId) : List Device :=
  (db.filter fun row => row.userId = userId && !row.revoked).map fun row =>
    { userId := userId
      deviceId := row.id
      keyPackage := row.keyPackage }

/-! ## Groups -/

/-- A leaf's credential, and the device it was added for, which the tree does not say. -/
structure Leaf where
  credential : Label
  userId : UserId
  deviceId : String
  deriving DecidableEq, Repr

/-- The member's own leaf. -/
def Leaf.own (userId : UserId) (deviceId : DeviceId) : Leaf where
  credential := credentialFor userId deviceId.text
  userId := userId
  deviceId := deviceId.text

def Device.leaf (d : Device) (k : KeyPackage) : Leaf where
  credential := k.credential
  userId := d.userId
  deviceId := d.deviceId

/-- `KeyPackageIn::tls_deserialize` and `validate` of one package. -/
def validated (now : ℕ) (keyPackage : Bytes) : Option KeyPackage :=
  (P.deserialize keyPackage).filter (·.validate now)

/-- `add_member_impl`: every package is added, or none. -/
def addMember (now : ℕ) (leaves : List Leaf) (devices : List Device) : Option (List Leaf) :=
  (devices.mapM fun d => validated P now d.keyPackage).bind fun packages =>
    if P.accepts (leaves.map Leaf.credential) packages then
      some (leaves ++ List.zipWith Device.leaf devices packages)
    else none

/-- A device whose label is not in the group. -/
def Device.isMissing (leaves : List Leaf) (d : Device) : Bool :=
  credentialFor d.userId d.deviceId ∉ leaves.map Leaf.credential

/-- The table, the groups, and what the runs of `fetchDevicesOf` have fetched so far, each for a
group. -/
structure World where
  db : List DeviceRow
  groups : GroupId → Option (List Leaf)
  fetched : ℕ → Option (GroupId × List Device)

inductive Input
  | registerDevice (userId : UserId) (body : RegisterBody)
  /-- The sweeper revokes a device. -/
  | revoke (deviceId : String)
  | beginFetch (run : ℕ) (groupId : GroupId)
  | fetch (run : ℕ) (userId : UserId)
  /-- `attemptGroupGenesis`, after its fetches. -/
  | genesis (run : ℕ) (userId : UserId) (deviceId : DeviceId) (now : ℕ)
  /-- `reconcileGroupDevices`, its removal. -/
  | removeStale (groupId : GroupId) (currentMemberIds : List UserId)
  /-- `reconcileGroupDevices`, its addition, after its fetches. -/
  | addMissing (run : ℕ) (now : ℕ)

namespace World

variable (w : World)

def setLeaves (groupId : GroupId) (leaves : List Leaf) : World :=
  { w with groups := Function.update w.groups groupId (some leaves) }

def genesis (run : ℕ) (own : Leaf) (now : ℕ) : Option World :=
  (w.fetched run).bind fun (groupId, devices) =>
    if devices ≠ [] ∧ w.groups groupId = none then
      (addMember P now [own] devices).map (w.setLeaves groupId)
    else none

def addMissing (run : ℕ) (now : ℕ) : Option World :=
  (w.fetched run).bind fun (groupId, devices) =>
    (w.groups groupId).bind fun leaves =>
      let missing := devices.filter (·.isMissing leaves)
      if missing ≠ [] then (addMember P now leaves missing).map (w.setLeaves groupId) else none

def step : Input → Option World
  | .registerDevice userId body =>
      (registerDevice P w.db userId body).toOption.map fun db => { w with db }
  | .revoke deviceId => some
      { w with
        db := w.db.map fun row =>
          if row.id = deviceId then { row with revoked := true } else row }
  | .beginFetch run groupId => some
      { w with fetched := Function.update w.fetched run (some (groupId, [])) }
  | .fetch run userId =>
      (w.fetched run).map fun (groupId, devices) =>
        { w with
          fetched := Function.update w.fetched run
            (some (groupId, devices ++ getUserDeviceKeyPackages w.db userId)) }
  | .genesis run userId deviceId now => w.genesis P run (.own userId deviceId) now
  | .removeStale groupId currentMemberIds =>
      (w.groups groupId).map fun leaves =>
        w.setLeaves groupId (leaves.filter fun leaf =>
          currentMemberIds.contains (userIdOfLabel leaf.credential))
  | .addMissing run now => w.addMissing P run now

end World

end SpecterComs.Leaves
