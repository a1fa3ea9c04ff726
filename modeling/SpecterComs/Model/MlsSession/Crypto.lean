import Mathlib.Data.List.TakeWhile
import SpecterComs.Model.DeliveryService.Handlers

/-! # What the session takes from the `mls-crypto` module

The WASM functions `web-portal/src/mlsSession.js` imports, over an opaque device
state. A function that throws returns its error text; one that draws randomness
takes it as a seed.
-/

namespace SpecterComs.MlsSession

export DeliveryService (Bytes UserId GroupId Target Body Field)

abbrev Label := String
abbrev Seed := ℕ

/-- What `add_member`, `remove_member`, `join_external` and `resync_external`
return. An empty `welcome` is none. -/
structure CommitResult (State : Type) where
  deviceState : State
  commit : Bytes
  welcome : Bytes
  groupInfo : Bytes

structure Crypto (State : Type) where
  generateIdentity : Seed → Label → State × Bytes
  deviceCredential : State → Except String Label
  ownPublicKey : State → Bytes
  /-- `group_epoch`, or nothing where `group_exists` says no. -/
  groupEpoch : State → GroupId → Option ℕ
  groupMemberLabels : State → GroupId → List Label
  createGroup : Seed → State → GroupId → Except String State
  addMember : Seed → State → GroupId → List Bytes → Except String (CommitResult State)
  removeMember : Seed → State → GroupId → List Label → Except String (CommitResult State)
  joinFromWelcome : State → Bytes → Except String State
  processCommit : State → GroupId → Bytes → Except String State
  encrypt : Seed → State → GroupId → Bytes → Except String (State × Bytes)
  decrypt : State → GroupId → Bytes → Except String (State × Bytes)
  joinExternal : Seed → State → Bytes → Label → Except String (CommitResult State)
  resyncExternal : Seed → State → GroupId → Bytes → Except String (CommitResult State)
  exportGroupInfo : State → GroupId → Except String Bytes
  messageEpoch : Bytes → Except String ℕ
  exportSecret : State → GroupId → String → ℕ → Except String Bytes
  signBytes : State → Bytes → Bytes

/-- `toB64`, `fromB64` and the text encoder and decoder. -/
structure Codec where
  toB64 : Bytes → String
  fromB64 : String → Except String Bytes
  encodeText : String → Bytes
  decodeText : Bytes → String

namespace Crypto

variable {State : Type} (C : Crypto State)

def groupExists (s : State) (groupId : GroupId) : Bool :=
  (C.groupEpoch s groupId).isSome

/-- `labelsIn`. -/
def labelsIn (s : State) (groupId : GroupId) : List Label :=
  if C.groupExists s groupId then C.groupMemberLabels s groupId else []

/-- One call that returns a new device state. -/
inductive Call : State → State → Prop
  | createGroup {s t seed g} : C.createGroup seed s g = .ok t → Call s t
  | addMember {s r seed g packages} :
      C.addMember seed s g packages = .ok r → Call s r.deviceState
  | removeMember {s r seed g labels} :
      C.removeMember seed s g labels = .ok r → Call s r.deviceState
  | joinFromWelcome {s t welcome} : C.joinFromWelcome s welcome = .ok t → Call s t
  | processCommit {s t g commit} : C.processCommit s g commit = .ok t → Call s t
  | encrypt {s r seed g plaintext} : C.encrypt seed s g plaintext = .ok r → Call s r.1
  | decrypt {s r g ciphertext} : C.decrypt s g ciphertext = .ok r → Call s r.1
  | joinExternal {s r seed info label} :
      C.joinExternal seed s info label = .ok r → Call s r.deviceState
  | resyncExternal {s r seed g info} :
      C.resyncExternal seed s g info = .ok r → Call s r.deviceState

/-- `t` comes from `s` by calls of the module, each on the result of the one before. -/
abbrev Computes : State → State → Prop :=
  Relation.ReflTransGen C.Call

end Crypto

/-! ## Credentials -/

/-- Where `label.lastIndexOf(':')` splits a label. Without a colon the index is -1, and
the two slices are the label less its last character and the whole label. -/
def splitLabel (label : Label) : List Char × List Char :=
  let chars := label.toList
  if ':' ∈ chars then
    let device := (chars.reverse.takeWhile (· != ':')).reverse
    (chars.take (chars.length - device.length - 1), device)
  else
    (chars.dropLast, chars)

def userIdOfLabel (label : Label) : UserId :=
  String.ofList (splitLabel label).1

def credentialFor (userId : UserId) (deviceId : String) : Label :=
  userId ++ ":" ++ deviceId

/-- A device id of this device: a random UUID, or what follows a label's last colon. -/
structure DeviceId where
  text : String
  no_colon : ':' ∉ text.toList

theorem colon_notMem_splitLabel (label : Label) : ':' ∉ (splitLabel label).2 := by
  simp only [splitLabel]
  split_ifs with hcolon
  · intro hmem
    have := List.mem_takeWhile_imp (List.mem_reverse.mp hmem)
    simp at this
  · exact hcolon

def deviceIdOfLabel (label : Label) : DeviceId where
  text := String.ofList (splitLabel label).2
  no_colon := by
    rw [String.toList_ofList]
    exact colon_notMem_splitLabel label

/-- A device's credential names its user. -/
theorem userIdOfLabel_credentialFor (userId : UserId) (deviceId : DeviceId) :
    userIdOfLabel (credentialFor userId deviceId.text) = userId := by
  have htake : (deviceId.text.toList.reverse ++ ':' :: userId.toList.reverse).takeWhile
      (· != ':') = deviceId.text.toList.reverse := by
    rw [List.takeWhile_append_of_pos]
    · simp
    · intro c hc
      simp only [bne_iff_ne]
      rintro rfl
      exact deviceId.no_colon (List.mem_reverse.mp hc)
  have hlist : (credentialFor userId deviceId.text).toList =
      userId.toList ++ ':' :: deviceId.text.toList := by
    simp [credentialFor]
  have hreverse : (userId.toList ++ ':' :: deviceId.text.toList).reverse =
      deviceId.text.toList.reverse ++ ':' :: userId.toList.reverse := by
    simp
  have hlength : userId.toList.length + (deviceId.text.toList.length + 1) -
      deviceId.text.toList.length - 1 = userId.toList.length := by
    omega
  simp only [userIdOfLabel, splitLabel, hlist]
  rw [if_pos (by simp), hreverse, htake]
  simp only [List.reverse_reverse, List.length_append, List.length_cons, hlength]
  simp

/-- Did going from `before` to `after` remove any member device (multiset diff)? -/
def anyRemoved (before after : List Label) : Bool :=
  !(before.diff after).isEmpty

end SpecterComs.MlsSession
