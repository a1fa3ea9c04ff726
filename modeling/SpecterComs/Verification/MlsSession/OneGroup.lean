import SpecterComs.Model.MlsSession.Session

/-! # One group as the list of its commits

A `mls-crypto` small enough to run: the device state is the chain of commits of a
single group, a commit carries the chain it was built on, and a Welcome or a GroupInfo
the chain it leads to.
-/

namespace SpecterComs.MlsSession

/-! ## Lists of byte strings as byte strings -/

def packBytes (x : Bytes) : Bytes :=
  x.flatMap fun b => [2, b]

def pack : List Bytes → Bytes
  | [] => []
  | x :: xs => 1 :: (packBytes x ++ pack xs)

/-- The bytes up to the first item, and the items. -/
def unpackFrom : Bytes → Bytes × List Bytes
  | 2 :: b :: rest => (b :: (unpackFrom rest).1, (unpackFrom rest).2)
  | 1 :: rest => ([], (unpackFrom rest).1 :: (unpackFrom rest).2)
  | _ => ([], [])

def unpack (bytes : Bytes) : List Bytes :=
  (unpackFrom bytes).2

theorem unpackFrom_packBytes (x rest : Bytes) :
    unpackFrom (packBytes x ++ rest) = (x ++ (unpackFrom rest).1, (unpackFrom rest).2) := by
  induction x with
  | nil => rfl
  | cons b x ih =>
      change unpackFrom (2 :: b :: (packBytes x ++ rest)) = _
      rw [unpackFrom, ih]
      rfl

theorem unpackFrom_pack (xs : List Bytes) : unpackFrom (pack xs) = ([], xs) := by
  induction xs with
  | nil => rfl
  | cons x xs ih =>
      rw [pack, unpackFrom, unpackFrom_packBytes, ih]
      simp

@[simp] theorem unpack_pack (xs : List Bytes) : unpack (pack xs) = xs := by
  rw [unpack, unpackFrom_pack]

/-! ## The module -/

structure OneGroup where
  label : Label
  chain : Option (List Bytes)
  sent : ℕ
  deriving DecidableEq, Repr

namespace OneGroup

def name : GroupId := "g"

def commitOn (seed : Seed) (chain : List Bytes) : Bytes :=
  pack ([UInt8.ofNat seed] :: chain)

/-- The chain a commit was built on. -/
def built (commit : Bytes) : List Bytes :=
  (unpack commit).tail

def extend (s : OneGroup) (seed : Seed) (chain : List Bytes) : CommitResult OneGroup :=
  let next := chain ++ [commitOn seed chain]
  { deviceState := { s with chain := some next }
    commit := commitOn seed chain
    welcome := pack next
    groupInfo := pack next }

/-- The chain of a group the device holds. -/
def held (s : OneGroup) (groupId : GroupId) : Except String (List Bytes) :=
  match s.chain with
  | none => .error "no such group"
  | some chain => if groupId = name then .ok chain else .error "no such group"

def applyCommit (s : OneGroup) (groupId : GroupId) (commit : Bytes) : Except String OneGroup := do
  let chain ← s.held groupId
  if built commit = chain then .ok { s with chain := some (chain ++ [commit]) }
  else .error "wrong epoch"

def crypto : Crypto OneGroup where
  generateIdentity _ label := (⟨label, none, 0⟩, [])
  deviceCredential s := .ok s.label
  ownPublicKey _ := []
  groupEpoch s groupId := (s.held groupId).toOption.map List.length
  groupMemberLabels s _ := [s.label]
  createGroup _ s groupId :=
    if groupId = name then .ok { s with chain := some [] } else .error "no such group"
  addMember seed s groupId _ := (s.held groupId).map (s.extend seed)
  removeMember seed s groupId _ :=
    (s.held groupId).map fun chain => { s.extend seed chain with welcome := [] }
  joinFromWelcome s welcome := .ok { s with chain := some (unpack welcome) }
  processCommit := applyCommit
  encrypt _ s groupId plaintext := (s.held groupId).map fun _ => ({ s with sent := s.sent + 1 }, plaintext)
  decrypt s groupId ciphertext := (s.held groupId).map fun _ => (s, ciphertext)
  joinExternal seed s info _ := .ok { s.extend seed (unpack info) with welcome := [] }
  resyncExternal seed s _ info := .ok { s.extend seed (unpack info) with welcome := [] }
  exportGroupInfo s groupId := (s.held groupId).map pack
  messageEpoch message := .ok (built message).length
  exportSecret _ _ _ _ := .ok []
  signBytes _ bytes := bytes

/-- Each byte as the character of its number. -/
def codec : Codec where
  toB64 bytes := String.ofList (bytes.map fun b => Char.ofNat b.toNat)
  fromB64 text := .ok (text.toList.map fun c => UInt8.ofNat c.toNat)
  encodeText text := text.toList.map fun c => UInt8.ofNat c.toNat
  decodeText bytes := String.ofList (bytes.map fun b => Char.ofNat b.toNat)

def noDeviceIds : Option UserId → Option DeviceId := fun _ => none

/-- The session started on this module. -/
def after (tauri : Bool) (inputs : List (Input OneGroup)) : Option (Session crypto) :=
  (session crypto codec tauri).exec (.start crypto noDeviceIds) inputs

end OneGroup

end SpecterComs.MlsSession
