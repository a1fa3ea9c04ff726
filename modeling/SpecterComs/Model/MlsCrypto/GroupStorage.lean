import SpecterComs.Model.MlsStore.Msgcache

/-! # What a device stores of its groups

`delete_group_impl` and `group_ids_impl` of `mls-crypto/src/lib.rs` over the storage of
`openmls_memory_storage`, whose keys are a label, the group id as `serde_json` writes it, and the
storage version.
-/

namespace SpecterComs.GroupStorage

open MlsStore (Bytes DeviceState fromUtf8Lossy utf8)

/-! ## Keys -/

def ascii (text : List Char) : Bytes :=
  text.map fun c => .ofNat c.toNat

def digit (n : ℕ) : Char :=
  .ofNat (48 + n)

/-- A `u8` in JSON. -/
def decimal (b : UInt8) : List Char :=
  let n := b.toNat
  if n < 10 then [digit n]
  else if n < 100 then [digit (n / 10), digit (n % 10)]
  else [digit (n / 100), digit (n / 10 % 10), digit (n % 10)]

def jsonList (groupId : Bytes) : List Char :=
  [','].intercalate (groupId.map decimal)

/-- `serde_json` of a `GroupId`. -/
def json (groupId : Bytes) : Bytes :=
  ascii ("\x7b\"value\":\x7b\"vec\":[".toList ++ jsonList groupId ++ "]\x7d\x7d".toList)

def nonGroupStorageLabels : List Bytes :=
  ["KeyPackage", "Psk", "EncryptionKeyPair", "SignatureKeyPair"].map fun label => ascii label.toList

def groupStateStorageLabel : Bytes :=
  ascii "GroupState".toList

def ownLeafIndexStorageLabel : Bytes :=
  ascii "OwnLeafNodeIndex".toList

def storageVersionSuffixLen : ℕ := 2

/-- The `u16` behind every key. -/
abbrev Version := {bytes : Bytes // bytes.length = storageVersionSuffixLen}

variable (version : Version)

def storageKey (label groupId : Bytes) : Bytes :=
  label ++ json groupId ++ version.val

/-- The label of a group-scoped entry, a name. -/
structure GroupLabel where
  bytes : Bytes
  no_brace : 123 ∉ bytes
  grouped : ∀ label ∈ nonGroupStorageLabels, ¬label <+: bytes

/-- The entry belongs to the group. -/
def BelongsTo (groupId key : Bytes) : Prop :=
  ∃ label : GroupLabel, key = storageKey version label.bytes groupId

/-- The entry belongs to the device. -/
def IsDeviceWide (key : Bytes) : Prop :=
  ∃ label ∈ nonGroupStorageLabels, label <+: key

structure Storage where
  values : List (Bytes × Bytes)
  distinct : (values.map Prod.fst).Nodup
  formed : ∀ key ∈ values.map Prod.fst, IsDeviceWide key ∨ ∃ groupId, BelongsTo version groupId key

variable {version} in
def Storage.keys (storage : Storage version) : List Bytes :=
  storage.values.map Prod.fst

variable {version} in
def Storage.retain (storage : Storage version) (p : Bytes → Bool) : Storage version where
  values := storage.values.filter fun entry => p entry.1
  distinct := storage.distinct.sublist (List.filter_sublist.map _)
  formed key hkey := storage.formed key ((List.filter_sublist.map Prod.fst).subset hkey)

/-! ## The functions -/

def containsSubslice (haystack needle : Bytes) : Bool :=
  !needle.isEmpty && haystack.tails.any needle.isPrefixOf

/-- The key of one entry in an empty storage, less its label and its version. -/
def storageKeyForGroup (groupId : Bytes) : Except String Bytes :=
  let key := storageKey version ownLeafIndexStorageLabel groupId
  if !ownLeafIndexStorageLabel.isPrefixOf key ||
      key.length < ownLeafIndexStorageLabel.length + storageVersionSuffixLen then
    .error "unexpected storage key layout"
  else
    .ok ((key.take (key.length - storageVersionSuffixLen)).drop ownLeafIndexStorageLabel.length)

/-- Around the first `[]`. -/
def splitEmpty : Bytes → Option (Bytes × Bytes)
  | a :: b :: rest =>
      if a = 91 ∧ b = 93 then some ([a], b :: rest)
      else (splitEmpty (b :: rest)).map fun (front, back) => (a :: front, back)
  | _ => none

def stripStart (start bytes : Bytes) : Option Bytes :=
  if start.isPrefixOf bytes then some (bytes.drop start.length) else none

def stripEnd (ending bytes : Bytes) : Option Bytes :=
  if ending.isSuffixOf bytes then some (bytes.take (bytes.length - ending.length)) else none

/-- `std::str::from_utf8`: the bytes are those of a text. -/
def fromUtf8 (bytes : Bytes) : Option String :=
  let text := fromUtf8Lossy bytes
  if utf8 text = bytes then some text else none

/-- `char::is_whitespace`. -/
def isWhitespace (c : Char) : Bool :=
  let n := c.toNat
  9 ≤ n && n ≤ 13 || [0x20, 0x85, 0xA0, 0x1680, 0x2028, 0x2029, 0x202F, 0x205F, 0x3000].contains n ||
    0x2000 ≤ n && n ≤ 0x200A

def trim (text : List Char) : List Char :=
  ((text.dropWhile isWhitespace).reverse.dropWhile isWhitespace).reverse

/-- `parse::<u8>`, which takes a sign. -/
def parseU8 (text : List Char) : Option UInt8 :=
  let digits := if text.head? = some '+' then text.tail else text
  if digits.isEmpty || !digits.all fun c => '0' ≤ c && c ≤ '9' then none
  else
    let n := digits.foldl (fun n c => n * 10 + (c.toNat - 48)) 0
    if n < 256 then some (.ofNat n) else none

def parseBytes (inner : Bytes) : Option Bytes :=
  if inner.isEmpty then some []
  else (fromUtf8 inner).bind fun text =>
    (text.toList.splitOn ',').mapM fun n => parseU8 (trim n)

def groupIdFromStorageKey (encoded emptyEncoding : Bytes) : Option Bytes := do
  let (start, ending) ← splitEmpty emptyEncoding
  let inner ← (stripStart start encoded).bind (stripEnd ending)
  let groupId ← parseBytes inner
  if (storageKeyForGroup version groupId).toOption = some encoded then some groupId else none

/-- `bincode` and what is in OpenMLS: `MlsGroup::load`, as whether there is a group, and
`MlsGroup::delete`. -/
structure Provider where
  deserialize : Bytes → Except String (DeviceState (Storage version) Bytes)
  serialize : DeviceState (Storage version) Bytes → Except String Bytes
  load : Storage version → Bytes → Except String Bool
  delete : Storage version → Bytes → Except String (Storage version)

variable {version} (P : Provider version)

def loadDeviceState (bytes : Bytes) : Except String (DeviceState (Storage version) Bytes) :=
  if bytes.isEmpty then .ok ⟨⟨[], .nil, nofun⟩, none, none⟩ else P.deserialize bytes

/-- The keys that the sweep keeps. -/
def isKept (encoded key : Bytes) : Bool :=
  nonGroupStorageLabels.any (·.isPrefixOf key) || !containsSubslice key encoded

def deleteGroup (deviceState groupId : Bytes) : Except String Bytes := do
  let state ← loadDeviceState P deviceState
  if ← P.load state.storageValues groupId then
    let storage ← P.delete state.storageValues groupId
    let encoded ← storageKeyForGroup version groupId
    P.serialize { state with storageValues := storage.retain (isKept encoded) }
  else
    .ok deviceState

/-- What lies between the label and the version of a key of a group state. -/
def encodedGroupId (key : Bytes) : Option Bytes :=
  if groupStateStorageLabel.isPrefixOf key &&
      groupStateStorageLabel.length + storageVersionSuffixLen ≤ key.length then
    some ((key.take (key.length - storageVersionSuffixLen)).drop groupStateStorageLabel.length)
  else none

def groupIds (deviceState : Bytes) : Except String (List String) := do
  let state ← loadDeviceState P deviceState
  let emptyEncoding ← storageKeyForGroup version []
  let ids := (state.storageValues.keys.filterMap encodedGroupId).filterMap fun encoded =>
    groupIdFromStorageKey version encoded emptyEncoding
  .ok ((ids.map fromUtf8Lossy).mergeSort fun a b => a ≤ b)

end SpecterComs.GroupStorage
