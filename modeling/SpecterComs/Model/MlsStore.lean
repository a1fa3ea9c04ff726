import Mathlib.Data.List.Basic
import SpecterComs.Library.Triple

/-! # Crash-safe persistence of the MLS state

`write_atomic`, `load_state` and `save_state` of `src-tauri/src/mls_store.rs`, over
a directory with the main file, its temporary file and its backup. AES-256-GCM is a
third-party crate and enters as an `Aead`. Every step of a save takes a `Fate`: it
works, it fails, or the machine goes down there.
-/

namespace SpecterComs.MlsStore

abbrev Bytes := List UInt8
abbrev Key := {bytes : Bytes // bytes.length = 32}
abbrev Nonce := {bytes : Bytes // bytes.length = 12}

/-- AES-256-GCM: a ciphertext ends with a tag of 16 bytes and opens under its key and nonce. -/
structure Aead where
  encrypt : Key → Bytes → Bytes → Option Bytes
  decrypt : Key → Bytes → Bytes → Option Bytes
  length_encrypt : ∀ {key nonce plaintext ct},
    encrypt key nonce plaintext = some ct → ct.length = plaintext.length + 16
  decrypt_encrypt : ∀ {key nonce plaintext ct},
    encrypt key nonce plaintext = some ct → decrypt key nonce ct = some plaintext

variable (aead : Aead)

/-- The blob is the nonce, which `OsRng` filled, and the ciphertext. -/
def encryptBlob (key : Key) (nonce : Nonce) (plaintext : Bytes) : Option Bytes :=
  (aead.encrypt key nonce plaintext).map fun ct => nonce ++ ct

def decryptBlob (key : Key) (blob : Bytes) : Option Bytes :=
  if blob.length < 13 then none else aead.decrypt key (blob.take 12) (blob.drop 12)

/-- Bytes that no key opens. -/
abbrev Torn := {bytes : Bytes // ∀ key, decryptBlob aead key bytes = none}

/-- What is left of a write that was cut short or not synced: the whole blob, or
bytes that do not authenticate. -/
abbrev Remains := Option (Torn aead)

variable {aead}

def Remains.of (left : Remains aead) (whole : Bytes) : Bytes :=
  match left with
  | none => whole
  | some torn => torn

/-! ## The disk -/

/-- A file's bytes and whether they were synced. `writer` numbers the save they come
from; no operation reads it. -/
structure File where
  data : Bytes
  synced : Bool
  writer : ℕ
  deriving DecidableEq, Repr

/-- `StatePaths`: what stands under each of the three names. -/
structure Files where
  main : Option File
  tmp : Option File
  bak : Option File
  deriving DecidableEq, Repr

/-- How the machine goes down: whether the directory operations of the running save
since its last sync are undone, and what is left of each file that was not synced. -/
structure Crash (aead : Aead) where
  undo : Bool := false
  main : Remains aead := none
  tmp : Remains aead := none
  bak : Remains aead := none

def File.survive (left : Remains aead) (file : File) : File :=
  if file.synced then file else { file with data := left.of file.data, synced := true }

def Files.survive (crash : Crash aead) (files : Files) : Files :=
  ⟨files.main.map (File.survive crash.main), files.tmp.map (File.survive crash.tmp),
    files.bak.map (File.survive crash.bak)⟩

/-! ## Keys -/

inductive KeyError
  /-- The keyring cannot be reached, or any error other than a missing entry. -/
  | unavailable
  | missing
  | corrupt (length : ℕ)
  deriving DecidableEq, Repr

/-- The codes `mlsSession.js` reads. -/
inductive StoreError
  | io (what : String)
  | key (e : KeyError)
  | unreadable (failures : List String)
  deriving DecidableEq, Repr

def KeyError.code : KeyError → String
  | .unavailable => "MLS_KEYRING_UNAVAILABLE"
  | .missing => "MLS_KEY_MISSING"
  | .corrupt _ => "MLS_KEY_CORRUPT"

def StoreError.code : StoreError → String
  | .io _ => "MLS_STATE_IO"
  | .key e => e.code
  | .unreadable _ => "MLS_STATE_UNREADABLE"

/-- The state of one process and of what outlives it. -/
structure Store where
  files : Files
  /-- The keyring entry. It outlives a crash. -/
  secret : Option Bytes
  /-- `KEY_CACHE`, gone with the process. -/
  cache : Option Key

/-- `before` is the directory an undone operation falls back to. -/
def Store.crash (before : Files) (crash : Crash aead) (s : Store) : Store :=
  { s with files := (if crash.undo then before else s.files).survive crash, cache := none }

/-- A call ends early with an error, or because the machine went down. -/
inductive Stop
  | error (e : StoreError)
  | crashed
  deriving DecidableEq, Repr

abbrev Io (α : Type) := Prog Store Stop α

def raise {α : Type} (e : StoreError) : Io α :=
  throw (.error e)

/-- How the keyring answers the three calls of `resolve_key`. `set` says whether it
reports success and whether it keeps the entry. -/
structure KeyringFate where
  get : Bool := true
  set : Bool × Bool := (true, true)
  readBack : Bool := true

/-- `SecretStore::get`. -/
def keyringGet (works : Bool) : Io (Option Bytes) := do
  let s ← get
  if works then pure s.secret else raise (.key .unavailable)

/-- `SecretStore::set`. -/
def keyringSet (fate : Bool × Bool) (secret : Bytes) : Io Unit := do
  if fate.2 then modify fun s => { s with secret := some secret }
  if fate.1 then pure () else raise (.key .unavailable)

/-- `allowCreate` is the key `OsRng` draws where a key may be created. -/
def resolveKey (fate : KeyringFate) (committed : Bool) (allowCreate : Option Key) : Io Key := do
  match ← keyringGet fate.get with
  | some v => if h : v.length = 32 then pure ⟨v, h⟩ else raise (.key (.corrupt v.length))
  | none =>
      match committed, allowCreate with
      | false, some fresh =>
          keyringSet fate.set fresh
          let kept ← keyringGet fate.readBack
          if kept = some fresh.val then pure fresh else raise (.key .unavailable)
      | _, _ => raise (.key .missing)

def getKey (fate : KeyringFate) (committed : Bool) (allowCreate : Option Key) : Io Key := do
  match (← get).cache with
  | some key => pure key
  | none =>
      let key ← resolveKey fate committed allowCreate
      modify fun s => { s with cache := some key }
      pure key

/-! ## Writing -/

/-- One step of a save. A failed write, copy or sync leaves its remains behind. -/
inductive Fate (aead : Aead)
  | ok
  | failed (left : Remains aead)
  | crashed (crash : Crash aead)

def goDown {α : Type} (before : Files) (crash : Crash aead) : Io α := do
  modify (Store.crash before crash)
  throw .crashed

def updateFiles (f : Files → Files) : Io Unit :=
  modify fun s => { s with files := f s.files }

/-- `create_dir_all`, and every other step that changes no file. -/
def plainStep (what : String) (fate : Fate aead) : Io Unit := do
  match fate with
  | .ok => pure ()
  | .failed _ => raise (.io what)
  | .crashed crash => goDown (← get).files crash

/-- `File::create` truncates what stands under the name. -/
def createTmp (before : Files) (writer : ℕ) (fate : Fate aead) : Io Unit :=
  let truncate := updateFiles fun files => { files with tmp := some ⟨[], false, writer⟩ }
  match fate with
  | .ok => truncate
  | .failed _ => raise (.io "create tmp")
  | .crashed crash => do
      truncate
      goDown before crash

def writeTmp (before : Files) (writer : ℕ) (blob : Bytes) (fate : Fate aead) : Io Unit :=
  let write (data : Bytes) :=
    updateFiles fun files => { files with tmp := some ⟨data, false, writer⟩ }
  match fate with
  | .ok => write blob
  | .failed left => do
      write (left.of blob)
      raise (.io "write tmp")
  | .crashed crash => do
      write blob
      goDown before crash

/-- A failed sync may still leave the whole blob, unsynced. -/
def fsyncTmp (before : Files) (writer : ℕ) (blob : Bytes) (fate : Fate aead) : Io Unit :=
  match fate with
  | .ok => updateFiles fun files => { files with tmp := some ⟨blob, true, writer⟩ }
  | .failed left => do
      updateFiles fun files => { files with tmp := some ⟨left.of blob, false, writer⟩ }
      raise (.io "fsync tmp")
  | .crashed crash => goDown before crash

/-- `fs::copy` of the main file over the backup. -/
def copyMain (before : Files) (main : File) (fate : Fate aead) : Io Unit :=
  let copy (data : Bytes) :=
    updateFiles fun files => { files with bak := some ⟨data, false, main.writer⟩ }
  match fate with
  | .ok => copy main.data
  | .failed left => do
      copy (left.of main.data)
      raise (.io "copy main -> bak")
  | .crashed crash => do
      copy main.data
      goDown before crash

/-- The backup's own sync may fail without ending the save. -/
def syncBak (before : Files) (fate : Fate aead) : Io Unit :=
  match fate with
  | .ok => updateFiles fun files =>
      { files with bak := files.bak.map fun file => { file with synced := true } }
  | .failed _ => pure ()
  | .crashed crash => goDown before crash

def renameTmp (before : Files) (fate : Fate aead) : Io Unit :=
  let rename := updateFiles fun files => { files with main := files.tmp, tmp := none }
  match fate with
  | .ok => rename
  | .failed _ => raise (.io "rename tmp -> main")
  | .crashed crash => do
      rename
      goDown before crash

/-- The directory sync, whose error is ignored; Windows has none. The rename has
returned by then and stays; only a crash before the save returns can still undo it. -/
def syncDir (before : Files) (fate : Fate aead) : Io Unit :=
  match fate with
  | .ok => pure ()
  | .failed _ => pure ()
  | .crashed crash => goDown before crash

/-- The fate of each step of `write_atomic`. -/
structure WriteFates (aead : Aead) where
  createDir : Fate aead := .ok
  create : Fate aead := .ok
  write : Fate aead := .ok
  fsync : Fate aead := .ok
  statMain : Fate aead := .ok
  copy : Fate aead := .ok
  syncBak : Fate aead := .ok
  rename : Fate aead := .ok
  syncDir : Fate aead := .ok

/-- Step 1: the temporary file, written and synced. -/
def stageTmp (fates : WriteFates aead) (old : Files) (writer : ℕ) (blob : Bytes) : Io Unit := do
  createTmp old writer fates.create
  writeTmp old writer blob fates.write
  fsyncTmp old writer blob fates.fsync

/-- Step 2: the current main file, if there is one, becomes the backup. -/
def keepBackup (fates : WriteFates aead) : Io Unit := do
  plainStep "can't stat main" fates.statMain
  let files := (← get).files
  match files.main with
  | none => pure ()
  | some main =>
      copyMain files main fates.copy
      syncBak files fates.syncBak

/-- Step 3: the rename and the directory sync. -/
def replaceMain (fates : WriteFates aead) : Io Unit := do
  let files := (← get).files
  renameTmp files fates.rename
  syncDir files fates.syncDir

def writeAtomic (fates : WriteFates aead) (writer : ℕ) (blob : Bytes) : Io Unit := do
  plainStep "create dir" fates.createDir
  let old := (← get).files
  stageTmp fates old writer blob
  keepBackup fates
  replaceMain fates

/-- One call of `save_state`. `stateElsewhere` is read from the other accounts'
directories under the same key. -/
structure Save (aead : Aead) where
  plaintext : Bytes
  stateElsewhere : Bool := false
  nonce : Nonce
  fresh : Key
  stat : Bool := true
  keyring : KeyringFate := {}
  write : WriteFates aead := {}

def Files.committed (files : Files) : Bool :=
  files.main.isSome || files.bak.isSome

def saveState (save : Save aead) (writer : ℕ) : Io Unit := do
  let files := (← get).files
  if !save.stateElsewhere && !save.stat then raise (.io "can't stat")
  let committed := save.stateElsewhere || files.committed
  let key ← getKey save.keyring committed (some save.fresh)
  match encryptBlob aead key save.nonce save.plaintext with
  | none => raise (.io "encrypt error")
  | some blob => writeAtomic save.write writer blob

/-! ## Loading -/

/-- What a load returns. `writer` names the save the bytes come from. -/
inductive Loaded
  | fresh
  | state (plaintext : Bytes) (writer : ℕ)
  deriving DecidableEq, Repr

/-- Which calls of one load work: the three `stat`s, the keyring and the three reads. -/
structure LoadFates where
  stat : Bool := true
  keyring : Bool := true
  readTmp : Bool := true
  readMain : Bool := true
  readBak : Bool := true
  deriving DecidableEq, Repr

structure Candidate where
  label : String
  file : Option File
  readable : Bool

def candidates (files : Files) (fates : LoadFates) : List Candidate :=
  [⟨"tmp", files.tmp, fates.readTmp⟩, ⟨"main", files.main, fates.readMain⟩,
    ⟨"bak", files.bak, fates.readBak⟩]

/-- The loop of `load_state`: the first file that authenticates, or why each one did not. -/
def tryCandidates (aead : Aead) (key : Key) : List Candidate → Except (List String) (Bytes × ℕ)
  | [] => .error []
  | c :: rest =>
      match c.file with
      | none => tryCandidates aead key rest
      | some file =>
          if c.readable then
            match decryptBlob aead key file.data with
            | some plaintext => .ok (plaintext, file.writer)
            | none => (tryCandidates aead key rest).mapError
                ((c.label ++ ": authentication failed") :: ·)
          else
            (tryCandidates aead key rest).mapError ((c.label ++ ": read error") :: ·)

/-- The key of a load; a lone temporary file without a key means nothing was ever committed. -/
def loadKey (fates : LoadFates) (committed : Bool) : Io (Option Key) := do
  tryCatch (some <$> getKey { get := fates.keyring } committed none) fun stop =>
    if stop = .error (.key .missing) ∧ committed = false then pure none else throw stop

def loadState (aead : Aead) (fates : LoadFates) : Io Loaded := do
  if !fates.stat then raise (.io "can't stat")
  let files := (← get).files
  if !files.committed && files.tmp.isNone then
    pure .fresh
  else
    match ← loadKey fates files.committed with
    | none => pure .fresh
    | some key =>
        match tryCandidates aead key (candidates files fates) with
        | .ok (plaintext, writer) => pure (.state plaintext writer)
        | .error failures =>
            if files.committed then raise (.unreadable failures) else pure .fresh

/-! ## Runs -/

/-- One event: a save or a load of the running process, or the machine going down
between them. -/
inductive Input (aead : Aead)
  | save (save : Save aead)
  | load (fates : LoadFates)
  | crash (crash : Crash aead)

/-- The store with what happened so far: the state each save was given, the last save
that returned `Ok`, and the saves whose states the loads returned. -/
structure World where
  store : Store
  given : List Bytes
  lastOk : Option ℕ
  loads : List ℕ

/-- An empty directory and any keyring entry. -/
def World.start (secret : Option Bytes) : World :=
  ⟨⟨⟨none, none, none⟩, secret, none⟩, [], none, []⟩

def Loaded.writers : Except Stop Loaded → List ℕ
  | .ok (.state _ writer) => [writer]
  | _ => []

def World.step (w : World) : Input aead → World
  | .save save =>
      let run := (saveState save w.given.length).run.run w.store
      { w with
        store := run.2
        given := w.given ++ [save.plaintext]
        lastOk := if run.1.isOk then some w.given.length else w.lastOk }
  | .load fates =>
      let run := (loadState aead fates).run.run w.store
      { w with store := run.2, loads := w.loads ++ Loaded.writers run.1 }
  | .crash crash => { w with store := w.store.crash w.store.files crash }

def after (w : World) (inputs : List (Input aead)) : World :=
  inputs.foldl World.step w

end SpecterComs.MlsStore

/-! # Whose state it is

`device_state_owner` of `mls-crypto/src/owner.rs` and `decrypt_impl` of its `lib.rs`.
The encoding of a device state and OpenMLS are third-party crates and enter as an
`MlsCrypto`.
-/

namespace SpecterComs.MlsStore

/-- The credential is its serialized content. -/
structure DeviceState (Storage Signer : Type) where
  storageValues : Storage
  signer : Option Signer
  credential : Option Bytes

/-- `bincode`, which reads back what it wrote, and OpenMLS over a device's storage. -/
structure MlsCrypto where
  Storage : Type
  Signer : Type
  noStorage : Storage
  deserialize : Bytes → Except String (DeviceState Storage Signer)
  serialize : DeviceState Storage Signer → Except String Bytes
  /-- Loads the group and processes one application message. -/
  processMessage : Storage → Bytes → Bytes → Except String (Storage × Bytes)
  deserialize_serialize : ∀ {state bytes},
    serialize state = .ok bytes → deserialize bytes = .ok state
  serialize_ne_nil : ∀ {state bytes}, serialize state = .ok bytes → bytes ≠ []

variable (mls : MlsCrypto)

def loadDeviceState (bytes : Bytes) : Except String (DeviceState mls.Storage mls.Signer) :=
  if bytes = [] then .ok ⟨mls.noStorage, none, none⟩ else mls.deserialize bytes

/-- The credential string, `<userId>:<deviceId>`. -/
def deviceStateCredential (deviceState : Bytes) : Except String String := do
  if deviceState = [] then throw "empty device state"
  let state ← loadDeviceState mls deviceState
  match state.credential with
  | none => throw "no credential in device state"
  | some content =>
      match String.fromUTF8? ⟨content.toArray⟩ with
      | some credential => pure credential
      | none => throw "credential is not UTF-8"

/-- `str::split_once`. -/
def splitOnce (separator : Char) : List Char → Option (List Char × List Char)
  | [] => none
  | c :: rest =>
      if c = separator then some ([], rest)
      else (splitOnce separator rest).map fun (before, after) => (c :: before, after)

def deviceStateOwner (deviceState : Bytes) : Except String String := do
  let credential ← deviceStateCredential mls deviceState
  match splitOnce ':' credential.toList with
  | some (user, device) =>
      if user ≠ [] ∧ device ≠ [] then pure (String.ofList user)
      else throw "credential is not in userId:deviceId form"
  | none => throw "credential is not in userId:deviceId form"

/-- The new device state and the plaintext. -/
def decryptImpl (deviceState groupId ciphertext : Bytes) : Except String (Bytes × Bytes) := do
  let state ← loadDeviceState mls deviceState
  match state.signer, state.credential with
  | none, _ => throw "no signer in device state"
  | some _, none => throw "no credential in device state"
  | some signer, some credential =>
      let (storageValues, plaintext) ← mls.processMessage state.storageValues groupId ciphertext
      let newState ← mls.serialize ⟨storageValues, some signer, some credential⟩
      pure (newState, plaintext)

end SpecterComs.MlsStore
