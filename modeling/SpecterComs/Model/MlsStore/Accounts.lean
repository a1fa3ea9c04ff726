import SpecterComs.Library.StepSystem
import SpecterComs.Model.MlsStore

/-! # One PC, its accounts and the two writers of their states

The rest of `mls_store.rs`: the directory of each account, the legacy migration, the
`PENDING` buffer and the commands, with the worker of `background_sync.rs`. Each
command holds `MLS_STATE_CRITICAL_SECTION` from its first step to its last; the
worker holds it over three.
-/

namespace SpecterComs.MlsStore

/-- The app-data directory, where the one state of the PC stood before there were
accounts, or `accounts/<userId>`. -/
inductive Dir
  | appData
  | account (user : String)
  deriving DecidableEq, Repr

def validUserId (id : String) : Bool :=
  id ≠ "" && id.utf8ByteSize ≤ 128 &&
    id.toList.all fun c => c.isAlphanum || c = '-' || c = '_'

/-! ## The PC -/

/-- `PENDING`: a state JS handed over and its account. `writer` numbers it among the
states of the account. -/
structure Pending where
  user : String
  bytes : Bytes
  writer : ℕ
  deriving DecidableEq, Repr

/-- Where the background worker is in `decrypt_and_cache`. -/
inductive Worker
  | idle
  /-- Past the first look at the flag, waiting for the lock. -/
  | waiting
  /-- Holds the lock, past the second look. -/
  | holding
  /-- Holds the lock and a state of the account. -/
  | loaded (user : String) (deviceState : Bytes)
  deriving DecidableEq, Repr

/-- What happened so far. No operation reads it. -/
structure History where
  /-- The states each account's writers have handed over, which `File.writer` numbers. -/
  given : String → List Bytes
  /-- The newest of them whose save returned `Ok`. -/
  accepted : String → Option ℕ
  /-- What JS loaded, and what it has handed over since. -/
  js : List Loaded

/-- What outlives the process, and from `cache` on what does not. -/
structure Pc where
  files : Dir → Files
  /-- The entries of `accounts/`. -/
  accounts : List String
  /-- What stands in `legacy_owner`. -/
  legacyOwner : Option String
  secret : Option Bytes
  /-- The signed-in user of `session.rs`. -/
  session : Option String
  cache : Option Key
  pending : Option Pending
  jsOwner : Option String
  foreground : Bool
  migrationAttempted : Bool
  migrationBlocked : Option String
  worker : Worker
  history : History

inductive CallError
  | store (e : StoreError)
  | noSession
  | handedOff
  | accountMismatch (bytesOwner owner : String)
  deriving DecidableEq, Repr

def CallError.code : CallError → String
  | .store e => e.code
  | .noSession => "MLS_NO_SESSION"
  | .handedOff => "MLS_STATE_HANDED_OFF"
  | .accountMismatch _ _ => "MLS_ACCOUNT_MISMATCH"

inductive PcStop
  | error (e : CallError)
  | crashed
  deriving DecidableEq, Repr

abbrev PcIo (α : Type) := Prog Pc PcStop α

variable {aead : Aead} {α : Type}

def fail (e : CallError) : PcIo α :=
  throw (.error e)

/-- A `match` on the result of `m`. Nothing runs on after the machine went down. -/
def onError (m : PcIo α) (handle : CallError → PcIo α) : PcIo α :=
  tryCatch m fun stop =>
    match stop with
    | .error e => handle e
    | .crashed => throw .crashed

/-- What the commands of one directory see of the PC. -/
def Pc.store (pc : Pc) (dir : Dir) : Store :=
  ⟨pc.files dir, pc.secret, pc.cache⟩

def Pc.withStore (pc : Pc) (dir : Dir) (s : Store) : Pc :=
  { pc with files := Function.update pc.files dir s.files, secret := s.secret, cache := s.cache }

def Pc.survive (left : Dir → Crash aead) (pc : Pc) : Pc :=
  { pc with files := fun dir => (pc.files dir).survive (left dir) }

def powerOff (left : Dir → Crash aead) : PcIo α := do
  modify (Pc.survive left)
  throw .crashed

/-- A command of one directory. If the machine goes down in it, `left` is what is left
of the other directories. -/
def inDir (dir : Dir) (left : Dir → Crash aead) (io : Io α) : PcIo α := do
  let pc ← get
  let run := io.run.run (pc.store dir)
  set (pc.withStore dir run.2)
  match run.1 with
  | .ok a => pure a
  | .error (.error e) => fail (.store e)
  | .error .crashed => powerOff left

/-! ## Saves -/

/-- One write of a state: what is drawn for it, and which of its calls work.
`lists` are the entries of `accounts/` that can be read. -/
structure SaveFates (aead : Aead) where
  nonce : Nonce
  fresh : Key
  lists : String → Bool := fun _ => true
  statOther : Dir → Bool := fun _ => true
  stat : Bool := true
  keyring : KeyringFate := {}
  write : WriteFates aead := {}
  left : Dir → Crash aead := fun _ => {}

/-- The loop of `any_committed_state`. -/
def anyCommitted (files : Dir → Files) (stat : Dir → Bool) : List Dir → Except StoreError Bool
  | [] => .ok false
  | dir :: rest =>
      if !stat dir then .error (.io "can't stat")
      else if (files dir).committed then .ok true
      else anyCommitted files stat rest

def anyCommittedState (fates : SaveFates aead) (pc : Pc) : Except StoreError Bool :=
  anyCommitted pc.files fates.statOther
    (.appData :: (pc.accounts.filter fates.lists).map .account)

/-- `create_dir_all`. An empty directory is not told from one that is not there. -/
def Pc.createDir (user : String) (pc : Pc) : Pc :=
  { pc with accounts := pc.accounts.insert user }

def SaveFates.save (fates : SaveFates aead) (bytes : Bytes) (elsewhere : Bool) : Save aead :=
  ⟨bytes, elsewhere, fates.nonce, fates.fresh, fates.stat, fates.keyring, fates.write⟩

def saveLocked (user : String) (bytes : Bytes) (writer : ℕ) (fates : SaveFates aead) :
    PcIo Unit := do
  let pc ← get
  -- the other directories only matter before the key is cached, when it may be created
  match if pc.cache.isNone then anyCommittedState fates pc else .ok false with
  | .error e => fail (.store e)
  | .ok elsewhere => do
      modify (Pc.createDir user)
      inDir (.account user) fates.left (saveState (fates.save bytes elsewhere) writer)

def Pc.setPending (pending : Option Pending) (pc : Pc) : Pc :=
  { pc with pending := pending }

/-- After an error the buffer is put back unless something newer landed. -/
def flushPendingLocked (fates : SaveFates aead) : PcIo Unit := do
  match (← get).pending with
  | none => pure ()
  | some p => do
      modify (Pc.setPending none)
      onError (saveLocked p.user p.bytes p.writer fates) fun _ =>
        modify fun pc => if pc.pending.isNone then pc.setPending (some p) else pc

def loadLocked (user : String) (flush : SaveFates aead) (load : LoadFates) : PcIo Loaded := do
  flushPendingLocked flush
  inDir (.account user) flush.left (loadState aead load)

/-! ## The legacy migration -/

/-- `char::is_whitespace`: the characters with the property White_Space. -/
def isWhitespace (c : Char) : Bool :=
  let n := c.toNat
  (9 ≤ n && n ≤ 13) || n = 0x20 || n = 0x85 || n = 0xA0 || n = 0x1680 ||
    (0x2000 ≤ n && n ≤ 0x200A) || n = 0x2028 || n = 0x2029 || n = 0x202F || n = 0x205F ||
    n = 0x3000

/-- `str::trim`. -/
def trim (s : String) : String :=
  String.ofList ((s.toList.dropWhile isWhitespace).reverse.dropWhile isWhitespace).reverse

def readLegacyOwner (reads : Bool) (pc : Pc) : Option String :=
  if reads then (pc.legacyOwner.map trim).filter validUserId else none

inductive Slot
  | tmp
  | bak
  | main
  deriving DecidableEq, Repr

def Files.get (files : Files) : Slot → Option File
  | .tmp => files.tmp
  | .bak => files.bak
  | .main => files.main

def Files.set (files : Files) (file : Option File) : Slot → Files
  | .tmp => { files with tmp := file }
  | .bak => { files with bak := file }
  | .main => { files with main := file }

inductive StepFate
  | ok
  | failed
  | crashed
  deriving DecidableEq, Repr

/-- Which calls of one migration work. `exists` answers "no" where it cannot tell, when
the files are first looked for and again before each move. -/
structure MigrationFates (aead : Aead) where
  seen : Slot → Bool := fun _ => true
  load : LoadFates := {}
  readMarker : Bool := true
  statDest : Bool := true
  createDir : StepFate := .ok
  marker : StepFate := .ok
  seenAgain : Slot → Bool := fun _ => true
  move : Slot → StepFate := fun _ => .ok
  sync : StepFate := .ok
  left : Dir → Crash aead := fun _ => {}

inductive Migration
  | nothingToDo
  | migrated (owner : String)
  | skipped (why : String)
  | incomplete (owner why : String)
  deriving DecidableEq, Repr

def Files.isEmpty (files : Files) (seen : Slot → Bool) : Bool :=
  [Slot.tmp, .bak, .main].all fun slot => !(seen slot && (files.get slot).isSome)

/-- Whether the step worked. -/
def migrationStep (fate : StepFate) (left : Dir → Crash aead) : PcIo Bool :=
  match fate with
  | .ok => pure true
  | .failed => pure false
  | .crashed => powerOff left

/-- The rename of one file from the app-data directory to the owner's. -/
def Pc.moveFile (owner : String) (slot : Slot) (file : File) (pc : Pc) : Pc :=
  let without := Function.update pc.files .appData ((pc.files .appData).set none slot)
  { pc with
    files := Function.update without (.account owner)
      ((pc.files (.account owner)).set (some file) slot) }

/-- The moves, up to the first that fails. -/
def moveFiles (owner : String) (fates : MigrationFates aead) : List Slot → PcIo Bool
  | [] => pure true
  | slot :: rest => do
      let pc ← get
      match if fates.seenAgain slot then (pc.files .appData).get slot else none with
      | none => moveFiles owner fates rest
      | some file =>
          if ← migrationStep (fates.move slot) fates.left then do
            modify (Pc.moveFile owner slot file)
            moveFiles owner fates rest
          else pure false

variable (mls : MlsCrypto)

/-- Whether the legacy files of `owner` may move to its directory: a marker that names
the owner says that an earlier migration had begun to move them. -/
def checkDest (fates : MigrationFates aead) (owner : String) (pc : Pc) : Except String String :=
  match readLegacyOwner fates.readMarker pc with
  | some marked =>
      if marked ≠ owner then .error "legacy_owner names another account"
      else if !fates.statDest then .error "can't stat"
      else .ok owner
  | none =>
      if !fates.statDest then .error "can't stat"
      else if (pc.files (.account owner)).committed then
        .error "the account already has its own MLS state"
      else .ok owner

/-- The account the legacy files move to, or why they stay where they are. -/
def migrationOwner (fates : MigrationFates aead) : PcIo (Except String String) := do
  let loaded ← onError
    (some <$> inDir .appData fates.left (loadState aead fates.load)) fun _ => pure none
  match loaded with
  | none => pure (.error "legacy MLS state unreadable, left in place")
  | some .fresh => pure (.error "legacy MLS state is an interrupted first write")
  | some (.state bytes _) =>
      match deviceStateOwner mls bytes with
      | .error why => pure (.error why)
      | .ok owner =>
          if !validUserId owner then pure (.error "owner is not a usable user id")
          else do pure (checkDest fates owner (← get))

/-- The second half of `migrate_legacy`: the marker is down before any file moves. -/
def moveLegacy (owner : String) (fates : MigrationFates aead) : PcIo Migration := do
  if !(← migrationStep fates.createDir fates.left) then pure (.skipped "create dir") else
  modify (Pc.createDir owner)
  if !(← migrationStep fates.marker fates.left) then pure (.skipped "write marker") else
  modify fun pc => { pc with legacyOwner := some owner }
  if !(← moveFiles owner fates [.tmp, .bak, .main]) then pure (.incomplete owner "move") else
  let _ ← migrationStep fates.sync fates.left
  pure (.migrated owner)

/-- The message cache that moves with the files is another module's. -/
def migrateLegacy (fates : MigrationFates aead) : PcIo Migration := do
  if ((← get).files .appData).isEmpty fates.seen then pure .nothingToDo else
  match ← migrationOwner mls fates with
  | .error why => pure (.skipped why)
  | .ok owner => moveLegacy owner fates

/-- Once in a process. -/
def ensureMigratedLocked (fates : MigrationFates aead) : PcIo Unit := do
  if (← get).migrationAttempted then pure () else
  modify fun pc => { pc with migrationAttempted := true }
  match ← migrateLegacy mls fates with
  | .incomplete owner _ => modify fun pc => { pc with migrationBlocked := some owner }
  | _ => pure ()

/-- `account_dir`, whose directory the user's id names. -/
def accountDir (user : String) : Except CallError String :=
  if validUserId user then .ok user else .error (.store (.io "unusable user id"))

def signedInAccount (pc : Pc) : Except CallError String :=
  match pc.session with
  | none => .error .noSession
  | some user =>
      if pc.migrationBlocked = some user then .error (.store (.io "migration is incomplete"))
      else accountDir user

def currentAccountLocked (fates : MigrationFates aead) : PcIo String := do
  ensureMigratedLocked mls fates
  match signedInAccount (← get) with
  | .error e => fail e
  | .ok user => pure user

/-- The lock is only taken for the migration. -/
def currentAccountDir (fates : MigrationFates aead) : PcIo String :=
  currentAccountLocked mls fates

/-! ## Commands -/

/-- Numbers a state among those of its account. -/
def handOver (user : String) (bytes : Bytes) : PcIo ℕ := do
  let pc ← get
  let given := pc.history.given
  set { pc with history := { pc.history with
    given := Function.update given user (given user ++ [bytes]) } }
  pure (given user).length

/-- The save of the state returns `Ok`. -/
def Pc.accept (user : String) (writer : ℕ) (pc : Pc) : Pc :=
  { pc with history := { pc.history with
    accepted := Function.update pc.history.accepted user (some writer) } }

def Pc.noteJs (loaded : List Loaded) (pc : Pc) : Pc :=
  { pc with history := { pc.history with js := loaded } }

/-- The account a save of JS is for: the one it loaded, if the bytes name it too. -/
def saveOwner (bytes : Bytes) (pc : Pc) : Except CallError String :=
  if bytes = [] then .error (.store (.io "refusing to persist an empty MLS state")) else
  match deviceStateOwner mls bytes with
  | .error _ => .error (.store (.io "refusing to persist a state with no readable owner"))
  | .ok bytesOwner =>
      match pc.jsOwner with
      | none => .error .handedOff
      | some owner =>
          if !pc.foreground then .error .handedOff
          else if bytesOwner ≠ owner then .error (.accountMismatch bytesOwner owner)
          else accountDir owner

def mlsSaveState (bytes : Bytes) (durable : Bool) (fates : SaveFates aead) : PcIo Unit := do
  match saveOwner mls bytes (← get) with
  | .error e => fail e
  | .ok owner =>
      let writer ← handOver owner bytes
      modify fun pc => pc.noteJs (pc.history.js ++ [.state bytes writer])
      if durable then do
        onError (saveLocked owner bytes writer fates) fun e => do
          modify (Pc.setPending (some ⟨owner, bytes, writer⟩))
          fail e
        -- anything pending is taken to be older
        modify (Pc.setPending none)
        modify (Pc.accept owner writer)
      else do
        modify (Pc.setPending (some ⟨owner, bytes, writer⟩))
        modify (Pc.accept owner writer)

def mlsLoadState (migration : MigrationFates aead) (flush : SaveFates aead) (load : LoadFates) :
    PcIo Loaded := do
  let user ← currentAccountLocked mls migration
  let loaded ← loadLocked user flush load
  modify fun pc => { pc with jsOwner := some user, foreground := true }
  modify (Pc.noteJs [loaded])
  pure loaded

def mlsLegacyOwner (migration : MigrationFates aead) (reads : Bool) : PcIo (Option String) := do
  ensureMigratedLocked mls migration
  pure (readLegacyOwner reads (← get))

def handoffToBackground (flush : SaveFates aead) : PcIo Unit := do
  flushPendingLocked flush
  modify fun pc => { pc with jsOwner := none, foreground := false }

/-- Nothing is loaded where there is no session, no state or no readable one. -/
def loadForBackgroundLocked (migration : MigrationFates aead) (flush : SaveFates aead)
    (load : LoadFates) : PcIo (Option (String × Bytes)) :=
  onError
    (do
      let user ← currentAccountLocked mls migration
      match ← loadLocked user flush load with
      | .fresh => pure none
      | .state deviceState _ => pure (some (user, deviceState)))
    fun _ => pure none

def saveForBackgroundLocked (user : String) (bytes : Bytes) (fates : SaveFates aead) :
    PcIo Unit := do
  modify fun pc => pc.setPending (pc.pending.filter fun p => p.user ≠ user)
  let writer ← handOver user bytes
  saveLocked user bytes writer fates
  modify (Pc.accept user writer)

/-! ## The worker -/

def setWorker (worker : Worker) : PcIo Unit :=
  modify fun pc => { pc with worker := worker }

def workerLoad (migration : MigrationFates aead) (flush : SaveFates aead) (load : LoadFates) :
    PcIo Unit := do
  match ← loadForBackgroundLocked mls migration flush load with
  | some (user, deviceState) => setWorker (.loaded user deviceState)
  | none => setWorker .idle

/-- The rest of `decrypt_and_cache`: a save that fails is only logged. -/
def workerDecrypt (user : String) (deviceState groupId ciphertext : Bytes)
    (save : SaveFates aead) : PcIo Unit := do
  match decryptImpl mls deviceState groupId ciphertext with
  | .error _ => setWorker .idle
  | .ok (newState, _) => do
      onError (saveForBackgroundLocked user newState save) fun _ => pure ()
      setWorker .idle

/-! ## Runs -/

/-- One step on the PC. `flushPending` is the timer's or the exit's. -/
inductive PcInput (aead : Aead)
  | saveState (bytes : Bytes) (durable : Bool) (fates : SaveFates aead)
  | loadState (migration : MigrationFates aead) (flush : SaveFates aead) (load : LoadFates)
  | legacyOwner (migration : MigrationFates aead) (reads : Bool)
  | currentAccountDir (migration : MigrationFates aead)
  | flushPending (flush : SaveFates aead)
  | handoffToBackground (flush : SaveFates aead)
  | showEngineDev
  | session (user : Option String)
  | workerCheck
  | workerEnter
  | workerLoad (migration : MigrationFates aead) (flush : SaveFates aead) (load : LoadFates)
  | workerDecrypt (groupId ciphertext : Bytes) (save : SaveFates aead)
  /-- The message is no base64. -/
  | workerDrop
  /-- The process ends and the app is started again. -/
  | launch
  | powerOff (left : Dir → Crash aead)

/-- A new process. -/
def Pc.launch (pc : Pc) : Pc :=
  { pc with
    cache := none
    pending := none
    jsOwner := none
    foreground := true
    migrationAttempted := false
    migrationBlocked := none
    worker := .idle
    history := { pc.history with js := [] } }

/-- `MLS_STATE_CRITICAL_SECTION` is free. -/
def Pc.lockFree (pc : Pc) : Bool :=
  pc.worker = .idle || pc.worker = .waiting

/-- What a command leaves. If the machine went down, the next process starts. -/
def Pc.after (pc : Pc) (command : PcIo α) : Pc :=
  match command.run.run pc with
  | (.error .crashed, pc') => pc'.launch
  | (_, pc') => pc'

def Pc.underLock (pc : Pc) (command : PcIo α) : Option Pc :=
  if pc.lockFree then some (pc.after command) else none

def Pc.step (pc : Pc) : PcInput aead → Option Pc
  | .saveState bytes durable fates => pc.underLock (mlsSaveState mls bytes durable fates)
  | .loadState migration flush load => pc.underLock (mlsLoadState mls migration flush load)
  | .legacyOwner migration reads => pc.underLock (mlsLegacyOwner mls migration reads)
  | .currentAccountDir migration =>
      if pc.migrationAttempted then some pc
      else pc.underLock (currentAccountDir mls migration)
  | .flushPending flush => pc.underLock (flushPendingLocked flush)
  | .handoffToBackground flush => pc.underLock (handoffToBackground flush)
  | .showEngineDev => some { pc with foreground := true }
  | .session user => some { pc with session := user }
  | .workerCheck =>
      if pc.worker = .idle && !pc.foreground then some { pc with worker := .waiting } else none
  | .workerEnter =>
      if pc.worker = .waiting then
        some { pc with worker := if pc.foreground then .idle else .holding }
      else none
  | .workerLoad migration flush load =>
      if pc.worker = .holding then some (pc.after (workerLoad mls migration flush load)) else none
  | .workerDecrypt groupId ciphertext save =>
      match pc.worker with
      | .loaded user deviceState =>
          some (pc.after (workerDecrypt mls user deviceState groupId ciphertext save))
      | _ => none
  | .workerDrop =>
      match pc.worker with
      | .loaded _ _ => some { pc with worker := .idle }
      | _ => none
  | .launch => some pc.launch
  | .powerOff left => some (pc.survive left).launch

def pcSystem (aead : Aead) (mls : MlsCrypto) : StepSystem Pc (PcInput aead) where
  step pc i := pc.step mls i

end SpecterComs.MlsStore
