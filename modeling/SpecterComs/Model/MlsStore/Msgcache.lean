import SpecterComs.Library.Base64
import SpecterComs.Library.Lines
import SpecterComs.Model.MlsStore.Accounts

/-! # The message cache and background sync

`msgcache.rs`, the end of `decrypt_and_cache` of `background_sync.rs`, and the drain of
`App.jsx` that moves the cache into the window's message history. The commands of the cache
do not take `MLS_STATE_CRITICAL_SECTION`.
-/

namespace SpecterComs.MlsStore

/-- `serde_json`, which reads back what it wrote. -/
structure Json where
  Value : Type
  null : Value
  str : String → Value
  object : List (String × Value) → Value
  toVec : Value → Bytes
  fromSlice : Bytes → Option Value
  fromSlice_toVec : ∀ v, fromSlice (toVec v) = some v

/-! ## `String::from_utf8_lossy` -/

/-- The second bytes that can follow a first byte of more than one byte. -/
def utf8Second (first second : UInt8) : Bool :=
  let range (low high : UInt8) := low ≤ second && second ≤ high
  if first = 0xE0 then range 0xA0 0xBF
  else if first = 0xED then range 0x80 0x9F
  else if first = 0xF0 then range 0x90 0xBF
  else if first = 0xF4 then range 0x80 0x8F
  else range 0x80 0xBF

/-- How many bytes a character takes, by its first one. -/
def utf8Width (first : UInt8) : ℕ :=
  if first < 0x80 then 1
  else if 0xC2 ≤ first && first ≤ 0xDF then 2
  else if 0xE0 ≤ first && first ≤ 0xEF then 3
  else if 0xF0 ≤ first && first ≤ 0xF4 then 4
  else 0

/-- How many of the bytes behind the first are part of a character that wants `n`. -/
def utf8Run (first : UInt8) (n : ℕ) : Bytes → ℕ
  | second :: rest =>
      if 0 < n && utf8Second first second then
        1 + ((rest.take (n - 1)).takeWhile fun b => 0x80 ≤ b && b ≤ 0xBF).length
      else 0
  | [] => 0

def utf8Char (first : UInt8) (following : Bytes) : Char :=
  let lead := match following.length with
    | 0 => first.toNat
    | 1 => first.toNat % 32
    | 2 => first.toNat % 16
    | _ => first.toNat % 8
  Char.ofNat (following.foldl (fun n b => n * 64 + b.toNat % 64) lead)

/-- Each ill-formed part, as long as it goes, becomes one U+FFFD. -/
def lossyFrom : ℕ → Bytes → List Char
  | 0, _ => []
  | _ + 1, [] => []
  | fuel + 1, first :: rest =>
      let width := utf8Width first
      let found := utf8Run first (width - 1) rest
      let c := if width ≠ 0 ∧ found = width - 1 then utf8Char first (rest.take found) else '\uFFFD'
      c :: lossyFrom fuel (rest.drop found)

def fromUtf8Lossy (bytes : Bytes) : String :=
  String.ofList (lossyFrom bytes.length bytes)

def utf8 (s : String) : Bytes :=
  s.toUTF8.data.toList

/-! ## `msgcache.rs` -/

/-- Which calls to the keyring work. `set` says whether it reports success and whether it
keeps the entry. `fresh` is the key `OsRng` draws. -/
structure CacheKeyFates where
  entry : Bool := true
  get : Bool := true
  set : Bool × Bool := (true, true)
  fresh : Key

def asKey (secret : Option Bytes) : Option Key :=
  secret.bind fun v => if h : v.length = 32 then some ⟨v, h⟩ else none

/-- The key or an error, and the entry afterwards. Any entry that cannot be read is
written over. -/
def msgcacheKey (fates : CacheKeyFates) (secret : Option Bytes) : Option Key × Option Bytes :=
  if !fates.entry then (none, secret) else
  match asKey (if fates.get then secret else none) with
  | some key => (some key, secret)
  | none =>
      (if fates.set.1 then some fates.fresh else none,
        if fates.set.2 then some fates.fresh.val else secret)

/-- `channel_path`, up to the directory, refuses what is no bare file name. -/
def validChannelId (id : String) : Bool :=
  id ≠ "" && !id.toList.any (['/', '\\', '.'].contains ·)

variable {aead : Aead} {json : Json}

/-- The line of a record, without its line feed. -/
def sealLine (aead : Aead) (json : Json) (key : Key) (nonce : Nonce) (record : json.Value) :
    Option (List Char) :=
  (encryptBlob aead key nonce (json.toVec record)).map Base64.encode

def openLine (aead : Aead) (json : Json) (key : Key) (line : List Char) : Option json.Value :=
  (Base64.decode line).bind fun blob => (decryptBlob aead key blob).bind json.fromSlice

/-- `read` over a file's contents; `limit` is `none` for `usize::MAX`. Lines that do not
open are skipped. -/
def readLines (aead : Aead) (json : Json) (key : Key) (limit : Option ℕ) (contents : List Char) :
    List json.Value :=
  let lines := (Lines.lines contents).filter (· ≠ [])
  let start := limit.elim 0 (lines.length - ·)
  (lines.drop start).filterMap (openLine aead json key)

/-! ## The device -/

/-- A relayed message, with the fields that are text where the task reads text. -/
structure Message (json : Json) where
  channelId : Option String
  encryptedContent : Option String
  id : Option json.Value
  orgId : Option json.Value
  senderId : Option json.Value
  callsign : Option json.Value
  globalTag : Option json.Value
  imageUrl : Option json.Value
  timestamp : Option json.Value

def Message.record (msg : Message json) (channelId encrypted plaintext : String) : json.Value :=
  let field (value : Option json.Value) := value.getD json.null
  json.object
    [("id", field msg.id), ("channel_id", json.str channelId), ("org_id", field msg.orgId),
      ("sender_id", field msg.senderId), ("callsign", field msg.callsign),
      ("global_tag", field msg.globalTag), ("encrypted_content", json.str encrypted),
      ("plaintext", json.str plaintext), ("image_url", field msg.imageUrl),
      ("timestamp", field msg.timestamp)]

/-- A message the task has decrypted. `saved` says whether its save put the new state on
the disk; no operation reads it. -/
structure Consumed (json : Json) where
  user : String
  channel : String
  record : json.Value
  saved : Bool

/-- The task between the save and the end of the append; `line` is there once the file is
open. -/
structure Appending (json : Json) where
  consumed : Consumed json
  line : Option (List Char)

inductive DrainStage (json : Json)
  /-- `msgcache_read_all`: the files to read, and what the others gave. -/
  | reading (rest : List String) (found : List (String × List json.Value))
  /-- `saveChannelMessages`, channel by channel. -/
  | saving (found : List (String × List json.Value))
  | saved
  /-- `msgcache_clear_all`: the files to delete. -/
  | clearing (user : String) (rest : List String)

/-- One call of `drainMessageCache`. `owner` is the account of the history it saves to,
`user` the one whose cache it reads, and `seen` the files it has read; no operation reads
`seen`. -/
structure Drain (json : Json) where
  owner : String
  user : String
  seen : List String
  stage : DrainStage json

/-- The PC with the caches, the running task, the drains and the histories. -/
structure Device (json : Json) where
  pc : Pc
  /-- The `.log` files of each account. -/
  logs : String → String → Option (List Char)
  /-- The entry `cache-key` of the keyring. -/
  cacheSecret : Option Bytes
  /-- The message the task handles. -/
  handling : Option (Message json)
  appending : Option (Appending json)
  drains : List (Option (Drain json))
  /-- What was handed to the message history of each account, by channel. -/
  stored : String → String → List json.Value
  /-- No operation reads it. -/
  consumed : List (Consumed json)

structure AppendFates where
  createDir : Bool := true
  key : CacheKeyFates
  nonce : Nonce
  opens : Bool := true

structure ReadFates where
  found : Bool := true
  reads : Bool := true
  key : CacheKeyFates

/-- What a file holds after the machine went down. -/
structure Loss where
  user : String
  channel : String
  contents : Option (List Char)

inductive DeviceInput (aead : Aead) (json : Json)
  /-- Any other step on the PC. -/
  | pc (input : PcInput aead) (lost : List Loss)
  | check (msg : Message json)
  | decrypt (save : SaveFates aead) (lost : List Loss)
  | openLog (fates : AppendFates)
  /-- How much of the line is written. -/
  | writeLog (written : ℕ)
  /-- `msgcache_read`, or a sync request that is answered. -/
  | read (key : CacheKeyFates)
  /-- `listed` is what `read_dir` gives, if it works. -/
  | readAll (owner : String) (listed : Option (List String))
  | readLog (n : ℕ) (fates : ReadFates)
  | saveMessages (n : ℕ) (saves : Bool)
  | clearAll (n : ℕ) (listed : Option (List String))
  | removeLog (n : ℕ) (works : Bool)
  /-- The window of the drain goes away. -/
  | abandon (n : ℕ)

/-- The command ends with the machine going down. -/
def Pc.goesDown {α : Type} (pc : Pc) (command : PcIo α) : Bool :=
  match (command.run.run pc).1 with
  | .error .crashed => true
  | _ => false

variable (mls : MlsCrypto)

/-- The process ends with the step. -/
def Pc.ends (pc : Pc) : PcInput aead → Bool
  | .saveState bytes durable fates => pc.goesDown (mlsSaveState mls bytes durable fates)
  | .loadState migration flush load => pc.goesDown (mlsLoadState mls migration flush load)
  | .legacyOwner migration reads => pc.goesDown (mlsLegacyOwner mls migration reads)
  | .currentAccountDir migration =>
      !pc.migrationAttempted && pc.goesDown (currentAccountDir mls migration)
  | .flushPending flush => pc.goesDown (flushPendingLocked flush)
  | .handoffToBackground flush => pc.goesDown (handoffToBackground flush)
  | .workerLoad migration flush load => pc.goesDown (workerLoad mls migration flush load)
  | .showEngineDev | .session _ | .workerCheck | .workerEnter | .workerDecrypt _ _ _
  | .workerDrop => false
  | .launch | .powerOff _ => true

/-- Steps that need no lock. -/
def PcInput.isFree : PcInput aead → Bool
  | .session _ | .showEngineDev | .launch | .powerOff _ => true
  | _ => false

/-- The steps of the task that this module has itself. -/
def PcInput.isTask : PcInput aead → Bool
  | .workerCheck | .workerDecrypt _ _ _ | .workerDrop => true
  | _ => false

/-- A slot of the account holds the whole state with this number. -/
def Pc.onDisk (aead : Aead) (user : String) (writer : ℕ) (pc : Pc) : Bool :=
  [Slot.tmp, .bak, .main].any fun slot =>
    ((pc.files (.account user)).get slot).any fun file =>
      file.writer = writer && (asKey pc.secret).any fun key => (decryptBlob aead key file.data).isSome

namespace Device

variable (d : Device json)

def setLog (user channel : String) (contents : Option (List Char)) : Device json :=
  { d with logs := Function.update d.logs user (Function.update (d.logs user) channel contents) }

def lose (lost : List Loss) : Device json :=
  lost.foldl (fun d loss => d.setLog loss.user loss.channel loss.contents) d

/-- The process is gone; the windows and the task with it. -/
def down (pc : Pc) (lost : List Loss) : Device json :=
  { d.lose lost with pc, handling := none, appending := none, drains := [] }

def setDrain (n : ℕ) (drain : Option (Drain json)) : Device json :=
  { d with drains := d.drains.set n drain }

/-! ### The task -/

/-- `decrypt_and_cache` from the state it loaded to its save. -/
def decrypt (user : String) (deviceState : Bytes) (msg : Message json) (channelId encrypted : String)
    (save : SaveFates aead) (lost : List Loss) : Option (Device json) :=
  match Base64.decode encrypted.toList with
  | none => (d.pc.step mls (.workerDrop : PcInput aead)).map fun pc => { d with pc }
  | some ciphertext =>
      let command := workerDecrypt mls user deviceState (utf8 channelId) ciphertext save
      let pc := (command.run.run d.pc).2
      match decryptImpl mls deviceState (utf8 channelId) ciphertext with
      | .error _ => some { d with pc }
      | .ok (_, plaintext) =>
          let record := msg.record channelId encrypted (fromUtf8Lossy plaintext)
          let saved := pc.onDisk aead user (d.pc.history.given user).length
          let consumed : Consumed json := ⟨user, channelId, record, saved⟩
          let d := { d with consumed := d.consumed ++ [consumed] }
          if d.pc.goesDown command then some (d.down pc.launch lost)
          else some { d with pc, appending := some ⟨consumed, none⟩ }

/-- `append` up to the open file. Its errors are dropped. -/
def openLog (aead : Aead) (consumed : Consumed json) (fates : AppendFates) : Device json :=
  if !validChannelId consumed.channel || !fates.createDir then { d with appending := none } else
  let (key, cacheSecret) := msgcacheKey fates.key d.cacheSecret
  let d := { d with cacheSecret }
  match key.bind fun key => sealLine aead json key fates.nonce consumed.record with
  | none => { d with appending := none }
  | some line =>
      if fates.opens then
        let contents := (d.logs consumed.user consumed.channel).getD []
        { d.setLog consumed.user consumed.channel (some contents) with
          appending := some ⟨consumed, some line⟩ }
      else { d with appending := none }

/-- A file that was deleted meanwhile takes the bytes with it. -/
def writeLog (consumed : Consumed json) (line : List Char) (written : ℕ) : Device json :=
  let d := { d with appending := none }
  match d.logs consumed.user consumed.channel with
  | none => d
  | some contents =>
      d.setLog consumed.user consumed.channel (some (contents ++ (line ++ ['\n']).take written))

/-! ### The drain -/

/-- The `.log` files among what was listed. -/
def listing (user : String) (listed : List String) : List String :=
  listed.filter fun channel => (d.logs user channel).isSome

/-- What comes after the last file. -/
def afterRead (rest : List String) (found : List (String × List json.Value)) :
    Option (DrainStage json) :=
  if rest ≠ [] then some (.reading rest found)
  else if found ≠ [] then some (.saving found)
  else none

def readAll (owner : String) (listed : Option (List String)) : Device json :=
  match signedInAccount d.pc, listed with
  | .ok user, some listed =>
      let stage := afterRead (d.listing user listed) []
      { d with drains := d.drains ++ [stage.map (⟨owner, user, [], ·⟩)] }
  | _, _ => { d with drains := d.drains ++ [none] }

def readLog (aead : Aead) (n : ℕ) (drain : Drain json) (channel : String) (rest : List String)
    (found : List (String × List json.Value)) (fates : ReadFates) : Device json :=
  let next (d : Device json) (seen : List String) (found : List (String × List json.Value)) :=
    d.setDrain n ((afterRead rest found).map fun stage => { drain with seen, stage })
  match if fates.found then d.logs drain.user channel else none with
  | none => next d drain.seen found
  | some contents =>
      if !fates.reads then d.setDrain n none else
      let (key, cacheSecret) := msgcacheKey fates.key d.cacheSecret
      let d := { d with cacheSecret }
      match key with
      | none => d.setDrain n none
      | some key =>
          let messages := readLines aead json key none contents
          next d (drain.seen ++ [channel])
            (if messages = [] then found else found ++ [(channel, messages)])

def saveMessages (n : ℕ) (drain : Drain json) (channel : String) (messages : List json.Value)
    (rest : List (String × List json.Value)) : Device json :=
  let stored := Function.update d.stored drain.owner
    (Function.update (d.stored drain.owner) channel (d.stored drain.owner channel ++ messages))
  let stage : DrainStage json := if rest = [] then .saved else .saving rest
  { d.setDrain n (some { drain with stage }) with stored }

def clearAll (n : ℕ) (drain : Drain json) (listed : Option (List String)) : Device json :=
  match signedInAccount d.pc, listed with
  | .ok user, some listed =>
      let rest := d.listing user listed
      d.setDrain n
        (if rest = [] then none else some { drain with stage := .clearing user rest })
  | _, _ => d.setDrain n none

def removeLog (n : ℕ) (drain : Drain json) (user channel : String) (rest : List String)
    (works : Bool) : Device json :=
  let d := if works then d.setLog user channel none else d
  d.setDrain n (if rest = [] then none else some { drain with stage := .clearing user rest })

/-! ### Steps -/

def step : DeviceInput aead json → Option (Device json)
  | .pc input lost =>
      if input.isTask || (d.appending.isSome && !input.isFree) then none else
      (d.pc.step mls input).map fun pc =>
        if d.pc.ends mls input then d.down pc lost else { d with pc }
  | .check msg =>
      if d.appending.isSome then none else
      (d.pc.step mls (.workerCheck : PcInput aead)).map fun pc =>
        if msg.channelId.isSome && msg.encryptedContent.isSome then
          { d with pc, handling := some msg }
        else d
  | .decrypt save lost =>
      if d.appending.isSome then none else
      match d.pc.worker, d.handling with
      | .loaded user deviceState, some msg =>
          msg.channelId.bind fun channelId => msg.encryptedContent.bind fun encrypted =>
            d.decrypt mls user deviceState msg channelId encrypted save lost
      | _, _ => none
  | .openLog fates =>
      match d.appending with
      | some ⟨consumed, none⟩ => some (d.openLog aead consumed fates)
      | _ => none
  | .writeLog written =>
      match d.appending with
      | some ⟨consumed, some line⟩ => some (d.writeLog consumed line written)
      | _ => none
  | .read key => some { d with cacheSecret := (msgcacheKey key d.cacheSecret).2 }
  | .readAll owner listed => if d.pc.migrationAttempted then some (d.readAll owner listed) else none
  | .readLog n fates =>
      match d.drains[n]? with
      | some (some drain) =>
          match drain.stage with
          | .reading (channel :: rest) found =>
              some (d.readLog aead n drain channel rest found fates)
          | _ => none
      | _ => none
  | .saveMessages n saves =>
      match d.drains[n]? with
      | some (some drain) =>
          match drain.stage with
          | .saving ((channel, messages) :: rest) =>
              some (if saves then d.saveMessages n drain channel messages rest
                else d.setDrain n none)
          | _ => none
      | _ => none
  | .clearAll n listed =>
      match d.drains[n]? with
      | some (some drain) =>
          match drain.stage with
          | .saved => some (d.clearAll n drain listed)
          | _ => none
      | _ => none
  | .removeLog n works =>
      match d.drains[n]? with
      | some (some drain) =>
          match drain.stage with
          | .clearing user (channel :: rest) =>
              some (d.removeLog n drain user channel rest works)
          | _ => none
      | _ => none
  | .abandon n => some (d.setDrain n none)

end Device

def deviceSystem (aead : Aead) (mls : MlsCrypto) (json : Json) :
    StepSystem (Device json) (DeviceInput aead json) where
  step d i := d.step mls i

end SpecterComs.MlsStore

/-! # Runs of the message cache

`append` and `read` of `msgcache.rs`, one call after the other, where a write may be cut short and
a call to the keyring may fail.
-/

namespace SpecterComs.CacheRuns

open MlsStore

/-- `writeln!` reaches the disk, or a crash or a full disk ends it after some of the characters. -/
inductive Written
  | whole
  | cut (written : ℕ)
  deriving DecidableEq, Repr

/-- A call of `append`, and whether it returned `Ok`. -/
structure Attempt (json : Json) where
  account : String
  channel : String
  record : json.Value
  ok : Bool

/-- The files, and the entry `cache-key` of the keyring. -/
structure Cache (json : Json) where
  /-- The `.log` files of each account. -/
  logs : String → String → Option (List Char)
  secret : Option Bytes
  /-- No operation reads it. -/
  attempts : List (Attempt json)

inductive Input (json : Json)
  | append (account channel : String) (record : json.Value) (fates : AppendFates) (write : Written)
  | read (account channel : String) (limit : Option ℕ) (createDir : Bool) (fates : ReadFates)

namespace Cache

variable {json : Json} (aead : Aead) (c : Cache json)

/-- `append` up to its line; the keyring's entry may be another afterwards. -/
def appendLine (channel : String) (record : json.Value) (fates : AppendFates) :
    Option (List Char) × Option Bytes :=
  if !validChannelId channel || !fates.createDir then (none, c.secret)
  else
    let (key, secret) := msgcacheKey fates.key c.secret
    let line := key.bind fun key => sealLine aead json key fates.nonce record
    (if fates.opens then line else none, secret)

def append (account channel : String) (record : json.Value) (fates : AppendFates) (write : Written) :
    Cache json :=
  let (line, secret) := c.appendLine aead channel record fates
  let attempted (ok : Bool) : List (Attempt json) :=
    c.attempts ++ [⟨account, channel, record, ok⟩]
  match line with
  | none => { c with secret, attempts := attempted false }
  | some line =>
      let contents := (c.logs account channel).getD []
      let written := match write with
        | .whole => line ++ ['\n']
        | .cut written => (line ++ ['\n']).take written
      { logs := Function.update c.logs account
          (Function.update (c.logs account) channel (some (contents ++ written)))
        secret
        attempts := attempted (write = .whole) }

/-- The records or an error, and the cache afterwards. -/
def read (account channel : String) (limit : Option ℕ) (createDir : Bool) (fates : ReadFates) :
    Option (List json.Value) × Cache json :=
  if !validChannelId channel || !createDir then (none, c)
  else
    match if fates.found then c.logs account channel else none with
    | none => (some [], c)
    | some contents =>
        if !fates.reads then (none, c)
        else
          let (key, secret) := msgcacheKey fates.key c.secret
          (key.map fun key => readLines aead json key limit contents, { c with secret })

def step : Input json → Option (Cache json)
  | .append account channel record fates write =>
      some (c.append aead account channel record fates write)
  | .read account channel limit createDir fates =>
      some (c.read aead account channel limit createDir fates).2

end Cache

def cacheSystem (aead : Aead) (json : Json) : StepSystem (Cache json) (Input json) where
  step := Cache.step aead

end SpecterComs.CacheRuns
