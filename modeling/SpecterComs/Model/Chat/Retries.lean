import SpecterComs.Model.Chat.Sync

/-! # Retrying unreadable rows

`retryPending` and `onGroupChanged` of `engine/useChannelChat.js`, for the channels and
the DMs of one account. All decryptions go through one chain of tasks. Where a pass leaves
unreadable rows it asks the peers, whose answers come in as bundles.
-/

namespace SpecterComs.Chat

/-- `MAX_DECRYPT_ATTEMPTS`. -/
def maxDecryptAttempts : ℕ := 8
/-- `MAX_FAILED_BUNDLES`. -/
def maxFailedBundles : ℕ := 5

/-- `TERMINAL_FAIL_REASONS`. -/
def terminalFailReasons : List String := ["epoch_too_old", "corrupt"]

section Rows

variable {Extra : Type}

def isRetryable (row : Row Extra) : Bool :=
  if row.isReadable then false
  else if row.encryptedContent.all (· = "") then false
  else if row.failReason.any (· ∈ terminalFailReasons) then false
  else row.attempts < maxDecryptAttempts

def pickRetryRows (platform : Platform) (rows : List (Row Extra)) : List (Row Extra) :=
  sortByTimestamp platform (rows.filter isRetryable)

/-- What a decryption left in `plaintext` and `reason`. -/
structure Opened where
  plaintext : Option String
  reason : Option String
  deriving DecidableEq, Repr

/-- The row as a retry saves it. -/
def retriedMsg (row : Row Extra) (opened : Opened) : Msg Extra :=
  match opened.plaintext with
  | some plaintext => { row.toMsg with plaintext := some plaintext }
  | none => { row.toMsg with failReason := opened.reason, attempts := some (row.attempts + 1) }

end Rows

/-! ## Channels and DMs -/

inductive Kind
  | channel
  | dm
  deriving DecidableEq, Repr

def Kind.Extra : Kind → Type
  | .channel => ChannelExtra
  | .dm => DmExtra

/-- `dmConversationId`. -/
def dmConversationId (a b : String) : String :=
  if before b a then b ++ "-" ++ a else a ++ "-" ++ b

/-- `dmPartnerOf`: the partner, where the group is a DM of `me`. -/
def dmPartnerOf (me convId : String) : Option String :=
  let mine := me.toList
  let conv := convId.toList
  if me = "" ∨ (utf16 convId).length ≠ (utf16 me).length * 2 + 1 then none
  else
    let other :=
      if (mine ++ ['-']).isPrefixOf conv then some (conv.drop (mine.length + 1))
      else if ('-' :: mine).isSuffixOf conv then
        some (conv.take (conv.length - mine.length - 1))
      else none
    (other.map String.ofList).filter fun other =>
      other ≠ "" ∧ dmConversationId me other = convId

/-! ## The engine -/

/-- The rows of one channel or conversation. -/
structure RetryKey where
  kind : Kind
  id : String
  deriving DecidableEq, Repr

/-- An entry of `engine.retrying`. -/
structure RetryEntry where
  key : RetryKey
  again : Bool
  deriving DecidableEq, Repr

/-- A bundle of an answer, with its channel or conversation. -/
structure SyncBundle where
  kind : Kind
  groupId : String
  payload : String
  deriving DecidableEq, Repr

/-- A task of the chain. A relay and a legacy answer decrypt their messages and save them. -/
inductive DecryptTask
  | retry (key : RetryKey)
  | relay (kind : Kind)
  | bundle (bundle : SyncBundle) (isRetry : Bool)
  deriving DecidableEq, Repr

/-- A retry pass. `opened` is what the first row of `todo` gave, to be saved. -/
structure RetryPass where
  key : RetryKey
  todo : List (Row key.kind.Extra)
  opened : Option Opened

/-- The task that has begun. -/
inductive RunningTask
  | retry (pass : RetryPass)
  | relay (kind : Kind)
  | bundle (bundle : SyncBundle) (isRetry : Bool)

structure DeliveryEngine where
  stores : (kind : Kind) → Store kind.Extra
  running : Option RunningTask
  /-- `decryptChain`, the tasks that have not begun. -/
  chain : List DecryptTask
  retrying : List RetryEntry
  failedBundles : List SyncBundle
  /-- The group changes on their way to `onGroupChanged`. -/
  changes : List String
  /-- The rows that retry passes decrypted. -/
  decrypted : List (Kind × String)

namespace DeliveryEngine

def start : DeliveryEngine where
  stores _ := .empty
  running := none
  chain := []
  retrying := []
  failedBundles := []
  changes := []
  decrypted := []

def retryPending (e : DeliveryEngine) (key : RetryKey) : DeliveryEngine :=
  if key.id = "" then e
  else if e.retrying.any (·.key = key) then
    { e with
      retrying := e.retrying.map fun entry =>
        if entry.key = key then { entry with again := true } else entry }
  else
    { e with
      chain := e.chain ++ [.retry key]
      retrying := e.retrying ++ [⟨key, false⟩] }

def onGroupChanged (me : String) (e : DeliveryEngine) (groupId : String) : DeliveryEngine :=
  if groupId = "" then e
  else
    let kind := if (dmPartnerOf me groupId).isSome then .dm else .channel
    let e := e.retryPending ⟨kind, groupId⟩
    { e with
      failedBundles := e.failedBundles.filter (·.groupId ≠ groupId)
      chain := e.chain ++ (e.failedBundles.filter (·.groupId = groupId)).map fun bundle =>
        .bundle { bundle with kind } true }

/-- The rows are merged in one transaction. -/
def merge (e : DeliveryEngine) (kind : Kind) (fixed : Option String)
    (batch : List (Incoming kind.Extra)) : DeliveryEngine :=
  { e with stores := Function.update e.stores kind (mergeRowsInto (e.stores kind) fixed batch).1 }

/-- The rows a pass begins with. A failed read gives none. -/
def retryRows (platform : Platform) (e : DeliveryEngine) (key : RetryKey) (readable : Bool) :
    List (Row key.kind.Extra) :=
  if readable then
    pickRetryRows platform (getChannelMessages platform (e.stores key.kind) key.id storeWindow)
  else []

def beginTask (platform : Platform) (e : DeliveryEngine) (readable : Bool) :
    DecryptTask → RunningTask
  | .retry key => .retry ⟨key, e.retryRows platform key readable, none⟩
  | .relay kind => .relay kind
  | .bundle bundle isRetry => .bundle bundle isRetry

/-- The `finally` of a pass. -/
def endPass (e : DeliveryEngine) (key : RetryKey) : DeliveryEngine :=
  let again := e.retrying.any fun entry => entry.key = key ∧ entry.again
  let e := { e with running := none, retrying := e.retrying.filter (·.key ≠ key) }
  if again then e.retryPending key else e

/-- A bundle that may open after a group change is kept for one more try. -/
def keepBundle (e : DeliveryEngine) (bundle : SyncBundle) (isRetry : Bool) (reason : String) :
    DeliveryEngine :=
  if !isRetry ∧ reason ∉ terminalFailReasons ∧
      e.failedBundles.countP (·.groupId = bundle.groupId) < maxFailedBundles then
    { e with failedBundles := e.failedBundles ++ [bundle] }
  else e

inductive Input
  /-- A relay or a legacy answer arrives. -/
  | relay (kind : Kind)
  | bundle (bundle : SyncBundle)
  /-- `retryPendingChannel` when a server is started. -/
  | retryChannel (channelId : String)
  /-- A commit, a welcome or a heal changes a group. -/
  | change (groupId : String)
  /-- Rows are saved beside the chain: own messages, messages received in the background. -/
  | save (kind : Kind) (fixed : Option String) (batch : List (Incoming kind.Extra))
  /-- A group change reaches the engine. -/
  | deliver (index : ℕ)
  | begin (readable : Bool)
  /-- The pass decrypts its next row, which may change groups, now or later. -/
  | decrypt (opened : Opened) (changes : List String)
  | write (now : String)
  | endPass
  /-- The relay that runs has decrypted its messages and saves them. -/
  | endRelay (changes : List String) (fixed : Option String)
      (batch : (kind : Kind) → List (Incoming kind.Extra))
  /-- The bundle that runs did not open, or its rows are saved. -/
  | endBundle (changes : List String)
      (rows : Except String ((kind : Kind) → List (Incoming kind.Extra)))

variable (platform : Platform) (me : String)

def step (e : DeliveryEngine) : Input → Option DeliveryEngine
  | .relay kind => some { e with chain := e.chain ++ [.relay kind] }
  | .bundle bundle => some { e with chain := e.chain ++ [.bundle bundle false] }
  | .retryChannel channelId => some (e.retryPending ⟨.channel, channelId⟩)
  | .change groupId => some { e with changes := e.changes ++ [groupId] }
  | .save kind fixed batch => some (e.merge kind fixed batch)
  | .deliver index =>
      e.changes[index]?.map fun groupId =>
        { e with changes := e.changes.eraseIdx index }.onGroupChanged me groupId
  | .begin readable =>
      match e.running, e.chain with
      | none, task :: chain =>
          some { e with running := some (e.beginTask platform readable task), chain }
      | _, _ => none
  | .decrypt opened changes =>
      match e.running with
      | some (.retry ⟨key, row :: todo, none⟩) =>
          some
            { e with
              running := some (.retry ⟨key, row :: todo, some opened⟩)
              changes := e.changes ++ changes
              decrypted := e.decrypted ++ [(key.kind, row.id)] }
      | _ => none
  | .write now =>
      match e.running with
      | some (.retry ⟨key, row :: todo, some opened⟩) =>
          some
            { e.merge key.kind none [⟨retriedMsg row opened, now⟩] with
              running := some (.retry ⟨key, todo, none⟩) }
      | _ => none
  | .endPass =>
      match e.running with
      | some (.retry ⟨key, [], none⟩) => some (e.endPass key)
      | _ => none
  | .endRelay changes fixed batch =>
      match e.running with
      | some (.relay kind) =>
          some
            { e.merge kind fixed (batch kind) with
              running := none, changes := e.changes ++ changes }
      | _ => none
  | .endBundle changes rows =>
      match e.running with
      | some (.bundle bundle isRetry) =>
          let e := { e with running := none, changes := e.changes ++ changes }
          match rows with
          | .error reason => some (e.keepBundle bundle isRetry reason)
          | .ok batch => some (e.merge bundle.kind bundle.groupId (batch bundle.kind))
      | _ => none

/-- The steps of the engine itself, as opposed to what comes from outside. -/
def Input.isOwn : Input → Bool
  | .relay _ | .bundle _ | .retryChannel _ | .change _ | .save .. => false
  | _ => true

end DeliveryEngine

/-- Every order of relays, answers, group changes and steps of the engine. -/
def delivery (platform : Platform) (me : String) :
    StepSystem DeliveryEngine DeliveryEngine.Input where
  step := DeliveryEngine.step platform me

end SpecterComs.Chat
