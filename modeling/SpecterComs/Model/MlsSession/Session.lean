import SpecterComs.Library.StepSystem
import SpecterComs.Model.MlsSession.Calls

/-! # The session's module variables and what moves them

One input is one turn of the event loop: a call or a reset from outside, a reply, a
finished load or save, a timer, or the continuation of code whose promise has settled.
Code between two awaits runs in one step, or is cut into more of them, so every order
the event loop allows is a run.
-/

namespace SpecterComs.MlsSession

/-! ## Module variables -/

/-- A state object. Two are the same object when their `ref` is the same. -/
structure Cell (State : Type) where
  ref : ℕ
  state : State

/-- One `mls_save_state` and the session it was started in. -/
structure Save (State : Type) where
  gen : ℕ
  version : ℕ
  cell : Cell State
  durable : Bool

/-- An element of `durableWaiters`. Its promise is `ticket`. -/
structure Waiter where
  version : ℕ
  ticket : ℕ

/-- Who awaits a `withStateLock`. -/
inductive Caller
  | call (i : ℕ)
  | init (i : ℕ)

/-- What to run under the lock: a call's section, or the commit of a new identity. -/
inductive Job {State : Type} (C : Crypto State)
  | call (i : ℕ) (work : LockWork C)
  | newIdentity (i : ℕ) (deviceState : State)

def Job.caller {State : Type} {C : Crypto State} : Job C → Caller
  | .call i _ => .call i
  | .newIdentity i _ => .init i

/-- A `withStateLock` whose turn has not come, and the session it was called in. -/
structure Queued {State : Type} (C : Crypto State) where
  gen : ℕ
  job : Job C

/-- A version and the state that was committed as it. -/
structure Committed (State : Type) where
  version : ℕ
  state : State

/-- The lock work that is running. -/
structure Holder (State : Type) where
  caller : Caller
  gen : ℕ
  /-- The object it read, if it reads one. -/
  base : Option (Cell State)
  /-- The version of that object. -/
  version : ℕ
  submission : Option (Submission State)
  rest : Section State
  /-- The durability promise it awaits. -/
  ticket : Option ℕ
  /-- What it has committed durably. -/
  committed : Option (Committed State)

inductive InitPhase (State : Type)
  | loading
  | registering (attempt : ℕ) (deviceState : State) (credential : Label)
  | locking (credential : Label)
  | done
  /-- Rejected, with the `catch` of `ensureIdentity` still to run. -/
  | failing (error : Error)
  | rejected (error : Error)

/-- One `initIdentity`. -/
structure Init (State : Type) where
  user : Option UserId
  gen : ℕ
  phase : InitPhase State

inductive Awaiting
  | nothing
  | identity (i : ℕ)
  | lock
  deriving DecidableEq, Repr

/-- One call of an exported function, or of a heal timer. -/
structure Call {State : Type} (C : Crypto State) where
  user : Option UserId
  rest : Async (CallOp C) CallOp.Result (Except Error CallResult)
  awaiting : Awaiting

/-- The bookkeeping that `resetForUser` clears. -/
structure Books where
  pendingSent : GroupId → List String
  groupCtx : GroupId → Option Context
  /-- The count of failures and when it began. -/
  decryptFailures : GroupId → Option (ℕ × ℕ)
  lastHealAt : GroupId → Option ℕ
  groupInfoRefreshed : List (GroupId × ℕ)

def Books.empty : Books :=
  ⟨fun _ => [], fun _ => none, fun _ => none, fun _ => none, []⟩

/-- A heal that `scheduleHeal` has put off. -/
structure HealTimer where
  user : UserId
  ctx : Context
  gen : ℕ

/-! ## What is remembered of a run -/

/-- What assigned `deviceStateCache`. -/
inductive Origin (State : Type)
  | reset
  | dropped
  | loaded
  /-- By lock work for this user, which had read `base`. -/
  | committed (user : Option UserId) (base : Option (Cell State))

/-- One assignment of `deviceStateCache`. -/
structure Write (State : Type) where
  gen : ℕ
  replaced : Option (Cell State)
  new : Option (Cell State)
  origin : Origin State

/-- A section that started on a state: the user its call was made for, and the user the
session was bound to. -/
structure Started (State : Type) where
  user : Option UserId
  bound : Option UserId
  cell : Cell State

/-- Lock work that has settled, with the session and the cache it leaves. -/
structure Settled (State : Type) where
  work : Holder State
  gen : ℕ
  cache : Option (Cell State)
  result : Except Error LockResult

structure Session {State : Type} (C : Crypto State) where
  deviceStateCache : Option (Cell State)
  stateVersion : ℕ
  ownCredential : Option Label
  boundUserId : Option UserId
  sessionGen : ℕ
  lockHolderGen : ℕ
  /-- `lockTail`: the work that waits and the work that runs. -/
  queue : List (Queued C)
  holder : Option (Holder State)
  persistedVersion : ℕ
  durableVersion : ℕ
  durableWanted : ℕ
  writerActive : Bool
  inFlight : List (Save State)
  durableWaiters : List Waiter
  /-- The settled durability promises. -/
  promises : ℕ → Option (Except Error Unit)
  identityPromise : Option ℕ
  inits : List (Init State)
  calls : List (Call C)
  books : Books
  healTimers : List HealTimer
  /-- `localStorage`: the device id of each user id key. -/
  deviceIds : Option UserId → Option DeviceId
  now : ℕ
  nextRef : ℕ
  nextTicket : ℕ
  -- what is remembered
  writes : List (Write State)
  started : List (Started State)
  loads : List (ℕ × ℕ)
  sent : List (Save State)
  saved : List (Save State)
  resolved : List (ℕ × ℕ)
  submitted : List (Holder State)
  settled : List (Settled State)

variable {State : Type} {C : Crypto State}

/-- The module as it is loaded. -/
def Session.start (C : Crypto State) (deviceIds : Option UserId → Option DeviceId) : Session C where
  deviceStateCache := none
  stateVersion := 0
  ownCredential := none
  boundUserId := none
  sessionGen := 0
  lockHolderGen := 0
  queue := []
  holder := none
  persistedVersion := 0
  durableVersion := 0
  durableWanted := 0
  writerActive := false
  inFlight := []
  durableWaiters := []
  promises _ := none
  identityPromise := none
  inits := []
  calls := []
  books := .empty
  healTimers := []
  deviceIds
  now := 0
  nextRef := 0
  nextTicket := 0
  writes := []
  started := []
  loads := []
  sent := []
  saved := []
  resolved := []
  submitted := []
  settled := []

namespace Session

/-- Every assignment of the cache goes through here. -/
def assign (s : Session C) (origin : Origin State) (new : Option (Cell State)) : Session C :=
  let write : Write State := ⟨s.sessionGen, s.deviceStateCache, new, origin⟩
  { s with
    deviceStateCache := new
    writes := write :: s.writes }

/-! ## The writer -/

/-- One pass of `runWriter`'s loop up to its await. -/
def writerPass (s : Session C) : Session C :=
  let durable := decide (s.durableVersion < s.durableWanted)
  if !durable && s.stateVersion ≤ s.persistedVersion then
    { s with writerActive := false }
  else
    match s.deviceStateCache with
    | none => { s with writerActive := false }
    | some cell =>
        let save : Save State := ⟨s.sessionGen, s.stateVersion, cell, durable⟩
        { s with
          inFlight := s.inFlight ++ [save]
          sent := save :: s.sent }

def schedulePersist (tauri : Bool) (s : Session C) : Session C :=
  if !tauri || s.writerActive then s else writerPass { s with writerActive := true }

/-- Settles the promises of some waiters. -/
def settle (s : Session C) (waiters : List Waiter) (result : Except Error Unit) : Session C :=
  { s with
    promises := fun ticket =>
      if ticket ∈ waiters.map Waiter.ticket then some result else s.promises ticket }

/-- `waitDurable`, and the ticket of the promise it returns. -/
def waitDurable (tauri : Bool) (s : Session C) (version : ℕ) : Session C × ℕ :=
  let ticket := s.nextTicket
  let s := { s with nextTicket := ticket + 1 }
  if !tauri || version ≤ s.durableVersion then
    ({ s with
        promises := Function.update s.promises ticket (some (.ok ()))
        resolved := (s.sessionGen, version) :: s.resolved }, ticket)
  else
    let waiter : Waiter := ⟨version, ticket⟩
    let s := { s with
      durableWaiters := s.durableWaiters ++ [waiter]
      durableWanted := max s.durableWanted version }
    (s.schedulePersist tauri, ticket)

/-- `resetForUser`. -/
def resetForUser (s : Session C) (user : Option UserId) : Session C :=
  let s := s.assign .reset none
  let failed := s.durableWaiters
  let s := { s with
    sessionGen := s.sessionGen + 1
    boundUserId := user
    ownCredential := none
    identityPromise := none
    books := .empty
    persistedVersion := s.stateVersion
    durableVersion := s.stateVersion
    durableWanted := s.stateVersion
    durableWaiters := [] }
  s.settle failed (.error accountSwitched)

/-- The writer after its save succeeded. -/
def saveAccepted (s : Session C) (save : Save State) : Session C :=
  let s := { s with
    persistedVersion := max s.persistedVersion save.version
    saved := save :: s.saved }
  if save.durable then
    let durableVersion := max s.durableVersion save.version
    let ready := s.durableWaiters.filter fun w => w.version ≤ durableVersion
    let s := { s with
      durableVersion
      durableWaiters := s.durableWaiters.filter fun w => durableVersion < w.version
      resolved := ready.map (fun w : Waiter => (s.sessionGen, w.version)) ++ s.resolved }
    (s.settle ready (.ok ())).writerPass
  else
    s.writerPass

/-- `/MLS_ACCOUNT_MISMATCH|MLS_NO_SESSION/`. -/
def isStaleAccount (message : String) : Bool :=
  containsText "MLS_ACCOUNT_MISMATCH" message || containsText "MLS_NO_SESSION" message

/-- The writer after its save failed. -/
def saveRejected (s : Session C) (message : String) : Session C :=
  let failed := s.durableWaiters
  let s := { s with
    durableWaiters := []
    durableWanted := s.durableVersion }
  let s := s.settle failed (.error (.other message))
  let s := if isStaleAccount message then s.resetForUser none else s
  { s with writerActive := false }

def saveReturned (s : Session C) (k : ℕ) (result : Except String Unit) : Option (Session C) :=
  match s.inFlight[k]? with
  | none => none
  | some save =>
      let s := { s with inFlight := s.inFlight.eraseIdx k }
      match result with
      | .ok _ => some (s.saveAccepted save)
      | .error message => some (s.saveRejected message)

/-! ## The state lock -/

/-- A call continues with the result it awaited. -/
def setCall (s : Session C) (i : ℕ) (call : Call C) : Session C :=
  { s with calls := s.calls.set i call }

def setPhase (s : Session C) (i : ℕ) (phase : InitPhase State) : Session C :=
  { s with inits := s.inits.modify i fun init => { init with phase } }

/-- `initIdentity` after its new identity's lock work settled. -/
def identityStored (s : Session C) (i : ℕ) (credential : Label)
    (result : Except Error LockResult) : Session C :=
  match result with
  | .ok _ => { s.setPhase i .done with ownCredential := some credential }
  | .error error => (s.assign .dropped none).setPhase i (.failing error)

/-- The lock work's promise settles, and its caller is told. -/
def deliver (s : Session C) (caller : Caller) (result : Except Error LockResult) : Session C :=
  match caller with
  | .call i =>
      match s.calls[i]? with
      | none => s
      | some call =>
          match call.rest, call.awaiting with
          | .op (.withStateLock _) k, .lock =>
              s.setCall i { call with rest := k result, awaiting := .nothing }
          | _, _ => s
  | .init i =>
      match s.inits[i]? with
      | none => s
      | some init =>
          match init.phase with
          | .locking credential => s.identityStored i credential result
          | _ => s

def userOf (s : Session C) (caller : Caller) : Option UserId :=
  match caller with
  | .call i => (s.calls[i]?).bind Call.user
  | .init i => (s.inits[i]?).bind Init.user

/-- `commitState`, or nothing where the account has switched. -/
def commitState (tauri : Bool) (s : Session C) (h : Holder State) (state : State) :
    Option (Session C) :=
  if s.lockHolderGen ≠ s.sessionGen then
    none
  else
    let s := s.assign (.committed (s.userOf h.caller) h.base) (some ⟨s.nextRef, state⟩)
    let s := { s with
      stateVersion := s.stateVersion + 1
      nextRef := s.nextRef + 1 }
    some (s.schedulePersist tauri)

/-- The work returns or throws, and the lock is free. -/
def release (s : Session C) (h : Holder State) (result : Except Error LockResult) : Session C :=
  let s := { s with
    holder := none
    settled := ⟨h, s.sessionGen, s.deviceStateCache, result⟩ :: s.settled }
  s.deliver h.caller result

/-- The work awaits the durability of a version. -/
def awaitDurable (tauri : Bool) (s : Session C) (h : Holder State) (version : ℕ) : Session C :=
  let r := s.waitDurable tauri version
  { r.1 with holder := some { h with ticket := some r.2 } }

/-- `commitDurableLocked(state)`, then return. -/
def commitDurable (tauri : Bool) (s : Session C) (h : Holder State) (state : State)
    (result : LockResult) : Session C :=
  match s.commitState tauri h state with
  | none => s.release h (.error accountSwitched)
  | some s =>
      s.awaitDurable tauri
        { h with
          rest := .ret (.returned result)
          committed := some ⟨s.stateVersion, state⟩ }
        s.stateVersion

def finish (tauri : Bool) (s : Session C) (h : Holder State) : Finish State → Session C
  | .returned result => s.release h (.ok result)
  | .thrown error => s.release h (.error error)
  | .commitState state result =>
      match s.commitState tauri h state with
      | none => s.release h (.error accountSwitched)
      | some s => s.release h (.ok result)
  | .commitDurable state result => s.commitDurable tauri h state result
  | .merge state result =>
      if s.deviceStateCache.map Cell.ref = h.base.map Cell.ref then
        s.commitDurable tauri h state result
      else
        s.release h
          (.error (.other "[mls] invariant violated: device state changed during own commit"))

/-- Runs the work on to its next await or to its end. -/
def proceed (tauri : Bool) (s : Session C) (h : Holder State) : Session C :=
  match h.rest with
  | .ret f => s.finish tauri h f
  | .op (.api (.submit _ _ _)) _ =>
      { s with
        holder := some h
        submitted := h :: s.submitted }
  | .op _ _ => { s with holder := some h }

/-- Starts lock work in the current session. -/
def startJob (tauri : Bool) (s : Session C) (seed : Seed) : Job C → Session C
  | .newIdentity i deviceState =>
      s.proceed tauri
        { caller := .init i
          gen := s.sessionGen
          base := none
          version := s.stateVersion
          submission := none
          rest := .ret (.commitDurable deviceState .identity)
          ticket := none
          committed := none }
  | .call i work =>
      match s.deviceStateCache with
      | none => s.deliver (.call i) (.error accountSwitched)
      | some cell =>
          let entry : Started State := ⟨s.userOf (.call i), s.boundUserId, cell⟩
          let s := { s with started := entry :: s.started }
          let holder (submission : Option (Submission State)) (rest : Section State) :
              Holder State :=
            { caller := .call i
              gen := s.sessionGen
              base := some cell
              version := s.stateVersion
              submission
              rest
              ticket := none
              committed := none }
          match work.run seed ⟨cell.state, s.ownCredential⟩ with
          | .ended f => s.proceed tauri (holder none (.ret f))
          | .ownCommit sub rest => s.awaitDurable tauri (holder (some sub) rest) s.stateVersion

/-- The next lock work's turn. -/
def lockNext (tauri : Bool) (s : Session C) (seed : Seed) : Option (Session C) :=
  match s.holder, s.queue with
  | none, next :: queue =>
      let s := { s with queue }
      if next.gen ≠ s.sessionGen then
        some (s.deliver next.job.caller (.error accountSwitched))
      else
        let s := { s with lockHolderGen := next.gen }
        some (s.startJob tauri seed next.job)
  | _, _ => none

/-- The work continues once the durability promise it awaits has settled. -/
def resume (tauri : Bool) (s : Session C) : Option (Session C) :=
  match s.holder with
  | none => none
  | some h =>
      match h.ticket.bind s.promises with
      | some (.ok _) => some (s.proceed tauri { h with ticket := none })
      | some (.error error) => some (s.release h (.error error))
      | none => none

/-- What the work awaits from outside is answered. -/
def holderReply (tauri : Bool) (s : Session C) (answer : (r : ApiRequest) → r.Reply) :
    Option (Session C) :=
  match s.holder with
  | none => none
  | some h =>
      match h.ticket, h.rest with
      | none, .op (.api request) k =>
          some (s.proceed tauri { h with rest := k (answer request) })
      | _, _ => none

def holderSlept (tauri : Bool) (s : Session C) : Option (Session C) :=
  match s.holder with
  | none => none
  | some h =>
      match h.ticket, h.rest with
      | none, .op (.sleep _) k => some (s.proceed tauri { h with rest := k () })
      | _, _ => none

/-! ## Identity -/

/-- The signed-in account is another one than the session's. -/
def switches (s : Session C) (currentUserId : Option UserId) : Bool :=
  match currentUserId, s.boundUserId with
  | some user, some bound => user != bound
  | _, _ => false

/-- `ensureIdentity`, and the initialization it leaves its caller to await. -/
def ensureIdentity (s : Session C) (currentUserId : Option UserId) : Session C × Option ℕ :=
  let s := if s.switches currentUserId then s.resetForUser currentUserId else s
  match s.deviceStateCache, s.identityPromise with
  | some _, _ => (s, none)
  | none, some i => (s, some i)
  | none, none =>
      ({ s with
          boundUserId := currentUserId.or s.boundUserId
          identityPromise := some s.inits.length
          inits := s.inits ++ [⟨currentUserId, s.sessionGen, .loading⟩] }, some s.inits.length)

/-- One round of the registration loop up to its await. -/
def registerDevice (C : Crypto State) (s : Session C) (i attempt : ℕ) (user : Option UserId)
    (uuid : DeviceId) (seed : Seed) : Session C :=
  let deviceId := (s.deviceIds user).getD uuid
  let credential := credentialFor (user.getD "undefined") deviceId.text
  let identity := C.generateIdentity seed credential
  { s.setPhase i (.registering attempt identity.1 credential) with
    deviceIds := Function.update s.deviceIds user (some deviceId) }

/-- `initIdentity` with a state read from disk. -/
def adopt (s : Session C) (i : ℕ) (user : Option UserId) (state : State) : Session C :=
  match C.deviceCredential state with
  | .error e => s.setPhase i (.failing (.stateUnavailable ("MLS_STATE_CORRUPT: " ++ e)))
  | .ok credential =>
      if user.any fun user => userIdOfLabel credential != user then
        s.setPhase i (.failing (.stateUnavailable
          "MLS_ACCOUNT_MISMATCH: the MLS state on this PC belongs to another account"))
      else
        let deviceIds :=
          match user with
          | none => s.deviceIds
          | some _ => Function.update s.deviceIds user (some (deviceIdOfLabel credential))
        let s := s.assign .loaded (some ⟨s.nextRef, state⟩)
        let version := s.stateVersion + 1
        { s.setPhase i .done with
          deviceIds
          ownCredential := some credential
          stateVersion := version
          persistedVersion := version
          durableVersion := version
          nextRef := s.nextRef + 1
          loads := (s.sessionGen, version) :: s.loads }

/-- `loadState` has returned: a state, nothing, or an error. -/
def loaded (tauri : Bool) (s : Session C) (i : ℕ) (result : Except String (Option State))
    (uuid : DeviceId) (seed : Seed) : Option (Session C) :=
  match s.inits[i]? with
  | none => none
  | some init =>
      match init.phase, (if tauri then result else .ok none) with
      | .loading, .error e => some (s.setPhase i (.failing (.stateUnavailable e)))
      | .loading, .ok state =>
          if init.gen ≠ s.sessionGen then
            some (s.setPhase i (.failing accountSwitched))
          else
            match state with
            | some state => some (s.adopt i init.user state)
            | none => some (s.registerDevice C i 0 init.user uuid seed)
      | _, _ => none

/-- The registration was answered; `taken` is the code `DEVICE_ID_TAKEN`. -/
def registered (s : Session C) (i : ℕ) (taken : Bool) (uuid : DeviceId) (seed : Seed) :
    Option (Session C) :=
  match s.inits[i]? with
  | none => none
  | some init =>
      match init.phase with
      | .registering attempt deviceState credential =>
          if taken && attempt == 0 then
            let s := { s with deviceIds := Function.update s.deviceIds init.user none }
            some (s.registerDevice C i 1 init.user uuid seed)
          else if init.gen ≠ s.sessionGen then
            some (s.setPhase i (.failing accountSwitched))
          else
            some { s.setPhase i (.locking credential) with
              queue := s.queue ++ [⟨s.sessionGen, .newIdentity i deviceState⟩] }
      | _ => none

/-- The `catch` of `ensureIdentity`: a failed initialization may be tried again. -/
def identityCaught (s : Session C) (i : ℕ) : Option (Session C) :=
  match s.inits[i]? with
  | none => none
  | some init =>
      match init.phase with
      | .failing error =>
          let s := s.setPhase i (.rejected error)
          some (if init.gen = s.sessionGen then { s with identityPromise := none } else s)
      | _ => none

/-! ## Calls -/

def healMinInterval : ℕ := 60000
def divergenceFailures : ℕ := 3
def divergenceWindow : ℕ := 120000

def setBooks (s : Session C) (books : Books) : Session C :=
  { s with books }

def scheduleHeal (s : Session C) (groupId : GroupId) : Session C :=
  match s.books.groupCtx groupId, s.boundUserId with
  | some ctx, some user =>
      if s.now - (s.books.lastHealAt groupId).getD 0 < healMinInterval then
        s
      else
        { s.setBooks { s.books with
            lastHealAt := Function.update s.books.lastHealAt groupId (some s.now) } with
          healTimers := s.healTimers ++ [⟨user, ctx, s.sessionGen⟩] }
  | _, _ => s

def noteCurrentEpochFailure (s : Session C) (groupId : GroupId) : Session C :=
  let entry :=
    match s.books.decryptFailures groupId with
    | none => (1, s.now)
    | some (count, since) =>
        if s.now - since < divergenceWindow then (count + 1, since) else (1, s.now)
  let note (entry : Option (ℕ × ℕ)) : Session C := s.setBooks { s.books with
    decryptFailures := Function.update s.books.decryptFailures groupId entry }
  if divergenceFailures ≤ entry.1 then (note none).scheduleHeal groupId else note (some entry)

/-- A call's next operation outside the lock, if that is not a request. -/
def perform (s : Session C) (i : ℕ) (call : Call C) :
    (o : CallOp C) → (o.Result → Async (CallOp C) CallOp.Result (Except Error CallResult)) →
      Option (Session C)
  | .ensureIdentity, k =>
      let r := s.ensureIdentity call.user
      match r.2 with
      | none => some (r.1.setCall i { call with rest := k (.ok ()) })
      | some init => some (r.1.setCall i { call with awaiting := .identity init })
  | .withStateLock work, _ =>
      some { s.setCall i { call with awaiting := .lock } with
        queue := s.queue ++ [⟨s.sessionGen, .call i work⟩] }
  | .api _, _ => none
  | .deviceStateCache, k =>
      some (s.setCall i { call with rest := k (s.deviceStateCache.map Cell.state) })
  | .setContext ctx, k =>
      let s := s.setBooks { s.books with
        groupCtx := Function.update s.books.groupCtx ctx.groupIdStr (some ctx) }
      some (s.setCall i { call with rest := k () })
  | .getContext groupId, k =>
      some (s.setCall i { call with rest := k (s.books.groupCtx groupId) })
  | .scheduleHeal groupId, k =>
      some ((s.scheduleHeal groupId).setCall i { call with rest := k () })
  | .noteHeal groupId, k =>
      let s := s.setBooks { s.books with
        lastHealAt := Function.update s.books.lastHealAt groupId (some s.now) }
      some (s.setCall i { call with rest := k () })
  | .noteCurrentEpochFailure groupId, k =>
      some ((s.noteCurrentEpochFailure groupId).setCall i { call with rest := k () })
  | .clearFailures groupId, k =>
      let s := s.setBooks { s.books with
        decryptFailures := Function.update s.books.decryptFailures groupId none }
      some (s.setCall i { call with rest := k () })
  | .takePendingSent groupId, k =>
      let sent := s.books.pendingSent groupId
      let s := s.setBooks { s.books with
        pendingSent := Function.update s.books.pendingSent groupId sent.tail }
      some (s.setCall i { call with rest := k sent.head? })
  | .claimRefresh groupId epoch, k =>
      let refreshed := s.books.groupInfoRefreshed
      if (groupId, epoch) ∈ refreshed then
        some (s.setCall i { call with rest := k false })
      else
        let s := s.setBooks { s.books with groupInfoRefreshed := (groupId, epoch) :: refreshed }
        some (s.setCall i { call with rest := k true })
  | .emitGroupChange _ _, k => some (s.setCall i { call with rest := k () })

/-- A call goes on by itself, or with the identity it awaited. -/
def advance (s : Session C) (i : ℕ) : Option (Session C) :=
  match s.calls[i]? with
  | none => none
  | some call =>
      match call.rest, call.awaiting with
      | .op o k, .nothing => s.perform i call o k
      | .op .ensureIdentity k, .identity j =>
          match (s.inits[j]?).map Init.phase with
          | some .done => some (s.setCall i { call with rest := k (.ok ()), awaiting := .nothing })
          | some (.rejected e) =>
              some (s.setCall i { call with rest := k (.error e), awaiting := .nothing })
          | _ => none
      | _, _ => none

/-- A request of a call is answered. -/
def reply (s : Session C) (i : ℕ) (answer : (r : ApiRequest) → r.Reply) : Option (Session C) :=
  match s.calls[i]? with
  | none => none
  | some call =>
      match call.rest with
      | .op (.api request) k => some (s.setCall i { call with rest := k (answer request) })
      | _ => none

def addCall (s : Session C) (user : Option UserId) (m : CallM C CallResult) : Session C :=
  { s with calls := s.calls ++ [⟨user, m.run, .nothing⟩] }

/-- A heal timer fires. After an account switch it does nothing. -/
def healTimer (codec : Codec) (s : Session C) (k : ℕ) : Option (Session C) :=
  match s.healTimers[k]? with
  | none => none
  | some timer =>
      let s := { s with healTimers := s.healTimers.eraseIdx k }
      if timer.gen ≠ s.sessionGen then some s
      else some (s.addCall (some timer.user) (healProgram codec timer.user timer.ctx))

end Session

/-! ## Runs -/

inductive Input (State : Type)
  | call (currentUserId : Option UserId) (routes : Routes) (function : PublicCall)
  | notePendingSent (groupId : GroupId) (plaintext : String)
  | resetForUser (user : Option UserId)
  | advance (i : ℕ)
  | reply (i : ℕ) (answer : (r : ApiRequest) → r.Reply)
  | healTimer (k : ℕ)
  | lockNext (seed : Seed)
  | resume
  | holderReply (answer : (r : ApiRequest) → r.Reply)
  | holderSlept
  | loaded (i : ℕ) (result : Except String (Option State)) (uuid : DeviceId) (seed : Seed)
  | registered (i : ℕ) (taken : Bool) (uuid : DeviceId) (seed : Seed)
  | identityCaught (i : ℕ)
  | saveReturned (k : ℕ) (result : Except String Unit)
  | tick

def Session.step (codec : Codec) (tauri : Bool) (s : Session C) :
    Input State → Option (Session C)
  | .call user routes function => some (s.addCall user (function.program codec user routes))
  | .notePendingSent groupId plaintext =>
      some { s with books := { s.books with
        pendingSent := Function.update s.books.pendingSent groupId
          (s.books.pendingSent groupId ++ [plaintext]) } }
  | .resetForUser user => some (s.resetForUser user)
  | .advance i => s.advance i
  | .reply i answer => s.reply i answer
  | .healTimer k => s.healTimer codec k
  | .lockNext seed => s.lockNext tauri seed
  | .resume => s.resume tauri
  | .holderReply answer => s.holderReply tauri answer
  | .holderSlept => s.holderSlept tauri
  | .loaded i result uuid seed => s.loaded tauri i result uuid seed
  | .registered i taken uuid seed => s.registered i taken uuid seed
  | .identityCaught i => s.identityCaught i
  | .saveReturned k result => s.saveReturned k result
  | .tick => some { s with now := s.now + 1 }

/-- `mlsSession.js` as a system, in the desktop app or outside it. -/
def session (C : Crypto State) (codec : Codec) (tauri : Bool) :
    StepSystem (Session C) (Input State) where
  step := Session.step codec tauri

end SpecterComs.MlsSession
