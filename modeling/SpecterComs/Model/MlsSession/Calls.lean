import SpecterComs.Model.MlsSession.Sections

/-! # The session's functions outside the lock

Each is a program over what it awaits and over the module variables it reads and
writes between two awaits. Nothing here commits a state; that is left to the work it
hands to `withStateLock`.
-/

namespace SpecterComs.MlsSession

variable {State : Type}

inductive CallOp (C : Crypto State)
  /-- For the call's own `currentUserId`. -/
  | ensureIdentity
  | withStateLock (work : LockWork C)
  | api (request : ApiRequest)
  /-- Reads the cache without the lock. -/
  | deviceStateCache
  | setContext (ctx : Context)
  | getContext (groupId : GroupId)
  | scheduleHeal (groupId : GroupId)
  /-- `lastHealAt.set(groupId, Date.now())`. -/
  | noteHeal (groupId : GroupId)
  | noteCurrentEpochFailure (groupId : GroupId)
  /-- `decryptFailures.delete(groupId)`. -/
  | clearFailures (groupId : GroupId)
  | takePendingSent (groupId : GroupId)
  /-- Adds a key to `groupInfoRefreshed`, and says whether it was new. -/
  | claimRefresh (groupId : GroupId) (epoch : ℕ)
  | emitGroupChange (groupId : GroupId) (removed : Bool)

abbrev CallOp.Result {C : Crypto State} : CallOp C → Type
  | .ensureIdentity => Except Error Unit
  | .withStateLock _ => Except Error LockResult
  | .api request => request.Reply
  | .deviceStateCache => Option State
  | .setContext _ => Unit
  | .getContext _ => Option Context
  | .scheduleHeal _ => Unit
  | .noteHeal _ => Unit
  | .noteCurrentEpochFailure _ => Unit
  | .clearFailures _ => Unit
  | .takePendingSent _ => Option String
  | .claimRefresh _ _ => Bool
  | .emitGroupChange _ _ => Unit

/-- Asynchronous code that may throw. -/
abbrev CallM (C : Crypto State) := ExceptT Error (Async (CallOp C) CallOp.Result)

variable {C : Crypto State}

/-- An operation that does not throw. -/
def await (o : CallOp C) : CallM C o.Result :=
  ExceptT.lift (Async.perform o)

def ensureIdentity : CallM C Unit :=
  ExceptT.mk (Async.perform CallOp.ensureIdentity)

def withStateLock (work : LockWork C) : CallM C LockResult :=
  ExceptT.mk (Async.perform (CallOp.withStateLock work))

/-- A thrown error that is none of the module's own. -/
def liftText {α : Type} (x : Except String α) : CallM C α :=
  ExceptT.mk (.ret (x.mapError .other))

def unexpected {α : Type} : CallM C α :=
  throw (.other "unexpected result")

/-- `group_exists(deviceStateCache, groupId)`, which throws on a `null` state. -/
def cachedExists (groupId : GroupId) : CallM C Bool := do
  match ← await .deviceStateCache with
  | none => throw (.other "no device state")
  | some s => pure (C.groupExists s groupId)

variable (codec : Codec)

/-! ## Own commits -/

/-- `runOwnCommit`. -/
def runOwnCommit (ctx : Context) (route : Route) (build : Build C) : CallM C OwnCommit := do
  match ← withStateLock (ownCommitWork codec ctx route build) with
  | .ownCommit (.merged removed held) =>
      await (.emitGroupChange ctx.groupIdStr removed)
      pure (.merged removed held)
  | .ownCommit out => pure out
  | _ => unexpected

def removeOwnStaleLeaves (ctx : Context) : CallM C Unit :=
  tryCatch
    (do
      let _ ← runOwnCommit codec ctx .commit (removeOwnStaleBuild C ctx.groupIdStr)
      pure ())
    fun _ => pure ()

/-! ## Catch-up -/

/-- `catchUpGroup`'s result. -/
structure Status where
  ok : Bool
  held : Bool
  localEpoch : Option ℕ
  serverEpoch : Option ℕ
  groupInfoEpoch : Option ℕ
  diverged : Bool
  deriving DecidableEq, Repr

def CatchUpData.serverEpoch (data : CatchUpData) : Option ℕ :=
  match data.currentEpoch with
  | some epoch => some epoch
  | none => (data.commits.map Prod.fst).max?

/-- With the server's own epoch any mismatch is divergence; from the log alone only
"behind" is certain. -/
def CatchUpData.diverged (data : CatchUpData) (localEpoch : Option ℕ) : Bool :=
  match localEpoch, data.serverEpoch with
  | some epoch, some server =>
      0 < server && (if data.currentEpoch.isSome then epoch != server else epoch < server)
  | _, _ => false

def CatchUpData.status (data : CatchUpData) (localEpoch : Option ℕ) : Status :=
  { ok := true
    held := localEpoch.isSome
    localEpoch
    serverEpoch := data.serverEpoch
    groupInfoEpoch := data.groupInfoEpoch
    diverged := data.diverged localEpoch }

/-- The epoch whose GroupInfo `maybeRefreshGroupInfo` would upload again. -/
def refreshEpoch (ctx : Context) (status : Status) : Option ℕ :=
  match status.serverEpoch with
  | none => none
  | some server =>
      if !ctx.routes.putGroupInfo || !status.held || server = 0 then none
      else if status.groupInfoEpoch = some server || status.localEpoch ≠ some server then none
      else some server

def uploadGroupInfo (ctx : Context) (server : ℕ) : CallM C Unit := do
  match ← await .deviceStateCache with
  | none => pure ()
  | some s =>
      if C.groupEpoch s ctx.groupIdStr ≠ some server then
        pure ()
      else
        match C.exportGroupInfo s ctx.groupIdStr with
        | .error _ => pure ()
        | .ok info =>
            let _ ← await (.api (.putGroupInfo ctx.target (uploadBody server (codec.toB64 info))))
            pure ()

def maybeRefreshGroupInfo (ctx : Context) (status : Status) : CallM C Unit :=
  match refreshEpoch ctx status with
  | none => pure ()
  | some server => do
      if ← await (.claimRefresh ctx.groupIdStr server) then
        uploadGroupInfo codec ctx server

/-- The status when the catch-up could not be fetched. -/
def unfetched (localEpoch : Option ℕ) : Status :=
  ⟨false, localEpoch.isSome, localEpoch, none, none, false⟩

def finishCatchUp (ctx : Context) (data : CatchUpData) : LockResult → CallM C Status
  | .caughtUp changed epoch removed => do
      if changed then
        await (.emitGroupChange ctx.groupIdStr removed)
      let status := data.status epoch
      if !status.diverged && data.currentEpoch.isSome then
        maybeRefreshGroupInfo codec ctx status
      pure status
  | _ => unexpected

def catchUpGroup (ctx : Context) : CallM C Status := do
  match ← await (.api (.catchUp ctx.target)) with
  | .error _ =>
      let cache ← await .deviceStateCache
      pure (unfetched (cache.bind (C.groupEpoch · ctx.groupIdStr)))
  | .ok data =>
      let result ← withStateLock (catchUpWork C codec ctx.groupIdStr data)
      finishCatchUp codec ctx data result

/-! ## External join and resync -/

inductive Heal
  | joined
  | resynced
  | none (reason : Option String)
  | absent
  | failed (reason : String)
  | skipped (reason : String)
  deriving DecidableEq, Repr

/-- The server has no such group, or predates GroupInfo. -/
def Heal.mayCreate : Heal → Bool
  | .absent => true
  | .none reason => reason == some "unsupported"
  | _ => false

/-- Why a GroupInfo fetch failed. -/
def groupInfoReason (error : String) : String :=
  let error := String.ofList (error.toList.map Char.toLower)
  if ["not a member", "not assigned", "not a participant", "not friends", "forbidden", "403"].any
      fun needle => containsText needle error then
    "not_member"
  else
    "group_info_error"

/-- What follows an external commit that ran. A lost race may leave the copy healthy,
and else the join is tried again. -/
def finishExternal (ctx : Context) (force : Bool) (retry : CallM C Heal) :
    OwnCommit → CallM C Heal
  | .skipped => pure (.none none)
  | .merged _ held => do
      removeOwnStaleLeaves codec ctx
      pure (if held then .resynced else .joined)
  | .refused error _ =>
      if !isEpochConflict error then
        pure (.failed "rejected")
      else do
        let status ← catchUpGroup codec ctx
        if status.held && !status.diverged && !force then pure (.none none) else retry

def externalCommit (ctx : Context) (force : Bool) (retry : CallM C Heal) (epoch : ℕ)
    (groupInfo : Bytes) : CallM C Heal := do
  let out ← tryCatch
    (do
      let out ← runOwnCommit codec ctx .externalCommit
        (externalBuild C ctx.groupIdStr groupInfo epoch force)
      pure (some out))
    fun error =>
      match error with
      | .stateUnavailable _ => throw error
      | _ => pure none
  match out with
  | none => pure (.failed "join_failed")
  | some out => finishExternal codec ctx force retry out

def externalAttempts (ctx : Context) (force : Bool) : ℕ → CallM C Heal
  | 0 => pure (.failed "epoch_conflict")
  | attempts + 1 => do
      match ← await (.api (.getGroupInfo ctx.target)) with
      | .error error =>
          if isHttp404 error then pure (.none (some "unsupported"))
          else pure (.failed (groupInfoReason error))
      | .ok data =>
          if !data.exists' then
            pure .absent
          else
            match data.groupInfo.filter fun info => !info.isEmpty with
            | none => pure (.failed "group_info_unavailable")
            | some info =>
                let groupInfo ← liftText (codec.fromB64 info)
                externalCommit codec ctx force (externalAttempts ctx force attempts) data.epoch
                  groupInfo

def externalJoinOrResync (ctx : Context) (force : Bool) : CallM C Heal :=
  if !ctx.routes.getGroupInfo || !ctx.routes.externalCommit then pure (.none (some "unsupported"))
  else externalAttempts codec ctx force 3

/-! ## Group setup and reconciliation -/

def decodeDevice (userId : UserId) (d : String × String) : Except String Device := do
  let keyPackage ← codec.fromB64 d.2
  .ok ⟨userId, d.1, keyPackage⟩

def fetchDevicesOf : List UserId → CallM C (List Device)
  | [] => pure []
  | userId :: rest => do
      let reply ← await (.api (.getUserDeviceKeyPackages userId))
      let devices ← match reply with
        | .error _ => pure []
        | .ok devices => liftText (devices.mapM (decodeDevice codec userId))
      let others ← fetchDevicesOf rest
      pure (devices ++ others)

def attemptGroupGenesis (ctx : Context) (otherMemberIds : List UserId) : CallM C OwnCommit := do
  let devices ← fetchDevicesOf codec otherMemberIds
  if devices.isEmpty then
    pure .skipped
  else
    runOwnCommit codec ctx .commit
      (genesisBuild C ctx.groupIdStr (devices.map Device.keyPackage) otherMemberIds)

def othersOf (currentUserId : Option UserId) (members : List UserId) : List UserId :=
  members.filter fun id => some id ≠ currentUserId

def reconcileGroupDevices (currentUserId : Option UserId) (ctx : Context)
    (members : List UserId) : CallM C Unit := do
  let _ ← runOwnCommit codec ctx .commit (removeStaleBuild C ctx.groupIdStr members)
  let devices ← fetchDevicesOf codec (othersOf currentUserId members)
  if devices.isEmpty then
    pure ()
  else
    let _ ← runOwnCommit codec ctx .commit (addMissingBuild C ctx.groupIdStr devices)
    pure ()

/-- After a lost genesis race the group exists, and is joined. -/
def joinWinner (ctx : Context) : CallM C Unit := do
  if !(← cachedExists ctx.groupIdStr) then
    let _ ← catchUpGroup codec ctx
    if !(← cachedExists ctx.groupIdStr) then
      let _ ← externalJoinOrResync codec ctx false
      pure ()

def ensureGroupWithMember (ctx : Context) (otherUserId : UserId) : CallM C Unit := do
  ensureIdentity
  let status ← catchUpGroup codec ctx
  let held ← cachedExists ctx.groupIdStr
  let mayCreate ←
    if !held || status.diverged then do
      let heal ← externalJoinOrResync codec ctx false
      pure heal.mayCreate
    else
      pure true
  let devices ← fetchDevicesOf codec [otherUserId]
  if devices.isEmpty then
    pure ()
  else
    let r ← runOwnCommit codec ctx .commit (memberBuild C ctx.groupIdStr devices mayCreate)
    if r.conflict then joinWinner codec ctx

/-- `isMissingMembersRoute`, then the list of an older server. -/
def fetchChannelMemberIds (routes : Routes) (orgId chanId : String) :
    CallM C (List UserId) := do
  let members ←
    if routes.channelMembers then
      await (.api (.getChannelMlsMembers orgId chanId))
    else
      pure (.error "HTTP 404")
  match members with
  | .ok ids => pure ids.eraseDups
  | .error error =>
      if isHttp404 error then do
        match ← await (.api (.getOrgMembers orgId)) with
        | .ok ids => pure ids.eraseDups
        | .error _ => pure []
      else
        throw (.other ("[mls] channel member list unavailable: " ++ error))

/-- `ctx.fetchMemberIds()`. A DM has none. -/
def fetchMemberIds (ctx : Context) : CallM C (Option (List UserId)) :=
  match ctx.target with
  | .dm _ => pure none
  | .channel orgId chanId => do
      let ids ← fetchChannelMemberIds ctx.routes orgId chanId
      pure (some ids)
  | .event orgId eventId => do
      match ← await (.api (.getEventParticipants orgId eventId)) with
      | .ok ids => pure (some ids.eraseDups)
      | .error error => throw (.other ("[mls] event participant list unavailable: " ++ error))

def contains (members : List UserId) (currentUserId : Option UserId) : Bool :=
  currentUserId.any members.contains

/-- The joining rounds of `ensureReconciledGroup`: `round` and those after it, of two. -/
def joinRounds (currentUserId : Option UserId) (ctx : Context) (diverged : Bool)
    (members : List UserId) : (rounds : ℕ) → (first : Bool) → CallM C Unit
  | 0, _ => pure ()
  | rounds + 1, first => do
      let held ← cachedExists ctx.groupIdStr
      if held && !(first && diverged) then
        pure ()
      else
        let heal ← externalJoinOrResync codec ctx false
        if (← cachedExists ctx.groupIdStr) || held then
          pure ()
        else if !heal.mayCreate then
          pure ()
        else
          let g ← attemptGroupGenesis codec ctx (othersOf currentUserId members)
          if !g.conflict then
            pure ()
          else
            let _ ← catchUpGroup codec ctx
            if heal = .none (some "unsupported") then
              pure ()
            else
              joinRounds currentUserId ctx diverged members rounds false

def ensureReconciledGroup (currentUserId : Option UserId) (ctx : Context) : CallM C Unit := do
  ensureIdentity
  let status ← catchUpGroup codec ctx
  let members := (← fetchMemberIds ctx).getD []
  if !contains members currentUserId then
    pure ()
  else
    joinRounds codec currentUserId ctx status.diverged members 2 true
    if ← cachedExists ctx.groupIdStr then
      reconcileGroupDevices codec currentUserId ctx members
    let _ ← catchUpGroup codec ctx
    pure ()

/-! ## Healing -/

def healGroup (currentUserId : Option UserId) (ctx : Context) (force : Bool) : CallM C Heal := do
  await (.noteHeal ctx.groupIdStr)
  let status ← catchUpGroup codec ctx
  let members ← fetchMemberIds ctx
  if members.any fun ids => !contains ids currentUserId then
    pure (.skipped "not_on_list")
  else
    let held ← cachedExists ctx.groupIdStr
    if held && !status.diverged && !force then pure (.none none)
    else externalJoinOrResync codec ctx force

structure HealReport where
  healed : List GroupId
  failed : List (GroupId × String)
  checked : ℕ
  deriving DecidableEq, Repr

def HealReport.add (report : HealReport) (groupId : GroupId) : Heal → HealReport
  | .skipped _ => report
  | .joined => { report with healed := report.healed ++ [groupId], checked := report.checked + 1 }
  | .resynced =>
      { report with healed := report.healed ++ [groupId], checked := report.checked + 1 }
  | .failed reason =>
      { report with failed := report.failed ++ [(groupId, reason)], checked := report.checked + 1 }
  | _ => { report with checked := report.checked + 1 }

/-- The groups of `healOrgImpl`, one after the other. A lost device state ends it. -/
def healGroups (currentUserId : Option UserId) (force : Bool) (report : HealReport) :
    List Context → CallM C HealReport
  | [] => pure report
  | ctx :: rest => do
      let outcome ← tryCatch
        (do
          let heal ← healGroup codec currentUserId ctx force
          pure (Except.ok heal))
        fun error => pure (Except.error error)
      match outcome with
      | .ok heal => healGroups currentUserId force (report.add ctx.groupIdStr heal) rest
      | .error (.stateUnavailable _) =>
          pure { report with failed := report.failed ++ [(ctx.groupIdStr, "state_unavailable")] }
      | .error error =>
          healGroups currentUserId force
            { report with
              failed := report.failed ++ [(ctx.groupIdStr, error.message)]
              checked := report.checked + 1 } rest

def setContexts : List Context → CallM C Unit
  | [] => pure ()
  | ctx :: rest => do
      await (.setContext ctx)
      setContexts rest

/-- The launched events' contexts. -/
def eventContexts (routes : Routes) (orgId : String) : CallM C (List Context) := do
  if routes.orgEvents then
    match ← await (.api (.getOrgEvents orgId)) with
    | .ok events =>
        pure ((events.filter Prod.snd).map fun e => eventContext routes orgId e.1)
    | .error _ => pure []
  else
    pure []

/-- `healOrgImpl`. -/
def healOrg (currentUserId : Option UserId) (routes : Routes) (orgId : String) (force : Bool) :
    CallM C HealReport := do
  let ready ← tryCatch
    (do
      ensureIdentity
      pure true)
    fun _ => pure false
  if !ready then
    pure ⟨[], [(orgId, "state_unavailable")], 0⟩
  else
    let reply ← await (.api (.getChannels orgId))
    let channels := match reply with
      | .ok ids => ids.map (channelContext routes orgId)
      | .error _ => []
    let report := match reply with
      | .ok _ => HealReport.mk [] [] 0
      | .error _ => ⟨[], [(orgId, "channel_list_unavailable")], 0⟩
    setContexts channels
    let events ← eventContexts routes orgId
    setContexts events
    healGroups codec currentUserId force report (channels ++ events)

/-! ## Application messages -/

def encryptGroup (groupId : GroupId) (plaintext : String) :
    CallM C String := do
  ensureIdentity
  match ← withStateLock (encryptWork C groupId (codec.encodeText plaintext)) with
  | .ciphertext bytes => pure (codec.toB64 bytes)
  | _ => unexpected

def tryDecryptLocked (groupId : GroupId) (ciphertext : Bytes) : CallM C DecryptAttempt := do
  match ← withStateLock (decryptWork C codec groupId ciphertext) with
  | .attempt attempt => pure attempt
  | _ => unexpected

/-- What is awaited here fails as `state_unavailable`. -/
def orUnavailable {α : Type} (m : CallM C α) : CallM C α :=
  tryCatch m fun error => throw (.decrypt "state_unavailable" error.message none none)

/-- Catches up before a decrypt is tried again, and heals what that could not. -/
def catchUpForDecrypt (ctx : Context) : CallM C Unit := do
  let status ← tryCatch
    (do
      let status ← catchUpGroup codec ctx
      pure (some status))
    fun _ => pure none
  match status with
  | none => pure ()
  | some status =>
      if status.diverged || !status.held then
        await (.scheduleHeal ctx.groupIdStr)

/-- Why an attempt failed, once nothing more can be caught up. -/
def decryptError (msgEpoch : ℕ) (attempt : DecryptAttempt) (error : String) : Error :=
  match attempt.localEpoch with
  | none =>
      .decrypt "not_member" "this device does not hold the group" (some msgEpoch) none
  | some localEpoch =>
      if localEpoch < msgEpoch then
        .decrypt "epoch_ahead_unresolved" "message is from an epoch this device has not reached"
          (some msgEpoch) (some localEpoch)
      else if msgEpoch < localEpoch then
        .decrypt "epoch_too_old" "message epoch secrets are no longer held"
          (some msgEpoch) (some localEpoch)
      else
        .decrypt "corrupt" error (some msgEpoch) (some localEpoch)

/-- The plaintext of an attempt, or the error it ends in. -/
def settleDecrypt (groupId : GroupId) (msgEpoch : ℕ) (attempt : DecryptAttempt) :
    CallM C String :=
  match attempt.plaintext with
  | .ok text => do
      await (.clearFailures groupId)
      pure text
  | .error error => throw (decryptError msgEpoch attempt error)

def parseMessage (ciphertextB64 : String) : Except String (Bytes × ℕ) := do
  let ciphertext ← codec.fromB64 ciphertextB64
  let epoch ← C.messageEpoch ciphertext
  .ok (ciphertext, epoch)

/-- Not held, or the message is ahead: a catch-up may help. -/
def DecryptAttempt.isBehind (attempt : DecryptAttempt) (msgEpoch : ℕ) : Bool :=
  match attempt.plaintext, attempt.localEpoch with
  | .ok _, _ => false
  | .error _, none => true
  | .error _, some localEpoch => localEpoch < msgEpoch

def decryptGroupTyped (groupId : GroupId)
    (ciphertextB64 : String) : CallM C String := do
  orUnavailable ensureIdentity
  match parseMessage codec (C := C) ciphertextB64 with
  | .error _ => throw (.decrypt "corrupt" "not an MLS message" none none)
  | .ok (ciphertext, msgEpoch) =>
      let attempt ← orUnavailable (tryDecryptLocked codec groupId ciphertext)
      if !attempt.isBehind msgEpoch then
        settleDecrypt groupId msgEpoch attempt
      else
        match ← await (.getContext groupId) with
        | none => settleDecrypt groupId msgEpoch attempt
        | some ctx =>
            catchUpForDecrypt codec ctx
            let attempt ← orUnavailable (tryDecryptLocked codec groupId ciphertext)
            settleDecrypt groupId msgEpoch attempt

/-- A failure at the current epoch is counted, unless it is this account's own echo. -/
def noteFailure (groupId : GroupId) (isOwnAccount : Bool) : Error → CallM C Unit
  | .decrypt reason _ _ (some _) =>
      if reason = "corrupt" ∧ !isOwnAccount then await (.noteCurrentEpochFailure groupId)
      else pure ()
  | _ => pure ()

def decryptGroupOrRecallOwn (groupId : GroupId)
    (ciphertextB64 : String) (isOwnAccount : Bool) : CallM C String :=
  tryCatch (decryptGroupTyped codec groupId ciphertextB64) fun error => do
    let recalled ← if isOwnAccount then await (.takePendingSent groupId) else pure none
    match recalled with
    | some text => pure text
    | none => do
        noteFailure groupId isOwnAccount error
        throw error

def handleGroupWelcome (groupId : GroupId)
    (welcomeB64 : String) : CallM C Unit := do
  ensureIdentity
  let welcome ← liftText (codec.fromB64 welcomeB64)
  match ← withStateLock (welcomeWork C groupId welcome) with
  | .joined true => await (.emitGroupChange groupId false)
  | _ => pure ()

/-- A live commit this copy could not apply. -/
def healLiveCommit (groupId : GroupId) (unappliable : Bool) : CallM C Unit := do
  match ← await (.getContext groupId) with
  | none => await (.scheduleHeal groupId)
  | some ctx =>
      let status ← tryCatch
        (do
          let status ← catchUpGroup codec ctx
          pure (some status))
        fun _ => pure none
      if status.any fun status => status.diverged || unappliable then
        await (.scheduleHeal groupId)

def handleGroupCommit (groupId : GroupId)
    (commitB64 : String) : CallM C Unit := do
  ensureIdentity
  let commit ← liftText (codec.fromB64 commitB64)
  match ← withStateLock (commitWork C groupId commit) with
  | .liveCommit (.applied removed) => await (.emitGroupChange groupId removed)
  | .liveCommit .behind => healLiveCommit codec groupId false
  | .liveCommit .unappliable => healLiveCommit codec groupId true
  | _ => pure ()

/-- `syncChannelGroupEpoch` and `syncEventGroupEpoch`. -/
def syncGroupEpoch (ctx : Context) : CallM C Unit := do
  ensureIdentity
  await (.setContext ctx)
  let status ← catchUpGroup codec ctx
  if status.diverged then
    await (.scheduleHeal ctx.groupIdStr)

def exportGroupSecret (groupId : GroupId) (label : String)
    (length : ℕ) : CallM C Bytes := do
  ensureIdentity
  match ← await .deviceStateCache with
  | none => throw (.other "no device state")
  | some s => liftText (C.exportSecret s groupId label length)

def signBytes (messageBytes : Bytes) : CallM C Bytes := do
  ensureIdentity
  match ← await .deviceStateCache with
  | none => throw (.other "no device state")
  | some s => pure (C.signBytes s messageBytes)

/-! ## The exported functions -/

inductive PublicCall
  | ensureIdentity
  | ensureDmGroup (otherUserId : UserId) (convId : GroupId)
  | ensureChannelGroup (orgId chanId : String)
  | ensureEventGroup (orgId eventId : String)
  | healOrgEncryption (orgId : String) (force : Bool)
  /-- `encryptDm` and `encryptChannel`. -/
  | encrypt (groupId : GroupId) (plaintext : String)
  /-- `decryptDmOrRecallOwn` and `decryptChannel`. -/
  | decrypt (groupId : GroupId) (ciphertextB64 : String) (isOwnAccount : Bool)
  /-- `handleDmWelcome`, `handleChannelWelcome` and `handleEventGroupWelcome`. -/
  | handleWelcome (groupId : GroupId) (welcomeB64 : String)
  /-- `handleDmCommit`, `handleChannelCommit` and `handleEventGroupCommit`. -/
  | handleCommit (groupId : GroupId) (commitB64 : String)
  | syncChannelGroupEpoch (orgId chanId : String)
  | syncEventGroupEpoch (orgId eventId : String)
  | exportGroupSecret (groupId : GroupId) (label : String) (length : ℕ)
  | signBytes (messageBytes : Bytes)
  deriving DecidableEq, Repr

inductive CallResult
  | done
  | ciphertext (text : String)
  | plaintext (text : String)
  | healed (report : HealReport)
  | bytes (bytes : Bytes)
  deriving DecidableEq, Repr

/-- Registers a context before the call's first await. -/
def withContext (ctx : Context) (m : CallM C Unit) : CallM C CallResult := do
  await (.setContext ctx)
  m
  pure .done

def PublicCall.program (currentUserId : Option UserId) (routes : Routes) :
    PublicCall → CallM C CallResult
  | .ensureIdentity => do
      MlsSession.ensureIdentity
      pure .done
  | .ensureDmGroup other convId =>
      let ctx := dmContext routes other convId
      withContext ctx (ensureGroupWithMember codec ctx other)
  | .ensureChannelGroup orgId chanId =>
      let ctx := channelContext routes orgId chanId
      withContext ctx (ensureReconciledGroup codec currentUserId ctx)
  | .ensureEventGroup orgId eventId =>
      let ctx := eventContext routes orgId eventId
      withContext ctx (ensureReconciledGroup codec currentUserId ctx)
  | .healOrgEncryption orgId force => do
      let report ← healOrg codec currentUserId routes orgId force
      pure (.healed report)
  | .encrypt groupId plaintext => do
      let text ← encryptGroup codec groupId plaintext
      pure (.ciphertext text)
  | .decrypt groupId ciphertextB64 isOwnAccount => do
      let text ← decryptGroupOrRecallOwn codec groupId ciphertextB64 isOwnAccount
      pure (.plaintext text)
  | .handleWelcome groupId welcomeB64 => do
      handleGroupWelcome codec groupId welcomeB64
      pure .done
  | .handleCommit groupId commitB64 => do
      handleGroupCommit codec groupId commitB64
      pure .done
  | .syncChannelGroupEpoch orgId chanId => do
      syncGroupEpoch codec (channelContext routes orgId chanId)
      pure .done
  | .syncEventGroupEpoch orgId eventId => do
      syncGroupEpoch codec (eventContext routes orgId eventId)
      pure .done
  | .exportGroupSecret groupId label length => do
      let secret ← MlsSession.exportGroupSecret groupId label length
      pure (.bytes secret)
  | .signBytes messageBytes => do
      let signature ← MlsSession.signBytes messageBytes
      pure (.bytes signature)

/-- The call a heal timer starts. -/
def healProgram (currentUserId : UserId) (ctx : Context) : CallM C CallResult := do
  let _ ← healGroup codec (some currentUserId) ctx false
  pure .done

end SpecterComs.MlsSession
