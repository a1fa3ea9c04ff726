import SpecterComs.Library.Async
import SpecterComs.Library.ExceptBind
import SpecterComs.Model.MlsSession.Api

/-! # Lock sections

The functions `mlsSession.js` runs under `withStateLock`. A section reads the module
variables once, when it starts. It ends there, except for an own commit, which first
awaits the durability of what it read and then the server.
-/

namespace SpecterComs.MlsSession

/-! ## What a section awaits and returns -/

inductive SectionOp
  | api (request : ApiRequest)
  | sleep (ms : ℕ)

abbrev SectionOp.Result : SectionOp → Type
  | .api request => request.Reply
  | .sleep _ => Unit

/-- `tryDecryptLocked`'s result. -/
structure DecryptAttempt where
  plaintext : Except String String
  localEpoch : Option ℕ
  deriving Repr

inductive LiveCommit
  | applied (removed : Bool)
  | notHeld
  | stale
  | behind
  | unappliable
  deriving DecidableEq, Repr

/-- `runOwnCommit`'s result. -/
inductive OwnCommit
  | skipped
  /-- `undetermined` is whether nothing told what the server had done. -/
  | refused (error : String) (undetermined : Bool)
  /-- Merged. `held` is whether the base held the group. -/
  | merged (removed held : Bool)
  deriving DecidableEq, Repr

/-- The `conflict` of a result. -/
def OwnCommit.conflict : OwnCommit → Bool
  | .refused error _ => isEpochConflict error
  | _ => false

inductive LockResult
  | ciphertext (bytes : Bytes)
  | attempt (attempt : DecryptAttempt)
  | joined (joined : Bool)
  | liveCommit (outcome : LiveCommit)
  | caughtUp (changed : Bool) (epoch : Option ℕ) (removed : Bool)
  | ownCommit (out : OwnCommit)
  | identity

/-- How a section ends. Its commit, if any, comes last. -/
inductive Finish (State : Type)
  | returned (result : LockResult)
  | thrown (error : Error)
  /-- `commitState`, then return. -/
  | commitState (state : State) (result : LockResult)
  /-- `commitDurableLocked`, then return. -/
  | commitDurable (state : State) (result : LockResult)
  /-- `commitDurableLocked` where the cache still is the object that was read. -/
  | merge (state : State) (result : LockResult)

def Finish.state? {State : Type} : Finish State → Option State
  | .returned _ => none
  | .thrown _ => none
  | .commitState s _ => some s
  | .commitDurable s _ => some s
  | .merge s _ => some s

abbrev Section (State : Type) := Async SectionOp SectionOp.Result (Finish State)

/-- The module variables a section reads when it starts. -/
structure View (State : Type) where
  state : State
  ownCredential : Option Label

/-! ## Submitting an own commit -/

/-- What `build` returns. An empty Welcome or GroupInfo is none. -/
structure Plan (State : Type) where
  state : State
  commit : Bytes
  welcome : Bytes
  targetEpoch : ℕ
  welcomedUserIds : List UserId
  groupInfo : Bytes

/-- A plan and where it is submitted. -/
structure Submission (State : Type) where
  ctx : Context
  route : Route
  plan : Plan State

variable {State : Type} (C : Crypto State) (codec : Codec)

/-- The base64 text, or `null` where there is nothing to send. -/
def toB64OrNull (bytes : Bytes) : Option String :=
  if bytes.isEmpty then none else some (codec.toB64 bytes)

def Submission.body (sub : Submission State) : Body :=
  let commit := codec.toB64 sub.plan.commit
  let groupInfo := toB64OrNull codec sub.plan.groupInfo
  match sub.route with
  | .commit =>
      sub.ctx.commitBody sub.plan.targetEpoch commit (toB64OrNull codec sub.plan.welcome)
        sub.plan.welcomedUserIds groupInfo
  | .externalCommit => externalBody sub.plan.targetEpoch commit groupInfo

/-- `wasOwnCommitAccepted`, with the attempts still to make. Where all have failed it
logs that the outcome is unknown, and the commit counts as not accepted. -/
def wasOwnCommitAccepted (target : Target) (targetEpoch : ℕ) (commitB64 : String) :
    List ℕ → Async SectionOp SectionOp.Result (Option Bool)
  | [] => .ret none
  | attempt :: rest =>
      .op (.api (.catchUp target)) fun
        | .ok data => .ret (some (data.commits.any fun c => c.1 == targetEpoch && c.2 == commitB64))
        | .error _ =>
            .op (.sleep (500 * (attempt + 1))) fun _ =>
              wasOwnCommitAccepted target targetEpoch commitB64 rest

/-- The plan's state is adopted where the base still is the current one. -/
def mergePlan (sub : Submission State) (base : State) : Finish State :=
  let groupId := sub.ctx.groupIdStr
  let removed := anyRemoved (C.labelsIn base groupId) (C.labelsIn sub.plan.state groupId)
  .merge sub.plan.state (.ownCommit (.merged removed (C.groupExists base groupId)))

/-- `runOwnCommit` from the submit on. -/
def submitPlan (sub : Submission State) (base : State) : Section State :=
  .op (.api (.submit sub.route sub.ctx.target (sub.body codec))) fun
    | .ok _ => .ret (mergePlan C sub base)
    | .error e =>
        if isEpochConflict e then
          .ret (.returned (.ownCommit (.refused e false)))
        else do
          match ← wasOwnCommitAccepted sub.ctx.target sub.plan.targetEpoch
              (codec.toB64 sub.plan.commit) [0, 1, 2] with
          | some true => .ret (mergePlan C sub base)
          | some false => .ret (.returned (.ownCommit (.refused e false)))
          | none => .ret (.returned (.ownCommit (.refused e true)))

/-! ## Lock work -/

/-- How lock work starts: it ends at once, or it awaits the durability of what it read
and then submits an own commit. -/
inductive Start (State : Type)
  | ended (f : Finish State)
  | ownCommit (sub : Submission State) (rest : Section State)

/-- A state that `f` commits was computed from `base`. -/
def Finish.From (base : State) (f : Finish State) : Prop :=
  ∀ s ∈ f.state?, C.Computes base s

/-- A ciphertext comes with the durable commit of the state its encryption left. -/
def Finish.Sends (base : State) : Finish State → Prop
  | .returned (.ciphertext _) => False
  | .commitState _ (.ciphertext _) => False
  | .merge _ (.ciphertext _) => False
  | .commitDurable s (.ciphertext bytes) =>
      ∃ seed groupId plaintext, C.encrypt seed base groupId plaintext = .ok (s, bytes)
  | _ => True

structure Finish.Sound (base : State) (f : Finish State) : Prop where
  computed : f.From C base
  sends : f.Sends C base

def Start.Sound (base : State) : Start State → Prop
  | .ended f => f.Sound C base
  | .ownCommit sub rest =>
      C.Computes base sub.plan.state ∧ ∃ codec, rest = submitPlan C codec sub base

/-- A function to run under the lock. -/
structure LockWork where
  run : Seed → View State → Start State
  sound : ∀ seed view, (run seed view).Sound C view.state

variable {C codec} {base s : State} {r : LockResult}

@[simp] theorem Finish.from_returned : Finish.From C base (.returned r) := by
  simp [Finish.From, Finish.state?]

@[simp] theorem Finish.from_thrown {e : Error} : Finish.From C base (.thrown e) := by
  simp [Finish.From, Finish.state?]

@[simp] theorem Finish.from_commitState :
    Finish.From C base (.commitState s r) ↔ C.Computes base s := by
  simp [Finish.From, Finish.state?]

@[simp] theorem Finish.from_commitDurable :
    Finish.From C base (.commitDurable s r) ↔ C.Computes base s := by
  simp [Finish.From, Finish.state?]

@[simp] theorem Finish.from_merge : Finish.From C base (.merge s r) ↔ C.Computes base s := by
  simp [Finish.From, Finish.state?]

/-- Work that ends at once. -/
def LockWork.pure (run : Seed → View State → Finish State)
    (sound : ∀ seed view, (run seed view).Sound C view.state) : LockWork C where
  run seed view := .ended (run seed view)
  sound := sound

theorem submitPlan_sound {sub : Submission State} (h : C.Computes base sub.plan.state) :
    (submitPlan C codec sub base).Returns (Finish.Sound C base) := by
  have hmerge : (mergePlan C sub base).Sound C base := ⟨by simpa [mergePlan] using h, trivial⟩
  rw [submitPlan, Async.returns_op]
  intro reply
  cases reply with
  | ok _ => exact hmerge
  | error e =>
      dsimp only
      -- Which errors are conflicts does not matter, and the search of the text need not be run.
      generalize isEpochConflict e = conflict
      refine Async.Returns.ite ⟨by simp, trivial⟩ (Async.Returns.of_bind fun answer => ?_)
      rcases answer with _ | _ | _
      · exact ⟨by simp, trivial⟩
      · exact ⟨by simp, trivial⟩
      · exact hmerge

variable (C) (codec : Codec) (groupId : GroupId)

/-! ## Messages -/

def encryptSection (plaintext : Bytes) (seed : Seed) (view : View State) : Finish State :=
  match C.encrypt seed view.state groupId plaintext with
  | .error e => .thrown (.other e)
  | .ok (state, ciphertext) => .commitDurable state (.ciphertext ciphertext)

def encryptWork (plaintext : Bytes) : LockWork C :=
  .pure (encryptSection C groupId plaintext) fun seed view => by
    unfold encryptSection
    split
    · exact ⟨by simp, trivial⟩
    · next h => exact ⟨by simpa using .single (.encrypt h), seed, groupId, plaintext, h⟩

/-- `tryDecryptLocked`. -/
def decryptSection (ciphertext : Bytes) (_ : Seed) (view : View State) : Finish State :=
  match C.groupEpoch view.state groupId with
  | none => .returned (.attempt ⟨.error "group not held", none⟩)
  | some localEpoch =>
      match C.decrypt view.state groupId ciphertext with
      | .error e => .returned (.attempt ⟨.error e, some localEpoch⟩)
      | .ok (state, plaintext) =>
          .commitState state (.attempt ⟨.ok (codec.decodeText plaintext), some localEpoch⟩)

def decryptWork (ciphertext : Bytes) : LockWork C :=
  .pure (decryptSection C codec groupId ciphertext) fun seed view => by
    unfold decryptSection
    split
    · exact ⟨by simp, trivial⟩
    · split
      · exact ⟨by simp, trivial⟩
      · next h => exact ⟨by simpa using .single (.decrypt h), trivial⟩

/-! ## Welcomes and live commits -/

def welcomeSection (welcome : Bytes) (_ : Seed) (view : View State) : Finish State :=
  if C.groupExists view.state groupId then
    .returned (.joined false)
  else
    match C.joinFromWelcome view.state welcome with
    | .error _ => .returned (.joined false)
    | .ok state => .commitDurable state (.joined true)

def welcomeWork (welcome : Bytes) : LockWork C :=
  .pure (welcomeSection C groupId welcome) fun seed view => by
    unfold welcomeSection
    split
    · exact ⟨by simp, trivial⟩
    · split
      · exact ⟨by simp, trivial⟩
      · next h => exact ⟨by simpa using .single (.joinFromWelcome h), trivial⟩

/-- Why a commit was not applied, by its epoch and the local one. -/
def refusedCommit (commit : Bytes) (localEpoch : ℕ) : LiveCommit :=
  match C.messageEpoch commit with
  | .error _ => .unappliable
  | .ok commitEpoch =>
      if commitEpoch < localEpoch then .stale
      else if localEpoch < commitEpoch then .behind
      else .unappliable

def commitSection (commit : Bytes) (_ : Seed) (view : View State) : Finish State :=
  match C.groupEpoch view.state groupId with
  | none => .returned (.liveCommit .notHeld)
  | some localEpoch =>
      match C.processCommit view.state groupId commit with
      | .error _ => .returned (.liveCommit (refusedCommit C commit localEpoch))
      | .ok state =>
          let removed := anyRemoved (C.labelsIn view.state groupId) (C.labelsIn state groupId)
          .commitDurable state (.liveCommit (.applied removed))

def commitWork (commit : Bytes) : LockWork C :=
  .pure (commitSection C groupId commit) fun seed view => by
    unfold commitSection
    split
    · exact ⟨by simp, trivial⟩
    · split
      · exact ⟨by simp, trivial⟩
      · next h => exact ⟨by simpa using .single (.processCommit h), trivial⟩

/-! ## Catch-up -/

/-- The variables of the loop over the logged commits. -/
structure Applied (State : Type) where
  state : State
  epoch : ℕ
  changed : Bool

def applyWelcome (s : State) (welcome : Option String) : State × Bool :=
  match welcome with
  | none => (s, false)
  | some welcome =>
      if C.groupExists s groupId then
        (s, false)
      else
        match codec.fromB64 welcome >>= C.joinFromWelcome s with
        | .error _ => (s, false)
        | .ok state => (state, true)

def applyCommit (a : Applied State) (c : ℕ × String) : Applied State :=
  if c.1 ≤ a.epoch then
    a
  else
    match codec.fromB64 c.2 >>= C.processCommit a.state groupId with
    | .error _ => a
    | .ok state =>
        match C.groupEpoch state groupId with
        -- `group_epoch` throws after `state` was assigned
        | none => { a with state }
        | some epoch => ⟨state, epoch, true⟩

def sortCommits (commits : List (ℕ × String)) : List (ℕ × String) :=
  commits.insertionSort fun a b => a.1 ≤ b.1

def applyCommits (a : Applied State) (commits : List (ℕ × String)) : Applied State :=
  (sortCommits commits).foldl (applyCommit C codec groupId) a

/-- What a catch-up reply leaves: the state, the local epoch and whether anything
changed. -/
structure CaughtUp (State : Type) where
  state : State
  epoch : Option ℕ
  changed : Bool

def applyCatchUp (s : State) (data : CatchUpData) : CaughtUp State :=
  let welcomed := applyWelcome C codec groupId s data.welcome
  match C.groupEpoch welcomed.1 groupId with
  | none => ⟨welcomed.1, none, welcomed.2⟩
  | some epoch =>
      let a := applyCommits C codec groupId ⟨welcomed.1, epoch, welcomed.2⟩ data.commits
      ⟨a.state, some a.epoch, a.changed⟩

def catchUpSection (data : CatchUpData) (_ : Seed) (view : View State) : Finish State :=
  let result := applyCatchUp C codec groupId view.state data
  if result.changed then
    let removed := anyRemoved (C.labelsIn view.state groupId) (C.labelsIn result.state groupId)
    .commitDurable result.state (.caughtUp true result.epoch removed)
  else
    .returned (.caughtUp false result.epoch false)

variable {C codec groupId}

theorem applyWelcome_computes {welcome : Option String} :
    C.Computes s (applyWelcome C codec groupId s welcome).1 := by
  unfold applyWelcome
  split
  · exact .refl
  · split_ifs
    · exact .refl
    · split
      · exact .refl
      · next h =>
          obtain ⟨bytes, -, hjoin⟩ := Except.bind_eq_ok.mp h
          exact .single (.joinFromWelcome hjoin)

variable {a : Applied State}

theorem applyCommit_computes {c : ℕ × String} :
    C.Computes a.state (applyCommit C codec groupId a c).state := by
  unfold applyCommit
  split_ifs
  · exact .refl
  · split
    · exact .refl
    · next h =>
        obtain ⟨bytes, -, hcommit⟩ := Except.bind_eq_ok.mp h
        split
        · exact .single (.processCommit hcommit)
        · exact .single (.processCommit hcommit)

theorem applyCommits_computes {commits : List (ℕ × String)} :
    C.Computes a.state (applyCommits C codec groupId a commits).state := by
  unfold applyCommits
  induction sortCommits commits generalizing a with
  | nil => exact .refl
  | cons c rest ih => exact applyCommit_computes.trans ih

theorem applyCatchUp_computes {data : CatchUpData} :
    C.Computes s (applyCatchUp C codec groupId s data).state := by
  simp only [applyCatchUp]
  split
  · exact applyWelcome_computes
  · exact applyWelcome_computes.trans (applyCommits_computes (a := ⟨_, _, _⟩))

variable (C codec groupId)

def catchUpWork (data : CatchUpData) : LockWork C :=
  .pure (catchUpSection C codec groupId data) fun seed view => by
    simp only [catchUpSection]
    split_ifs
    · exact ⟨by simpa using applyCatchUp_computes, trivial⟩
    · exact ⟨by simp, trivial⟩

/-! ## Own commits -/

/-- A `build` function, which plans from the state it is given. -/
structure Build where
  run : Seed → View State → Except String (Option (Plan State))
  computed : ∀ seed view plan, run seed view = .ok (some plan) →
    C.Computes view.state plan.state

variable {C}

/-- `runOwnCommit`, under the lock. The base is durable before anything is sent. -/
def ownCommitSection (ctx : Context) (route : Route) (build : Build C) (seed : Seed)
    (view : View State) : Start State :=
  match build.run seed view with
  | .error e => .ended (.thrown (.other e))
  | .ok none => .ended (.returned (.ownCommit .skipped))
  | .ok (some plan) =>
      let sub : Submission State := ⟨ctx, route, plan⟩
      .ownCommit sub (submitPlan C codec sub view.state)

def ownCommitWork (ctx : Context) (route : Route) (build : Build C) : LockWork C where
  run := ownCommitSection codec ctx route build
  sound seed view := by
    unfold ownCommitSection
    split
    · exact ⟨by simp, trivial⟩
    · exact ⟨by simp, trivial⟩
    · next plan h => exact ⟨build.computed seed view plan h, codec, rfl⟩

/-! ## Plans -/

/-- `fetchDevicesOf`'s elements. -/
structure Device where
  userId : UserId
  deviceId : String
  keyPackage : Bytes
  deriving DecidableEq, Repr

def CommitResult.plan (r : CommitResult State) (targetEpoch : ℕ) (ids : List UserId) :
    Plan State :=
  { state := r.deviceState
    commit := r.commit
    welcome := r.welcome
    targetEpoch
    welcomedUserIds := ids
    groupInfo := r.groupInfo }

variable (C)

/-- `group_epoch`, which throws where the group is not held. -/
def groupEpoch! (s : State) : Except String ℕ :=
  (C.groupEpoch s groupId).elim (.error "no such group") .ok

/-- The plan of a group created from scratch. -/
def genesisPlan (packages : List Bytes) (ids : List UserId) (seed : Seed) (s : State) :
    Except String (Option (Plan State)) := do
  let solo ← C.createGroup seed s groupId
  let r ← C.addMember seed solo groupId packages
  let epoch ← groupEpoch! C groupId solo
  .ok (some (r.plan (epoch + 1) ids))

/-- The plan of a commit that adds devices to a held group. -/
def addPlan (missing : List Device) (ids : List UserId) (seed : Seed) (s : State) :
    Except String (Option (Plan State)) := do
  let r ← C.addMember seed s groupId (missing.map Device.keyPackage)
  let epoch ← groupEpoch! C groupId s
  .ok (some (r.plan (epoch + 1) ids))

/-- The plan of a commit that removes leaves from a held group. -/
def removePlan (labels : List Label) (seed : Seed) (s : State) :
    Except String (Option (Plan State)) := do
  let r ← C.removeMember seed s groupId labels
  let epoch ← groupEpoch! C groupId s
  .ok (some ({ r with welcome := [] }.plan (epoch + 1) []))

def Device.isIn (labels : List Label) (d : Device) : Bool :=
  labels.contains (credentialFor d.userId d.deviceId)

variable {C groupId} {ids : List UserId} {seed : Seed} {plan : Plan State}

theorem genesisPlan_computes {packages : List Bytes}
    (h : genesisPlan C groupId packages ids seed s = .ok (some plan)) :
    C.Computes s plan.state := by
  obtain ⟨solo, hsolo, h⟩ := Except.bind_eq_ok.mp h
  obtain ⟨r, hr, h⟩ := Except.bind_eq_ok.mp h
  obtain ⟨epoch, -, h⟩ := Except.bind_eq_ok.mp h
  cases h
  exact .tail (.single (.createGroup hsolo)) (.addMember hr)

theorem addPlan_computes {missing : List Device}
    (h : addPlan C groupId missing ids seed s = .ok (some plan)) : C.Computes s plan.state := by
  obtain ⟨r, hr, h⟩ := Except.bind_eq_ok.mp h
  obtain ⟨epoch, -, h⟩ := Except.bind_eq_ok.mp h
  cases h
  exact .single (.addMember hr)

theorem removePlan_computes {labels : List Label}
    (h : removePlan C groupId labels seed s = .ok (some plan)) : C.Computes s plan.state := by
  obtain ⟨r, hr, h⟩ := Except.bind_eq_ok.mp h
  obtain ⟨epoch, -, h⟩ := Except.bind_eq_ok.mp h
  cases h
  exact .single (.removeMember hr)

variable (C groupId)

/-- `attemptGroupGenesis`. -/
def genesisBuild (packages : List Bytes) (ids : List UserId) : Build C where
  run seed view :=
    if C.groupExists view.state groupId then .ok none
    else genesisPlan C groupId packages ids seed view.state
  computed seed view plan h := by
    split_ifs at h
    · cases h
    · exact genesisPlan_computes h

/-- `reconcileGroupDevices`, its removal. -/
def removeStaleBuild (currentMemberIds : List UserId) : Build C where
  run seed view :=
    let stale := ((C.groupMemberLabels view.state groupId).filter fun label =>
      !currentMemberIds.contains (userIdOfLabel label)).eraseDups
    if !C.groupExists view.state groupId || stale.isEmpty then .ok none
    else removePlan C groupId stale seed view.state
  computed seed view plan h := by
    simp only at h
    split_ifs at h
    · cases h
    · exact removePlan_computes h

/-- `reconcileGroupDevices`, its addition. -/
def addMissingBuild (devices : List Device) : Build C where
  run seed view :=
    let missing := devices.filter fun d => !d.isIn (C.groupMemberLabels view.state groupId)
    if !C.groupExists view.state groupId || missing.isEmpty then .ok none
    else addPlan C groupId missing (missing.map Device.userId).eraseDups seed view.state
  computed seed view plan h := by
    simp only at h
    split_ifs at h
    · cases h
    · exact addPlan_computes h

/-- `ensureGroupWithMember`: creates the DM's group, or adds the other side's devices. -/
def memberBuild (devices : List Device) (mayCreate : Bool) : Build C where
  run seed view :=
    let missing := devices.filter fun d => !d.isIn (C.groupMemberLabels view.state groupId)
    if !C.groupExists view.state groupId then
      if !mayCreate then .ok none
      else genesisPlan C groupId (devices.map Device.keyPackage) [] seed view.state
    else if missing.isEmpty then .ok none
    else addPlan C groupId missing [] seed view.state
  computed seed view plan h := by
    simp only at h
    split_ifs at h
    · cases h
    · exact genesisPlan_computes h
    · cases h
    · exact addPlan_computes h

/-- `removeOwnStaleLeaves`. -/
def removeOwnStaleBuild : Build C where
  run seed view :=
    match view.ownCredential with
    | none => .ok none
    | some own =>
        if !C.groupExists view.state groupId ||
            (C.groupMemberLabels view.state groupId).count own ≤ 1 then .ok none
        else removePlan C groupId [own] seed view.state
  computed seed view plan h := by
    split at h
    · cases h
    · split_ifs at h
      · cases h
      · exact removePlan_computes h

/-- `ownCredential ?? device_credential(state)`. -/
def joinLabel (view : View State) : Except String Label :=
  match view.ownCredential with
  | some label => .ok label
  | none => C.deviceCredential view.state

/-- `externalJoinOrResync`: a resync where the group is held, a join where it is not. -/
def externalBuild (groupInfo : Bytes) (epoch : ℕ) (force : Bool) : Build C where
  run seed view :=
    match C.groupEpoch view.state groupId with
    | some held =>
        if !force && held == epoch then .ok none
        else do
          let r ← C.resyncExternal seed view.state groupId groupInfo
          .ok (some ({ r with welcome := [] }.plan (epoch + 1) []))
    | none => do
        let label ← joinLabel C view
        let r ← C.joinExternal seed view.state groupInfo label
        .ok (some ({ r with welcome := [] }.plan (epoch + 1) []))
  computed seed view plan h := by
    split at h
    · split_ifs at h
      · cases h
      · obtain ⟨r, hr, h⟩ := Except.bind_eq_ok.mp h
        cases h
        exact .single (.resyncExternal hr)
    · obtain ⟨label, -, h⟩ := Except.bind_eq_ok.mp h
      obtain ⟨r, hr, h⟩ := Except.bind_eq_ok.mp h
      cases h
      exact .single (.joinExternal hr)

/-- A commit of `attemptGroupGenesis`, `reconcileGroupDevices` or, for a DM,
`ensureGroupWithMember`, with what was fetched for it. -/
inductive Reconciliation
  | genesis (devices : List Device) (otherMemberIds : List UserId)
  | removeStale (currentMemberIds : List UserId)
  | addMissing (devices : List Device)
  | member (devices : List Device) (mayCreate : Bool)
  deriving DecidableEq, Repr

def Reconciliation.build : Reconciliation → Build C
  | .genesis devices otherMemberIds =>
      genesisBuild C groupId (devices.map Device.keyPackage) otherMemberIds
  | .removeStale currentMemberIds => removeStaleBuild C groupId currentMemberIds
  | .addMissing devices => addMissingBuild C groupId devices
  | .member devices mayCreate => memberBuild C groupId devices mayCreate

end SpecterComs.MlsSession
