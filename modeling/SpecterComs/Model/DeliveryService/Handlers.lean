import SpecterComs.Model.DeliveryService.Schemas

/-! # Handlers of the delivery service

Each request is one transaction over the tables. The rows that decide who may
act (friendships, organisation members, channels, event rosters) are read through
the `Directory` the request meets, and may differ from request to request.
-/

namespace SpecterComs.DeliveryService

inductive ChannelKind
  | command
  | group
  | frequency
  | other
  deriving DecidableEq, Repr

/-- `ChannelScope` of `utils/eventChannelAccess.ts`. -/
inductive ChannelScope
  | org (orgId channelId : String)
  | event (orgId channelId eventId : String) (kind : ChannelKind)
      (groupId frequencyId : Option String)
  deriving DecidableEq, Repr

def ChannelScope.isEvent : ChannelScope → Bool
  | .org _ _ => false
  | .event _ _ _ _ _ _ => true

structure Directory where
  friends : UserId → UserId → Bool
  isOrgMember : (orgId : String) → UserId → Bool
  getChannelScope : (chanId orgId : String) → Option ChannelScope
  channelMemberUserIds : ChannelScope → List UserId
  eventExists : (eventId orgId : String) → Bool
  eventCascadeMemberUserIds : (eventId : String) → List UserId

/-! ## Responses -/

/-- An answer that carries nothing out. -/
inductive Refusal
  | message (status : ℕ) (text : String) (code : Option String)
  | validation (issues : Issues)
  deriving DecidableEq, Repr

def Refusal.status : Refusal → ℕ
  | .message status _ _ => status
  | .validation _ => 400

inductive Response
  | refused (refusal : Refusal)
  | accepted (epoch : ℕ)
  | uploaded (epoch : ℕ)
  | groupInfo (reply : GroupInfoReply)
  | catchUp (reply : CatchUp)
  deriving DecidableEq, Repr

def Response.status : Response → ℕ
  | .refused refusal => refusal.status
  | .accepted _ => 202
  | .uploaded _ => 200
  | .groupInfo _ => 200
  | .catchUp _ => 200

def unauthorized : Refusal := .message 401 "Unauthorized" none
def commitConflict : Refusal :=
  .message 409 "Epoch conflict — this commit no longer targets the current epoch" none
def uploadConflict : Refusal :=
  .message 409 "Epoch conflict — not the current epoch" (some "EPOCH_CONFLICT")
def internalError : Refusal := .message 500 "Internal server error" none

/-- One published event: the group field and value, and the commit or the Welcome. -/
structure Event where
  subject : String
  type : String
  group : String × GroupId
  payload : String
  deriving DecidableEq, Repr

def userSubject (userId : UserId) : String := "specter.event.user." ++ userId
def channelSubject (chanId : String) : String := "specter.msg.channel." ++ chanId

/-! ## Requests -/

inductive Target
  | dm (otherUserId : UserId)
  | channel (orgId chanId : String)
  | event (orgId eventId : String)
  deriving DecidableEq, Repr

inductive Request
  | submitCommit (target : Target) (body : Body)
  | submitExternalCommit (target : Target) (body : Body)
  | putGroupInfo (target : Target) (body : Body)
  | getGroupInfo (target : Target)
  | catchUp (target : Target)
  deriving DecidableEq, Repr

/-- `[me, otherUserId].sort().join('-')`. -/
def conversationId (me other : UserId) : GroupId :=
  if other < me then other ++ "-" ++ me else me ++ "-" ++ other

/-- The group a request of this caller is about. -/
def Target.groupId (caller : UserId) : Target → GroupId
  | .dm other => conversationId caller other
  | .channel _ chanId => chanId
  | .event _ eventId => eventId

/-! ## Authorization -/

def requireUser (user : Option UserId) : Except Refusal UserId :=
  match user with
  | none => .error unauthorized
  | some me => .ok me

def require (ok : Bool) (status : ℕ) (text : String) (code : Option String) :
    Except Refusal Unit :=
  if ok then .ok () else .error (.message status text code)

def checkDmParties (me other : UserId) : Except Refusal Unit := do
  require (isUuid other) 400 "Invalid userId" none
  require (me ≠ other) 400 "Cannot MLS-commit with yourself" none

def checkFriends (dir : Directory) (me other : UserId) : Except Refusal Unit :=
  require (dir.friends me other) 403 "Not friends" none

def checkOrgMember (dir : Directory) (orgId : String) (userId : UserId) : Except Refusal Unit :=
  require (dir.isOrgMember orgId userId) 403 "Not a member of this organization" none

def checkEvent (dir : Directory) (orgId eventId : String) (userId : UserId) :
    Except Refusal Unit := do
  require (dir.eventExists eventId orgId) 404 "Event not found" none
  require ((dir.eventCascadeMemberUserIds eventId).contains userId) 403
    "Not a participant of this event" none

def channelScope (dir : Directory) (orgId chanId : String) (code : Option String) :
    Except Refusal ChannelScope :=
  match dir.getChannelScope chanId orgId with
  | none => .error (.message 404 "Channel not found" code)
  | some scope => .ok scope

/-- What `resolveDmGroup`, `resolveChannelGroup` and `resolveEventGroup` return. -/
structure GroupAccess where
  groupId : GroupId
  publishCommit : String → List Event

def dmCommitEvents (me other : UserId) (commit : String) : List Event :=
  [me, other].map fun id =>
    ⟨userSubject id, "mls_commit", ("conversation_id", conversationId me other), commit⟩

def channelCommitEvents (chanId commit : String) : List Event :=
  [⟨channelSubject chanId, "mls_commit", ("channel_id", chanId), commit⟩]

def eventCommitEvents (dir : Directory) (eventId commit : String) : List Event :=
  (dir.eventCascadeMemberUserIds eventId).map fun id =>
    ⟨userSubject id, "mls_commit", ("event_group_id", eventId), commit⟩

def resolveDmGroup (dir : Directory) (user : Option UserId) (other : UserId) :
    Except Refusal GroupAccess := do
  let me ← requireUser user
  checkDmParties me other
  checkFriends dir me other
  .ok ⟨conversationId me other, dmCommitEvents me other⟩

def resolveChannelGroup (dir : Directory) (user : Option UserId) (orgId chanId : String) :
    Except Refusal GroupAccess := do
  let userId ← requireUser user
  checkOrgMember dir orgId userId
  let scope ← channelScope dir orgId chanId (some "CHANNEL_NOT_FOUND")
  require (!scope.isEvent || (dir.channelMemberUserIds scope).contains userId) 403
    "Not assigned to this event channel" none
  .ok ⟨chanId, channelCommitEvents chanId⟩

def resolveEventGroup (dir : Directory) (user : Option UserId) (orgId eventId : String) :
    Except Refusal GroupAccess := do
  let userId ← requireUser user
  checkEvent dir orgId eventId userId
  .ok ⟨eventId, eventCommitEvents dir eventId⟩

/-- The resolver each route is registered with. -/
def resolve (dir : Directory) (user : Option UserId) : Target → Except Refusal GroupAccess
  | .dm other => resolveDmGroup dir user other
  | .channel orgId chanId => resolveChannelGroup dir user orgId chanId
  | .event orgId eventId => resolveEventGroup dir user orgId eventId

/-! ## Endpoints -/

/-- What an endpoint did: the tables, its answer and the events it publishes. -/
structure Handled where
  db : Db
  response : Response
  events : List Event

variable (codec : Base64) (dir : Directory) (db : Db) (user : Option UserId)

def bodyOf {α : Type} (parsed : Except Issues α) : Except Refusal α :=
  parsed.mapError .validation

def commitOrConflict (bumped : Option Db) : Except Refusal Db :=
  match bumped with
  | none => .error commitConflict
  | some db => .ok db

/-- The Welcome events of one commit, to each user it is for. -/
def welcomeEvents (group : String × GroupId) (welcome : Option String) (ids : List UserId) :
    List Event :=
  match welcome with
  | none => []
  | some w =>
      if w.isEmpty then [] else ids.map fun id => ⟨userSubject id, "mls_welcome", group, w⟩

def submitDmCommit (other : UserId) (body : Body) : Except Refusal Handled := do
  let me ← requireUser user
  checkDmParties me other
  let data ← bodyOf (submitDmCommitSchema.safeParse body)
  checkFriends dir me other
  let convId := conversationId me other
  let welcomed := if data.welcome.all String.isEmpty then none else some [me, other]
  let db ← commitOrConflict
    (bumpGroupEpoch codec db convId data.epoch data.commit data.welcome welcomed data.groupInfo)
  -- each participant gets the commit and, right after it, the Welcome
  let events := [me, other].flatMap fun id =>
    ⟨userSubject id, "mls_commit", ("conversation_id", convId), data.commit⟩ ::
      welcomeEvents ("conversation_id", convId) data.welcome [id]
  .ok ⟨db, .accepted data.epoch, events⟩

def submitEventGroupCommit (orgId eventId : String) (body : Body) : Except Refusal Handled := do
  let userId ← requireUser user
  let data ← bodyOf (submitEventGroupCommitSchema.safeParse body)
  checkEvent dir orgId eventId userId
  let members := dir.eventCascadeMemberUserIds eventId
  let welcomed := data.welcomedUserIds.getD []
  require (welcomed.all members.contains) 403
    "Cannot add someone who is not signed up to this event" none
  let db ← commitOrConflict (bumpGroupEpoch codec db eventId data.epoch data.commit data.welcome
    data.welcomedUserIds data.groupInfo)
  .ok ⟨db, .accepted data.epoch, eventCommitEvents dir eventId data.commit ++
    welcomeEvents ("event_group_id", eventId) data.welcome welcomed⟩

def submitChannelCommit (orgId chanId : String) (body : Body) : Except Refusal Handled := do
  let userId ← requireUser user
  let data ← bodyOf (submitChannelCommitSchema.safeParse body)
  checkOrgMember dir orgId userId
  let scope ← channelScope dir orgId chanId none
  let allowed := dir.channelMemberUserIds scope
  let welcomed := data.welcomedUserIds.getD []
  require (!scope.isEvent || allowed.contains userId) 403
    "Not assigned to this event channel" none
  require (!scope.isEvent || welcomed.all allowed.contains) 403
    "Cannot add someone without access to this event channel" none
  let db ← commitOrConflict (bumpGroupEpoch codec db chanId data.epoch data.commit data.welcome
    data.welcomedUserIds data.groupInfo)
  .ok ⟨db, .accepted data.epoch, channelCommitEvents chanId data.commit ++
    welcomeEvents ("channel_id", chanId) data.welcome welcomed⟩

def submitCommit (target : Target) (body : Body) : Except Refusal Handled :=
  match target with
  | .dm other => submitDmCommit codec dir db user other body
  | .channel orgId chanId => submitChannelCommit codec dir db user orgId chanId body
  | .event orgId eventId => submitEventGroupCommit codec dir db user orgId eventId body

def submitExternalCommit (target : Target) (body : Body) : Except Refusal Handled := do
  let data ← bodyOf (externalCommitSchema.safeParse body)
  let access ← resolve dir user target
  let db ← commitOrConflict
    (bumpGroupEpoch codec db access.groupId data.epoch data.commit none none data.groupInfo)
  .ok ⟨db, .accepted data.epoch, access.publishCommit data.commit⟩

def putGroupInfo (target : Target) (body : Body) : Except Refusal Handled := do
  let data ← bodyOf (parsePutGroupInfo body)
  let access ← resolve dir user target
  match updateGroupInfo codec db access.groupId data.1 data.2 with
  | none => .error uploadConflict
  | some db => .ok ⟨db, .uploaded data.1, []⟩

def getGroupInfo (target : Target) : Except Refusal Handled := do
  let access ← resolve dir user target
  .ok ⟨db, .groupInfo (readGroupInfo codec db access.groupId), []⟩

/-- The gate of the three catch-up endpoints. The channel's asks for the channel
row only, not for an event channel's audience. -/
def catchUpGate (target : Target) : Except Refusal (UserId × GroupId) := do
  let me ← requireUser user
  match target with
  | .dm other =>
      checkDmParties me other
      checkFriends dir me other
      .ok (me, conversationId me other)
  | .channel orgId chanId =>
      checkOrgMember dir orgId me
      let _ ← channelScope dir orgId chanId none
      .ok (me, chanId)
  | .event orgId eventId =>
      checkEvent dir orgId eventId me
      .ok (me, eventId)

def catchUp (target : Target) : Except Refusal Handled := do
  let gate ← catchUpGate dir user target
  .ok ⟨db, .catchUp (fetchGroupCatchUp codec db db gate.2 gate.1), []⟩

def handle : Request → Except Refusal Handled
  | .submitCommit target body => submitCommit codec dir db user target body
  | .submitExternalCommit target body => submitExternalCommit codec dir db user target body
  | .putGroupInfo target body => putGroupInfo codec dir db user target body
  | .getGroupInfo target => getGroupInfo codec dir db user target
  | .catchUp target => catchUp codec dir db user target

/-! ## Faults and runs -/

/-- Where the request's own infrastructure fails, if anywhere. -/
inductive Fault
  | none
  /-- A query rejects, and the transaction is rolled back. -/
  | query
  /-- The transaction committed; its answer or a later publish fails, with the first
  `sent` events out. -/
  | afterCommit (sent : ℕ)
  deriving DecidableEq, Repr

/-- One request as the service meets it. -/
structure Call where
  user : Option UserId
  request : Request
  directory : Directory
  fault : Fault

def Call.run (codec : Base64) (db : Db) (c : Call) : Handled :=
  match handle codec c.directory db c.user c.request, c.fault with
  | .error r, .none => ⟨db, .refused r, []⟩
  | .error r, _ =>
      -- a refusal with status 400 or 401 comes before the first query
      if r.status = 400 ∨ r.status = 401 then ⟨db, .refused r, []⟩
      else ⟨db, .refused internalError, []⟩
  | .ok h, .none => h
  | .ok _, .query => ⟨db, .refused internalError, []⟩
  | .ok h, .afterCommit sent => ⟨h.db, .refused internalError, h.events.take sent⟩

/-- The tables after a sequence of requests. -/
def after (codec : Base64) (db : Db) (calls : List Call) : Db :=
  calls.foldl (fun db c => (c.run codec db).db) db

end SpecterComs.DeliveryService
