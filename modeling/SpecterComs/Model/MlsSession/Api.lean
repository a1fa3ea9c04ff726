import SpecterComs.Model.MlsSession.Crypto

/-! # Requests of the session and their replies

`fetchWithAuth` answers every request with data or an error text, never both.
-/

namespace SpecterComs.MlsSession

/-- Thrown by the module's own code or by what it awaits. -/
inductive Error
  /-- `MlsStateUnavailableError`. -/
  | stateUnavailable (message : String)
  /-- `MlsDecryptError`. -/
  | decrypt (reason message : String) (messageEpoch localEpoch : Option ℕ)
  | other (message : String)
  deriving DecidableEq, Repr

def accountSwitched : Error :=
  .stateUnavailable
    "MLS_ACCOUNT_SWITCHED: the signed-in account changed during this MLS operation"

def Error.message : Error → String
  | .stateUnavailable message => message
  | .decrypt _ message _ _ => message
  | .other message => message

/-- The body of a catch-up reply. An older server sends no `current_epoch`. -/
structure CatchUpData where
  welcome : Option String
  commits : List (ℕ × String)
  currentEpoch : Option ℕ
  groupInfoEpoch : Option ℕ
  deriving DecidableEq, Repr

/-- The two routes a commit is submitted by. -/
inductive Route
  | commit
  | externalCommit
  deriving DecidableEq, Repr

inductive ApiRequest
  | submit (route : Route) (target : Target) (body : Body)
  | catchUp (target : Target)
  | getGroupInfo (target : Target)
  | putGroupInfo (target : Target) (body : Body)
  | getUserDeviceKeyPackages (userId : UserId)
  | getChannelMlsMembers (orgId chanId : String)
  | getOrgMembers (orgId : String)
  | getEventParticipants (orgId eventId : String)
  | getChannels (orgId : String)
  | getOrgEvents (orgId : String)
  deriving DecidableEq, Repr

abbrev ApiRequest.Reply : ApiRequest → Type
  | .submit _ _ _ => Except String Unit
  | .catchUp _ => Except String CatchUpData
  | .getGroupInfo _ => Except String DeliveryService.GroupInfoReply
  | .putGroupInfo _ _ => Except String Unit
  | .getUserDeviceKeyPackages _ => Except String (List (String × String))
  | .getChannelMlsMembers _ _ => Except String (List UserId)
  | .getOrgMembers _ => Except String (List UserId)
  | .getEventParticipants _ _ => Except String (List UserId)
  | .getChannels _ => Except String (List String)
  | .getOrgEvents _ => Except String (List (String × Bool))

def containsText (needle text : String) : Bool :=
  text.toList.tails.any fun tail => needle.toList.isPrefixOf tail

/-- `/epoch conflict/i`. -/
def isEpochConflict (error : String) : Bool :=
  containsText "epoch conflict" (String.ofList (error.toList.map Char.toLower))

/-- `/^HTTP 404\b/`: the next character, if any, is no word character. -/
def isHttp404 (error : String) : Bool :=
  "HTTP 404".toList.isPrefixOf error.toList &&
    (error.toList.drop 8).head?.all fun c => !(c.isAlphanum || c == '_')

/-! ## Group contexts -/

/-- The functions an `api` object has (`hasFn`). -/
structure Routes where
  mlsCommit : Bool
  getGroupInfo : Bool
  putGroupInfo : Bool
  externalCommit : Bool
  channelMembers : Bool
  orgEvents : Bool
  deriving DecidableEq, Repr

/-- `channelContext`, `eventContext`, `dmContext`. -/
structure Context where
  target : Target
  groupIdStr : GroupId
  routes : Routes
  deriving DecidableEq, Repr

def channelContext (routes : Routes) (orgId chanId : String) : Context :=
  ⟨.channel orgId chanId, chanId, routes⟩

def eventContext (routes : Routes) (orgId eventId : String) : Context :=
  ⟨.event orgId eventId, eventId, routes⟩

def dmContext (routes : Routes) (otherUserId : UserId) (convId : GroupId) : Context :=
  ⟨.dm otherUserId, convId, routes⟩

/-- A value that may be `null` in a JSON body. -/
def nullable {α : Type} : Option α → Field α
  | none => .null
  | some a => .value a

/-- The body of `submitCommit`. The older routes take no GroupInfo, the DM's no user
ids. -/
def Context.commitBody (ctx : Context) (epoch : ℕ) (commit : String) (welcome : Option String)
    (welcomedUserIds : List UserId) (groupInfo : Option String) : Body :=
  { epoch := .value epoch
    commit := .value commit
    welcome := nullable welcome
    welcomedUserIds :=
      match ctx.target with
      | .dm _ => .absent
      | _ => .value (welcomedUserIds.map .value)
    groupInfo := if ctx.routes.mlsCommit then nullable groupInfo else .absent }

/-- The body of `submitExternal`. -/
def externalBody (epoch : ℕ) (commit : String) (groupInfo : Option String) : Body :=
  { epoch := .value epoch
    commit := .value commit
    welcome := .absent
    welcomedUserIds := .absent
    groupInfo := nullable groupInfo }

/-- The body of `putGroupInfo`. -/
def uploadBody (epoch : ℕ) (groupInfo : String) : Body :=
  { epoch := .value epoch
    commit := .absent
    welcome := .absent
    welcomedUserIds := .absent
    groupInfo := .value groupInfo }

end SpecterComs.MlsSession
