import SpecterComs.Library.StepSystem
import SpecterComs.Model.MediaServer.Rooms

/-! # Voice sessions of the media server

`handle_voice_connection`, `run_session_loop`, `handle_nats_commands` and
`duck_release_sweeper` of `media-rust/src/main.rs`. Each section under a lock is one step,
so the steps of the sessions, the commands and the sweepers interleave as they do there. A
registry key `user:channel` is a pair, since ids are uuids.
-/

namespace SpecterComs.MediaServer

abbrev SessionKey := UserId × ChannelId

def Ticket.key (t : Ticket) : SessionKey := (t.userId, t.channelId)

/-- The local variables `join_nonce` and `uos_arc`. -/
structure Joined where
  nonce : ℕ
  outputs : OutputsId
  deriving DecidableEq, Repr

/-- What the clean-up does next. -/
inductive Cleanup
  | session
  | moveSender
  | findOutputs
  | output (outputs : OutputsId)
  | room
  deriving DecidableEq, Repr

/-- How far an audio frame of the session has got: past the mute check it is sent to the
room and a priority user ducks others, or it is cascaded to the descendants. -/
inductive Relay
  | send (outputs : OutputsId) (localMutes : UserId → Finset UserId) (level : Option ℕ)
  | readTree (level : ℕ)
  | duck (level : ℕ) (descendants : List ChannelId)
  | readCascade
  | cascade (descendants : List ChannelId)

inductive Stage
  /-- The transport session stands, nothing is registered. -/
  | accepted
  | registered
  | movable
  | joined (j : Joined)
  /-- The output sender is in; the roster stream is opened next. -/
  | subscribed (j : Joined)
  | running (j : Joined) (relay : Option Relay)
  | cleanup (j : Joined) (next : Cleanup)
  | finished

/-- The task of one connection. -/
structure Task where
  ticket : Ticket
  stage : Stage
  /-- A message waits in `kill_rx`. -/
  killed : Bool
  /-- The channels waiting in `move_rx`. -/
  moves : List ChannelId
  lastSpeakingEmit : Option ℕ

/-- A frame put into the output queue of a session. -/
structure Forward where
  sender : UserId
  recipient : ℕ
  deriving DecidableEq, Repr

/-- The registries, the output maps and the tasks. The registries hold the sessions whose
senders the source stores. -/
structure Server where
  sessions : SessionKey → Option ℕ
  moveSenders : SessionKey → Option ℕ
  rooms : Rooms
  outputs : OutputsId → AList fun _ : UserId => ℕ
  nextOutputs : ℕ
  /-- `SESSION_NONCE`. -/
  nextNonce : ℕ
  channelTree : ChannelTree
  tasks : ℕ → Option Task
  nextTask : ℕ
  /-- Every frame that was forwarded; nothing in the server reads it. -/
  forwarded : List Forward
  /-- The session that registered last under each key; nothing in the server reads it. -/
  newest : SessionKey → Option ℕ

/-- How the roster stream fares: it opens, it does not open, or it opens and the first
writes or the Opus decoder fail. -/
inductive Opening
  | opened
  | failed
  | aborted
  deriving DecidableEq, Repr

/-- The ways a session loop ends without a kill signal. -/
inductive LeaveCause
  | closed
  | rosterWrite
  | audioSend
  | datagram
  | moved
  deriving DecidableEq, Repr

inductive Input
  | connect (ticket : Ticket)
  /-- The next section of a session's set-up or clean-up. -/
  | advance (s : ℕ)
  | openStream (s : ℕ) (opening : Opening)
  /-- The loop takes the kill branch. -/
  | kill (s : ℕ)
  | leave (s : ℕ) (cause : LeaveCause)
  /-- An audio frame of the session is read. -/
  | frame (s : ℕ) (globalBroadcast : Bool) (emptyPayload : Bool) (now : ℕ)
  /-- The next section of the frame that is being relayed. -/
  | relay (s : ℕ) (now : ℕ)
  | localMute (s : ℕ) (muted : Bool) (target : UserId)
  | kick (user : UserId)
  | drainOrg (org : OrgId)
  /-- `room` is the first one of the iteration that has the user as a member. -/
  | mute (user : UserId) (room : Option ChannelId)
  | unmute (user : UserId) (room : Option ChannelId)
  | move (user : UserId) (channel : ChannelId)
  | eventTree (channels : ChannelTree)
  | sweep (channel : ChannelId) (now : ℕ)

/-- `RELAY_SPEAKING_LEVEL`. -/
def relaySpeakingLevel : ℕ := 50

namespace Server

def init : Server where
  sessions := fun _ => none
  moveSenders := fun _ => none
  rooms := ∅
  outputs := fun _ => ∅
  nextOutputs := 0
  nextNonce := 1
  channelTree := []
  tasks := fun _ => none
  nextTask := 0
  forwarded := []
  newest := fun _ => none

variable (v : Server) (s : ℕ) (t : Task)

def setTask : Server :=
  { v with tasks := Function.update v.tasks s (some t) }

def setStage (stage : Stage) : Server :=
  v.setTask s { t with stage }

/-- Changes every task. -/
def mapTasks (f : ℕ → Task → Task) : Server :=
  { v with tasks := fun s => (v.tasks s).map (f s) }

def connect (ticket : Ticket) : Server :=
  { v.setTask v.nextTask ⟨ticket, .accepted, false, [], none⟩ with nextTask := v.nextTask + 1 }

/-! ## Set-up -/

/-- The session takes its key, and the one that had it gets the kill signal. -/
def register : Server :=
  let booted := v.mapTasks fun other task =>
    if v.sessions t.ticket.key = some other then { task with killed := true } else task
  { booted.setStage s t .registered with
    sessions := Function.update v.sessions t.ticket.key (some s)
    newest := Function.update v.newest t.ticket.key (some s) }

def registerMove : Server :=
  { v.setStage s t .movable with
    moveSenders := Function.update v.moveSenders t.ticket.key (some s) }

/-- The user joins the room, which is created where it is not there. All rooms have
`voice_relay_mode`, so the check for another mode never fails. -/
def joinRoom : Server :=
  let channel := t.ticket.channelId
  match v.rooms.lookup channel with
  | some st =>
      { v.setStage s t (.joined ⟨v.nextNonce, st.userOutputSenders⟩) with
        rooms := v.rooms.insert channel (st.join t.ticket v.nextNonce)
        nextNonce := v.nextNonce + 1 }
  | none =>
      let outputs : OutputsId := (channel, v.nextOutputs)
      { v.setStage s t (.joined ⟨v.nextNonce, outputs⟩) with
        rooms := v.rooms.insert channel ((RoomState.empty outputs).join t.ticket v.nextNonce)
        outputs := Function.update v.outputs outputs ∅
        nextOutputs := v.nextOutputs + 1
        nextNonce := v.nextNonce + 1 }

def subscribe (j : Joined) : Server :=
  { v.setStage s t (.subscribed j) with
    outputs :=
      Function.update v.outputs j.outputs ((v.outputs j.outputs).insert t.ticket.userId s) }

def openStream (j : Joined) : Opening → Server
  | .opened => v.setStage s t (.running j none)
  | .failed => v.setStage s t .finished
  | .aborted => v.setStage s t (.cleanup j .session)

/-! ## Clean-up -/

def unregister (j : Joined) : Server :=
  { v.setStage s t (.cleanup j .moveSender) with
    sessions := Function.update v.sessions t.ticket.key none }

def unregisterMove (j : Joined) : Server :=
  { v.setStage s t (.cleanup j .findOutputs) with
    moveSenders := Function.update v.moveSenders t.ticket.key none }

def findOutputs (j : Joined) : Server :=
  match v.rooms.lookup t.ticket.channelId with
  | some st => v.setStage s t (.cleanup j (.output st.userOutputSenders))
  | none => v.setStage s t (.cleanup j .room)

def unsubscribe (j : Joined) (outputs : OutputsId) : Server :=
  { v.setStage s t (.cleanup j .room) with
    outputs := Function.update v.outputs outputs ((v.outputs outputs).erase t.ticket.userId) }

/-- The user leaves the room, unless a newer session has joined it. An empty room is
disposed of. -/
def leaveRoom (j : Joined) : Server :=
  let done := v.setStage s t .finished
  let channel := t.ticket.channelId
  match v.rooms.lookup channel with
  | none => done
  | some st =>
      if st.sessionNonces t.ticket.userId ≠ some j.nonce then done
      else if (st.remove t.ticket.userId).members = ∅ then
        { done with rooms := v.rooms.erase channel }
      else
        { done with rooms := v.rooms.insert channel (st.remove t.ticket.userId) }

def advance : Option Server :=
  match t.stage with
  | .accepted => some (v.register s t)
  | .registered => some (v.registerMove s t)
  | .movable => some (v.joinRoom s t)
  | .joined j => some (v.subscribe s t j)
  | .cleanup j .session => some (v.unregister s t j)
  | .cleanup j .moveSender => some (v.unregisterMove s t j)
  | .cleanup j .findOutputs => some (v.findOutputs s t j)
  | .cleanup j (.output outputs) => some (v.unsubscribe s t j outputs)
  | .cleanup j .room => some (v.leaveRoom s t j)
  | .subscribed _ | .running _ _ | .finished => none

/-! ## The session loop -/

/-- `kill_rx.recv()` returns on a signal, and when the registry has dropped the sender. -/
def killable : Bool :=
  t.killed || v.sessions t.ticket.key != some s

/-- The frame is dropped, or its relay begins. -/
def readFrame (j : Joined) (globalBroadcast emptyPayload : Bool) (now : ℕ) : Server :=
  let user := t.ticket.userId
  let channel := t.ticket.channelId
  if emptyPayload then v
  else
    match v.rooms.lookup channel with
    | none => v
    | some st =>
        if globalBroadcast then
          if st.prioritySpeaker = some user ∧ st.userGains user ≠ some .muted then
            v.setStage s t (.running j (some .readCascade))
          else v
        else if st.userGains user = some .muted then v
        else
          let stage :=
            Stage.running j
              (some (.send st.userOutputSenders st.localMutes (st.priorityLevels user)))
          -- at most one speaking message in 100 ms
          if t.lastSpeakingEmit.all (· + 100 ≤ now) then
            { v.setTask s { t with stage, lastSpeakingEmit := some now } with
              rooms := v.rooms.modify channel
                (·.send [.speaking t.ticket.callsign relaySpeakingLevel]) }
          else v.setStage s t stage

/-- The frame goes to every session of the output map but the sender's own and those whose
listener muted the sender. -/
def sendTo (outputs : OutputsId) (localMutes : UserId → Finset UserId) (sender : UserId) :
    List Forward :=
  ((v.outputs outputs).entries.filter fun e =>
    e.1 ≠ sender ∧ sender ∉ localMutes e.1).map fun e => ⟨sender, e.2⟩

def cascadeTo (descendants : List ChannelId) (sender : UserId) : List Forward :=
  descendants.flatMap fun channel =>
    match v.rooms.lookup channel with
    | some st => (v.outputs st.userOutputSenders).entries.map fun e => ⟨sender, e.2⟩
    | none => []

/-- The priority section of a frame: the speaker takes a free slot and announces it, or
renews its own, and all descendants follow. -/
def duckRooms (channel : ChannelId) (user : UserId) (level : ℕ) (descendants : List ChannelId)
    (now : ℕ) : Rooms :=
  match v.rooms.lookup channel with
  | none => v.rooms
  | some st =>
      if st.prioritySpeaker = none ∨ st.prioritySpeaker = some user then
        let msgs :=
          if st.prioritySpeaker = none then [RosterMessage.duck user level] else []
        descendants.foldl
          (fun rooms d => Rooms.modify rooms d fun st => (st.setSpeaker user now).send msgs)
          (v.rooms.modify channel fun st => (st.setSpeaker user now).send msgs)
      else v.rooms

def relayFrame (j : Joined) (now : ℕ) : Relay → Server
  | .send outputs localMutes level =>
      { v.setStage s t (.running j (level.map .readTree)) with
        forwarded := v.forwarded ++ v.sendTo outputs localMutes t.ticket.userId }
  | .readTree level =>
      v.setStage s t
        (.running j (some (.duck level (v.channelTree.getDescendants t.ticket.channelId))))
  | .duck level descendants =>
      { v.setStage s t (.running j none) with
        rooms := v.duckRooms t.ticket.channelId t.ticket.userId level descendants now }
  | .readCascade =>
      v.setStage s t
        (.running j (some (.cascade (v.channelTree.getDescendants t.ticket.channelId))))
  | .cascade descendants =>
      { v.setStage s t (.running j none) with
        forwarded := v.forwarded ++ v.cascadeTo descendants t.ticket.userId }

/-! ## Commands -/

def kick (user : UserId) : Server :=
  v.mapTasks fun s task =>
    if task.ticket.userId = user ∧ v.sessions task.ticket.key = some s then
      { task with killed := true }
    else task

def drainOrg (org : OrgId) : Server :=
  v.mapTasks fun s task =>
    if ((v.rooms.lookup task.ticket.channelId).bind fun st =>
          st.memberOrgs task.ticket.userId) = some org ∧ v.sessions task.ticket.key = some s then
      { task with killed := true }
    else task

/-- The loop over the rooms that stops at the first one with the user as a member. -/
def setGain (user : UserId) (gain : Gain) : Option ChannelId → Option Server
  | some channel =>
      if (v.rooms.lookup channel).any fun st => user ∈ st.members then
        some { v with rooms := v.rooms.modify channel (·.setGain user gain) }
      else none
  | none =>
      if v.rooms.keys.all fun channel =>
          (v.rooms.lookup channel).all fun st => user ∉ st.members then
        some v
      else none

def move (user : UserId) (channel : ChannelId) : Server :=
  v.mapTasks fun s task =>
    if task.ticket.userId = user ∧ v.moveSenders task.ticket.key = some s then
      { task with moves := task.moves ++ [channel] }
    else task

def sweep (channel : ChannelId) (now : ℕ) : Server :=
  { v with rooms := v.rooms.modify channel (·.sweep now) }

def localMute (channel : ChannelId) (user : UserId) (muted : Bool) (target : UserId) : Server :=
  { v with
    rooms := v.rooms.modify channel fun st =>
      let set := st.localMutes user
      { st with
        localMutes := Function.update st.localMutes user
          (if muted then insert target set else set.erase target) } }

def step : Input → Option Server
  | .connect ticket => some (v.connect ticket)
  | .advance s => (v.tasks s).bind fun t => v.advance s t
  | .openStream s opening =>
      (v.tasks s).bind fun t =>
        match t.stage with
        | .subscribed j => some (v.openStream s t j opening)
        | _ => none
  | .kill s =>
      (v.tasks s).bind fun t =>
        match t.stage with
        | .running _ none =>
            -- `was_killed`: the clean-up is skipped
            if v.killable s t then some (v.setStage s t .finished) else none
        | _ => none
  | .leave s cause =>
      (v.tasks s).bind fun t =>
        match t.stage with
        | .running j none =>
            if cause = .moved ∧ t.moves = [] then none
            else some (v.setStage s t (.cleanup j .session))
        | _ => none
  | .frame s globalBroadcast emptyPayload now =>
      (v.tasks s).bind fun t =>
        match t.stage with
        | .running j none => some (v.readFrame s t j globalBroadcast emptyPayload now)
        | _ => none
  | .relay s now =>
      (v.tasks s).bind fun t =>
        match t.stage with
        | .running j (some relay) => some (v.relayFrame s t j now relay)
        | _ => none
  | .localMute s muted target =>
      (v.tasks s).bind fun t =>
        match t.stage with
        | .running _ none =>
            if target = "" then some v
            else some (v.localMute t.ticket.channelId t.ticket.userId muted target)
        | _ => none
  | .kick user => some (v.kick user)
  | .drainOrg org => some (v.drainOrg org)
  | .mute user room => v.setGain user .muted room
  | .unmute user room => v.setGain user .normal room
  | .move user channel => some (v.move user channel)
  | .eventTree channels => some { v with channelTree := v.channelTree.apply channels }
  | .sweep channel now => some (v.sweep channel now)

end Server

def voice : StepSystem Server Input where
  step := Server.step

end SpecterComs.MediaServer
