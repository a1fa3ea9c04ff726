import Mathlib.Data.Finset.Basic
import Mathlib.Data.List.AList

/-! # Voice rooms of the media server

The room state of `media-rust/src/main.rs` as relay rooms use it. Every room is a relay
room, so what only the mixer reads (thresholds, PCM) is left out, and so are the video
maps, which have a model of their own.
-/

namespace SpecterComs.MediaServer

abbrev UserId := String
abbrev ChannelId := String
abbrev OrgId := String

/-- The gains 1.0 and 0.0. The ducked gain 0.1 is only set by the mixer. -/
inductive Gain
  | normal
  | muted
  deriving DecidableEq, Repr

/-- What is sent on a room's roster channel. Where the source sends `canonical_ssrc` of a
user id, the id stands for it. -/
inductive RosterMessage
  | join (callsign : String)
  | leave (callsign : String) (userId : UserId)
  | ssrcMap (members : Finset UserId)
  | speaking (callsign : String) (level : ℕ)
  | duck (speaker : UserId) (level : ℕ)
  | duckRelease
  deriving DecidableEq

/-- The shared map of output senders a room was created with. -/
abbrev OutputsId := ChannelId × ℕ

structure RoomState where
  /-- Everything sent on `roster_tx`, oldest first. -/
  roster : List RosterMessage
  members : Finset UserId
  callsigns : UserId → Option String
  userGains : UserId → Option Gain
  localMutes : UserId → Finset UserId
  priorityLevels : UserId → Option ℕ
  prioritySpeaker : Option UserId
  priorityReleaseAt : Option ℕ
  userOutputSenders : OutputsId
  sessionNonces : UserId → Option ℕ
  memberOrgs : UserId → Option OrgId

/-- The claims of a voice ticket that passed every check. `priority` is the tier of a
priority user. -/
structure Ticket where
  userId : UserId
  orgId : OrgId
  channelId : ChannelId
  callsign : String
  priority : Option ℕ
  deriving DecidableEq, Repr

namespace RoomState

def empty (outputs : OutputsId) : RoomState where
  roster := []
  members := ∅
  callsigns := fun _ => none
  userGains := fun _ => none
  localMutes := fun _ => ∅
  priorityLevels := fun _ => none
  prioritySpeaker := none
  priorityReleaseAt := none
  userOutputSenders := outputs
  sessionNonces := fun _ => none
  memberOrgs := fun _ => none

def send (st : RoomState) (msgs : List RosterMessage) : RoomState :=
  { st with roster := st.roster ++ msgs }

/-- The user joins, or joins again. -/
def join (st : RoomState) (t : Ticket) (nonce : ℕ) : RoomState :=
  { st with
    members := insert t.userId st.members
    callsigns := Function.update st.callsigns t.userId (some t.callsign)
    userGains := Function.update st.userGains t.userId (some .normal)
    memberOrgs := Function.update st.memberOrgs t.userId (some t.orgId)
    priorityLevels :=
      match t.priority with
      | some tier => Function.update st.priorityLevels t.userId (some tier)
      | none => st.priorityLevels
    sessionNonces := Function.update st.sessionNonces t.userId (some nonce)
    roster := st.roster ++ [.join t.callsign, .ssrcMap (insert t.userId st.members)] }

/-- The clean-up of a session takes its user out of the room. -/
def remove (st : RoomState) (user : UserId) : RoomState :=
  { st with
    sessionNonces := Function.update st.sessionNonces user none
    members := st.members.erase user
    callsigns := Function.update st.callsigns user none
    userGains := Function.update st.userGains user none
    localMutes := Function.update st.localMutes user ∅
    priorityLevels := Function.update st.priorityLevels user none
    memberOrgs := Function.update st.memberOrgs user none
    prioritySpeaker := if st.prioritySpeaker = some user then none else st.prioritySpeaker
    priorityReleaseAt := if st.prioritySpeaker = some user then none else st.priorityReleaseAt
    roster := st.roster ++ [.leave ((st.callsigns user).getD user) user] }

def setGain (st : RoomState) (user : UserId) (gain : Gain) : RoomState :=
  { st with userGains := Function.update st.userGains user (some gain) }

/-- The hangover of a priority speaker, in milliseconds. -/
def duckHangover : ℕ := 1500

def setSpeaker (st : RoomState) (user : UserId) (now : ℕ) : RoomState :=
  { st with
    prioritySpeaker := some user
    priorityReleaseAt := some (now + duckHangover) }

/-- One tick of `duck_release_sweeper`. -/
def sweep (st : RoomState) (now : ℕ) : RoomState :=
  if st.priorityReleaseAt.any (· ≤ now) then
    { st with
      prioritySpeaker := none
      priorityReleaseAt := none
      roster := st.roster ++ [.duckRelease] }
  else
    st

end RoomState

/-! ## The registry of rooms -/

abbrev Rooms := AList fun _ : ChannelId => RoomState

namespace Rooms

/-- `get_mut`, where the room is there. -/
def modify (rooms : Rooms) (channel : ChannelId) (f : RoomState → RoomState) : Rooms :=
  match rooms.lookup channel with
  | some st => rooms.insert channel (f st)
  | none => rooms

theorem lookup_modify {rooms : Rooms} {channel c : ChannelId} {f : RoomState → RoomState} :
    (rooms.modify channel f).lookup c =
      if c = channel then (rooms.lookup channel).map f else rooms.lookup c := by
  unfold modify
  by_cases h : c = channel
  · subst h
    cases hst : rooms.lookup c with
    | none => simp [hst]
    | some st => simp
  · cases rooms.lookup channel with
    | none => simp [h]
    | some st => simp [h, AList.lookup_insert_ne h]

end Rooms

/-! ## The event channel tree -/

/-- Each channel with its parent. -/
abbrev ChannelTree := List (ChannelId × Option ChannelId)

/-- `apply_channel_tree_payload`. -/
def ChannelTree.apply (tree : ChannelTree) (channels : ChannelTree) : ChannelTree :=
  channels.foldl (fun tree node =>
    if node.1 = "" then tree else node :: tree.filter fun other => other.1 ≠ node.1) tree

/-- The loop of `get_descendants`. A channel enters the frontier when it is found first,
so the channels of the tree and the root bound its rounds. -/
def ChannelTree.explore (tree : ChannelTree) :
    ℕ → List ChannelId → List ChannelId → List ChannelId
  | 0, _, result => result
  | _ + 1, [], result => result
  | rounds + 1, current :: frontier, result =>
      let found :=
        (tree.filter fun node => node.2 = some current ∧ node.1 ∉ result).map Prod.fst
      explore tree rounds (found.reverse ++ frontier) (result ++ found)

/-- `get_descendants`. -/
def ChannelTree.getDescendants (tree : ChannelTree) (root : ChannelId) : List ChannelId :=
  tree.explore (tree.length + 1) [root] []

/-! ## The search for descendants

`get_descendants` with its visited set. A tree is listed in the order in which the hash map
iterates over it, so nothing is assumed of that order.
-/

/-- Between two rounds of the outer loop. -/
structure Descent where
  result : List ChannelId
  visited : Finset ChannelId
  /-- What was pushed last comes first. -/
  frontier : List ChannelId

namespace Descent

def start (root : ChannelId) : Descent :=
  ⟨[], ∅, [root]⟩

/-- One entry of the tree, in the round of `current`. -/
def visit (current : ChannelId) (d : Descent) (node : ChannelId × Option ChannelId) : Descent :=
  if node.2 = some current ∧ node.1 ∉ d.visited then
    ⟨d.result ++ [node.1], insert node.1 d.visited, node.1 :: d.frontier⟩
  else d

/-- One round of the outer loop, or none after the last. -/
def round (tree : ChannelTree) (d : Descent) : Option Descent :=
  match d.frontier with
  | [] => none
  | current :: frontier => some (tree.foldl (visit current) { d with frontier })

end Descent

/-- The outer loop in at most so many rounds, none if it has not ended by then. -/
def ChannelTree.descend (tree : ChannelTree) : ℕ → Descent → Option (List ChannelId)
  | 0, _ => none
  | rounds + 1, d =>
      match d.round tree with
      | none => some d.result
      | some d => tree.descend rounds d

end SpecterComs.MediaServer
