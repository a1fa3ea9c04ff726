import SpecterComs.Library.StepSystem
import Mathlib.Algebra.GroupWithZero.Nat

/-! # Screen sharing

`handle_video_publish` and `handle_video_subscribe` of `media-rust/src/main.rs`, for one
sharer in one room: the entries of the user in the per-sharer maps, the user's publish
sessions and the viewers. Each section under one lock is a step. Maps of other users are
other entries, and a room that is created again has maps of its own.
-/

namespace SpecterComs.MediaServer

namespace Video

/-- A complete frame as the publisher sent it. Its session and its place in it are not on the
wire. -/
structure Frame where
  session : ℕ
  index : ℕ
  flags : ℕ
  deriving DecidableEq, Repr

/-- `video_flags_is_keyframe`: bit 0 of the flags byte is clear. -/
def Frame.isKeyframe (f : Frame) : Bool :=
  f.flags % 2 = 0

/-- The maps of a room that have an entry for each sharer. -/
inductive Map
  | publishNonces
  | activationSenders
  | headers
  | streams
  | sharers
  | keyframes
  | overlayHeaders
  | overlayStreams
  | overlayKeyframes
  deriving DecidableEq, Repr

/-- The user's entry in a map: the session that made it and, in the keyframe cache, the
frame. -/
structure Entry where
  session : ℕ
  frame : Option Frame
  deriving DecidableEq, Repr

/-- What the accept of the main stream comes to: an error or a time-out, a bad type byte or
header, or a header. -/
inductive Accepted
  | failed
  | rejected
  | header
  deriving DecidableEq, Repr

inductive Stage
  /-- The nonce is claimed. -/
  | claimed
  /-- Waits for the main stream. -/
  | waiting
  /-- The accept failed; the nonce is checked next. -/
  | givingUp
  | dropActivation
  /-- The entries that are made next. -/
  | entering (rest : List Map)
  /-- The relay loop, with a frame that is read and not yet broadcast. -/
  | relaying (pending : Option Frame)
  /-- The nonce is checked before the teardown. -/
  | checking
  /-- The entries that are removed next. -/
  | clearing (rest : List Map)
  | ended
  deriving DecidableEq, Repr

/-- The task that relays the overlay stream. -/
inductive Overlay
  | unborn
  | waiting
  | entering (rest : List Map)
  | relaying
  | leaving (rest : List Map)
  | ended
  deriving DecidableEq, Repr

/-- A publish session; its nonce is its number. -/
structure Publisher where
  stage : Stage
  overlay : Overlay
  /-- What was sent on the broadcast channel; `none` is the empty chunk at the end. -/
  sent : List (Option Frame)
  overlaySent : List Frame
  deriving DecidableEq, Repr

inductive Watching
  /-- The receiver is made; the keyframe cache is read next. -/
  | subscribed
  | opening (keyframe : Option Frame)
  | looping (needsResync : Bool) (framesSent : ℕ)
  | closed
  deriving DecidableEq, Repr

/-- A subscriber: its receiver, and the frames written to its stream. -/
structure Viewer where
  publisher : ℕ
  position : ℕ
  watching : Watching
  written : List Frame
  deriving DecidableEq, Repr

structure Room where
  entries : Map → Option Entry
  /-- `SESSION_NONCE`. -/
  nextNonce : ℕ
  publishers : ℕ → Option Publisher
  viewers : ℕ → Option Viewer
  nextViewer : ℕ

inductive Input
  | publish
  | accept (p : ℕ) (accepted : Accepted)
  /-- The next section of the set-up or the teardown of a publish session. -/
  | advance (p : ℕ)
  | read (p : ℕ) (flags : ℕ)
  | broadcast (p : ℕ)
  /-- The main stream ends, or a frame is not acceptable. -/
  | stopRelay (p : ℕ)
  | overlayOpen (p : ℕ)
  /-- The next section of the overlay task. -/
  | overlayAdvance (p : ℕ)
  | overlayRead (p : ℕ) (flags : ℕ)
  | overlayStop (p : ℕ)
  | subscribe
  | readCache (w : ℕ)
  | openStream (w : ℕ) (opened : Bool)
  | receive (w : ℕ) (stale : Bool) (writes : Bool)
  | lag (w : ℕ) (n : ℕ)
  | close (w : ℕ)
  deriving DecidableEq, Repr

/-- The entries a publish session makes once it has the header. -/
def Stage.registration : List Map := [.headers, .streams, .sharers]

/-- The entries the teardown removes, in its order. -/
def Stage.teardown : List Map :=
  [.headers, .keyframes, .overlayHeaders, .overlayKeyframes, .activationSenders, .streams, .sharers]

def Overlay.registration : List Map := [.overlayHeaders, .overlayStreams]

def Overlay.teardown : List Map := [.overlayHeaders, .overlayKeyframes, .overlayStreams]

namespace Room

def init : Room where
  entries := fun _ => none
  nextNonce := 1
  publishers := fun _ => none
  viewers := fun _ => none
  nextViewer := 0

variable (r : Room) (p : ℕ) (pub : Publisher)

def insert (m : Map) : Room :=
  { r with entries := Function.update r.entries m (some ⟨p, none⟩) }

def cache (m : Map) (f : Frame) : Room :=
  { r with entries := Function.update r.entries m (some ⟨p, some f⟩) }

def remove (m : Map) : Room :=
  { r with entries := Function.update r.entries m none }

def setPublisher : Room :=
  { r with publishers := Function.update r.publishers p (some pub) }

def setStage (stage : Stage) : Room :=
  r.setPublisher p { pub with stage }

def setOverlay (overlay : Overlay) : Room :=
  r.setPublisher p { pub with overlay }

/-! ## Publish sessions -/

/-- The session claims its nonce. -/
def publish : Room :=
  { (r.insert r.nextNonce .publishNonces).setPublisher r.nextNonce ⟨.claimed, .unborn, [], []⟩ with
    nextNonce := r.nextNonce + 1 }

def accept : Accepted → Room
  | .failed => r.setStage p pub .givingUp
  | .rejected => r.setStage p pub .checking
  | .header => r.setStage p pub (.entering Stage.registration)

/-- The nonce is the session's: it is removed in the same lock. -/
def holdsNonce : Bool :=
  (r.entries .publishNonces).any (·.session = p)

def enter (m : Map) (rest : List Map) : Room :=
  if rest = [] then
    -- the overlay task is spawned, and the relay loop begins
    (r.insert p m).setPublisher p { pub with stage := .relaying none, overlay := .waiting }
  else (r.insert p m).setStage p pub (.entering rest)

def clear (m : Map) (rest : List Map) : Room :=
  let stage := if rest = [] then .ended else .clearing rest
  if m = .activationSenders then
    (r.remove m).setPublisher p { pub with stage, sent := pub.sent ++ [none] }
  else (r.remove m).setStage p pub stage

def advance : Option Room :=
  match pub.stage with
  | .claimed => some ((r.insert p .activationSenders).setStage p pub .waiting)
  | .givingUp =>
      if r.holdsNonce p then some ((r.remove .publishNonces).setStage p pub .dropActivation)
      else some (r.setStage p pub .ended)
  | .dropActivation => some ((r.remove .activationSenders).setStage p pub .ended)
  | .entering (m :: rest) => some (r.enter p pub m rest)
  | .checking =>
      if r.holdsNonce p then
        some ((r.remove .publishNonces).setStage p pub (.clearing Stage.teardown))
      else some (r.setStage p pub .ended)
  | .clearing (m :: rest) => some (r.clear p pub m rest)
  | .entering [] | .clearing [] | .waiting | .relaying _ | .ended => none

/-- A keyframe goes to the cache before it is broadcast. -/
def read (flags : ℕ) : Room :=
  let frame : Frame := ⟨p, pub.sent.length, flags⟩
  if frame.isKeyframe then (r.cache p .keyframes frame).setStage p pub (.relaying (some frame))
  else r.setStage p pub (.relaying (some frame))

def broadcast (frame : Frame) : Room :=
  r.setPublisher p { pub with stage := .relaying none, sent := pub.sent ++ [some frame] }

/-! ## The overlay task

The abort at the end of the relay loop takes effect where the task next waits, so a section
of it may still run; its steps do not look at the stage of the session. -/

def overlayAdvance : Option Room :=
  match pub.overlay with
  | .entering (m :: rest) =>
      some ((r.insert p m).setOverlay p pub (if rest = [] then .relaying else .entering rest))
  | .leaving (m :: rest) =>
      some ((r.remove m).setOverlay p pub (if rest = [] then .ended else .leaving rest))
  | _ => none

def overlayRead (flags : ℕ) : Room :=
  let frame : Frame := ⟨p, pub.overlaySent.length, flags⟩
  let pub := { pub with overlaySent := pub.overlaySent ++ [frame] }
  if frame.isKeyframe then (r.cache p .overlayKeyframes frame).setPublisher p pub
  else r.setPublisher p pub

/-! ## Viewers -/

def setViewer (w : ℕ) (viewer : Viewer) : Room :=
  { r with viewers := Function.update r.viewers w (some viewer) }

/-- The receiver begins after what was sent so far. -/
def subscribe (p : ℕ) (pub : Publisher) : Room :=
  { r.setViewer r.nextViewer ⟨p, pub.sent.length, .subscribed, []⟩ with
    nextViewer := r.nextViewer + 1 }

def openStream (w : ℕ) (viewer : Viewer) (keyframe : Option Frame) (opened : Bool) : Room :=
  if opened then
    r.setViewer w { viewer with watching := .looping false 0, written := keyframe.toList }
  else r.setViewer w { viewer with watching := .closed }

/-- The frame is written, or the write fails and the loop ends. -/
def write (w : ℕ) (viewer : Viewer) (frame : Frame) (framesSent : ℕ) (writes : Bool) : Room :=
  if writes then
    r.setViewer w
      { viewer with
        position := viewer.position + 1
        watching := .looping false (framesSent + 1)
        written := viewer.written ++ [frame] }
  else r.setViewer w { viewer with watching := .closed }

def receive (w : ℕ) (viewer : Viewer) (needsResync : Bool) (framesSent : ℕ) (stale writes : Bool) :
    Option Frame → Room
  | none => r.setViewer w { viewer with watching := .closed }
  | some frame =>
      let skip : Room := r.setViewer w
        { viewer with
          position := viewer.position + 1
          watching := .looping true framesSent }
      if needsResync then
        if frame.isKeyframe then r.write w viewer frame framesSent writes else skip
      else if !frame.isKeyframe && stale then skip
      else r.write w viewer frame framesSent writes

def step : Input → Option Room
  | .publish => some r.publish
  | .accept p accepted =>
      (r.publishers p).bind fun pub =>
        if pub.stage = .waiting then some (r.accept p pub accepted) else none
  | .advance p => (r.publishers p).bind fun pub => r.advance p pub
  | .read p flags =>
      (r.publishers p).bind fun pub =>
        if pub.stage = .relaying none then some (r.read p pub flags) else none
  | .broadcast p =>
      (r.publishers p).bind fun pub =>
        match pub.stage with
        | .relaying (some frame) => some (r.broadcast p pub frame)
        | _ => none
  | .stopRelay p =>
      (r.publishers p).bind fun pub =>
        if pub.stage = .relaying none then some (r.setStage p pub .checking) else none
  | .overlayOpen p =>
      (r.publishers p).bind fun pub =>
        if pub.overlay = .waiting then
          some (r.setOverlay p pub (.entering Overlay.registration))
        else none
  | .overlayAdvance p => (r.publishers p).bind fun pub => r.overlayAdvance p pub
  | .overlayRead p flags =>
      (r.publishers p).bind fun pub =>
        if pub.overlay = .relaying then some (r.overlayRead p pub flags) else none
  | .overlayStop p =>
      (r.publishers p).bind fun pub =>
        if pub.overlay = .relaying then some (r.setOverlay p pub (.leaving Overlay.teardown))
        else none
  | .subscribe =>
      (r.entries .streams).bind fun e => (r.publishers e.session).bind fun pub =>
        some (r.subscribe e.session pub)
  | .readCache w =>
      (r.viewers w).bind fun viewer =>
        if viewer.watching = .subscribed then
          some (r.setViewer w
            { viewer with watching := .opening ((r.entries .keyframes).bind (·.frame)) })
        else none
  | .openStream w opened =>
      (r.viewers w).bind fun viewer =>
        match viewer.watching with
        | .opening keyframe => some (r.openStream w viewer keyframe opened)
        | _ => none
  | .receive w stale writes =>
      (r.viewers w).bind fun viewer => (r.publishers viewer.publisher).bind fun pub =>
        match viewer.watching with
        | .looping needsResync framesSent =>
            (pub.sent[viewer.position]?).bind fun message =>
              some (r.receive w viewer needsResync framesSent stale writes message)
        | _ => none
  | .lag w n =>
      -- the receiver goes on with the oldest message that is still there
      (r.viewers w).bind fun viewer => (r.publishers viewer.publisher).bind fun pub =>
        match viewer.watching with
        | .looping _ framesSent =>
            if 0 < n ∧ viewer.position + n ≤ pub.sent.length then
              some (r.setViewer w
                { viewer with
                  position := viewer.position + n
                  watching := .looping true framesSent })
            else none
        | _ => none
  | .close w =>
      (r.viewers w).bind fun viewer => some (r.setViewer w { viewer with watching := .closed })

end Room

end Video

def video : StepSystem Video.Room Video.Input where
  step := Video.Room.step

end SpecterComs.MediaServer

/-! # Activation of a sharer

A publish session begins with an activation channel at 0. A viewer raises the count when its stream
is open, before the frame loop, and lowers it after the loop: each time in the channel that the map
holds then.
-/

namespace SpecterComs.MediaServer

namespace Video

/-- The room, the count in the activation channel of each publish session, and the viewers between
the two sections that change a count. -/
structure Audience where
  room : Room
  counts : ℕ → ℕ
  counted : List ℕ

inductive AudienceInput
  | room (i : Input)
  /-- `act_tx.send_modify(|v| *v += 1)`. -/
  | activate (w : ℕ)
  /-- `act_tx.send_modify(|v| *v = v.saturating_sub(1))`. -/
  | deactivate (w : ℕ)
  deriving DecidableEq, Repr

def Watching.isLooping : Watching → Bool
  | .looping _ _ => true
  | _ => false

namespace Audience

def init : Audience where
  room := .init
  counts := fun _ => 0
  counted := []

variable (a : Audience)

/-- Where the frame loop of a viewer goes on, its count has been raised. -/
def mayGoOn : Input → Bool
  | .receive w _ _ | .lag w _ | .close w =>
      (a.room.viewers w).all fun viewer => !viewer.watching.isLooping || decide (w ∈ a.counted)
  | _ => true

/-- The channel that the map holds, if it holds one, gets another value. -/
def sendModify (f : ℕ → ℕ) : ℕ → ℕ :=
  match a.room.entries .activationSenders with
  | none => a.counts
  | some e => Function.update a.counts e.session (f (a.counts e.session))

def activate (w : ℕ) : Audience :=
  { a with
    counts := a.sendModify fun v => (v + 1) % 2 ^ 32
    counted := w :: a.counted }

def deactivate (w : ℕ) : Audience :=
  { a with
    counts := a.sendModify (· - 1)
    counted := a.counted.erase w }

def step : AudienceInput → Option Audience
  | .room i =>
      if a.mayGoOn i then (a.room.step i).map fun room => { a with room } else none
  | .activate w =>
      (a.room.viewers w).bind fun viewer =>
        if viewer.watching.isLooping ∧ w ∉ a.counted then some (a.activate w) else none
  | .deactivate w =>
      (a.room.viewers w).bind fun viewer =>
        if viewer.watching = .closed ∧ w ∈ a.counted then some (a.deactivate w) else none

end Audience

end Video

def audience : StepSystem Video.Audience Video.AudienceInput where
  step := Video.Audience.step

end SpecterComs.MediaServer
