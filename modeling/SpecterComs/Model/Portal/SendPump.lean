import SpecterComs.Library.StepSystem

/-! # The send pump of a shared screen

`createVideoSendPump` of `CommLink.jsx`. A pump runs until it awaits a write, and goes on when
the write completed or failed. A frame is named by the `submit` call it came with.
-/

namespace SpecterComs.SendPump

structure Frame where
  number : ℕ
  isKeyframe : Bool
  deriving DecidableEq, Repr

structure Write (Writer : Type*) where
  writer : Writer
  frame : Frame
  deriving DecidableEq, Repr

structure State (Writer : Type*) where
  queued : Option Frame
  sending : Bool
  needsResync : Bool
  /-- `writerRef.current`. -/
  writer : Option Writer
  /-- The writes that the running pumps await. -/
  inFlight : List (Write Writer)
  submitted : List Frame
  /-- The calls of `write` so far. -/
  writes : List (Write Writer)
  failed : List Frame
  /-- The calls of `onDrop`. -/
  drops : ℕ
  /-- The writer that got the last keyframe handed out, as long as no frame was lost since: no
  write failed, and none met an empty `writerRef`. -/
  synced : Option Writer
  deriving DecidableEq, Repr

inductive Input (Writer : Type*)
  | submit (isKeyframe : Bool)
  /-- A write completes or fails. -/
  | completed (t : ℕ)
  | failed (t : ℕ)
  | setWriter (writer : Option Writer)
  deriving DecidableEq, Repr

namespace State

variable {Writer : Type*}

def init (writer : Option Writer) : State Writer where
  queued := none
  sending := false
  needsResync := false
  writer := writer
  inFlight := []
  submitted := []
  writes := []
  failed := []
  drops := 0
  synced := none

variable (s : State Writer)

/-- The loop of a pump up to its next write. A `write` of no writer throws. -/
def loop : State Writer :=
  match s.queued with
  | none => { s with sending := false }
  | some frame =>
      match s.writer with
      | none => { s with queued := none, sending := false, synced := none }
      | some writer =>
          { s with
            queued := none
            inFlight := s.inFlight ++ [⟨writer, frame⟩]
            writes := s.writes ++ [⟨writer, frame⟩]
            synced := if frame.isKeyframe then some writer else s.synced }

def pump : State Writer :=
  if s.sending then s else { s with sending := true }.loop

def submit (isKeyframe : Bool) : State Writer :=
  let frame : Frame := ⟨s.submitted.length, isKeyframe⟩
  let s := { s with submitted := s.submitted ++ [frame] }
  if s.sending then
    if !isKeyframe then { s with needsResync := true, drops := s.drops + 1 }
    else { s with queued := some frame, needsResync := false }.pump
  else if s.needsResync then
    if !isKeyframe then { s with drops := s.drops + 1 }
    else { s with needsResync := false, queued := some frame }.pump
  else { s with queued := some frame }.pump

def completed (t : ℕ) : State Writer :=
  { s with inFlight := s.inFlight.eraseIdx t }.loop

/-- The pump breaks off. -/
def fails (t : ℕ) (write : Write Writer) : State Writer :=
  { s with
    inFlight := s.inFlight.eraseIdx t
    sending := false
    failed := s.failed ++ [write.frame]
    synced := none }

end State

def system (Writer : Type*) : StepSystem (State Writer) (Input Writer) where
  step s
    | .submit isKeyframe => some (s.submit isKeyframe)
    | .completed t => s.inFlight[t]?.map fun _ => s.completed t
    | .failed t => s.inFlight[t]?.map fun write => s.fails t write
    | .setWriter writer => some { s with writer := writer }

end SpecterComs.SendPump
