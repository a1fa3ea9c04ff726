import Mathlib.Data.List.Nodup
import SpecterComs.Library.StepSystem

/-! # The key of a lane across rekeys

`createKeyGraceSlot` of `voiceRelayAudio.js`. Keys are objects, told apart by identity;
the slot owns those it holds. What the platform keeps of timers and of the calls of
`free()` is recorded beside it.
-/

namespace SpecterComs.KeyGrace

variable {Key : Type} [DecidableEq Key]

/-- A timer that was set and has neither fired nor been cleared, with the previous key for
which it was set. -/
structure Timer (Key : Type) where
  id : ℕ
  key : Option Key
  deriving DecidableEq, Repr

/-- A call of `free()`, with what the slot held then. -/
structure Freed (Key : Type) where
  key : Key
  current : Option Key
  previous : Option Key
  deriving DecidableEq, Repr

structure Slot (Key : Type) where
  current : Option Key
  previous : Option Key
  timer : Option ℕ
  armed : List (Timer Key)
  nextTimer : ℕ
  frees : List (Freed Key)
  /-- The keys that were installed so far. -/
  installed : List Key
  deriving DecidableEq, Repr

namespace Slot

def empty : Slot Key := ⟨none, none, none, [], 0, [], []⟩

def release (s : Slot Key) : Option Key → Slot Key
  | none => s
  | some key => { s with frees := s.frees ++ [⟨key, s.current, s.previous⟩] }

def cancelTimer (s : Slot Key) : Slot Key :=
  match s.timer with
  | none => s
  | some id => { s with armed := s.armed.filter (·.id ≠ id), timer := none }

/-- `timer = setTimer(expire, graceMs)`. -/
def setTimer (s : Slot Key) : Slot Key :=
  { s with
    armed := s.armed ++ [⟨s.nextTimer, s.previous⟩]
    timer := some s.nextTimer
    nextTimer := s.nextTimer + 1 }

def expire (s : Slot Key) : Slot Key :=
  let s := s.cancelTimer
  let old := s.previous
  { s with previous := none }.release old

def clear (s : Slot Key) : Slot Key :=
  let s := s.cancelTimer
  let c := s.current
  let p := s.previous
  let s := { s with current := none, previous := none }.release c
  if p ≠ c then s.release p else s

def install (s : Slot Key) (next : Option Key) : Slot Key :=
  match next with
  | none => s.clear
  | some next =>
      if some next = s.current then s
      else
        let displaced := s.previous
        let s :=
          { s with
            previous := s.current
            current := some next
            installed := if next ∈ s.installed then s.installed else s.installed ++ [next] }
        -- a swap back to the previous key must not free it
        let s := if displaced ≠ some next then s.release displaced else s
        let s := s.cancelTimer
        if s.previous.isSome then s.setTimer else s

/-- A new key, the current one, the previous one, or none. -/
def mayInstall (s : Slot Key) : Option Key → Bool
  | none => true
  | some key => some key = s.current ∨ some key = s.previous ∨ key ∉ s.installed

inductive Input (Key : Type)
  | install (next : Option Key)
  | expire
  | clear
  /-- A timer that is armed fires. -/
  | fire (id : ℕ)
  deriving DecidableEq, Repr

def step (s : Slot Key) : Input Key → Option (Slot Key)
  | .install next => if s.mayInstall next then some (s.install next) else none
  | .expire => some s.expire
  | .clear => some s.clear
  | .fire id =>
      if s.armed.any (·.id = id) then
        some { s with armed := s.armed.filter (·.id ≠ id) }.expire
      else none

end Slot

/-- Every sequence of calls and timers. -/
def graceSlot (Key : Type) [DecidableEq Key] : StepSystem (Slot Key) (Slot.Input Key) where
  step := Slot.step

end SpecterComs.KeyGrace
