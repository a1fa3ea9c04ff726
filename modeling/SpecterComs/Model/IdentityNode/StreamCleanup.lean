import SpecterComs.Model.IdentityNode.EventStream

/-! # What an event stream holds

One call of `eventStream` of `sseController.ts` with its timer and its subscriptions. It runs from
one await to the next; in between its client may disconnect. The `close` event is emitted once, and
a listener that is attached later does not see it.
-/

namespace SpecterComs.StreamCleanup

open DeliveryService (UserId)
open EventStream (Subject)

structure Subscription where
  subject : Subject
  /-- Not unsubscribed. -/
  active : Bool
  deriving DecidableEq, Repr

/-- Where the handler stands. -/
inductive Handler
  /-- It awaits the membership query. -/
  | members
  /-- It awaits `connectNats`. -/
  | nats (orgIds : List String)
  /-- It awaits the channel query. -/
  | channels (orgIds : List String)
  | returned
  | threw
  deriving DecidableEq, Repr

/-- What is written to the response. -/
inductive Chunk
  | keepalive
  | event (subject : Subject)
  | connected (orgIds : List String)
  deriving DecidableEq, Repr

structure Stream where
  userId : UserId
  handler : Handler
  /-- The response is closed. -/
  closed : Bool
  /-- The listener on `close` is attached. -/
  listening : Bool
  /-- The timer runs. -/
  keepalive : Bool
  subs : List Subscription
  written : List Chunk
  deriving DecidableEq, Repr

inductive Input
  /-- The membership query answers, or fails. -/
  | members (orgIds : Option (List String))
  /-- `connectNats` gives a connection or `null`; the `n`-th `subscribe` may throw. -/
  | nats (connected : Bool) (throws : Option ℕ)
  /-- The channel query answers, or fails. -/
  | channels (channelIds : Option (List String)) (throws : Option ℕ)
  | disconnect
  /-- 25 seconds are over. -/
  | tick
  /-- A message on a subject. -/
  | message (subject : Subject)
  deriving DecidableEq, Repr

/-- The call, up to its first await. Without a user it answers 401. -/
def eventStream (userId : Option UserId) : Stream where
  userId := userId.getD ""
  handler := if userId.isSome then .members else .returned
  closed := false
  listening := false
  keepalive := userId.isSome
  subs := []
  written := []

namespace Stream

variable (s : Stream)

/-- The calls of `subscribe` that come before one that throws. -/
def subscribe (subjects : List Subject) (throws : Option ℕ) : Stream :=
  { s with
    subs := s.subs ++ (match throws with
      | none => subjects
      | some n => subjects.take n).map fun subject => ⟨subject, true⟩ }

/-- A call throws. -/
def fails (subjects : List Subject) (throws : Option ℕ) : Bool :=
  throws.any fun n => n < subjects.length

/-- The end of the handler. -/
def finish (orgIds : List String) : Stream :=
  { s with
    handler := .returned
    written := s.written ++ [.connected orgIds]
    listening := true }

/-- The listener on `close`. -/
def cleanup : Stream :=
  { s with
    keepalive := false
    subs := s.subs.map fun sub => { sub with active := false } }

def step : Input → Option Stream
  | .members orgIds =>
      if s.handler = .members then some { s with handler := .nats (orgIds.getD []) } else none
  | .nats connected throws =>
      match s.handler with
      | .nats orgIds =>
          if connected then
            let subjects := .user s.userId :: orgIds.map .org
            let s' := s.subscribe subjects throws
            if fails subjects throws then some { s' with handler := .threw }
            else if orgIds = [] then some (s'.finish orgIds)
            else some { s' with handler := .channels orgIds }
          else some (s.finish orgIds)
      | _ => none
  | .channels channelIds throws =>
      match s.handler with
      | .channels orgIds =>
          some ((s.subscribe ((channelIds.getD []).map .channel) throws).finish orgIds)
      | _ => none
  | .disconnect =>
      if s.closed then none
      else
        let s' := if s.listening then s.cleanup else s
        some { s' with closed := true }
  | .tick => if s.keepalive then some { s with written := s.written ++ [.keepalive] } else none
  | .message subject =>
      some { s with
        written := s.written ++ (s.subs.filter fun sub => sub.active && sub.subject = subject).map
          fun sub => .event sub.subject }

end Stream

def streams : StepSystem Stream Input where
  step s := s.step

end SpecterComs.StreamCleanup
