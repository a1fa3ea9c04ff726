import SpecterComs.Library.StepSystem
import SpecterComs.Model.MlsSession.Calls

/-! # A catch-up beside the delivery service

The service reads the log and the epoch of a group in two queries, and the device applies
the reply in a lock section of its own. The service takes requests and the device applies
live commits all the while.
-/

namespace SpecterComs.MlsSession

open DeliveryService (Base64 Db Call CatchUp fetchGroupCatchUp)

variable {State : Type}

/-- The body of the service's answer, as the device reads it. -/
def catchUpData (reply : CatchUp) : CatchUpData :=
  { welcome := reply.welcome.map Prod.snd
    commits := reply.commits
    currentEpoch := some reply.currentEpoch
    groupInfoEpoch := reply.groupInfoEpoch }

/-- The service's tables, the device's state and where the catch-up is. -/
structure CatchingUp (State : Type) where
  db : Db
  state : State
  /-- The tables the log was read from. -/
  logDb : Option Db
  reply : Option CatchUp
  status : Option Status

inductive CatchingUp.Input
  /-- A request of any device. -/
  | request (c : Call)
  /-- The device applies a commit it was sent. -/
  | live (commit : Bytes)
  | queryLog
  | queryEpoch
  /-- The lock section of the catch-up, and the status that follows from it. -/
  | applyReply

namespace CatchingUp

variable (C : Crypto State) (codec : Codec) (base64 : Base64) (groupId : GroupId) (userId : UserId)

def start (db : Db) (state : State) : CatchingUp State :=
  ⟨db, state, none, none, none⟩

/-- What a section leaves. -/
def adopt (state : State) (f : Finish State) : State :=
  f.state?.getD state

def step (w : CatchingUp State) : Input → Option (CatchingUp State)
  | .request c => some { w with db := (c.run base64 w.db).db }
  | .live commit =>
      some { w with state := adopt w.state (commitSection C groupId commit 0 ⟨w.state, none⟩) }
  | .queryLog => some { w with logDb := some w.db, reply := none }
  | .queryEpoch => do
      let logDb ← w.logDb
      some { w with
        logDb := none
        reply := some (fetchGroupCatchUp base64 logDb w.db groupId userId) }
  | .applyReply => do
      let reply ← w.reply
      let data := catchUpData reply
      some { w with
        state := adopt w.state (catchUpSection C codec groupId data 0 ⟨w.state, none⟩)
        reply := none
        status := some (data.status (applyCatchUp C codec groupId w.state data).epoch) }

def catchingUp : StepSystem (CatchingUp State) Input where
  step := step C codec base64 groupId userId

end CatchingUp

end SpecterComs.MlsSession
