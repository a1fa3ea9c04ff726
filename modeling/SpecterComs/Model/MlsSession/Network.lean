import SpecterComs.Model.MlsSession.CatchUp

/-! # Devices and the delivery service

Any number of devices beside one delivery service. A device runs one lock section at a time,
and an account switch, a restart or an older state on disk may come at any of its awaits. A
request stays in the network: the service may take it late, more than once or never. An answer
or a published event may reach its device late, again or not at all.
-/

namespace SpecterComs.MlsSession

open DeliveryService (Base64 Db Directory Fault Request Response Event)

variable {State : Type}

/-- The request the delivery service meets, if it is one of its own. -/
def ApiRequest.service : ApiRequest → Option Request
  | .submit .commit target body => some (.submitCommit target body)
  | .submit .externalCommit target body => some (.submitExternalCommit target body)
  | .catchUp target => some (.catchUp target)
  | .getGroupInfo target => some (.getGroupInfo target)
  | .putGroupInfo target body => some (.putGroupInfo target body)
  | _ => none

/-- The reply a successful response is read as. -/
def ApiRequest.read : (r : ApiRequest) → Response → Option r.Reply
  | .submit _ _ _, .accepted _ => some (.ok ())
  | .catchUp _, .catchUp reply => some (.ok (catchUpData reply))
  | .getGroupInfo _, .groupInfo reply => some (.ok reply)
  | .putGroupInfo _ _, .uploaded _ => some (.ok ())
  | _, _ => none

/-- The reply of a request that was refused or not answered. -/
def ApiRequest.failed (text : String) : (r : ApiRequest) → r.Reply
  | .submit .. | .catchUp _ | .getGroupInfo _ | .putGroupInfo .. | .getUserDeviceKeyPackages _
  | .getChannelMlsMembers .. | .getOrgMembers _ | .getEventParticipants .. | .getChannels _
  | .getOrgEvents _ => .error text

structure Answer where
  device : ℕ
  request : ApiRequest
  reply : request.Reply

/-- The answer to its own request only. -/
def Answer.give (a : Answer) (r : ApiRequest) : Option r.Reply :=
  if h : a.request = r then some (h ▸ a.reply) else none

/-- `deviceStateCache` and the work under the lock. -/
structure Client (State : Type) where
  cache : Option State
  /-- What was handed to `mls_save_state`. The disk holds one of these. -/
  saved : List State
  holder : Option (Section State)
  /-- The section's session is the current one. -/
  current : Bool

namespace Client

/-- Every cached state may be saved. -/
def store (c : Client State) (s : State) : Client State :=
  { c with cache := some s, saved := s :: c.saved }

/-- Runs a section to its next await, or to its end. Its state is adopted in its own session
only, where no other section has run since. -/
def proceed (c : Client State) : Section State → Client State
  | .op o k => { c with holder := some (.op o k) }
  | .ret f =>
      let c := { c with holder := none }
      match f.state? with
      | some s => if c.current then c.store s else c
      | none => c

end Client

/-- What a device runs under the lock. Answers and events are given by their index. -/
inductive Work
  | encrypt (groupId : GroupId) (plaintext : Bytes)
  | decrypt (groupId : GroupId) (ciphertext : Bytes)
  | reconcile (target : Target) (routes : Routes) (commit : Reconciliation)
  | removeOwnStale (target : Target) (routes : Routes)
  | external (routes : Routes) (answer : ℕ) (force : Bool)
  | catchUp (answer : ℕ)
  /-- A live Welcome or commit. -/
  | event (event : ℕ)

structure Network (State : Type) where
  db : Db
  /-- The tables before each request the service took. -/
  past : List Db
  published : List Event
  devices : ℕ → Client State
  /-- The requests that were sent, and by which device. -/
  sent : List (ℕ × ApiRequest)
  answers : List Answer

namespace Network

inductive Input
  | start (d : ℕ) (work : Work) (seed : Seed) (label : Option Label)
  /-- Sends the request the section awaits. -/
  | send (d : ℕ)
  /-- `catchUpGroup` and `externalJoinOrResync` read outside the lock. -/
  | ask (d : ℕ) (target : Target) (groupInfo : Bool)
  /-- `maybeRefreshGroupInfo`. -/
  | upload (d : ℕ) (target : Target)
  | serve (k : ℕ) (directory : Directory) (fault : Fault)
  /-- A catch-up whose log was read from the `j`-th earlier tables. -/
  | serveLate (k j : ℕ) (directory : Directory)
  | reply (d k : ℕ)
  | fail (d : ℕ) (text : String)
  | slept (d : ℕ)
  /-- `resetForUser`. -/
  | reset (d : ℕ)
  | restart (d : ℕ)
  | load (d k : ℕ)
  | identity (d : ℕ) (seed : Seed) (label : Label)

variable (C : Crypto State) (codec : Codec) (base64 : Base64) (account : ℕ → UserId)

/-- The context of a target. A DM is named by the conversation id. -/
def contextOf (me : UserId) (routes : Routes) (target : Target) : Context :=
  ⟨target, target.groupId me, routes⟩

/-- The work and what it was given. -/
def lockWork (n : Network State) (d : ℕ) : Work → Option (LockWork C)
  | .encrypt g plaintext => some (encryptWork C g plaintext)
  | .decrypt g ciphertext => some (decryptWork C codec g ciphertext)
  | .reconcile target routes commit => some (own routes target .commit fun g => commit.build C g)
  | .removeOwnStale target routes => some (own routes target .commit (removeOwnStaleBuild C))
  | .external routes k force =>
      match n.answers[k]? with
      | some ⟨d', .getGroupInfo target, .ok data⟩ => do
          let groupInfo ← data.groupInfo.bind fun info => (codec.fromB64 info).toOption
          if d' = d then
            some (own routes target .externalCommit fun g =>
              externalBuild C g groupInfo data.epoch force)
          else none
      | _ => none
  | .catchUp k =>
      match n.answers[k]? with
      | some ⟨d', .catchUp target, .ok data⟩ =>
          if d' = d then some (catchUpWork C codec (target.groupId (account d)) data) else none
      | _ => none
  | .event k => do
      let event ← n.published[k]?
      let bytes ← (codec.fromB64 event.payload).toOption
      if event.type = "mls_commit" then some (commitWork C event.group.2 bytes)
      else if event.type = "mls_welcome" then some (welcomeWork C event.group.2 bytes)
      else none
where
  own (routes : Routes) (target : Target) (route : Route) (build : GroupId → Build C) : LockWork C :=
    let ctx := contextOf (account d) routes target
    ownCommitWork codec ctx route (build ctx.groupIdStr)

def setDevice (n : Network State) (d : ℕ) (c : Client State) : Network State :=
  { n with devices := Function.update n.devices d c }

def servedBy (n : Network State) (d : ℕ) (request : ApiRequest) (directory : Directory)
    (fault : Fault) : Option (Network State) := do
  let service ← request.service
  let handled :=
    (⟨some (account d), service, directory, fault⟩ : DeliveryService.Call).run base64 n.db
  some { n with
    db := handled.db
    past := n.past ++ [n.db]
    published := n.published ++ handled.events
    answers := n.answers ++ ((request.read handled.response).map (Answer.mk d request)).toList }

/-- The section goes on with the answer to what it awaits. -/
def answered (n : Network State) (d : ℕ) (answer : (r : ApiRequest) → Option r.Reply) :
    Option (Network State) :=
  match (n.devices d).holder with
  | some (.op (.api r) k) => (answer r).map fun reply => n.setDevice d ((n.devices d).proceed (k reply))
  | _ => none

def step (n : Network State) : Input → Option (Network State)
  | .start d work seed label =>
      match (n.devices d).cache, (n.devices d).holder, n.lockWork C codec account d work with
      | some s, none, some work =>
          let c := { n.devices d with current := true }
          match work.run seed ⟨s, label⟩ with
          | .ended f => some (n.setDevice d (c.proceed (.ret f)))
          | .ownCommit _ rest => some (n.setDevice d (c.proceed rest))
      | _, _, _ => none
  | .send d =>
      match (n.devices d).holder with
      | some (.op (.api request) _) => some { n with sent := n.sent ++ [(d, request)] }
      | _ => none
  | .ask d target groupInfo =>
      let request := if groupInfo then .getGroupInfo target else .catchUp target
      some { n with sent := n.sent ++ [(d, request)] }
  | .upload d target => do
      let s ← (n.devices d).cache
      let epoch ← C.groupEpoch s (target.groupId (account d))
      let info ← (C.exportGroupInfo s (target.groupId (account d))).toOption
      let request := .putGroupInfo target (uploadBody epoch (codec.toB64 info))
      some { n with sent := n.sent ++ [(d, request)] }
  | .serve k directory fault => do
      let (d, request) ← n.sent[k]?
      n.servedBy base64 account d request directory fault
  | .serveLate k j directory =>
      match n.sent[k]?, n.past[j]? with
      | some (d, .catchUp target), some logDb =>
          match DeliveryService.catchUpGate directory (some (account d)) target with
          | .error _ => none
          | .ok gate =>
              let reply := DeliveryService.fetchGroupCatchUp base64 logDb n.db gate.2 gate.1
              some { n with answers := n.answers ++ [⟨d, .catchUp target, .ok (catchUpData reply)⟩] }
      | _, _ => none
  | .reply d k =>
      match n.answers[k]? with
      | some a => if a.device = d then n.answered d a.give else none
      | none => none
  | .fail d text => n.answered d fun r => some (r.failed text)
  | .slept d =>
      match (n.devices d).holder with
      | some (.op (.sleep _) k) => some (n.setDevice d ((n.devices d).proceed (k ())))
      | _ => none
  | .reset d => some (n.setDevice d { n.devices d with cache := none, current := false })
  | .restart d => some (n.setDevice d { n.devices d with cache := none, holder := none })
  | .load d k =>
      match (n.devices d).cache, (n.devices d).saved[k]? with
      | none, some s => some (n.setDevice d { n.devices d with cache := some s })
      | _, _ => none
  | .identity d seed label =>
      match (n.devices d).cache, (n.devices d).holder with
      | none, none => some (n.setDevice d ((n.devices d).store (C.generateIdentity seed label).1))
      | _, _ => none

def start : Network State where
  db := .empty
  past := []
  published := []
  devices _ := ⟨none, [], none, false⟩
  sent := []
  answers := []

/-- Device `d` is signed in as `account d`. -/
def network : StepSystem (Network State) Input where
  step := step C codec base64 account

end Network

end SpecterComs.MlsSession
