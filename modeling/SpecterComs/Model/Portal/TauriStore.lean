import SpecterComs.Model.Desktop.Session

/-! # The token store of the desktop app

`tauriStore` of `web-portal/src/auth/tokenStore.js`, in every window of the app, over the session
that `session.rs` keeps. Of a call there is what it does at once, its command at Rust, and what the
window does with the answer. What Rust emits reaches each window in order, at its own time.

What `held`, `stamps`, `floor`, `since` and `switched` say is read by nothing that the app does: they
record which tokens belong to which login.
-/

namespace SpecterComs.TauriStore

open DesktopSession (Session Command Outcome Outside Pc Memory)

def cacheMinRemainingMs : ℤ := 180000

/-- `{ token, exp }`. -/
structure Cached (Token : Type*) where
  token : Token
  exp : ℤ
  deriving DecidableEq, Repr

/-- What `cacheToken` puts into `cached`. -/
def cacheToken {Token : Type*} (jwtExpMs : Token → Option ℤ) (token : Option Token) :
    Option (Cached Token) :=
  token.bind fun token =>
    (jwtExpMs token).bind fun exp => if exp = 0 then none else some ⟨token, exp⟩

inductive Kind (Token User : Type*)
  | getToken
  | onUnauthorized (staleToken : Option Token)
  | restore
  | setSession (s : Session Token User)
  | setUser (user : User)
  | clear
  deriving DecidableEq, Repr

def Kind.command {Token User : Type*} : Kind Token User → Command Token User
  | .getToken => .authGetToken
  | .onUnauthorized staleToken => .authRefresh staleToken
  | .restore => .authRestore
  | .setSession s => .authSetSession s
  | .setUser user => .authSetUser user
  | .clear => .authLogout

/-- A call whose answer has not come. -/
structure Call (Token User : Type*) where
  window : ℕ
  kind : Kind Token User
  /-- The command, once Rust has it. -/
  task : Option ℕ
  /-- The `floor` of the window when it made the call. -/
  since : ℕ
  /-- It logs in somebody else than the window knew of. -/
  switched : Bool

inductive Reason
  | login
  | restore
  | refresh
  | user
  | logout
  | expired
  deriving DecidableEq, Repr

/-- The payload of `auth-changed`, and the epoch of the change. -/
structure AuthChanged (User : Type*) where
  user : Option User
  reason : Reason
  epoch : ℕ
  deriving DecidableEq, Repr

structure Window (Token User : Type*) where
  cached : Option (Cached Token)
  /-- Whom the window mirrored last. -/
  user : Option User
  /-- What Rust has emitted and the window has not heard. -/
  events : List (AuthChanged User)
  /-- The epoch of the latest logout, or login of somebody else, that the window has processed. -/
  floor : ℕ

structure State (Token User : Type*) where
  rust : DesktopSession.State Token User
  calls : ℕ → Option (Call Token User)
  windows : ℕ → Window Token User
  /-- The tokens that Rust's session has had, with their epochs. -/
  held : List (ℕ × Token)
  /-- The epoch that a command of Rust set. -/
  stamps : ℕ → ℕ

inductive Turn (Token User : Type*)
  | call (n w : ℕ) (kind : Kind Token User) (now : ℤ)
  /-- Rust gets the command of a call. -/
  | arrive (n : ℕ)
  | rust (t : ℕ) (o : Outside Token)
  /-- The background sync asks for a token. -/
  | background
  | reply (n : ℕ)
  | deliver (w : ℕ)
  /-- The window does not listen yet. -/
  | miss (w : ℕ)

section

variable {Token User Id : Type*}

def State.start (file : DesktopSession.CredentialFile Token User) (user : Option User) :
    State Token User where
  rust := .init file
  calls _ := none
  windows _ := ⟨none, user, [], 0⟩
  held := []
  stamps _ := 0

variable (jwtExpMs : Token → Option ℤ) (idOf : User → Id) [DecidableEq Id]

namespace Window

variable (w : Window Token User)

/-- The token that `getToken` returns without asking Rust. -/
def usable (now : ℤ) : Option Token :=
  match w.cached with
  | some c => if c.exp - now > cacheMinRemainingMs then some c.token else none
  | none => none

/-- What a call does at once. -/
def start : Kind Token User → Window Token User
  | .getToken | .restore => w
  | .onUnauthorized _ => { w with cached := none }
  | .setSession s => { w with cached := cacheToken jwtExpMs (some s.token), user := some s.user }
  | .setUser user => { w with user := some user }
  | .clear => { w with cached := none, user := none }

/-- Somebody else than the window knows of. -/
def isOther (user : Option User) : Bool :=
  user.map idOf ≠ w.user.map idOf

/-- The floor once the event is processed. -/
def floorAfter (e : AuthChanged User) : ℕ :=
  if e.user.isNone || (e.reason = .login && w.isOther idOf e.user) then max w.floor e.epoch
  else w.floor

/-- The handler of `auth-changed`. -/
def hear (e : AuthChanged User) : Window Token User :=
  { w with
    cached := if e.user.isNone then none else w.cached
    user := e.user
    floor := w.floorAfter idOf e }

/-- The floor once the call is completed. -/
def floorDone (c : Call Token User) (stamp : ℕ) : ℕ :=
  match c.kind with
  | .setSession _ => if c.switched then max w.floor stamp else w.floor
  | .clear => max w.floor stamp
  | _ => w.floor

/-- What the window does with an answer. -/
def finish (c : Call Token User) (stamp : ℕ) (o : Outcome Token User) : Window Token User :=
  let w := { w with floor := w.floorDone c stamp }
  match c.kind, o with
  | .getToken, .token (.ok token) | .onUnauthorized _, .token (.ok token) =>
      { w with cached := cacheToken jwtExpMs token }
  | .restore, .restored (.ok user) => { w with user := some user }
  | _, _ => w

end Window

/-- What Rust emits when a command goes on from here. -/
def emitted (m : Memory Token User) (stamp : ℕ) : Pc Token User → Option (AuthChanged User)
  | .persist .login s => some ⟨some s.user, .login, stamp⟩
  | .persist .user s => some ⟨some s.user, .user, stamp⟩
  | .persist (.refresh _) s => some ⟨some s.user, .refresh, stamp⟩
  | .delete .logout => some ⟨none, .logout, stamp⟩
  | .delete (.expired _ _) => some ⟨none, .expired, stamp⟩
  | .currentUser none => m.inner.user.map fun user => ⟨some user, .restore, stamp⟩
  | _ => none

/-- The command sets a new epoch here. -/
def setsEpoch : Pc Token User → Bool
  | .setSession _ | .endSession _ => true
  | _ => false

namespace State

variable (s : State Token User)

def setWindow (w : ℕ) (window : Window Token User) : State Token User :=
  { s with windows := Function.update s.windows w window }

/-- What Rust answers to a call. -/
def answer (c : Call Token User) : Option (Outcome Token User) :=
  c.task.bind fun t =>
    match s.rust.tasks[t]? with
    | some (.finished o) => some o
    | _ => none

def stamp (c : Call Token User) : ℕ :=
  (c.task.map s.stamps).getD 0

/-- A command of Rust has gone on from `pc`. -/
def afterRust (t : ℕ) (pc : Pc Token User) (rust : DesktopSession.State Token User) :
    State Token User :=
  let emitted := emitted s.rust.memory (s.stamps t) pc
  { s with
    rust := rust
    windows := fun w => { s.windows w with events := (s.windows w).events ++ emitted.toList }
    held := s.held ++ (rust.memory.inner.token.map fun token =>
      (rust.memory.inner.epoch, token)).toList
    stamps := if setsEpoch pc then Function.update s.stamps t rust.memory.inner.epoch else s.stamps }

end State

variable (jwtExp : Token → Option ℤ) [DecidableEq Token]

def tauriStore : StepSystem (State Token User) (Turn Token User) where
  step s
    | .call n w kind now =>
        let window := s.windows w
        let c := ⟨w, kind, none, window.floor, match kind with
          | .setSession login => window.isOther idOf (some login.user)
          | _ => false⟩
        let asked :=
          { s.setWindow w (window.start jwtExpMs kind) with
            calls := Function.update s.calls n (some c) }
        match s.calls n, kind with
        | some _, _ => none
        | none, .getToken => if (window.usable now).isSome then some s else some asked
        | none, _ => some asked
    | .arrive n =>
        (s.calls n).bind fun c =>
          if c.task.isSome then none
          else
            (s.rust.call c.kind.command).map fun rust =>
              { s with
                rust := rust
                calls := Function.update s.calls n
                  (some { c with task := some s.rust.tasks.length }) }
    | .rust t o =>
        s.rust.tasks[t]?.bind fun pc => (s.rust.run jwtExp t o).map fun rust => s.afterRust t pc rust
    | .background => (s.rust.call .authGetToken).map fun rust => { s with rust := rust }
    | .reply n =>
        (s.calls n).bind fun c =>
          (s.answer c).map fun o =>
            { s.setWindow c.window ((s.windows c.window).finish jwtExpMs c (s.stamp c) o) with
              calls := Function.update s.calls n none }
    | .deliver w =>
        match (s.windows w).events with
        | [] => none
        | e :: events =>
            some (s.setWindow w { (s.windows w).hear idOf e with events := events })
    | .miss w =>
        match (s.windows w).events with
        | [] => none
        | _ :: events => some (s.setWindow w { s.windows w with events := events })

/-- The token that a `getToken` returns by this turn, with its window and the floor that the window
had when it called. -/
def returned (s : State Token User) : Turn Token User → Option (ℕ × ℕ × Token)
  | .call _ w .getToken now => ((s.windows w).usable now).map fun token =>
      (w, (s.windows w).floor, token)
  | .reply n =>
      (s.calls n).bind fun c =>
        match c.kind, s.answer c with
        | .getToken, some (.token (.ok (some token))) => some (c.window, c.since, token)
        | _, _ => none
  | _ => none

end

end SpecterComs.TauriStore
