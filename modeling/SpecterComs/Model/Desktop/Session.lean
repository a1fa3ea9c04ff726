import SpecterComs.Library.StepSystem

/-! # The login session of the desktop app

`web-portal/src-tauri/src/session.rs` with `save_credentials`, `load_credentials` and
`delete_credentials` of `lib.rs`. A command gives way between two locks of the session, at
each request to the server and before it touches the file. The commands that are not `async`
run on the main thread, one at a time. What is emitted to the windows and revoked in the
background is left out.
-/

namespace SpecterComs.DesktopSession

def refreshLeewaySecs : ℤ := 120

structure Session (Token User : Type*) where
  token : Token
  refreshToken : Option Token
  user : User
  deriving DecidableEq, Repr

structure Inner (Token User : Type*) where
  session : Option (Session Token User)
  loaded : Bool
  epoch : ℕ
  deriving DecidableEq, Repr

structure SavedSession (Token User : Type*) where
  token : Option Token
  refreshToken : Option Token
  user : Option User
  email : Option String
  password : Option String
  deriving DecidableEq, Repr

/-- The credential file. It is unreadable when it does not decrypt or does not parse. -/
inductive CredentialFile (Token User : Type*)
  | absent
  | unreadable
  | saved (s : SavedSession Token User)
  deriving DecidableEq, Repr

/-- How an operation on the file goes. A `broken` one leaves an unreadable file: a write that
stops half-way, or a key that had to be created anew. -/
inductive Io
  | ok
  | failed
  | broken
  deriving DecidableEq, Repr

structure RefreshResponse (Token : Type*) where
  token : Token
  refreshToken : Token
  deriving DecidableEq, Repr

structure Status where
  code : ℕ
  shown : String
  deriving DecidableEq, Repr

/-- What comes of a request to `/auth/refresh`; the body is missing when it does not parse. -/
inductive Reply (Token : Type*)
  | unreachable (error : String)
  | response (status : Status) (body : Option (RefreshResponse Token))
  deriving DecidableEq, Repr

inductive RefreshError
  | dead (error : String)
  | transient (error : String)
  deriving DecidableEq, Repr

inductive RestoreResult (User : Type*)
  | ok (user : User)
  | noSession
  | offline (error : String)
  | legacy (email password : String)
  deriving DecidableEq, Repr

inductive Command (Token User : Type*)
  | authRestore
  | authGetToken
  | authRefresh (staleToken : Option Token)
  | authSetSession (s : Session Token User)
  | authSetUser (user : User)
  | authLogout
  deriving DecidableEq, Repr

/-- What a command returns. -/
inductive Outcome (Token User : Type*)
  | done (r : Except String Unit)
  | token (r : Except String (Option Token))
  | restored (r : RestoreResult User)
  deriving DecidableEq

variable {Token User : Type*}

/-! ## The file -/

namespace CredentialFile

def load : CredentialFile Token User → Option (SavedSession Token User)
  | saved s => some s
  | absent | unreadable => none

/-- `load_credentials`. -/
def loadCredentials (f : CredentialFile Token User) : Io → Option (SavedSession Token User)
  | .ok => f.load
  | .failed | .broken => none

/-- The file after an operation that breaks off. -/
def broken : CredentialFile Token User → CredentialFile Token User
  | absent => absent
  | unreadable | saved _ => unreadable

def afterLoad (f : CredentialFile Token User) : Io → CredentialFile Token User
  | .ok | .failed => f
  | .broken => f.broken

def saveCredentials (f : CredentialFile Token User) (s : Session Token User) :
    Io → CredentialFile Token User
  | .ok => saved ⟨some s.token, s.refreshToken, some s.user, none, none⟩
  | .failed => f
  | .broken => unreadable

def deleteCredentials (f : CredentialFile Token User) : Io → CredentialFile Token User
  | .ok => absent
  | .failed | .broken => f

end CredentialFile

/-- The session that `auth_restore` takes from what it loaded. -/
def SavedSession.session (s : SavedSession Token User) : Option (Session Token User) :=
  match s.token, s.user with
  | some token, some user => some ⟨token, s.refreshToken, user⟩
  | _, _ => none

def SavedSession.legacy (s : SavedSession Token User) : Option (String × String) :=
  match s.email, s.password with
  | some email, some password => some (email, password)
  | _, _ => none

/-- The session the file describes. -/
def CredentialFile.session (f : CredentialFile Token User) : Option (Session Token User) :=
  f.load.bind SavedSession.session

/-! ## Tokens -/

section
variable (jwtExp : Token → Option ℤ)

def needsRefresh (now : ℤ) (token : Token) : Bool :=
  match jwtExp token with
  | some exp => exp - now < refreshLeewaySecs
  | none => false

def unexpired (now : ℤ) (token : Token) : Bool :=
  match jwtExp token with
  | some exp => now < exp
  | none => false

end

def postRefresh : Reply Token → Except RefreshError (RefreshResponse Token)
  | .unreachable error => .error (.transient error)
  | .response status body =>
      if status.code = 401 ∨ status.code = 403 then
        .error (.dead ("refresh rejected: HTTP " ++ status.shown))
      else if status.code < 200 ∨ 300 ≤ status.code then
        .error (.transient ("refresh failed: HTTP " ++ status.shown))
      else
        match body with
        | some fresh => .ok fresh
        | none => .error (.transient "error decoding response body")

/-! ## Where a command stands -/

/-- Who asked `valid_token`: `auth_get_token`, or `auth_restore` with the epoch its load set if
it was the one that loaded the session (`loaded_now`). -/
inductive Asker
  | getToken
  | restore (loadedNow : Option ℕ)
  deriving DecidableEq, Repr

/-- Who awaits `refresh_single_flight`: `auth_refresh` with the token that got a 401, or
`valid_token` with the token it found. -/
inductive Caller (Token : Type*)
  | authRefresh (stale : Token)
  | validToken (current : Token) (asker : Asker)
  deriving DecidableEq, Repr

/-- Who saves the session. -/
inductive Saver (Token : Type*)
  | login
  | user
  | refresh (c : Caller Token)
  deriving DecidableEq, Repr

/-- Why `end_session` was called. An expired session is the one of the given epoch. -/
inductive Ending (Token : Type*)
  | logout
  | expired (epoch : ℕ) (c : Caller Token)
  deriving DecidableEq, Repr

inductive Pc (Token User : Type*)
  | restore
  | loadCredentials
  | setLoaded (saved : Option (SavedSession Token User))
  | validToken (asker : Asker)
  | awaitRefresh (c : Caller Token)
  | readSession (c : Caller Token)
  | post (c : Caller Token) (session : Session Token User) (epoch : ℕ) (refreshToken : Token)
  | store (c : Caller Token) (session : Session Token User) (epoch : ℕ)
      (fresh : RefreshResponse Token)
  | checkDead (c : Caller Token) (epoch : ℕ)
  /-- The session is another one by now: its token is the answer. -/
  | readToken (c : Caller Token)
  | currentUser (error : Option String)
  | offline (loadedAt : ℕ) (error : String)
  | setSession (s : Session Token User)
  | setUser (user : User)
  | endSession (e : Ending Token)
  | persist (saver : Saver Token) (s : Session Token User)
  | delete (e : Ending Token)
  | finished (o : Outcome Token User)
  deriving DecidableEq

def Command.start : Command Token User → Pc Token User
  | .authRestore => .restore
  | .authGetToken | .authRefresh none => .validToken .getToken
  | .authRefresh (some stale) => .awaitRefresh (.authRefresh stale)
  | .authSetSession s => .setSession s
  | .authSetUser user => .setUser user
  | .authLogout => .endSession .logout

namespace Pc

/-- The commands of the main thread. -/
def onMain : Pc Token User → Bool
  | setSession _ | setUser _ | endSession .logout | delete .logout
  | persist .login _ | persist .user _ => true
  | _ => false

/-- The guard of `REFRESH` lives to the end of `refresh_single_flight`. -/
def holdsRefresh : Pc Token User → Bool
  | readSession _ | post _ _ _ _ | store _ _ _ _ | checkDead _ _ | readToken _
  | endSession (.expired _ _) | delete (.expired _ _) | persist (.refresh _) _ => true
  | _ => false

def isFinished : Pc Token User → Bool
  | finished _ => true
  | _ => false

/-- What the file is about to hold. -/
def write : Pc Token User → Option (Option (Session Token User))
  | persist _ s => some (some s)
  | delete _ => some none
  | _ => none

end Pc

section
variable (jwtExp : Token → Option ℤ)

/-- The answer of `valid_token`. -/
def Asker.resume : Asker → Except String (Option Token) → Pc Token User
  | .getToken, r => .finished (.token r)
  | .restore _, .ok (some _) => .currentUser none
  | .restore _, .ok none => .finished (.restored .noSession)
  | .restore (some loadedAt), .error error => .offline loadedAt error
  | .restore none, .error error => .currentUser (some error)

/-- The answer of `refresh_single_flight`. -/
def Caller.resume (now : ℤ) : Caller Token → Except String (Option Token) → Pc Token User
  | .authRefresh _, r => .finished (.token r)
  | .validToken t asker, .error error =>
      if unexpired jwtExp now t then asker.resume (.ok (some t)) else asker.resume (.error error)
  | .validToken _ asker, .ok token => asker.resume (.ok token)

def Caller.alreadyFresh [DecidableEq Token] (now : ℤ) (token : Token) : Caller Token → Bool
  | .authRefresh stale => token ≠ stale
  | .validToken _ _ => !needsRefresh jwtExp now token

end

/-! ## Steps -/

/-- What a step meets outside: the clock, the server and the disk. -/
structure Outside (Token : Type*) where
  now : ℤ
  reply : Reply Token
  io : Io
  deriving DecidableEq, Repr

structure Memory (Token User : Type*) where
  inner : Inner Token User
  file : CredentialFile Token User
  deriving DecidableEq, Repr

namespace Inner

variable (i : Inner Token User)

def token : Option Token :=
  i.session.map Session.token

def user : Option User :=
  i.session.map Session.user

def login (s : Session Token User) : Inner Token User :=
  { session := some s, loaded := true, epoch := i.epoch + 1 }

def take : Inner Token User :=
  { session := none, loaded := true, epoch := i.epoch + 1 }

def offline : Inner Token User :=
  { session := none, loaded := false, epoch := i.epoch + 1 }

/-- What `auth_restore` does with what it loaded, under its second lock. -/
def setLoaded (saved : Option (SavedSession Token User)) : Inner Token User × Pc Token User :=
  if i.loaded || i.session.isSome then (i, .validToken (.restore none))
  else
    match saved.bind SavedSession.session with
    | some s =>
        ({ session := some s, loaded := true, epoch := i.epoch + 1 },
          .validToken (.restore (some (i.epoch + 1))))
    | none =>
        match saved.bind SavedSession.legacy with
        | some (email, password) =>
            ({ i with loaded := true }, .finished (.restored (.legacy email password)))
        | none => ({ i with loaded := true }, .finished (.restored .noSession))

end Inner

section
variable (jwtExp : Token → Option ℤ) [DecidableEq Token]

/-- `refresh_single_flight` with the session and the epoch it read. -/
def reading (now : ℤ) (c : Caller Token) (i : Inner Token User) : Pc Token User :=
  match i.session with
  | none => c.resume jwtExp now (.ok none)
  | some s =>
      if c.alreadyFresh jwtExp now s.token then c.resume jwtExp now (.ok (some s.token))
      else
        match s.refreshToken with
        | none => .endSession (.expired i.epoch c)
        | some refreshToken => .post c s i.epoch refreshToken

/-- The outcome of `post_refresh`. -/
def answered (o : Outside Token) (c : Caller Token) (s : Session Token User) (epoch : ℕ) :
    Pc Token User :=
  match postRefresh o.reply with
  | .ok fresh => .store c s epoch fresh
  | .error (.dead _) => .checkDead c epoch
  | .error (.transient error) => c.resume jwtExp o.now (.error error)

/-- One step of a command, if it has one. -/
def advance (o : Outside Token) (refreshHeld : Bool) (m : Memory Token User) :
    Pc Token User → Option (Memory Token User × Pc Token User)
  | .restore =>
      if m.inner.loaded || m.inner.session.isSome then some (m, .validToken (.restore none))
      else some (m, .loadCredentials)
  | .loadCredentials =>
      some ({ m with file := m.file.afterLoad o.io }, .setLoaded (m.file.loadCredentials o.io))
  | .setLoaded saved =>
      let (inner, pc) := m.inner.setLoaded saved
      some ({ m with inner := inner }, pc)
  | .validToken asker =>
      match m.inner.token with
      | none => some (m, asker.resume (.ok none))
      | some t =>
          if needsRefresh jwtExp o.now t then some (m, .awaitRefresh (.validToken t asker))
          else some (m, asker.resume (.ok (some t)))
  | .awaitRefresh c => if refreshHeld then none else some (m, .readSession c)
  | .readSession c => some (m, reading jwtExp o.now c m.inner)
  | .post c s epoch _ => some (m, answered jwtExp o c s epoch)
  | .store c s epoch fresh =>
      if m.inner.epoch ≠ epoch ∨ m.inner.session.isNone then some (m, .readToken c)
      else
        let updated := { s with token := fresh.token, refreshToken := some fresh.refreshToken }
        some ({ m with inner.session := some updated }, .persist (.refresh c) updated)
  | .checkDead c epoch =>
      if m.inner.epoch = epoch then some (m, .endSession (.expired epoch c))
      else some (m, .readToken c)
  | .readToken c => some (m, c.resume jwtExp o.now (.ok m.inner.token))
  | .currentUser error =>
      match m.inner.user, error with
      | some user, _ => some (m, .finished (.restored (.ok user)))
      | none, none => some (m, .finished (.restored .noSession))
      | none, some error => some (m, .finished (.restored (.offline error)))
  | .offline _ error =>
      some ({ m with inner := m.inner.offline }, .finished (.restored (.offline error)))
  | .setSession s => some ({ m with inner := m.inner.login s }, .persist .login s)
  | .setUser user =>
      match m.inner.session with
      | none => some (m, .finished (.done (.error "not logged in")))
      | some s =>
          let updated := { s with user := user }
          some ({ m with inner.session := some updated }, .persist .user updated)
  | .endSession e => some ({ m with inner := m.inner.take }, .delete e)
  | .persist saver s =>
      let m := { m with file := m.file.saveCredentials s o.io }
      match saver with
      | .login | .user => some (m, .finished (.done (.ok ())))
      | .refresh c => some (m, c.resume jwtExp o.now (.ok (some s.token)))
  | .delete e =>
      let m := { m with file := m.file.deleteCredentials o.io }
      match e with
      | .logout => some (m, .finished (.done (.ok ())))
      | .expired _ c => some (m, c.resume jwtExp o.now (.ok none))
  | .finished _ => none

end

/-- A login or a logout. -/
inductive Sign
  | login
  | logout
  deriving DecidableEq, Repr

/-- The login or logout that a step completes. -/
def Pc.completes : Pc Token User → Option Sign
  | .persist .login _ => some .login
  | .delete .logout => some .logout
  | _ => none

/-- The app: the session and the file, the commands called so far, and the last login or logout
that completed. -/
structure State (Token User : Type*) where
  memory : Memory Token User
  tasks : List (Pc Token User)
  lastCompleted : Option Sign

inductive Input (Token User : Type*)
  | call (c : Command Token User)
  | run (t : ℕ) (o : Outside Token)

def State.init (file : CredentialFile Token User) : State Token User where
  memory := { inner := { session := none, loaded := false, epoch := 0 }, file := file }
  tasks := []
  lastCompleted := none

namespace State

variable (s : State Token User)

def allCompleted : Bool :=
  s.tasks.all Pc.isFinished

def refreshHeld : Bool :=
  s.tasks.any Pc.holdsRefresh

def mainBusy : Bool :=
  s.tasks.any Pc.onMain

def call (c : Command Token User) : Option (State Token User) :=
  if c.start.onMain && s.mainBusy then none else some { s with tasks := s.tasks ++ [c.start] }

def run [DecidableEq Token] (jwtExp : Token → Option ℤ) (t : ℕ) (o : Outside Token) :
    Option (State Token User) :=
  match s.tasks[t]? with
  | none => none
  | some pc =>
      match advance jwtExp o s.refreshHeld s.memory pc with
      | none => none
      | some (memory, pc') =>
          some { memory := memory, tasks := s.tasks.set t pc',
                 lastCompleted := pc.completes.or s.lastCompleted }

end State

def system [DecidableEq Token] (jwtExp : Token → Option ℤ) :
    StepSystem (State Token User) (Input Token User) where
  step s
    | .call c => s.call c
    | .run t o => s.run jwtExp t o

end SpecterComs.DesktopSession
