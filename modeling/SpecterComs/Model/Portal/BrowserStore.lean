import SpecterComs.Library.StepSystem

/-! # The token store of the browser

`browserStore` of `web-portal/src/auth/tokenStore.js`: every tab reads and writes one `localStorage`,
and a tab has at most one refresh on its way. What the tabs announce on their own `window` is left out,
and so is `restore`, which stores no token.

A token is stored with the number of the session that it is of, which nothing reads: a refresh gives
tokens of the session whose refresh token it redeems.
-/

namespace SpecterComs.BrowserStore

/-- A token, and the number of its session. -/
structure Owned (Token : Type*) where
  token : Token
  session : ℕ
  deriving DecidableEq, Repr

/-- `specter_token`, `specter_refresh_token` and `specter_user`. -/
structure Storage (Token User : Type*) where
  token : Option (Owned Token)
  refreshToken : Option (Owned Token)
  user : Option User
  deriving DecidableEq, Repr

/-- What comes of `/auth/refresh`. The tokens are those of the body, if it parses. -/
inductive Answer (Token : Type*)
  | unreachable
  | response (status : ℕ) (token refreshToken : Option Token)
  deriving DecidableEq, Repr

structure State (Token User : Type*) where
  storage : Storage Token User
  /-- The refresh token that the refresh of a tab has sent: `browserRefreshing`. -/
  refreshing : ℕ → Option (Owned Token)
  /-- How many logouts there have been, and logins of somebody else than the one logged in. -/
  session : ℕ

inductive Turn (Token User : Type*)
  | getToken (tab : ℕ)
  | onUnauthorized (tab : ℕ) (staleToken : Option Token)
  /-- The answer to a refresh. -/
  | answer (tab : ℕ) (a : Answer Token)
  | setSession (tab : ℕ) (token : Token) (refreshToken : Option Token) (user : User)
  | setUser (tab : ℕ) (user : User)
  | clear (tab : ℕ)
  deriving DecidableEq, Repr

section

variable {Token User Id : Type*}

namespace State

/-- A session that was stored before. -/
def start (token refreshToken : Option Token) (user : Option User) : State Token User where
  storage := ⟨token.map fun token => ⟨token, 0⟩, refreshToken.map fun token => ⟨token, 0⟩, user⟩
  refreshing _ := none
  session := 0

variable (s : State Token User)

/-- `browserClearLocal`. -/
def clearLocal : State Token User :=
  { s with storage := ⟨none, none, none⟩, session := s.session + 1 }

/-- Where it leads to nothing, the refresh ends at once. -/
def onUnauthorized [DecidableEq Token] (tab : ℕ) (staleToken : Option Token) : State Token User :=
  if (s.refreshing tab).isSome then s
  else
    let current := s.storage.token.map Owned.token
    if current.isSome && current ≠ staleToken then s
    else
      match s.storage.refreshToken with
      | none => s.clearLocal
      | some refreshToken =>
          { s with refreshing := Function.update s.refreshing tab (some refreshToken) }

/-- `json.token` and, if there is one, `json.refresh_token` are stored. -/
def store (session : ℕ) (token : Token) (refreshToken : Option Token) : State Token User :=
  { s with
    storage := { s.storage with
      token := some ⟨token, session⟩
      refreshToken := match refreshToken with
        | some refreshToken => some ⟨refreshToken, session⟩
        | none => s.storage.refreshToken } }

/-- What a refresh that redeemed `redeemed` does with its answer. -/
def finish (redeemed : Owned Token) : Answer Token → State Token User
  | .unreachable => s
  | .response status (some token) refreshToken =>
      if 200 ≤ status ∧ status < 300 then s.store redeemed.session token refreshToken
      else if status = 401 ∨ status = 403 then s.clearLocal
      else s
  | .response status none _ => if status = 401 ∨ status = 403 then s.clearLocal else s

variable (idOf : User → Id) [DecidableEq Id]

def setSession (token : Token) (refreshToken : Option Token) (user : User) : State Token User :=
  let session :=
    if s.storage.user.map idOf = some (idOf user) then s.session else s.session + 1
  let s := s.store session token refreshToken
  { s with storage := { s.storage with user := some user }, session := session }

end State

variable (idOf : User → Id) [DecidableEq Id] [DecidableEq Token]

def browserStore : StepSystem (State Token User) (Turn Token User) where
  step s
    | .getToken _ => some s
    | .onUnauthorized tab staleToken => some (s.onUnauthorized tab staleToken)
    | .answer tab a =>
        (s.refreshing tab).map fun redeemed =>
          let t := s.finish redeemed a
          { t with refreshing := Function.update t.refreshing tab none }
    | .setSession _ token refreshToken user => some (s.setSession idOf token refreshToken user)
    | .setUser _ user => some { s with storage := { s.storage with user := some user } }
    | .clear _ => some s.clearLocal

/-- The token that a `getToken` returns. -/
def returned (s : State Token User) : Turn Token User → Option (Owned Token)
  | .getToken _ => s.storage.token
  | _ => none

end

end SpecterComs.BrowserStore
