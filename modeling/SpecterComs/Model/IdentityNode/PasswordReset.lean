import SpecterComs.Library.StepSystem

/-! # Password resets

`resetPassword` and the writes of `forgotPassword` in
`identity-node/src/controllers/authController.ts` over the `users` table. Each statement is a
transaction of its own under READ COMMITTED and touches one row, so the statements of all
requests take effect one after the other. Times are in milliseconds.
-/

namespace SpecterComs.PasswordReset

def resetTokenTtlMs : ℕ := 60 * 60 * 1000

/-- SHA-256, and `argon2.hash` with the salt it draws. -/
structure Env (Token Hash Password Salt PasswordHash : Type*) where
  hashResetToken : Token → Hash
  argon2Hash : Password → Salt → PasswordHash

structure User (Hash PasswordHash : Type*) where
  id : ℕ
  passwordHash : PasswordHash
  passwordResetToken : Option Hash
  passwordResetTokenExpires : Option ℕ
  deriving DecidableEq, Repr

/-- `req.body`. -/
structure Request (Token Password : Type*) where
  token : Token
  password : Password
  deriving DecidableEq, Repr

inductive Answer
  | ok (message : String)
  | badRequest (message : String)
  | internalServerError (message : String)
  deriving DecidableEq, Repr

def passwordReset : Answer := .ok "Password reset successfully. You may now log in."
def invalidToken : Answer := .badRequest "Reset token is invalid or has expired."
def serverError : Answer := .internalServerError "Internal server error"

/-- Where a request stands. `seen` is how many changes there were when its SELECT found the user. -/
inductive Pc (Token Password PasswordHash : Type*)
  | selecting (request : Request Token Password)
  | hashing (request : Request Token Password) (userId seen : ℕ)
  | updating (request : Request Token Password) (userId seen : ℕ) (newHash : PasswordHash)
  deriving DecidableEq, Repr

/-- A password that a request changed. -/
structure Change (Hash : Type*) where
  request : ℕ
  resetToken : Hash
  userId : ℕ
  time : ℕ
  deriving DecidableEq, Repr

structure State (Token Hash Password PasswordHash : Type*) where
  users : List (User Hash PasswordHash)
  now : ℕ
  requests : ℕ → Option (Pc Token Password PasswordHash)
  answers : List (ℕ × Answer)
  /-- The tokens that were mailed, each with its user and when it expires. -/
  issued : Hash → Option (ℕ × ℕ)
  changes : List (Change Hash)

inductive Action (Token Password Salt PasswordHash : Type*)
  | begin (r : ℕ) (request : Request Token Password)
  /-- `result.rows[0]`, if there are rows. Of several any may come first. -/
  | select (r : ℕ) (found : Option ℕ)
  | hash (r : ℕ) (salt : Salt)
  | update (r : ℕ)
  /-- A query or `argon2.hash` fails. -/
  | fail (r : ℕ)
  /-- The UPDATE of `forgotPassword`, with a token of 32 random bytes and the clock of the node. -/
  | forgotPassword (userId : ℕ) (resetToken : Token) (dateNow : ℕ)
  | register (userId : ℕ) (passwordHash : PasswordHash)
  | deleteUser (userId : ℕ)
  | wait (ms : ℕ)

variable {Token Hash Password Salt PasswordHash : Type*} [DecidableEq Hash]

namespace User

variable (u : User Hash PasswordHash)

/-- `password_reset_token = $1 AND password_reset_token_expires > NOW()`. -/
def accepts (tokenHash : Hash) (now : ℕ) : Bool :=
  u.passwordResetToken = some tokenHash && u.passwordResetTokenExpires.any (now < ·)

/-- `SET password_hash = $1, password_reset_token = NULL, password_reset_token_expires = NULL`. -/
def reset (newHash : PasswordHash) : User Hash PasswordHash :=
  ⟨u.id, newHash, none, none⟩

/-- `SET password_reset_token = $1, password_reset_token_expires = $2`. -/
def await (tokenHash : Hash) (expires : ℕ) : User Hash PasswordHash :=
  ⟨u.id, u.passwordHash, some tokenHash, some expires⟩

end User

namespace State

variable (env : Env Token Hash Password Salt PasswordHash)
  (s : State Token Hash Password PasswordHash)

def init : State Token Hash Password PasswordHash where
  users := []
  now := 0
  requests := fun _ => none
  answers := []
  issued := fun _ => none
  changes := []

/-- `UPDATE users … WHERE id = $2`. -/
def updateUser (id : ℕ) (set : User Hash PasswordHash → User Hash PasswordHash) :
    State Token Hash Password PasswordHash :=
  { s with users := s.users.map fun u => if u.id = id then set u else u }

def setRequest (r : ℕ) (pc : Pc Token Password PasswordHash) :
    State Token Hash Password PasswordHash :=
  { s with requests := Function.update s.requests r (some pc) }

def answer (r : ℕ) (a : Answer) : State Token Hash Password PasswordHash :=
  { s with requests := Function.update s.requests r none, answers := s.answers ++ [(r, a)] }

/-- The rows of the SELECT. -/
def matching (request : Request Token Password) : List ℕ :=
  (s.users.filter fun u => u.accepts (env.hashResetToken request.token) s.now).map User.id

def select (r : ℕ) (request : Request Token Password) :
    Option ℕ → Option (State Token Hash Password PasswordHash)
  | none => if s.matching env request = [] then some (s.answer r invalidToken) else none
  | some id =>
      if id ∈ s.matching env request then
        some (s.setRequest r (.hashing request id s.changes.length))
      else none

def update (r : ℕ) (request : Request Token Password) (id : ℕ) (newHash : PasswordHash) :
    State Token Hash Password PasswordHash :=
  let s' := (s.updateUser id (·.reset newHash)).answer r passwordReset
  if s.users.any (·.id = id) then
    { s' with changes := s.changes ++ [⟨r, env.hashResetToken request.token, id, s.now⟩] }
  else s'

/-- A mailed token is new. -/
def forgotPassword (userId : ℕ) (resetToken : Token) (dateNow : ℕ) :
    Option (State Token Hash Password PasswordHash) :=
  let tokenHash := env.hashResetToken resetToken
  let expires := dateNow + resetTokenTtlMs
  if (s.issued tokenHash).isSome then none
  else some
    { s.updateUser userId (·.await tokenHash expires) with
      issued := Function.update s.issued tokenHash (some (userId, expires)) }

def step : Action Token Password Salt PasswordHash →
    Option (State Token Hash Password PasswordHash)
  | .begin r request =>
      if (s.requests r).isNone then some (s.setRequest r (.selecting request)) else none
  | .select r found =>
      match s.requests r with
      | some (.selecting request) => s.select env r request found
      | _ => none
  | .hash r salt =>
      match s.requests r with
      | some (.hashing request userId seen) =>
          some (s.setRequest r
            (.updating request userId seen (env.argon2Hash request.password salt)))
      | _ => none
  | .update r =>
      match s.requests r with
      | some (.updating request userId _ newHash) => some (s.update env r request userId newHash)
      | _ => none
  | .fail r => (s.requests r).map fun _ => s.answer r serverError
  | .forgotPassword userId resetToken dateNow => s.forgotPassword env userId resetToken dateNow
  | .register userId passwordHash =>
      if s.users.any (·.id = userId) then none
      else some { s with users := s.users ++ [⟨userId, passwordHash, none, none⟩] }
  | .deleteUser userId => some { s with users := s.users.filter (·.id ≠ userId) }
  | .wait ms => some { s with now := s.now + ms }

end State

/-- The statements of all requests, one after the other. -/
def resets (env : Env Token Hash Password Salt PasswordHash) :
    StepSystem (State Token Hash Password PasswordHash)
      (Action Token Password Salt PasswordHash) where
  step := State.step env

end SpecterComs.PasswordReset
