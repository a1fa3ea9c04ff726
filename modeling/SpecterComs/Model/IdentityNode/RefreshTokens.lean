import SpecterComs.Library.StepSystem
import Mathlib.Data.List.Perm.Basic

/-! # Refresh tokens

`refresh`, `logout` and `issueTokenPair` of `identity-node/src/controllers/authController.ts`
over the `refresh_tokens` table. A query under READ COMMITTED takes its snapshot, then locks
the rows it found one by one: it waits for whoever holds a row and reads it again. Times are in
milliseconds.
-/

namespace SpecterComs.RefreshTokens

def refreshTokenTtlMs : ℕ := 30 * 24 * 60 * 60 * 1000
def refreshReuseGraceSeconds : ℕ := 60

/-- SHA-256, HMAC-SHA-256 under the server's key, the random generator and the callsigns of the
`users` table. -/
structure Env (Token Hash Agent : Type*) where
  hashRefreshToken : Token → Hash
  deriveSuccessorRefreshToken : Token → Agent → Token
  randomBytes : ℕ → Token
  callsign : ℕ → Option String

structure Row (Hash : Type*) where
  userId : ℕ
  tokenHash : Hash
  expiresAt : ℕ
  revokedAt : Option ℕ
  replacedBy : Option ℕ
  deriving DecidableEq, Repr

inductive Request (Token Agent : Type*)
  | refresh (refreshToken : Token) (userAgent : Agent)
  | logout (refreshToken : Option Token)
  /-- `register` or `login` of a user of the table. -/
  | issueTokenPair (userId : ℕ)
  deriving DecidableEq, Repr

inductive Answer (Token : Type*)
  /-- 200, with an access token for the user and a refresh token. -/
  | tokens (userId : ℕ) (callsign : String) (refreshToken : Token)
  | loggedOut
  | unauthorized (message : String)
  | internalServerError
  deriving DecidableEq, Repr

variable {Token Hash Agent : Type*}

namespace Row

variable (r : Row Hash)

def live : Bool :=
  r.revokedAt = none

def expired (now : ℕ) : Bool :=
  r.expiresAt ≤ now

/-- `revoked_at > NOW() - make_interval(secs => 60)`. -/
def withinGrace (now : ℕ) : Bool :=
  r.revokedAt.any fun revokedAt => now < revokedAt + refreshReuseGraceSeconds * 1000

def revoke (now : ℕ) : Row Hash :=
  { r with revokedAt := some now }

def retire (now inserted : ℕ) : Row Hash :=
  { r with revokedAt := some now, replacedBy := some inserted }

end Row

/-! ## Queries -/

/-- The queries that lock the rows they find. -/
inductive Query (Hash : Type*)
  /-- `SELECT … WHERE rt.token_hash = $1 FOR UPDATE OF rt`, joined with `users`. -/
  | presented (tokenHash : Hash)
  /-- `SELECT … WHERE id = $1 FOR UPDATE`. -/
  | successor (id : ℕ)
  /-- `UPDATE … SET revoked_at = NOW() WHERE user_id = $1 AND revoked_at IS NULL`. -/
  | revokeAll (userId : ℕ)
  /-- `UPDATE … SET revoked_at = NOW(), replaced_by = $1 WHERE id = $2 AND revoked_at IS NULL`. -/
  | retire (inserted id : ℕ)
  /-- `UPDATE … SET revoked_at = NOW() WHERE token_hash = $1 AND revoked_at IS NULL`. -/
  | revoke (tokenHash : Hash)

namespace Query

variable [DecidableEq Hash] (env : Env Token Hash Agent)

def finds (id : ℕ) (r : Row Hash) : Query Hash → Bool
  | presented tokenHash => r.tokenHash = tokenHash && (env.callsign r.userId).isSome
  | successor id' => id = id'
  | revokeAll userId => r.userId = userId && r.live
  | retire _ id' => id = id' && r.live
  | revoke tokenHash => r.tokenHash = tokenHash && r.live

/-- The version an UPDATE writes. -/
def set (now : ℕ) (r : Row Hash) : Query Hash → Option (Row Hash)
  | presented _ | successor _ => none
  | revokeAll _ | revoke _ => some (r.revoke now)
  | retire inserted _ => some (r.retire now inserted)

end Query

/-! ## Handlers -/

/-- What `refresh` was called with. -/
structure Redemption (Token Agent : Type*) where
  refreshToken : Token
  userAgent : Agent
  deriving DecidableEq, Repr

/-- What a handler does next. -/
inductive Next (Token Hash Agent : Type*)
  | selectPresented (p : Redemption Token Agent)
  /-- The presented row is rotated, within the grace window: `row.user_id`, its callsign and
  `row.replaced_by`. -/
  | selectSuccessor (p : Redemption Token Agent) (userId : ℕ) (callsign : String) (replacedBy : ℕ)
  | revokeAll (userId : ℕ)
  | insertSuccessor (p : Redemption Token Agent) (id userId : ℕ) (callsign : String)
  | retire (p : Redemption Token Agent) (id userId : ℕ) (callsign : String) (inserted : ℕ)
  | logout (refreshToken : Token)
  | insertIssued (userId : ℕ) (callsign : String) (refreshToken : Token)
  | commit (a : Answer Token)
  | rollback (a : Answer Token)
  deriving DecidableEq, Repr

def invalidToken : Answer Token := .unauthorized "Invalid refresh token"
def alreadyUsed : Answer Token := .unauthorized "Refresh token has already been used"
def tokenExpired : Answer Token := .unauthorized "Refresh token expired"

section
variable (env : Env Token Hash Agent)

def Redemption.tokenHash (p : Redemption Token Agent) : Hash :=
  env.hashRefreshToken p.refreshToken

def Redemption.successorRaw (p : Redemption Token Agent) : Token :=
  env.deriveSuccessorRefreshToken p.refreshToken p.userAgent

def Redemption.successorHash (p : Redemption Token Agent) : Hash :=
  env.hashRefreshToken (p.successorRaw env)

/-- The query the handler waits for. -/
def Next.query : Next Token Hash Agent → Option (Query Hash)
  | .selectPresented p => some (.presented (p.tokenHash env))
  | .selectSuccessor _ _ _ replacedBy => some (.successor replacedBy)
  | .revokeAll userId => some (.revokeAll userId)
  | .retire _ id _ _ inserted => some (.retire inserted id)
  | .logout refreshToken => some (.revoke (env.hashRefreshToken refreshToken))
  | .insertSuccessor _ _ _ _ | .insertIssued _ _ _ | .commit _ | .rollback _ => none

/-- `refresh` with the presented row. -/
def redeem (now : ℕ) (p : Redemption Token Agent) (id : ℕ) (row : Row Hash) (callsign : String) :
    Next Token Hash Agent :=
  if row.live then
    if row.expired now then .rollback tokenExpired
    else .insertSuccessor p id row.userId callsign
  else
    match row.replacedBy with
    | none => .rollback alreadyUsed
    | some replacedBy =>
        if row.withinGrace now then .selectSuccessor p row.userId callsign replacedBy
        else .revokeAll row.userId

/-- The benign-retry path with the successor row. -/
def replay [DecidableEq Hash] (now : ℕ) (p : Redemption Token Agent) (userId : ℕ)
    (callsign : String) (s : Row Hash) : Next Token Hash Agent :=
  if s.live && !s.expired now && s.userId = userId && s.tokenHash = p.successorHash env then
    .commit (.tokens userId callsign (p.successorRaw env))
  else .revokeAll userId

/-- What the handler does with the rows of its query. -/
def Next.resume [DecidableEq Hash] (now : ℕ) (found : List (ℕ × Row Hash)) :
    Next Token Hash Agent → Next Token Hash Agent
  | .selectPresented p =>
      match found with
      | [] => .rollback invalidToken
      | (id, row) :: _ => redeem now p id row ((env.callsign row.userId).getD "")
  | .selectSuccessor p userId callsign _ =>
      match found with
      | [] => .revokeAll userId
      | (_, s) :: _ => replay env now p userId callsign s
  | .revokeAll _ => .commit alreadyUsed
  | .retire p _ userId callsign _ =>
      if found.length = 1 then .commit (.tokens userId callsign (p.successorRaw env))
      else .rollback alreadyUsed
  | .logout _ => .commit .loggedOut
  | next => next

end

/-! ## Transactions -/

/-- A statement under way: the rows of its snapshot still to lock, and those it locked. -/
structure Scan where
  todo : List ℕ
  found : List ℕ

/-- A transaction in flight. `NOW()` is the time it began at. -/
structure Tx (Token Hash Agent : Type*) where
  request : Request Token Agent
  now : ℕ
  next : Next Token Hash Agent
  scan : Option Scan
  /-- The versions it wrote and has not committed. -/
  writes : ℕ → Option (Row Hash)

/-- The transaction before its first query. -/
def Tx.opened (request : Request Token Agent) (now : ℕ) (next : Next Token Hash Agent) :
    Tx Token Hash Agent :=
  ⟨request, now, next, none, fun _ => none⟩

/-- The answer where a query fails: `logout` still succeeds. -/
def Request.failed : Request Token Agent → Answer Token
  | .refresh _ _ | .issueTokenPair _ => .internalServerError
  | .logout _ => .loggedOut

/-- A request that was answered. -/
structure Answered (Token Agent : Type*) where
  request : Request Token Agent
  now : ℕ
  answer : Answer Token
  deriving DecidableEq, Repr

structure State (Token Hash Agent : Type*) where
  /-- The committed versions. -/
  rows : ℕ → Option (Row Hash)
  nextId : ℕ
  /-- The transaction that holds a row. -/
  locks : ℕ → Option ℕ
  txs : ℕ → Option (Tx Token Hash Agent)
  /-- How many random tokens were drawn. -/
  drawn : ℕ
  log : List (Answered Token Agent)

/-- Transactions are numbered by the connection they run on. -/
inductive Action (Token Agent : Type*)
  | begin (t : ℕ) (request : Request Token Agent) (now : ℕ)
  /-- The query takes its snapshot; `order` is the order its rows are visited in. -/
  | snapshot (t : ℕ) (order : List ℕ)
  /-- The next row of the query is locked and read again. -/
  | lockRow (t : ℕ)
  | resume (t : ℕ)
  | insert (t : ℕ) (dateNow : ℕ)
  /-- The transaction commits; its answer is lost where the connection fails after that. -/
  | commit (t : ℕ) (reported : Bool)
  | rollback (t : ℕ)
  /-- A query fails, and the handler rolls back. -/
  | fail (t : ℕ)

namespace State

def init : State Token Hash Agent where
  rows := fun _ => none
  nextId := 0
  locks := fun _ => none
  txs := fun _ => none
  drawn := 0
  log := []

variable (s : State Token Hash Agent) (t : ℕ) (tx : Tx Token Hash Agent)

def setTx : State Token Hash Agent :=
  { s with txs := Function.update s.txs t (some tx) }

/-- The version a transaction sees: its own, or the committed one. -/
def visible (id : ℕ) : Option (Row Hash) :=
  (tx.writes id).or (s.rows id)

/-- The transaction ends: its locks are released and its request is answered. -/
def finish (rows : ℕ → Option (Row Hash)) (a : Answer Token) : State Token Hash Agent :=
  { s with
    rows
    locks := fun id => if s.locks id = some t then none else s.locks id
    txs := Function.update s.txs t none
    log := s.log ++ [⟨tx.request, tx.now, a⟩] }

def begin (env : Env Token Hash Agent) (request : Request Token Agent) (now : ℕ) :
    Option (State Token Hash Agent) :=
  match request with
  | .refresh refreshToken userAgent =>
      some (s.setTx t (.opened request now (.selectPresented ⟨refreshToken, userAgent⟩)))
  | .logout none => some { s with log := s.log ++ [⟨request, now, .loggedOut⟩] }
  | .logout (some refreshToken) => some (s.setTx t (.opened request now (.logout refreshToken)))
  | .issueTokenPair userId =>
      (env.callsign userId).map fun callsign =>
        let next := .insertIssued userId callsign (env.randomBytes s.drawn)
        { s.setTx t (.opened request now next) with drawn := s.drawn + 1 }

section
variable [DecidableEq Hash] (env : Env Token Hash Agent)

/-- The rows a query finds in its snapshot. -/
def matching (q : Query Hash) : List ℕ :=
  (List.range s.nextId).filter fun id => (s.visible tx id).any fun r => q.finds env id r

def snapshot (q : Query Hash) (order : List ℕ) : Option (State Token Hash Agent) :=
  if tx.scan.isNone ∧ order.isPerm (s.matching tx env q) then
    some (s.setTx t { tx with scan := some ⟨order, []⟩ })
  else none

/-- The row is locked where it still is one the query finds, and passed over otherwise. -/
def lockRow (q : Query Hash) (id : ℕ) (todo found : List ℕ) : State Token Hash Agent :=
  match s.visible tx id with
  | none => s.setTx t { tx with scan := some ⟨todo, found⟩ }
  | some r =>
      if q.finds env id r then
        { s.setTx t
            { tx with
              scan := some ⟨todo, found ++ [id]⟩
              writes := Function.update tx.writes id ((q.set tx.now r).or (tx.writes id)) } with
          locks := Function.update s.locks id (some t) }
      else s.setTx t { tx with scan := some ⟨todo, found⟩ }

def resume (found : List ℕ) : State Token Hash Agent :=
  s.setTx t
    { tx with
      next := tx.next.resume env tx.now
        (found.filterMap fun id => (s.visible tx id).map fun r => (id, r))
      scan := none }

end

/-- An INSERT takes the next id. -/
def insert (row : Row Hash) (next : Next Token Hash Agent) : State Token Hash Agent :=
  { s.setTx t
      { tx with
        next
        writes := Function.update tx.writes s.nextId (some row) } with
    nextId := s.nextId + 1
    locks := Function.update s.locks s.nextId (some t) }

def step [DecidableEq Hash] (env : Env Token Hash Agent) :
    Action Token Agent → Option (State Token Hash Agent)
  | .begin t request now =>
      if (s.txs t).isNone then s.begin t env request now else none
  | .snapshot t order =>
      (s.txs t).bind fun tx => (tx.next.query env).bind fun q => s.snapshot t tx env q order
  | .lockRow t =>
      (s.txs t).bind fun tx => (tx.next.query env).bind fun q =>
        match tx.scan with
        | some ⟨id :: todo, found⟩ =>
            if s.locks id = none ∨ s.locks id = some t then
              some (s.lockRow t tx env q id todo found)
            else none
        | _ => none
  | .resume t =>
      (s.txs t).bind fun tx =>
        match tx.next.query env, tx.scan with
        | some _, some ⟨[], found⟩ => some (s.resume t tx env found)
        | _, _ => none
  | .insert t dateNow =>
      (s.txs t).bind fun tx =>
        match tx.next with
        | .insertSuccessor p id userId callsign =>
            some (s.insert t tx
              ⟨userId, p.successorHash env, dateNow + refreshTokenTtlMs, none, none⟩
              (.retire p id userId callsign s.nextId))
        | .insertIssued userId callsign refreshToken =>
            some (s.insert t tx
              ⟨userId, env.hashRefreshToken refreshToken, dateNow + refreshTokenTtlMs, none, none⟩
              (.commit (.tokens userId callsign refreshToken)))
        | _ => none
  | .commit t reported =>
      (s.txs t).bind fun tx =>
        match tx.next with
        | .commit a =>
            some (s.finish t tx (s.visible tx) (if reported then a else tx.request.failed))
        | _ => none
  | .rollback t =>
      (s.txs t).bind fun tx =>
        match tx.next with
        | .rollback a => some (s.finish t tx s.rows a)
        | _ => none
  | .fail t =>
      (s.txs t).bind fun tx => some (s.finish t tx s.rows tx.request.failed)

end State

def system [DecidableEq Hash] (env : Env Token Hash Agent) :
    StepSystem (State Token Hash Agent) (Action Token Agent) where
  step s a := s.step env a

end SpecterComs.RefreshTokens
