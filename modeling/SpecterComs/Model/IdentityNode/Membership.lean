import SpecterComs.Model.IdentityNode.Presence

/-! # Members, bans and invites of organizations

`joinOrg`, `redeemInvite` and `createInvite` of `identity-node/src/controllers/orgController.ts`,
and `banMember` and `unbanMember` of `modController.ts`, one statement of one request after the
other under READ COMMITTED. `org_members` is unique by organization and user. A statement that
needs a row another open transaction has written waits for it, and any statement may fail.
Applications to join, the subscriptions to channels that a ban deletes, and what is published
afterwards are left out. Who may moderate does not change.
-/

namespace SpecterComs.Membership

open DeliveryService (UserId)
open Presence (Moderation checkModerationPermission)

/-- An organization and a user. -/
abbrev Key := String × UserId

structure Ban where
  key : Key
  expiresAt : Option ℕ
  deriving DecidableEq, Repr

/-- `expires_at IS NULL OR expires_at > NOW()`. -/
def Ban.inForce (ban : Ban) (now : ℕ) : Bool :=
  ban.expiresAt.all fun expiresAt => now < expiresAt

structure Invite where
  orgId : String
  usesLeft : Option ℤ
  expiresAt : Option ℕ
  /-- The `uses_left` it was created with, which nothing reads. -/
  createdWith : Option ℤ
  deriving DecidableEq, Repr

/-- The committed rows. -/
structure Tables where
  members : Key → Bool
  bans : List Ban
  invites : String → Option Invite

/-- `SELECT 1 FROM org_bans WHERE org_id = $1 AND user_id = $2 AND (…)`. -/
def Tables.isBanned (db : Tables) (key : Key) (now : ℕ) : Bool :=
  db.bans.any fun ban => ban.key = key && ban.inForce now

structure Env where
  moderation : Moderation
  joinMethod : String → Option ℕ

inductive Request
  | joinOrg (key : Key)
  | redeemInvite (code : String) (userId : UserId)
  | createInvite (createdBy : UserId) (orgId code : String) (usesLeft : Option ℤ)
  | banMember (adminId : UserId) (key : Key) (expiresAt : Option ℕ)
  | unbanMember (adminId : UserId) (key : Key)
  deriving DecidableEq, Repr

/-- What a redemption has read of its invite. -/
structure Redemption where
  code : String
  key : Key
  usesLeft : Option ℤ
  /-- `NOW()`: the time at which the transaction began. -/
  beganAt : ℕ
  deriving DecidableEq, Repr

/-- The next statement of a request. -/
inductive Await
  | joinSelectOrg (key : Key)
  | joinSelectMember (key : Key) (joinMethod : ℕ)
  | joinSelectBan (key : Key) (joinMethod : ℕ)
  | joinInsert (key : Key)
  | redeemSelectInvite (code : String) (userId : UserId) (beganAt : ℕ)
  | redeemSelectMember (r : Redemption)
  | redeemSelectBan (r : Redemption)
  | redeemInsert (r : Redemption)
  | redeemUpdate (r : Redemption)
  | redeemCommit (r : Redemption)
  | createInsert (orgId code : String) (usesLeft : Option ℤ)
  | banDelete (ban : Ban)
  | banInsert (ban : Ban) (deleted : Bool)
  | banCommit (ban : Ban) (deleted : Bool)
  | unbanDelete (key : Key)
  deriving DecidableEq, Repr

structure State where
  db : Tables
  clock : ℕ
  opened : ℕ → Option Await
  /-- The requests whose open transactions have written a row of `org_members`. -/
  memberLocks : Key → Option ℕ
  /-- The requests whose open transactions have written a row of `org_invites`. -/
  inviteLocks : String → Option ℕ
  /-- The redemptions that were committed. -/
  admitted : List (String × UserId)

def State.start (db : Tables) (clock : ℕ) : State where
  db := db
  clock := clock
  opened _ := none
  memberLocks _ := none
  inviteLocks _ := none
  admitted := []

namespace State

variable (s : State)

def setMember (key : Key) (isMember : Bool) : State :=
  { s with db := { s.db with members := Function.update s.db.members key isMember } }

def lockMember (key : Key) (t : ℕ) : State :=
  { s with memberLocks := Function.update s.memberLocks key (some t) }

def lockInvite (code : String) (t : ℕ) : State :=
  { s with inviteLocks := Function.update s.inviteLocks code (some t) }

/-- The row is not locked by another transaction. -/
def isFree (lock : Option ℕ) (t : ℕ) : Bool :=
  lock.all (· = t)

/-- The request waits for its next statement, or has ended and holds no lock any more. -/
def go (t : ℕ) (a : Option Await) : State :=
  match a with
  | some a => { s with opened := Function.update s.opened t (some a) }
  | none =>
      { s with
        opened := Function.update s.opened t none
        memberLocks := fun key => if s.memberLocks key = some t then none else s.memberLocks key
        inviteLocks := fun code => if s.inviteLocks code = some t then none else s.inviteLocks code }

/-- What a request waits for when it comes in, unless it is refused. -/
def arrive (env : Env) : Request → Option Await
  | .joinOrg key => some (.joinSelectOrg key)
  | .redeemInvite code userId => some (.redeemSelectInvite code userId s.clock)
  | .createInvite createdBy orgId code usesLeft =>
      if checkModerationPermission env.moderation createdBy orgId "can_invite" then
        some (.createInsert orgId code usesLeft)
      else none
  | .banMember adminId key expiresAt =>
      if key.2 = adminId then none
      else if !checkModerationPermission env.moderation adminId key.1 "can_ban" then none
      else if env.moderation.owners.lookup key.1 = some key.2 then none
      else some (.banDelete ⟨key, expiresAt⟩)
  | .unbanMember adminId key =>
      if checkModerationPermission env.moderation adminId key.1 "can_ban" then
        some (.unbanDelete key)
      else none

/-- The commit of a redemption: the row that was inserted, and one use less of a limited invite. -/
def redeem (r : Redemption) : State :=
  let s := s.setMember r.key true
  { s with
    db :=
      match r.usesLeft with
      | none => s.db
      | some _ =>
          { s.db with
            invites := Function.update s.db.invites r.code ((s.db.invites r.code).map fun invite =>
              { invite with usesLeft := invite.usesLeft.map (· - 1) }) }
    admitted := s.admitted ++ [(r.code, r.key.2)] }

/-- The commit of a ban. -/
def ban (ban : Ban) (deleted : Bool) : State :=
  let s := if deleted then s.setMember ban.key false else s
  { s with db := { s.db with bans := s.db.bans ++ [ban] } }

/-- The next statement of request `t`: the state after it and what is left of the request, or
nothing while the statement has to wait. -/
def proceed (env : Env) (t : ℕ) : Await → Option (State × Option Await)
  | .joinSelectOrg key => some (s, (env.joinMethod key.1).map (.joinSelectMember key))
  | .joinSelectMember key joinMethod =>
      some (s, if s.db.members key then none else some (.joinSelectBan key joinMethod))
  | .joinSelectBan key joinMethod =>
      if s.db.isBanned key s.clock then some (s, none)
      else some (s, if joinMethod = 0 then some (.joinInsert key) else none)
  | .joinInsert key =>
      if !isFree (s.memberLocks key) t then none
      else if s.db.members key then some (s, none)
      else some (s.setMember key true, none)
  | .redeemSelectInvite code userId beganAt =>
      match s.db.invites code with
      | none => some (s, none)
      | some invite =>
          if invite.expiresAt.any (· < s.clock) then some (s, none)
          else if invite.usesLeft.any (· ≤ 0) then some (s, none)
          else
            some (s, some (.redeemSelectMember
              { code := code
                key := (invite.orgId, userId)
                usesLeft := invite.usesLeft
                beganAt := beganAt }))
  | .redeemSelectMember r =>
      some (s, if s.db.members r.key then none else some (.redeemSelectBan r))
  | .redeemSelectBan r =>
      some (s, if s.db.isBanned r.key r.beganAt then none else some (.redeemInsert r))
  | .redeemInsert r =>
      if !isFree (s.memberLocks r.key) t then none
      else if s.db.members r.key then some (s, none)
      else
        some (s.lockMember r.key t,
          some (match r.usesLeft with
            | none => .redeemCommit r
            | some _ => .redeemUpdate r))
  | .redeemUpdate r =>
      if !isFree (s.inviteLocks r.code) t then none
      else some (s.lockInvite r.code t, some (.redeemCommit r))
  | .redeemCommit r => some (s.redeem r, none)
  | .createInsert orgId code usesLeft =>
      match s.db.invites code with
      | some _ => some (s, none)
      | none =>
          some ({ s with db := { s.db with
            invites := Function.update s.db.invites code
              (some ⟨orgId, usesLeft, none, usesLeft⟩) } }, none)
  | .banDelete ban =>
      -- a row that another transaction has only inserted is not seen
      if !s.db.members ban.key then some (s, some (.banInsert ban false))
      else if !isFree (s.memberLocks ban.key) t then none
      else some (s.lockMember ban.key t, some (.banInsert ban true))
  | .banInsert ban deleted => some (s, some (.banCommit ban deleted))
  | .banCommit ban deleted => some (s.ban ban deleted, none)
  | .unbanDelete key =>
      some ({ s with db := { s.db with bans := s.db.bans.filter fun ban => ban.key ≠ key } }, none)

end State

inductive Turn
  | begin (t : ℕ) (r : Request)
  | next (t : ℕ)
  | fail (t : ℕ)
  | tick (seconds : ℕ)
  deriving DecidableEq, Repr

def State.step (env : Env) (s : State) : Turn → Option State
  | .begin t r =>
      match s.opened t with
      | some _ => none
      | none => some (s.go t (s.arrive env r))
  | .next t => do
      let a ← s.opened t
      let (s', a') ← s.proceed env t a
      some (s'.go t a')
  | .fail t => (s.opened t).map fun _ => s.go t none
  | .tick seconds => some { s with clock := s.clock + seconds }

/-- Requests on the members of organizations, one statement of one of them after the other. -/
def membership (env : Env) : StepSystem State Turn where
  step := State.step env

end SpecterComs.Membership
