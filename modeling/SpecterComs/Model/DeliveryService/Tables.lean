import Mathlib.Data.List.Sort

/-! # The MLS delivery service

The handlers of `identity-node/src/controllers/mlsGroupController.ts` over its two
tables, `mls_groups` and `mls_commit_log`. The tables the authorization checks
read belong to other controllers; each request meets them as a `Directory`.
-/

namespace SpecterComs.DeliveryService

abbrev Bytes := List UInt8
abbrev UserId := String
abbrev GroupId := String

/-- `Buffer.from(s, 'base64')` and `toString('base64')`. -/
structure Base64 where
  decode : String → Bytes
  encode : Bytes → String

/-! ## Tables -/

/-- A row of `mls_groups`. -/
structure GroupRow where
  currentEpoch : ℕ
  groupInfo : Option Bytes
  groupInfoEpoch : Option ℕ
  deriving DecidableEq, Repr

/-- A row of `mls_commit_log`. -/
structure LogRow where
  groupId : GroupId
  epoch : ℕ
  commit : Bytes
  welcome : Option Bytes
  welcomedUserIds : Option (List UserId)
  deriving DecidableEq, Repr

structure Db where
  groups : GroupId → Option GroupRow
  commitLog : List LogRow

def Db.empty : Db :=
  ⟨fun _ => none, []⟩

/-- A missing row and a row at epoch 0 both mean that the group does not exist yet. -/
def Db.epoch (db : Db) (groupId : GroupId) : ℕ :=
  (db.groups groupId).elim 0 GroupRow.currentEpoch

/-- `SELECT … FROM mls_commit_log WHERE group_id = $1 ORDER BY epoch ASC`. -/
def Db.selectLog (db : Db) (groupId : GroupId) : List LogRow :=
  (db.commitLog.filter (·.groupId == groupId)).mergeSort fun a b => decide (a.epoch ≤ b.epoch)

/-- `INSERT INTO mls_groups … ON CONFLICT (group_id) DO NOTHING`. -/
def Db.insertGroup (db : Db) (groupId : GroupId) : Db :=
  match db.groups groupId with
  | some _ => db
  | none => { db with groups := Function.update db.groups groupId (some ⟨0, none, none⟩) }

/-- `INSERT INTO mls_commit_log … ON CONFLICT (group_id, epoch) DO NOTHING`. -/
def insertLog (log : List LogRow) (row : LogRow) : List LogRow :=
  if log.any fun r => r.groupId == row.groupId && r.epoch == row.epoch then log else log ++ [row]

/-- An empty string is as falsy as a missing one. -/
def bytesOrNull (codec : Base64) (s : Option String) : Option Bytes :=
  match s with
  | some s => if s.isEmpty then none else some (codec.decode s)
  | none => none

/-- `bumpGroupEpoch`: the tables after `COMMIT`, or nothing after `ROLLBACK`. -/
def bumpGroupEpoch (codec : Base64) (db : Db) (groupId : GroupId) (epoch : ℕ) (commit : String)
    (welcome : Option String) (welcomedUserIds : Option (List UserId))
    (groupInfo : Option String) : Option Db :=
  let db := db.insertGroup groupId
  match db.groups groupId with
  | none => none
  | some row =>
      if row.currentEpoch + 1 = epoch then
        let row' : GroupRow :=
          match bytesOrNull codec groupInfo with
          | none => { row with currentEpoch := epoch }
          | some info => ⟨epoch, some info, some epoch⟩
        let entry : LogRow := {
          groupId
          epoch
          commit := codec.decode commit
          welcome := bytesOrNull codec welcome
          welcomedUserIds := if welcomedUserIds.all List.isEmpty then none else welcomedUserIds }
        some ⟨Function.update db.groups groupId (some row'), insertLog db.commitLog entry⟩
      else
        none

/-- The `UPDATE` of `putGroupInfo`, or nothing when it matches no row. -/
def updateGroupInfo (codec : Base64) (db : Db) (groupId : GroupId) (epoch : ℕ)
    (groupInfo : String) : Option Db :=
  match db.groups groupId with
  | none => none
  | some row =>
      if row.currentEpoch = epoch then
        let row' := { row with
          groupInfo := some (codec.decode groupInfo), groupInfoEpoch := some epoch }
        some { db with groups := Function.update db.groups groupId (some row') }
      else
        none

/-! ## Reads -/

structure CatchUp where
  welcome : Option (ℕ × String)
  commits : List (ℕ × String)
  currentEpoch : ℕ
  groupInfoEpoch : Option ℕ
  deriving DecidableEq, Repr

/-- The earliest row that welcomed the user. -/
def entryWelcome (codec : Base64) (userId : UserId) (rows : List LogRow) : Option (ℕ × String) :=
  rows.findSome? fun row =>
    match row.welcome with
    | none => none
    | some welcome =>
        if (row.welcomedUserIds.getD []).contains userId then
          some (row.epoch, codec.encode welcome)
        else
          none

/-- `fetchGroupCatchUp`. Its two queries are separate: the log is read from `logDb`
and the epochs from `epochDb`, with any requests in between. -/
def fetchGroupCatchUp (codec : Base64) (logDb epochDb : Db) (groupId : GroupId)
    (userId : UserId) : CatchUp :=
  let rows := logDb.selectLog groupId
  { welcome := entryWelcome codec userId rows
    commits := rows.map fun row => (row.epoch, codec.encode row.commit)
    currentEpoch := epochDb.epoch groupId
    groupInfoEpoch := (epochDb.groups groupId).bind GroupRow.groupInfoEpoch }

structure GroupInfoReply where
  groupId : GroupId
  exists' : Bool
  epoch : ℕ
  groupInfo : Option String
  groupInfoEpoch : Option ℕ
  deriving DecidableEq, Repr

def readGroupInfo (codec : Base64) (db : Db) (groupId : GroupId) : GroupInfoReply :=
  match db.groups groupId with
  | none => ⟨groupId, false, 0, none, none⟩
  | some row =>
      if row.currentEpoch = 0 then
        ⟨groupId, false, 0, none, none⟩
      else
        let fresh := row.groupInfoEpoch = some row.currentEpoch
        { groupId
          exists' := true
          epoch := row.currentEpoch
          groupInfo := if fresh then row.groupInfo.map codec.encode else none
          groupInfoEpoch := row.groupInfoEpoch }

end SpecterComs.DeliveryService
