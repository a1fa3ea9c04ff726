import Mathlib.Data.PNat.Basic
import SpecterComs.Model.DeliveryService.Tables

/-! # Request bodies and their schemas

The `zod` schemas of the commit, external commit and upload endpoints. A parsed
epoch is positive by its type.
-/

namespace SpecterComs.DeliveryService

/-- A field of a JSON body. A number that is no integer is `mistyped` where an
integer is expected. -/
inductive Field (α : Type)
  | absent
  | null
  | mistyped
  | value (a : α)
  deriving DecidableEq, Repr

/-- The body shared by the submit and upload endpoints. -/
structure Body where
  epoch : Field ℤ
  commit : Field String
  welcome : Field String
  welcomedUserIds : Field (List (Field String))
  groupInfo : Field String
  deriving DecidableEq, Repr

/-- The fields that failed, by path. The message texts are the library's. -/
abbrev Issues := List String

/-- A string's `length`, in UTF-16 code units. -/
def jsLength (s : String) : ℕ :=
  (s.toList.map fun c => if c.val < 0x10000 then 1 else 2).sum

def isHex (c : Char) : Bool :=
  c.isDigit || ('a' ≤ c && c ≤ 'f') || ('A' ≤ c && c ≤ 'F')

/-- `UUID_RE`: groups of 8, 4, 4, 4 and 12 hexadecimal digits. -/
def isUuid (s : String) : Bool :=
  let parts := s.toList.splitOn '-'
  parts.map List.length == [8, 4, 4, 4, 12] && parts.all fun part => part.all isHex

/-- `z.number().int().positive()`. -/
def parseEpoch : Field ℤ → Except Issues ℕ+
  | .value (.ofNat (n + 1)) => .ok n.succPNat
  | _ => .error ["epoch"]

/-- `z.string().min(min).max(max)`. -/
def parseString (path : String) (min max : ℕ) : Field String → Except Issues String
  | .value s => if min ≤ jsLength s ∧ jsLength s ≤ max then .ok s else .error [path]
  | _ => .error [path]

/-- `z.string().max(max).nullable().optional()`. -/
def parseNullish (path : String) (max : ℕ) : Field String → Except Issues (Option String)
  | .value s => if jsLength s ≤ max then .ok (some s) else .error [path]
  | .mistyped => .error [path]
  | _ => .ok none

/-- One issue for each element that is no uuid. -/
def uuidIssues (path : String) (ids : List (Field String)) : Issues :=
  (ids.zipIdx.filter fun e =>
    match e.1 with
    | .value s => !isUuid s
    | _ => true).map fun e => path ++ "." ++ toString e.2

/-- `z.array(z.string().uuid()).max(max).optional()`. -/
def parseUuids (path : String) (max : ℕ) :
    Field (List (Field String)) → Except Issues (Option (List UserId))
  | .absent => .ok none
  | .value ids =>
      let issues := (if max < ids.length then [path] else []) ++ uuidIssues path ids
      if issues.isEmpty then
        .ok (some (ids.filterMap fun id =>
          match id with
          | .value s => some s
          | _ => none))
      else
        .error issues
  | _ => .error [path]

/-! ## Commit schemas -/

/-- The caps of one commit schema. A schema without a field strips it. -/
structure CommitSchema where
  commitMax : ℕ
  welcomeMax : Option ℕ
  welcomedMax : Option ℕ
  deriving DecidableEq, Repr

def groupInfoMax : ℕ := 4000000

def submitDmCommitSchema : CommitSchema := ⟨200000, some 500000, none⟩
def submitChannelCommitSchema : CommitSchema := ⟨500000, some 2000000, some 50⟩
def submitEventGroupCommitSchema : CommitSchema := ⟨500000, some 2000000, some 200⟩
def externalCommitSchema : CommitSchema := ⟨500000, none, none⟩

structure CommitData where
  epoch : ℕ+
  commit : String
  welcome : Option String
  welcomedUserIds : Option (List UserId)
  groupInfo : Option String
  deriving DecidableEq

def issuesOf {α : Type} : Except Issues α → Issues
  | .ok _ => []
  | .error issues => issues

def CommitSchema.safeParse (schema : CommitSchema) (body : Body) : Except Issues CommitData :=
  let epoch := parseEpoch body.epoch
  let commit := parseString "commit" 0 schema.commitMax body.commit
  let welcome := schema.welcomeMax.elim (.ok none) fun max =>
    parseNullish "welcome" max body.welcome
  let welcomed := schema.welcomedMax.elim (.ok none) fun max =>
    parseUuids "welcomed_user_ids" max body.welcomedUserIds
  let groupInfo := parseNullish "group_info" groupInfoMax body.groupInfo
  match epoch, commit, welcome, welcomed, groupInfo with
  | .ok epoch, .ok commit, .ok welcome, .ok welcomed, .ok groupInfo =>
      .ok ⟨epoch, commit, welcome, welcomed, groupInfo⟩
  | _, _, _, _, _ =>
      .error (issuesOf epoch ++ issuesOf commit ++ issuesOf welcome ++ issuesOf welcomed ++
        issuesOf groupInfo)

/-- `putGroupInfoSchema`. -/
def parsePutGroupInfo (body : Body) : Except Issues (ℕ+ × String) :=
  let epoch := parseEpoch body.epoch
  let groupInfo := parseString "group_info" 1 groupInfoMax body.groupInfo
  match epoch, groupInfo with
  | .ok epoch, .ok groupInfo => .ok (epoch, groupInfo)
  | _, _ => .error (issuesOf epoch ++ issuesOf groupInfo)

end SpecterComs.DeliveryService
