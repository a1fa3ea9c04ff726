import SpecterComs.Library.Strip
import Mathlib.Data.Char
import Mathlib.Algebra.GroupWithZero.Nat

/-! # The version gates of voice

`voiceClientGate.ts` decides before `issueOrgMediaTicket` of `orgController.ts` puts the trimmed
version into a ticket, `client_version_ok` of `media-rust/src/main.rs` when the ticket is shown. All
that either tests for is one UTF-16 unit, so characters stand for the units.
-/

namespace SpecterComs.VersionGate

open Strip (strip)

abbrev Text := List Char

/-- The numbers of MAJOR.MINOR.PATCH. -/
abbrev Version := ℕ × ℕ × ℕ

def digitsValue (digits : Text) : ℕ :=
  digits.foldl (fun n c => 10 * n + (c.toNat - 48)) 0

/-- The optional leading "v". -/
def stripV (text : Text) : Text :=
  if text.head? = some 'v' then text.tail else text

/-- What begins a suffix. -/
def isSign (c : Char) : Bool :=
  c = '-' || c = '+'

def defaultMinimum : Text :=
  "2.0.0".toList

/-! ## identity-node -/

/-- The white space and the line ends that `String.prototype.trim` removes. -/
def jsBlank (c : Char) : Bool :=
  let n := c.toNat
  9 ≤ n && n ≤ 13 || 0x2000 ≤ n && n ≤ 0x200A ||
    [0x20, 0xA0, 0x1680, 0x2028, 0x2029, 0x202F, 0x205F, 0x3000, 0xFEFF].contains n

/-- What `.` does not match. -/
def lineEnd (c : Char) : Bool :=
  [0x0A, 0x0D, 0x2028, 0x2029].contains c.toNat

/-- `(\d{1,6})`. -/
def matchNumber (text : Text) : Option (ℕ × Text) :=
  let digits := text.takeWhile Char.isDigit
  if 1 ≤ digits.length ∧ digits.length ≤ 6 then
    some (digitsValue digits, text.dropWhile Char.isDigit)
  else none

/-- `\.`. -/
def matchDot : Text → Option Text
  | '.' :: text => some text
  | _ => none

/-- `(?:[-+].*)?$`. -/
def matchSuffix : Text → Bool
  | [] => true
  | c :: text => isSign c && text.all fun c => !lineEnd c

/-- `/^v?(\d{1,6})\.(\d{1,6})\.(\d{1,6})(?:[-+].*)?$/.exec(v.trim())`. -/
def parseClientVersion (v : Text) : Option Version := do
  let (major, text) ← matchNumber (stripV (strip jsBlank v))
  let text ← matchDot text
  let (minor, text) ← matchNumber text
  let text ← matchDot text
  let (patch, text) ← matchNumber text
  if matchSuffix text then some (major, minor, patch) else none

/-- The loop over the two arrays. -/
def compareNumbers : List (ℕ × ℕ) → ℤ
  | [] => 0
  | (a, b) :: rest => if a ≠ b then if a < b then -1 else 1 else compareNumbers rest

def compareVersions (a b : Version) : ℤ :=
  compareNumbers [(a.1, b.1), (a.2.1, b.2.1), (a.2.2, b.2.2)]

/-- `(process.env.MIN_RELAY_CLIENT_VERSION || '').trim() || '2.0.0'`. -/
def minVoiceClientVersion (env : Option Text) : Text :=
  let minimum := strip jsBlank (env.getD [])
  if minimum = [] then defaultMinimum else minimum

def meetsVoiceMinimum (declared minimum : Text) : Bool :=
  match parseClientVersion declared, parseClientVersion minimum with
  | some have', some need => 0 ≤ compareVersions have' need
  | _, _ => false

/-- The version in the ticket, if one is issued. -/
def ticketVersion (env : Option Text) (clientVersion : Text) : Option Text :=
  if meetsVoiceMinimum clientVersion (minVoiceClientVersion env) then
    some (strip jsBlank clientVersion)
  else none

/-! ## media-rust -/

/-- `char::is_whitespace`, which `str::trim` removes. -/
def rustBlank (c : Char) : Bool :=
  let n := c.toNat
  9 ≤ n && n ≤ 13 || 0x2000 ≤ n && n ≤ 0x200A ||
    [0x20, 0x85, 0xA0, 0x1680, 0x2028, 0x2029, 0x202F, 0x205F, 0x3000].contains n

def minRelayClientVersion (env : Option Text) : Text :=
  match (env.map (strip rustBlank)).filter (· ≠ []) with
  | some minimum => minimum
  | none => defaultMinimum

/-- `parse::<u64>`, which takes a sign. -/
def parseU64 (text : Text) : Option ℕ :=
  let digits := if text.head? = some '+' then text.tail else text
  if digits = [] ∨ digits.all Char.isDigit = false then none
  else if digitsValue digits < 2 ^ 64 then some (digitsValue digits)
  else none

def parseSemver (v : Text) : Option Version :=
  let core := (stripV (strip rustBlank v)).takeWhile fun c => !isSign c
  match core.splitOn '.' with
  | [a, b, c] => do
      let a ← parseU64 a
      let b ← parseU64 b
      let c ← parseU64 c
      some (a, b, c)
  | _ => none

/-- `have >= need` on the tuples. -/
def atLeast (have' need : Version) : Bool :=
  need.1 < have'.1 || (need.1 = have'.1 &&
    (need.2.1 < have'.2.1 || (need.2.1 = have'.2.1 && need.2.2 ≤ have'.2.2)))

def clientVersionOk (env : Option Text) (claimed : Text) : Bool :=
  match parseSemver claimed, parseSemver (minRelayClientVersion env) with
  | some have', some need => atLeast have' need
  | _, _ => false

end SpecterComs.VersionGate
