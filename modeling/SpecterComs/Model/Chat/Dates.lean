import Mathlib.Data.Nat.Digits.Defs
import SpecterComs.Model.DeliveryService.Schemas

/-! # Strings and dates of the platform

JavaScript compares strings with `<` and `>` by UTF-16 code units, as IndexedDB does with
its keys. `localeCompare` and `Date.parse` depend on the engine and its locale.
-/

namespace SpecterComs.Chat

/-- The UTF-16 code units of a string. -/
def utf16 (s : String) : List ℕ :=
  s.toList.flatMap fun c =>
    let n := c.toNat
    if n < 0x10000 then [n]
    else [0xD800 + (n - 0x10000) / 0x400, 0xDC00 + (n - 0x10000) % 0x400]

/-- `a < b` on strings. -/
def before (a b : String) : Bool :=
  decide (utf16 a < utf16 b)

structure Platform where
  localeCompare : String → String → Ordering
  /-- `Date.parse`, in milliseconds. `NaN` is none. -/
  dateParse : String → Option ℤ

/-! ## `Date.prototype.toISOString` -/

def msPerDay : ℤ := 86400000

/-- The days from the first of January of year 0 to that of year `y`. -/
def dayOfYear (y : ℤ) : ℤ :=
  365 * y + (y + 3) / 4 - (y + 99) / 100 + (y + 399) / 400

/-- The days from the first of January of year 0 to that of 1970. -/
def epochDay : ℤ := 719528

/-- The largest year that starts on day `d` or before it. -/
def yearOfDay (d : ℤ) : ℤ :=
  let y := d * 400 / 146097
  if d < dayOfYear y then y - 1
  else if dayOfYear (y + 1) ≤ d then y + 1
  else y

def isLeap (y : ℤ) : Bool :=
  y % 4 == 0 && (y % 100 != 0 || y % 400 == 0)

def monthLengths (leap : Bool) : List ℕ :=
  [31, if leap then 29 else 28, 31, 30, 31, 30, 31, 31, 30, 31, 30, 31]

/-- The month of a day of the year and the day of the month, both from 0. -/
def splitMonths : List ℕ → ℕ → ℕ × ℕ
  | [], d => (0, d)
  | n :: ns, d =>
      if d < n then (0, d)
      else ((splitMonths ns (d - n)).1 + 1, (splitMonths ns (d - n)).2)

/-- A moment in UTC. -/
structure Moment where
  year : ℤ
  month : ℕ
  day : ℕ
  hour : ℕ
  minute : ℕ
  second : ℕ
  ms : ℕ
  deriving DecidableEq, Repr

/-- The moment of a time value. -/
def momentOf (t : ℤ) : Moment :=
  let d := t / msPerDay + epochDay
  let year := yearOfDay d
  let monthDay := splitMonths (monthLengths (isLeap year)) (d - dayOfYear year).toNat
  let inDay := (t % msPerDay).toNat
  { year
    month := monthDay.1 + 1
    day := monthDay.2 + 1
    hour := inDay / 3600000
    minute := inDay / 60000 % 60
    second := inDay / 1000 % 60
    ms := inDay % 1000 }

/-- The last `width` decimal digits. -/
def digits : (width : ℕ) → ℕ → List Char
  | 0, _ => []
  | width + 1, n => digits width (n / 10) ++ [Nat.digitChar (n % 10)]

/-- Years of four digits are written as they are, others with a sign and six. -/
def yearText (y : ℤ) : List Char :=
  if 0 ≤ y ∧ y ≤ 9999 then digits 4 y.toNat
  else (if y < 0 then '-' else '+') :: digits 6 y.natAbs

def Moment.text (m : Moment) : List Char :=
  yearText m.year ++ '-' :: digits 2 m.month ++ '-' :: digits 2 m.day ++
    'T' :: digits 2 m.hour ++ ':' :: digits 2 m.minute ++ ':' :: digits 2 m.second ++
    '.' :: digits 3 m.ms ++ ['Z']

/-- `new Date(t).toISOString()`. -/
def toISOString (t : ℤ) : String :=
  String.ofList (momentOf t).text

/-! ## `z.string().datetime()` -/

def digitValue (c : Char) : ℕ :=
  c.toNat - '0'.toNat

def numberOf (cs : List Char) : ℕ :=
  cs.foldl (fun n c => 10 * n + digitValue c) 0

/-- The day exists in its month, with the years' leap rule. -/
def isDate (year month day : ℕ) : Bool :=
  match (monthLengths (isLeap year))[month - 1]? with
  | none => false
  | some n => 1 ≤ month && 1 ≤ day && day ≤ n

/-- An optional fraction of the second, and `Z`. -/
def isFractionEnd : List Char → Bool
  | ['Z'] => true
  | '.' :: c :: rest => c.isDigit && (rest.dropLast).all Char.isDigit && rest.getLast? == some 'Z'
  | _ => false

/-- A UTC date and time in the ISO format, with a fraction of any length or none. -/
def isDatetime (s : String) : Bool :=
  let cs := s.toList
  let field (i n : ℕ) := (cs.drop i).take n
  let numbers := [field 0 4, field 5 2, field 8 2, field 11 2, field 14 2, field 17 2]
  numbers.map List.length == [4, 2, 2, 2, 2, 2] && numbers.flatten.all Char.isDigit &&
    [field 4 1, field 7 1, field 10 1, field 13 1, field 16 1] == [['-'], ['-'], ['T'], [':'], [':']] &&
    isDate (numberOf (field 0 4)) (numberOf (field 5 2)) (numberOf (field 8 2)) &&
    numberOf (field 11 2) < 24 && numberOf (field 14 2) < 60 && numberOf (field 17 2) < 60 &&
    isFractionEnd (cs.drop 19)

end SpecterComs.Chat
