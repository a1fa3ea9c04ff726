import Mathlib.Data.Int.Notation
import Mathlib.Data.List.Basic

/-! # JSON texts

Values, the text that is written for them, and the parser of the JSON grammar. A number is
kept as the decimal that its text denotes. A text is a list of characters, so a lone
surrogate that is escaped in it is read as U+FFFD.
-/

namespace JsonText

abbrev Text := List Char

inductive Value
  | null
  | bool (b : Bool)
  /-- `mantissa * 10 ^ exponent`. -/
  | number (mantissa exponent : ℤ)
  | string (s : Text)
  | array (items : List Value)
  | object (members : List (Text × Value))

/-! ## Writing -/

/-- `\u` with four digits. -/
def unicodeEscape (n : ℕ) : Text :=
  ['\\', 'u', (n / 4096 % 16).digitChar, (n / 256 % 16).digitChar, (n / 16 % 16).digitChar,
    (n % 16).digitChar]

def escapeChar (c : Char) : Text :=
  if c = '"' then ['\\', '"']
  else if c = '\\' then ['\\', '\\']
  else if c.toNat < 0x20 then
    if c = '\x08' then ['\\', 'b']
    else if c = '\t' then ['\\', 't']
    else if c = '\n' then ['\\', 'n']
    else if c = '\x0c' then ['\\', 'f']
    else if c = '\r' then ['\\', 'r']
    else unicodeEscape c.toNat
  else [c]

def writeString (s : Text) : Text :=
  '"' :: s.flatMap escapeChar ++ ['"']

def writeInt : ℤ → Text
  | .ofNat n => Nat.toDigits 10 n
  | .negSucc n => '-' :: Nat.toDigits 10 (n + 1)

def writeNumber (mantissa exponent : ℤ) : Text :=
  if exponent = 0 then writeInt mantissa else writeInt mantissa ++ 'e' :: writeInt exponent

mutual

/-- A value without white space. -/
def write : Value → Text
  | .null => "null".toList
  | .bool true => "true".toList
  | .bool false => "false".toList
  | .number mantissa exponent => writeNumber mantissa exponent
  | .string s => writeString s
  | .array items => '[' :: writeItems items ++ [']']
  | .object members => '{' :: writeMembers members ++ ['}']

def writeItems : List Value → Text
  | [] => []
  | [item] => write item
  | item :: items => write item ++ ',' :: writeItems items

def writeMembers : List (Text × Value) → Text
  | [] => []
  | [member] => writeMember member
  | member :: members => writeMember member ++ ',' :: writeMembers members

def writeMember : Text × Value → Text
  | (key, value) => writeString key ++ ':' :: write value

end

/-! ## Reading -/

def isSpace (c : Char) : Bool :=
  c = ' ' || c = '\t' || c = '\n' || c = '\r'

def skipSpace (t : Text) : Text :=
  t.dropWhile isSpace

def hexValue (c : Char) : Option ℕ :=
  if '0' ≤ c ∧ c ≤ '9' then some (c.toNat - '0'.toNat)
  else if 'a' ≤ c ∧ c ≤ 'f' then some (c.toNat - 'a'.toNat + 10)
  else if 'A' ≤ c ∧ c ≤ 'F' then some (c.toNat - 'A'.toNat + 10)
  else none

def hexUnit (a b c d : Char) : Option ℕ := do
  let a ← hexValue a
  let b ← hexValue b
  let c ← hexValue c
  let d ← hexValue d
  some (((a * 16 + b) * 16 + c) * 16 + d)

/-- The character of an escape other than `\u`. -/
def unescape (c : Char) : Option Char :=
  if c = '"' ∨ c = '\\' ∨ c = '/' then some c
  else if c = 'b' then some '\x08'
  else if c = 't' then some '\t'
  else if c = 'n' then some '\n'
  else if c = 'f' then some '\x0c'
  else if c = 'r' then some '\r'
  else none

/-- The rest of a string literal: characters and escaped UTF-16 units. -/
def parseUnits : Text → Option (List (Char ⊕ ℕ) × Text)
  | [] => none
  | '"' :: t => some ([], t)
  | '\\' :: 'u' :: a :: b :: c :: d :: t => do
      let unit ← hexUnit a b c d
      let (units, t) ← parseUnits t
      some (.inr unit :: units, t)
  | '\\' :: c :: t => do
      let c ← unescape c
      let (units, t) ← parseUnits t
      some (.inl c :: units, t)
  | c :: t => do
      if c.toNat < 0x20 then none
      else
        let (units, t) ← parseUnits t
        some (.inl c :: units, t)

/-- Pairs of surrogates make one character. -/
def joinUnits : List (Char ⊕ ℕ) → Text
  | [] => []
  | .inl c :: units => c :: joinUnits units
  | .inr high :: .inr low :: units =>
      if 0xd800 ≤ high ∧ high < 0xdc00 ∧ 0xdc00 ≤ low ∧ low < 0xe000 then
        Char.ofNat (0x10000 + (high - 0xd800) * 0x400 + (low - 0xdc00)) :: joinUnits units
      else if 0xd800 ≤ high ∧ high < 0xe000 then '\uFFFD' :: joinUnits (.inr low :: units)
      else Char.ofNat high :: joinUnits (.inr low :: units)
  | .inr unit :: units =>
      if 0xd800 ≤ unit ∧ unit < 0xe000 then '\uFFFD' :: joinUnits units
      else Char.ofNat unit :: joinUnits units

def parseString (t : Text) : Option (Text × Text) :=
  (parseUnits t).map fun (units, t) => (joinUnits units, t)

def digitsValue (digits : Text) : ℕ :=
  digits.foldl (fun n c => 10 * n + (c.toNat - '0'.toNat)) 0

/-- Digits, at least one. -/
def parseDigits (t : Text) : Option (Text × Text) :=
  let digits := t.takeWhile Char.isDigit
  if digits = [] then none else some (digits, t.dropWhile Char.isDigit)

def parseSigned : Text → Option (ℤ × Text)
  | '-' :: t => (parseDigits t).map fun (digits, t) => (-digitsValue digits, t)
  | '+' :: t => (parseDigits t).map fun (digits, t) => (digitsValue digits, t)
  | t => (parseDigits t).map fun (digits, t) => (digitsValue digits, t)

def parseExponent : Text → Option (ℤ × Text)
  | [] => some (0, [])
  | c :: t => if c = 'e' ∨ c = 'E' then parseSigned t else some (0, c :: t)

def parseFraction : Text → Option (Text × Text)
  | '.' :: t => parseDigits t
  | t => some ([], t)

/-- A number without its sign. A leading zero stands alone. -/
def parseUnsigned (t : Text) : Option ((ℕ × ℤ) × Text) := do
  let (int, t) ← parseDigits t
  if int.head? = some '0' ∧ int ≠ ['0'] then none
  else
    let (frac, t) ← parseFraction t
    let (exponent, t) ← parseExponent t
    some ((digitsValue (int ++ frac), exponent - frac.length), t)

def parseNumber (t : Text) : Option (Value × Text) :=
  match t with
  | '-' :: t => (parseUnsigned t).map fun ((m, e), t) => (.number (-m) e, t)
  | t => (parseUnsigned t).map fun ((m, e), t) => (.number m e, t)

mutual

/-- A value, and the text behind it. -/
def parseValue : ℕ → Text → Option (Value × Text)
  | 0, _ => none
  | fuel + 1, t =>
      match skipSpace t with
      | 'n' :: 'u' :: 'l' :: 'l' :: t => some (.null, t)
      | 't' :: 'r' :: 'u' :: 'e' :: t => some (.bool true, t)
      | 'f' :: 'a' :: 'l' :: 's' :: 'e' :: t => some (.bool false, t)
      | '"' :: t => (parseString t).map fun (s, t) => (.string s, t)
      | '[' :: t =>
          match skipSpace t with
          | ']' :: t => some (.array [], t)
          | t => (parseItems fuel t).map fun (items, t) => (.array items, t)
      | '{' :: t =>
          match skipSpace t with
          | '}' :: t => some (.object [], t)
          | t => (parseMembers fuel t).map fun (members, t) => (.object members, t)
      | t => parseNumber t

/-- The items of an array, at least one, up to its end. -/
def parseItems : ℕ → Text → Option (List Value × Text)
  | 0, _ => none
  | fuel + 1, t => do
      let (item, t) ← parseValue fuel t
      match skipSpace t with
      | ',' :: t =>
          let (items, t) ← parseItems fuel t
          some (item :: items, t)
      | ']' :: t => some ([item], t)
      | _ => none

def parseMembers : ℕ → Text → Option (List (Text × Value) × Text)
  | 0, _ => none
  | fuel + 1, t =>
      match skipSpace t with
      | '"' :: t => do
          let (key, t) ← parseString t
          match skipSpace t with
          | ':' :: t =>
              let (value, t) ← parseValue fuel t
              match skipSpace t with
              | ',' :: t =>
                  let (members, t) ← parseMembers fuel t
                  some ((key, value) :: members, t)
              | '}' :: t => some ([(key, value)], t)
              | _ => none
          | _ => none
      | _ => none

end

/-- Every nested value takes a character at least, so the length is fuel enough. -/
def parse (t : Text) : Option Value :=
  match parseValue (t.length + 1) t with
  | some (value, t) => if skipSpace t = [] then some value else none
  | none => none

/-- The member of an object under a key. Of several the last one counts. -/
def Value.get? (key : Text) : Value → Option Value
  | .object members => (members.findRev? fun member => member.1 = key).map Prod.snd
  | _ => none

variable {t rest : Text} {c : Char}

/-! ## What was written is read back: strings -/

variable {n : ℕ}

theorem hexValue_digitChar (h : n < 16) : hexValue n.digitChar = some n := by
  have hall : ∀ n : Fin 16, hexValue n.val.digitChar = some n.val := by decide
  exact hall ⟨n, h⟩

theorem hexUnit_unicodeEscape (h : n < 65536) :
    hexUnit (n / 4096 % 16).digitChar (n / 256 % 16).digitChar (n / 16 % 16).digitChar
      (n % 16).digitChar = some n := by
  have hdigit : ∀ m, hexValue (m % 16).digitChar = some (m % 16) := fun m =>
    hexValue_digitChar (Nat.mod_lt m (by decide))
  simp only [hexUnit, hdigit, Option.bind_eq_bind, Option.bind_some, Option.some.injEq]
  omega

theorem parseUnits_unescape {d : Char} (t : Text) (h : unescape c = some d) :
    parseUnits ('\\' :: c :: t) = (parseUnits t).map fun (units, t) => (.inl d :: units, t) := by
  have hu : c ≠ 'u' := by
    rintro rfl
    simp [unescape] at h
  rw [parseUnits]
  · rw [h]
    cases parseUnits t <;> rfl
  · intro _ _ _ _ _ hc
    exact absurd hc hu

theorem parseUnits_plain (t : Text) (hquote : c ≠ '"') (hbackslash : c ≠ '\\')
    (hcontrol : ¬ c.toNat < 0x20) :
    parseUnits (c :: t) = (parseUnits t).map fun (units, t) => (.inl c :: units, t) := by
  rw [parseUnits]
  · rw [if_neg hcontrol]
    cases parseUnits t <;> rfl
  · exact hquote
  · intro _ _ _ _ _ hc
    exact absurd hc hbackslash
  · intro _ _ hc
    exact absurd hc hbackslash

theorem parseUnits_unicodeEscape (h : n < 65536) (t : Text) :
    parseUnits (unicodeEscape n ++ t) =
      (parseUnits t).map fun (units, t) => (.inr n :: units, t) := by
  simp only [unicodeEscape, List.cons_append, List.nil_append]
  rw [parseUnits, hexUnit_unicodeEscape h]
  cases parseUnits t <;> rfl

theorem joinUnits_small (h : n < 0xd800) (units : List (Char ⊕ ℕ)) :
    joinUnits (.inr n :: units) = Char.ofNat n :: joinUnits units := by
  have hlow : ¬ 0xd800 ≤ n := by omega
  cases units with
  | nil => simp [joinUnits, hlow]
  | cons unit units =>
      cases unit with
      | inl d => simp [joinUnits, hlow]
      | inr m => simp [joinUnits, hlow]

/-- A control character has a letter of its own or a number. -/
theorem parseUnits_escapeControl (hcontrol : c.toNat < 0x20) (t : Text) :
    ∃ unit, (∀ units, joinUnits (unit :: units) = c :: joinUnits units) ∧
      parseUnits ((if c = '\x08' then ['\\', 'b'] else if c = '\t' then ['\\', 't']
        else if c = '\n' then ['\\', 'n'] else if c = '\x0c' then ['\\', 'f']
        else if c = '\r' then ['\\', 'r'] else unicodeEscape c.toNat) ++ t) =
          (parseUnits t).map fun (units, t) => (unit :: units, t) := by
  split_ifs with hb ht hn hf hr
  · exact ⟨.inl c, fun _ => rfl, parseUnits_unescape t (by rw [hb]; decide)⟩
  · exact ⟨.inl c, fun _ => rfl, parseUnits_unescape t (by rw [ht]; decide)⟩
  · exact ⟨.inl c, fun _ => rfl, parseUnits_unescape t (by rw [hn]; decide)⟩
  · exact ⟨.inl c, fun _ => rfl, parseUnits_unescape t (by rw [hf]; decide)⟩
  · exact ⟨.inl c, fun _ => rfl, parseUnits_unescape t (by rw [hr]; decide)⟩
  · refine ⟨.inr c.toNat, fun units => ?_, parseUnits_unicodeEscape (by omega) t⟩
    rw [joinUnits_small (by omega), Char.ofNat_toNat]

/-- An escaped character is read back. -/
theorem parseUnits_escapeChar (c : Char) (t : Text) :
    ∃ unit, (∀ units, joinUnits (unit :: units) = c :: joinUnits units) ∧
      parseUnits (escapeChar c ++ t) = (parseUnits t).map fun (units, t) => (unit :: units, t) := by
  rw [escapeChar]
  by_cases hquote : c = '"'
  · rw [if_pos hquote]
    exact ⟨.inl c, fun _ => rfl, parseUnits_unescape t (by rw [hquote]; decide)⟩
  rw [if_neg hquote]
  by_cases hbackslash : c = '\\'
  · rw [if_pos hbackslash]
    exact ⟨.inl c, fun _ => rfl, parseUnits_unescape t (by rw [hbackslash]; decide)⟩
  rw [if_neg hbackslash]
  by_cases hcontrol : c.toNat < 0x20
  · rw [if_pos hcontrol]
    exact parseUnits_escapeControl hcontrol t
  · rw [if_neg hcontrol]
    exact ⟨.inl c, fun _ => rfl, parseUnits_plain t hquote hbackslash hcontrol⟩

theorem parseString_write (s : Text) (t : Text) :
    parseString (s.flatMap escapeChar ++ '"' :: t) = some (s, t) := by
  suffices h : ∃ units, parseUnits (s.flatMap escapeChar ++ '"' :: t) = some (units, t) ∧
      joinUnits units = s by
    obtain ⟨units, hparse, hjoin⟩ := h
    rw [parseString, hparse, ← hjoin]
    rfl
  induction s with
  | nil => exact ⟨[], rfl, rfl⟩
  | cons c s ih =>
      obtain ⟨units, hparse, hjoin⟩ := ih
      obtain ⟨unit, hunit, hchar⟩ := parseUnits_escapeChar c (s.flatMap escapeChar ++ '"' :: t)
      refine ⟨unit :: units, ?_, ?_⟩
      · rw [List.flatMap_cons, List.append_assoc, hchar, hparse, Option.map_some]
      · rw [hunit, hjoin]

/-! ## What was written is read back: numbers -/

theorem toDigits_ne_nil (n : ℕ) : Nat.toDigits 10 n ≠ [] := by
  rw [Nat.toDigits_eq_if (by decide)]
  split <;> simp

theorem toDigits_isDigit (h : c ∈ Nat.toDigits 10 n) : c.isDigit :=
  Nat.isDigit_of_mem_toDigits (by decide) (by decide) h

theorem digitsValue_toDigits (n : ℕ) : digitsValue (Nat.toDigits 10 n) = n := by
  induction n using Nat.strongRecOn with
  | ind n ih =>
      have hdigit : ∀ m < 10, m.digitChar.toNat - '0'.toNat = m := by decide
      rw [Nat.toDigits_eq_if (by decide)]
      split
      · rename_i hsmall
        exact (Nat.zero_add _).trans (hdigit n hsmall)
      · have hrest := ih (n / 10) (by omega)
        rw [digitsValue] at hrest ⊢
        rw [List.foldl_append, hrest, List.foldl_cons, List.foldl_nil,
          hdigit _ (Nat.mod_lt n (by decide))]
        omega

/-- Only zero starts with a zero. -/
theorem toDigits_zero_of_head (h : (Nat.toDigits 10 n).head? = some '0') :
    Nat.toDigits 10 n = ['0'] := by
  have hzero : n = 0 := by
    induction n using Nat.strongRecOn with
    | ind n ih =>
        rw [Nat.toDigits_eq_if (by decide)] at h
        split at h
        · rename_i hsmall
          have hdigit : ∀ m < 10, m.digitChar = '0' → m = 0 := by decide
          exact hdigit n hsmall (Option.some.inj h)
        · rw [List.head?_append_of_ne_nil _ (toDigits_ne_nil _)] at h
          have hdiv := ih (n / 10) (by omega) h
          omega
  rw [hzero]
  rfl

/-- What cannot go on with the digits of a number. -/
def NoDigit (t : Text) : Prop :=
  ∀ c ∈ t.head?, c.isDigit = false

theorem parseDigits_toDigits (n : ℕ) (h : NoDigit t) :
    parseDigits (Nat.toDigits 10 n ++ t) = some (Nat.toDigits 10 n, t) := by
  have hall : ∀ c ∈ Nat.toDigits 10 n, c.isDigit = true := fun c hc => toDigits_isDigit hc
  have hstop : t.takeWhile Char.isDigit = [] ∧ t.dropWhile Char.isDigit = t := by
    cases t with
    | nil => exact ⟨rfl, rfl⟩
    | cons c t => simp [h c rfl]
  rw [parseDigits, List.takeWhile_append_of_pos hall, List.dropWhile_append_of_pos hall, hstop.1,
    hstop.2, List.append_nil]
  exact if_neg (toDigits_ne_nil n)

variable {e : ℤ}

theorem parseUnsigned_toDigits (hdigit : NoDigit t) (hfrac : t.head? ≠ some '.')
    (hexponent : parseExponent t = some (e, rest)) :
    parseUnsigned (Nat.toDigits 10 n ++ t) = some ((n, e), rest) := by
  have hfraction : parseFraction t = some ([], t) := by
    cases t with
    | nil => rfl
    | cons c t =>
        rw [parseFraction]
        rintro u ⟨rfl, -⟩
        exact hfrac rfl
  have hzero : ¬ ((Nat.toDigits 10 n).head? = some '0' ∧ Nat.toDigits 10 n ≠ ['0']) :=
    fun h => h.2 (toDigits_zero_of_head h.1)
  rw [parseUnsigned, parseDigits_toDigits n hdigit]
  simp only [Option.bind_eq_bind, Option.bind_some, if_neg hzero, hfraction, hexponent,
    List.append_nil, digitsValue_toDigits, List.length_nil]
  simp

/-- A number starts with a digit. -/
theorem toDigits_cons (n : ℕ) :
    ∃ c digits, Nat.toDigits 10 n = c :: digits ∧ c.isDigit = true := by
  cases h : Nat.toDigits 10 n with
  | nil => exact absurd h (toDigits_ne_nil n)
  | cons c digits => exact ⟨c, digits, rfl, toDigits_isDigit (n := n) (by rw [h]; simp)⟩

theorem parseSigned_write (h : NoDigit t) : parseSigned (writeInt e ++ t) = some (e, t) := by
  cases e with
  | ofNat n =>
      have hparse := parseDigits_toDigits n h
      obtain ⟨c, digits, hc, hdigit⟩ := toDigits_cons n
      have hminus : c ≠ '-' := by
        rintro rfl
        exact absurd hdigit (by decide)
      have hplus : c ≠ '+' := by
        rintro rfl
        exact absurd hdigit (by decide)
      have hvalue := digitsValue_toDigits n
      simp only [writeInt, hc, List.cons_append] at hparse hvalue ⊢
      rw [parseSigned, hparse, Option.map_some]
      · dsimp only
        rw [hvalue, Int.ofNat_eq_natCast]
      · simp [hminus]
      · simp [hplus]
  | negSucc n =>
      simp only [writeInt, List.cons_append, parseSigned, parseDigits_toDigits (n + 1) h,
        Option.map_some, digitsValue_toDigits]
      rfl

theorem parseExponent_write (h : NoDigit t) :
    parseExponent ('e' :: writeInt e ++ t) = some (e, t) := by
  rw [List.cons_append, parseExponent, if_pos (Or.inl rfl), parseSigned_write h]

/-- What may stand behind a number. -/
def Stops (t : Text) : Prop :=
  ∀ c ∈ t.head?, c.isDigit = false ∧ c ≠ '.' ∧ c ≠ 'e' ∧ c ≠ 'E'

theorem Stops.noDigit (h : Stops t) : NoDigit t := fun c hc => (h c hc).1

theorem parseUnsigned_write (n : ℕ) (e : ℤ) (h : Stops t) :
    parseUnsigned (Nat.toDigits 10 n ++ ((if e = 0 then [] else 'e' :: writeInt e) ++ t)) =
      some ((n, e), t) := by
  split
  · rename_i hzero
    refine parseUnsigned_toDigits h.noDigit (fun hdot => (h '.' hdot).2.1 rfl) ?_
    cases t with
    | nil => rw [hzero, List.nil_append, parseExponent]
    | cons c t =>
        obtain ⟨-, -, he, hE⟩ := h c rfl
        rw [hzero, List.nil_append, parseExponent, if_neg (by simp [he, hE])]
  · refine parseUnsigned_toDigits ?_ (by simp) (parseExponent_write h.noDigit)
    intro c hc
    cases Option.some.inj hc
    rfl

theorem parseNumber_write (m e : ℤ) (h : Stops t) :
    parseNumber (writeNumber m e ++ t) = some (.number m e, t) := by
  have hwrite : writeNumber m e ++ t =
      writeInt m ++ ((if e = 0 then [] else 'e' :: writeInt e) ++ t) := by
    unfold writeNumber
    split <;> simp
  rw [hwrite]
  cases m with
  | ofNat n =>
      have hparse := parseUnsigned_write n e h
      obtain ⟨c, digits, hc, hdigit⟩ := toDigits_cons n
      have hminus : c ≠ '-' := by
        rintro rfl
        exact absurd hdigit (by decide)
      simp only [writeInt, hc, List.cons_append] at hparse ⊢
      rw [parseNumber, hparse]
      · rfl
      · simp [hminus]
  | negSucc n =>
      rw [writeInt, List.cons_append, parseNumber, parseUnsigned_write (n + 1) e h]
      rfl

/-! ## What was written is read back: values -/

theorem stops_cons (h : c.isDigit = false ∧ c ≠ '.' ∧ c ≠ 'e' ∧ c ≠ 'E') : Stops (c :: t) := by
  intro d hd
  cases Option.some.inj hd
  exact h

theorem skipSpace_cons (h : isSpace c = false) : skipSpace (c :: t) = c :: t := by
  rw [skipSpace, List.dropWhile_cons_of_neg (by simp [h])]

theorem writeInt_cons (n : ℤ) :
    ∃ c t, writeInt n = c :: t ∧ (c = '-' ∨ c.isDigit = true) := by
  cases n with
  | ofNat n =>
      obtain ⟨c, digits, hc, hdigit⟩ := toDigits_cons n
      exact ⟨c, digits, hc, Or.inr hdigit⟩
  | negSucc n => exact ⟨'-', _, rfl, Or.inl rfl⟩

theorem writeNumber_cons (m e : ℤ) :
    ∃ c t, writeNumber m e = c :: t ∧ (c = '-' ∨ c.isDigit = true) := by
  obtain ⟨c, t, hc, hstart⟩ := writeInt_cons m
  unfold writeNumber
  split
  · exact ⟨c, t, hc, hstart⟩
  · exact ⟨c, _, by rw [hc, List.cons_append], hstart⟩

/-- A character that starts a value. -/
def Starts (c : Char) : Prop :=
  isSpace c = false ∧ c ≠ ']'

theorem starts_of_number (h : c = '-' ∨ c.isDigit = true) : Starts c := by
  cases h with
  | inl h => rw [h]; exact ⟨by decide, by decide⟩
  | inr h =>
      constructor
      · by_contra hspace
        simp only [isSpace, Bool.not_eq_false, Bool.or_eq_true, decide_eq_true_eq] at hspace
        obtain ((rfl | rfl) | rfl) | rfl := hspace <;> exact absurd h (by decide)
      · rintro rfl
        exact absurd h (by decide)

theorem write_cons (v : Value) : ∃ c t, write v = c :: t ∧ Starts c := by
  cases v with
  | null => exact ⟨'n', _, by rw [write]; rfl, by decide, by decide⟩
  | bool b =>
      cases b with
      | true => exact ⟨'t', _, by rw [write]; rfl, by decide, by decide⟩
      | false => exact ⟨'f', _, by rw [write]; rfl, by decide, by decide⟩
  | number m e =>
      obtain ⟨c, t, hc, hstart⟩ := writeNumber_cons m e
      exact ⟨c, t, by rw [write, hc], starts_of_number hstart⟩
  | string s => exact ⟨'"', _, by rw [write]; rfl, by decide, by decide⟩
  | array items => exact ⟨'[', _, by rw [write]; rfl, by decide, by decide⟩
  | object members => exact ⟨'{', _, by rw [write]; rfl, by decide, by decide⟩

theorem writeItems_cons_cons (v w : Value) (vs : List Value) :
    writeItems (v :: w :: vs) = write v ++ ',' :: writeItems (w :: vs) := by
  rw [writeItems]
  nofun

theorem writeMembers_cons_cons (m n : Text × Value) (ms : List (Text × Value)) :
    writeMembers (m :: n :: ms) = writeMember m ++ ',' :: writeMembers (n :: ms) := by
  rw [writeMembers]
  nofun

theorem writeItems_cons (v : Value) (vs : List Value) :
    ∃ c t, writeItems (v :: vs) = c :: t ∧ Starts c := by
  obtain ⟨c, t, hc, hstart⟩ := write_cons v
  cases vs with
  | nil => exact ⟨c, t, by rw [writeItems, hc], hstart⟩
  | cons w vs => exact ⟨c, _, by rw [writeItems_cons_cons, hc, List.cons_append], hstart⟩

theorem writeMembers_cons (member : Text × Value) (members : List (Text × Value)) :
    ∃ t, writeMembers (member :: members) = '"' :: t := by
  cases members with
  | nil => exact ⟨_, by rw [writeMembers, writeMember, writeString]; rfl⟩
  | cons other members => exact ⟨_, by rw [writeMembers_cons_cons, writeMember, writeString]; rfl⟩

theorem parseValue_number (fuel : ℕ) (m e : ℤ) (h : Stops rest) :
    parseValue (fuel + 1) (writeNumber m e ++ rest) = some (.number m e, rest) := by
  have hparse := parseNumber_write m e h
  obtain ⟨c, t, hc, hstart⟩ := writeNumber_cons m e
  have hne : c ≠ 'n' ∧ c ≠ 't' ∧ c ≠ 'f' ∧ c ≠ '"' ∧ c ≠ '[' ∧ c ≠ '{' := by
    refine ⟨?_, ?_, ?_, ?_, ?_, ?_⟩ <;>
    · rintro rfl
      exact absurd hstart (by decide)
  rw [hc, List.cons_append] at hparse ⊢
  rw [parseValue, skipSpace_cons (starts_of_number hstart).1]
  split <;> simp_all

/-- With fuel for its length, a text that was written is read back. -/
theorem parse_write_fuel (fuel : ℕ) :
    (∀ v rest, (write v).length ≤ fuel → Stops rest →
      parseValue fuel (write v ++ rest) = some (v, rest)) ∧
    (∀ v vs rest, (writeItems (v :: vs)).length + 1 ≤ fuel →
      parseItems fuel (writeItems (v :: vs) ++ ']' :: rest) = some (v :: vs, rest)) ∧
    (∀ member members rest, (writeMembers (member :: members)).length + 1 ≤ fuel →
      parseMembers fuel (writeMembers (member :: members) ++ '}' :: rest) =
        some (member :: members, rest)) := by
  induction fuel with
  | zero =>
      refine ⟨fun v rest hlen => ?_, nofun, nofun⟩
      obtain ⟨c, t, hc, -⟩ := write_cons v
      rw [hc] at hlen
      cases hlen
  | succ fuel ih =>
      obtain ⟨ihvalue, ihitems, ihmembers⟩ := ih
      refine ⟨?_, ?_, ?_⟩
      · intro v rest hlen hstops
        cases v with
        | null => rw [write, parseValue]; rfl
        | bool b => cases b <;> (rw [write, parseValue]; rfl)
        | number m e => rw [write, parseValue_number fuel m e hstops]
        | string s =>
            rw [write, parseValue, writeString]
            simp only [List.cons_append, List.append_assoc, List.nil_append]
            rw [skipSpace_cons (by decide)]
            simp only [parseString_write, Option.map_some]
        | array items =>
            rw [write] at hlen ⊢
            cases items with
            | nil => rw [writeItems, parseValue]; rfl
            | cons item items =>
                have hread := ihitems item items rest (by simp at hlen; omega)
                obtain ⟨c, t, hc, hstart⟩ := writeItems_cons item items
                simp only [List.cons_append, List.append_assoc, List.nil_append, hc] at hread ⊢
                rw [parseValue, skipSpace_cons (by decide)]
                simp only [skipSpace_cons hstart.1]
                split
                · rename_i hclose
                  exact absurd (List.cons.inj hclose).1 hstart.2
                · rw [hread, Option.map_some]
        | object members =>
            rw [write] at hlen ⊢
            cases members with
            | nil => rw [writeMembers, parseValue]; rfl
            | cons member members =>
                have hread := ihmembers member members rest (by simp at hlen; omega)
                obtain ⟨t, ht⟩ := writeMembers_cons member members
                simp only [List.cons_append, List.append_assoc, List.nil_append, ht] at hread ⊢
                rw [parseValue, skipSpace_cons (by decide)]
                simp only [skipSpace_cons (c := '"') (by decide)]
                split
                · rename_i hclose
                  exact absurd (List.cons.inj hclose).1 (by decide)
                · rw [hread, Option.map_some]
      · intro v vs rest hlen
        rw [parseItems]
        cases vs with
        | nil =>
            rw [writeItems] at hlen ⊢
            rw [ihvalue v _ (by omega) (stops_cons (by decide))]
            rfl
        | cons w vs =>
            rw [writeItems_cons_cons] at hlen ⊢
            simp only [List.append_assoc, List.cons_append, List.length_append,
              List.length_cons] at hlen ⊢
            rw [ihvalue v _ (by omega) (stops_cons (by decide))]
            simp only [Option.bind_eq_bind, Option.bind_some]
            rw [skipSpace_cons (by decide)]
            simp only [ihitems w vs rest (by omega), Option.bind_some]
      · intro member members rest hlen
        obtain ⟨key, value⟩ := member
        cases members with
        | nil =>
            rw [writeMembers, writeMember, writeString] at hlen ⊢
            simp only [List.append_assoc, List.cons_append, List.nil_append, List.length_append,
              List.length_cons] at hlen ⊢
            have hvalue := ihvalue value ('}' :: rest) (by omega) (stops_cons (by decide))
            rw [parseMembers, skipSpace_cons (by decide)]
            simp only [parseString_write, Option.bind_eq_bind, Option.bind_some]
            rw [skipSpace_cons (by decide)]
            simp only [hvalue, Option.bind_some]
            rfl
        | cons other members =>
            rw [writeMembers_cons_cons, writeMember, writeString] at hlen ⊢
            simp only [List.append_assoc, List.cons_append, List.nil_append, List.length_append,
              List.length_cons] at hlen ⊢
            have hvalue := ihvalue value
              (',' :: (writeMembers (other :: members) ++ '}' :: rest)) (by omega)
              (stops_cons (by decide))
            rw [parseMembers, skipSpace_cons (by decide)]
            simp only [parseString_write, Option.bind_eq_bind, Option.bind_some]
            rw [skipSpace_cons (by decide)]
            simp only [hvalue, Option.bind_some]
            rw [skipSpace_cons (by decide)]
            simp only [ihmembers other members rest (by omega), Option.bind_some]

theorem parse_write (v : Value) : parse (write v) = some v := by
  have hread := (parse_write_fuel ((write v).length + 1)).1 v [] (by omega) (by nofun)
  rw [List.append_nil] at hread
  rw [parse, hread]
  rfl

end JsonText
