import Mathlib.Data.Char
import Mathlib.Data.List.Lex

/-! # UUIDs and their spellings

A database reads many spellings of one UUID: digits of either case, hyphens after any group of four
digits, braces around it all. It writes one.
-/

/-- Thirty-two hexadecimal digits. -/
structure Uuid where
  digits : List (Fin 16)
  length_digits : digits.length = 32
  deriving DecidableEq

namespace Uuid

/-- How a UUID is written down. -/
abbrev Spelling := List Char

def hexDigits : List Char :=
  "0123456789abcdef".toList

def hexChar (d : Fin 16) : Char :=
  hexDigits.getD d '0'

/-- The digit that a character stands for, in either case. -/
def hexValue (c : Char) : Option (Fin 16) :=
  (List.finRange 16).find? fun d => hexChar d = c.toLower

/-! ## Reading -/

def readDigits : ℕ → Spelling → Option (List (Fin 16) × Spelling)
  | 0, cs => some ([], cs)
  | _ + 1, [] => none
  | n + 1, c :: cs => do
      let d ← hexValue c
      let (ds, rest) ← readDigits n cs
      some (d :: ds, rest)

def skipHyphen : Spelling → Spelling
  | '-' :: cs => cs
  | cs => cs

/-- So many groups of four digits, with at most one hyphen between two of them. -/
def readGroups : ℕ → Spelling → Option (List (Fin 16) × Spelling)
  | 0, cs => some ([], cs)
  | 1, cs => readDigits 4 cs
  | n + 2, cs => do
      let (ds, rest) ← readDigits 4 cs
      let (ds', rest') ← readGroups (n + 1) (skipHyphen rest)
      some (ds ++ ds', rest')

def ofDigits (ds : List (Fin 16)) : Option Uuid :=
  if h : ds.length = 32 then some ⟨ds, h⟩ else none

/-- The UUID that a spelling stands for, if it stands for one. -/
def read : Spelling → Option Uuid
  | '{' :: cs =>
      match readGroups 8 cs with
      | some (ds, ['}']) => ofDigits ds
      | _ => none
  | cs =>
      match readGroups 8 cs with
      | some (ds, []) => ofDigits ds
      | _ => none

/-! ## Writing -/

/-- Groups of four digits, each followed by a hyphen or by none. -/
def writeGroups : List Bool → List (Fin 16) → Spelling
  | [], _ => []
  | hyphen :: hyphens, ds =>
      (ds.take 4).map hexChar ++ (if hyphen then ['-'] else []) ++ writeGroups hyphens (ds.drop 4)

/-- Eight, four, four, four and twelve digits. -/
def hyphens : List Bool :=
  [false, true, true, true, true, false, false, false]

def write (u : Uuid) : Spelling :=
  writeGroups hyphens u.digits

/-! ## What is written is read back -/

theorem hexValue_hexChar (d : Fin 16) : hexValue (hexChar d) = some d := by
  revert d
  decide

theorem hexChar_ne_hyphen (d : Fin 16) : hexChar d ≠ '-' := by
  revert d
  decide

theorem hexChar_ne_brace (d : Fin 16) : hexChar d ≠ '{' := by
  revert d
  decide

theorem readDigits_map (ds : List (Fin 16)) (rest : Spelling) :
    readDigits ds.length (ds.map hexChar ++ rest) = some (ds, rest) := by
  induction ds with
  | nil => rfl
  | cons d ds ih =>
      rw [List.length_cons, List.map_cons, List.cons_append, readDigits, hexValue_hexChar,
        Option.bind_eq_bind, Option.bind_some, ih]
      rfl

variable {ds : List (Fin 16)}

/-- What is written starts with a digit. -/
theorem writeGroups_head {hyphen : Bool} {hyphens : List Bool} (h : ds ≠ []) :
    ∃ d cs, writeGroups (hyphen :: hyphens) ds = hexChar d :: cs := by
  cases ds with
  | nil => exact absurd rfl h
  | cons d ds => exact ⟨d, _, rfl⟩

theorem skipHyphen_hexChar (d : Fin 16) (cs : Spelling) :
    skipHyphen (hexChar d :: cs) = hexChar d :: cs := by
  unfold skipHyphen
  split
  · rename_i heq
    exact absurd (List.cons.inj heq).1 (hexChar_ne_hyphen d)
  · rfl

theorem skipHyphen_write {hyphen hyphen' : Bool} {hyphens : List Bool} (h : ds ≠ []) :
    skipHyphen ((if hyphen then ['-'] else []) ++ writeGroups (hyphen' :: hyphens) ds) =
      writeGroups (hyphen' :: hyphens) ds := by
  cases hyphen with
  | true => rfl
  | false =>
      obtain ⟨d, cs, heq⟩ : ∃ d cs, writeGroups (hyphen' :: hyphens) ds = hexChar d :: cs :=
        writeGroups_head h
      rw [heq]
      exact skipHyphen_hexChar d cs

/-- Groups are read back, whatever hyphens stand between them. -/
theorem readGroups_writeGroups (hyphens : List Bool) (ds : List (Fin 16))
    (hds : ds.length = 4 * (hyphens.length + 1)) :
    readGroups (hyphens.length + 1) (writeGroups (hyphens ++ [false]) ds) = some (ds, []) := by
  induction hyphens generalizing ds with
  | nil =>
      have htake : ds.take 4 = ds := List.take_of_length_le (by simp at hds; omega)
      have hread := readDigits_map ds []
      rw [hds] at hread
      change readDigits 4 ((ds.take 4).map hexChar ++ [] ++ []) = _
      rw [htake, List.append_nil]
      exact hread
  | cons hyphen hyphens ih =>
      rw [List.length_cons] at hds ⊢
      have htake : (ds.take 4).length = 4 := by
        rw [List.length_take]
        omega
      have hdrop : (ds.drop 4).length = 4 * (hyphens.length + 1) := by
        rw [List.length_drop]
        omega
      have hrest : ds.drop 4 ≠ [] := by
        intro hnil
        rw [hnil, List.length_nil] at hdrop
        omega
      have hread := readDigits_map (ds.take 4)
        ((if hyphen then ['-'] else []) ++ writeGroups (hyphens ++ [false]) (ds.drop 4))
      rw [htake, ← List.append_assoc] at hread
      have hskip : skipHyphen ((if hyphen then ['-'] else []) ++
          writeGroups (hyphens ++ [false]) (ds.drop 4)) =
          writeGroups (hyphens ++ [false]) (ds.drop 4) := by
        cases hyphens with
        | nil => exact skipHyphen_write hrest
        | cons hyphen' hyphens => exact skipHyphen_write hrest
      rw [List.cons_append, writeGroups, readGroups, hread, Option.bind_eq_bind, Option.bind_some]
      simp only [hskip, ih (ds.drop 4) hdrop, Option.bind_some, List.take_append_drop]

theorem read_of_ne_brace {c : Char} (hc : c ≠ '{') (cs : Spelling) :
    read (c :: cs) =
      match readGroups 8 (c :: cs) with
      | some (ds, []) => ofDigits ds
      | _ => none := by
  unfold read
  split
  · rename_i heq
    exact absurd (List.cons.inj heq).1 hc
  · rfl

/-- The spelling that is written stands for the UUID. -/
theorem read_write (u : Uuid) : read u.write = some u := by
  have hgroups : readGroups 8 u.write = some (u.digits, []) :=
    readGroups_writeGroups [false, true, true, true, true, false, false] u.digits u.length_digits
  have hdigits : u.digits ≠ [] := by
    intro hnil
    have hlength := u.length_digits
    rw [hnil] at hlength
    cases hlength
  obtain ⟨d, cs, heq⟩ : ∃ d cs, u.write = hexChar d :: cs := writeGroups_head hdigits
  rw [heq] at hgroups ⊢
  rw [read_of_ne_brace (hexChar_ne_brace d), hgroups]
  exact dif_pos u.length_digits

end Uuid
