import Mathlib.Data.List.Basic

/-! # The lines of a text

Text to which whole lines are appended, and where a write may be cut short.
-/

namespace Lines

/-- A carriage return before the line feed belongs to it. -/
def stripReturn (line : List Char) : List Char :=
  if line.getLast? = some '\r' then line.dropLast else line

/-- `line` is what was read of the current line. -/
def linesFrom (line : List Char) : List Char → List (List Char)
  | [] => if line = [] then [] else [line]
  | c :: text =>
      if c = '\n' then stripReturn line :: linesFrom [] text else linesFrom (line ++ [c]) text

def lines (text : List Char) : List (List Char) :=
  linesFrom [] text

/-- The text ends with a line feed, or is empty. -/
def Complete (text : List Char) : Bool :=
  text.getLast?.all (· = '\n')

/-- The line stands in the text, with its line feed. -/
def Holds (text line : List Char) : Prop :=
  ∃ before after, Complete before ∧ text = before ++ line ++ '\n' :: after

variable {text line front back : List Char}

theorem linesFrom_append : linesFrom line (front ++ '\n' :: back) =
    linesFrom line (front ++ ['\n']) ++ linesFrom [] back := by
  induction front generalizing line with
  | nil => simp [linesFrom]
  | cons c front ih =>
      by_cases hc : c = '\n'
      · simp [linesFrom, hc, ih]
      · simp [linesFrom, hc, ih]

theorem linesFrom_whole (hline : '\n' ∉ line) :
    linesFrom front (line ++ ['\n']) = [stripReturn (front ++ line)] := by
  induction line generalizing front with
  | nil => simp [linesFrom]
  | cons c line ih =>
      rw [List.mem_cons, not_or] at hline
      simp [linesFrom, Ne.symm hline.1, ih hline.2]

theorem complete_cases (h : Complete text) : text = [] ∨ ∃ front, text = front ++ ['\n'] := by
  rcases List.eq_nil_or_concat text with rfl | ⟨front, c, rfl⟩
  · exact .inl rfl
  · obtain rfl : c = '\n' := by simpa [Complete] using h
    exact .inr ⟨front, List.concat_eq_append⟩

theorem complete_append : Complete (text ++ ['\n']) := by
  simp [Complete]

theorem lines_append (h : Complete text) : lines (text ++ back) = lines text ++ lines back := by
  obtain rfl | ⟨front, rfl⟩ := complete_cases h
  · rfl
  · unfold lines
    rw [List.append_assoc, List.singleton_append, linesFrom_append]

theorem mem_lines (h : Holds text line) (hline : '\n' ∉ line) (hreturn : '\r' ∉ line) :
    line ∈ lines text := by
  obtain ⟨before, after, hbefore, rfl⟩ := h
  have hstrip : stripReturn line = line := by
    refine if_neg fun hlast => ?_
    exact hreturn (List.mem_of_getLast? hlast)
  have hwhole : lines (line ++ '\n' :: after) = line :: lines after := by
    unfold lines
    rw [linesFrom_append, linesFrom_whole hline, List.nil_append, hstrip, List.singleton_append]
  rw [List.append_assoc, lines_append hbefore, hwhole]
  exact List.mem_append_right _ List.mem_cons_self

/-- What is written behind a line leaves it there. -/
theorem Holds.append (h : Holds text line) : Holds (text ++ back) line := by
  obtain ⟨before, after, hbefore, rfl⟩ := h
  exact ⟨before, after ++ back, hbefore, by simp⟩

theorem holds_appended (h : Complete text) : Holds (text ++ (line ++ ['\n'])) line :=
  ⟨text, [], h, by simp⟩

end Lines
