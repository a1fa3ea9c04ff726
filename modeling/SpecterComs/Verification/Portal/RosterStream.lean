import SpecterComs.Model.Portal.RosterStream
import SpecterComs.Verification.MlsStore.LossyText

/-! # Chunks of a roster stream

What is read does not depend on where the chunks behind the first one are cut. The first one is
spent on the type byte, and whatever else is in it is lost.
-/

namespace SpecterComs.RosterStream

open JsonText (Text Value)
open MlsStore (Bytes)

variable {acc buf rest line bytes bytes' : Bytes} {lines chunks : List Bytes} {b : UInt8}

/-! ## Whole lines -/

/-- The lines that end in some bytes, and what is behind the last of them. `acc` is what was read
of the first one. -/
def linesFrom (acc : Bytes) : Bytes → List Bytes × Bytes
  | [] => ([], acc)
  | b :: bytes =>
      if b = 0x0A then
        let (lines, rest) := linesFrom [] bytes
        (acc :: lines, rest)
      else linesFrom (acc ++ [b]) bytes

theorem linesFrom_append : linesFrom acc (bytes ++ bytes') =
    ((linesFrom acc bytes).1 ++ (linesFrom (linesFrom acc bytes).2 bytes').1,
      (linesFrom (linesFrom acc bytes).2 bytes').2) := by
  induction bytes generalizing acc with
  | nil => rfl
  | cons b bytes ih =>
      rw [List.cons_append, linesFrom, linesFrom]
      split
      · simp only [ih, List.cons_append]
      · exact ih

theorem linesFrom_line (h : 0x0A ∉ line) : linesFrom acc line = ([], acc ++ line) := by
  induction line generalizing acc with
  | nil => rw [linesFrom, List.append_nil]
  | cons b line ih =>
      obtain ⟨hb, hline⟩ := not_or.mp (mt List.mem_cons.mpr h)
      rw [linesFrom, if_neg (Ne.symm hb), ih hline, List.append_assoc, List.singleton_append]

theorem linesFrom_whole (h : 0x0A ∉ line) :
    (linesFrom acc (line ++ 0x0A :: bytes)).1 = (acc ++ line) :: (linesFrom [] bytes).1 := by
  rw [linesFrom_append, linesFrom_line h]
  rfl

theorem length_linesFrom : (linesFrom acc bytes).1.length = bytes.count 0x0A := by
  induction bytes generalizing acc with
  | nil => rfl
  | cons b bytes ih =>
      rw [linesFrom]
      split
      · rename_i hb
        rw [hb, List.count_cons_self, ← @ih []]
        rfl
      · rename_i hb
        rw [List.count_cons_of_ne hb, ih]

/-- What is pending has no line end. -/
theorem notMem_linesFrom (h : 0x0A ∉ acc) : 0x0A ∉ (linesFrom acc bytes).2 := by
  induction bytes generalizing acc with
  | nil => exact h
  | cons b bytes ih =>
      rw [linesFrom]
      split
      · exact ih List.not_mem_nil
      · rename_i hb
        exact ih (by simp [h, Ne.symm hb])

/-! ## The loops -/

theorem splitLine_none (h : 0x0A ∉ acc) : splitLine acc = none := by
  induction acc with
  | nil => rfl
  | cons b acc ih =>
      obtain ⟨hb, hacc⟩ := not_or.mp (mt List.mem_cons.mpr h)
      rw [splitLine, if_neg (Ne.symm hb), ih hacc]
      rfl

theorem splitLine_some (h : 0x0A ∉ acc) :
    splitLine (acc ++ 0x0A :: bytes) = some (acc, bytes) := by
  induction acc with
  | nil => rfl
  | cons b acc ih =>
      obtain ⟨hb, hacc⟩ := not_or.mp (mt List.mem_cons.mpr h)
      rw [List.cons_append, splitLine, if_neg (Ne.symm hb), ih hacc]
      rfl

theorem drainLines_eq {rounds : ℕ} (h : 0x0A ∉ acc) (hrounds : bytes.length ≤ rounds) :
    drainLines rounds (acc ++ bytes) =
      ((linesFrom acc bytes).1.filterMap lineMessage, (linesFrom acc bytes).2) := by
  induction bytes generalizing acc rounds with
  | nil =>
      rw [List.append_nil]
      cases rounds with
      | zero => rfl
      | succ rounds =>
          rw [drainLines, splitLine_none h]
          rfl
  | cons b bytes ih =>
      obtain ⟨rounds, rfl⟩ : ∃ n, rounds = n + 1 := ⟨rounds - 1, by simp at hrounds; omega⟩
      have hlength : bytes.length ≤ rounds := by simpa using hrounds
      rw [linesFrom]
      split
      · rename_i hb
        have hrest := @ih [] rounds List.not_mem_nil hlength
        rw [List.nil_append] at hrest
        rw [hb, drainLines, splitLine_some h]
        simp only [hrest, List.filterMap_cons]
        cases lineMessage acc <;> rfl
      · rename_i hb
        rw [List.append_cons]
        exact ih (by simp [h, Ne.symm hb]) (Nat.le_succ_of_le hlength)

/-- The reader handles the lines of its chunks one behind the other. -/
theorem readRosterStream_eq (h : 0x0A ∉ acc) :
    readRosterStream acc chunks = (linesFrom acc chunks.flatten).1.filterMap lineMessage := by
  induction chunks generalizing acc with
  | nil => rfl
  | cons chunk chunks ih =>
      have hlength : chunk.length ≤ (acc ++ chunk).length := by simp
      rw [readRosterStream, List.flatten_cons, linesFrom_append]
      simp only [drainLines_eq h hlength, List.filterMap_append]
      rw [ih (notMem_linesFrom h)]

/-! ## A stream of messages -/

/-- The type byte, and behind it the lines. -/
def rosterStream (lines : List Bytes) : Bytes :=
  0x01 :: lines.flatMap (· ++ [0x0A])

/-- A line with a message. -/
structure IsMessage (line : Bytes) : Prop where
  whole : 0x0A ∉ line
  message : (lineMessage line).isSome

/-- What the first chunk holds behind the type byte is part of the line, and its message is the
same without that part. -/
def Spares (line firstChunk : Bytes) : Prop :=
  ∃ front back, firstChunk = 0x01 :: front ∧ line = front ++ back ∧
    lineMessage back = lineMessage line

theorem linesFrom_lines (h : ∀ line ∈ lines, IsMessage line) :
    (linesFrom [] (lines.flatMap (· ++ [0x0A]))).1 = lines := by
  induction lines with
  | nil => rfl
  | cons line lines ih =>
      rw [List.flatMap_cons, List.append_assoc, List.singleton_append,
        linesFrom_whole (h line List.mem_cons_self).whole,
        ih fun other hother => h other (List.mem_cons_of_mem line hother)]
      rfl

theorem length_messages (h : ∀ line ∈ lines, IsMessage line) :
    (lines.filterMap lineMessage).length = lines.length := by
  induction lines with
  | nil => rfl
  | cons line lines ih =>
      obtain ⟨message, hmessage⟩ :=
        Option.isSome_iff_exists.mp (h line List.mem_cons_self).message
      rw [List.filterMap_cons, hmessage, List.length_cons, List.length_cons,
        ih fun other hother => h other (List.mem_cons_of_mem line hother)]

/-- The first chunk of a stream without messages. -/
theorem readIncomingStreams_of_nil (hchunks : chunks.flatten = rosterStream []) :
    readIncomingStreams chunks = [] := by
  cases chunks with
  | nil => rfl
  | cons firstChunk chunks =>
      rw [readIncomingStreams]
      split
      · rename_i hhead
        obtain ⟨front, rfl⟩ := List.head?_eq_some_iff.mp hhead
        have hrest : chunks.flatten = [] := by
          rw [List.flatten_cons, List.cons_append] at hchunks
          exact (List.append_eq_nil_iff.mp (List.cons.inj hchunks).2).2
        rw [readRosterStream_eq List.not_mem_nil, hrest]
        rfl
      · rfl

variable {front tail back : Bytes}

/-- Behind a first chunk that ends a line there are messages too few. -/
theorem messages_of_ended (hlines : ∀ line ∈ lines, IsMessage line)
    (hcut : front ++ tail = lines.flatMap (· ++ [0x0A])) (hended : 0x0A ∈ front) :
    ((linesFrom [] tail).1.filterMap lineMessage).length <
      (lines.filterMap lineMessage).length := by
  have hcount : (front ++ tail).count 0x0A = lines.length := by
    rw [hcut, ← @length_linesFrom [], linesFrom_lines hlines]
  have hpos : 0 < front.count 0x0A := List.count_pos_iff.mpr hended
  rw [List.count_append] at hcount
  calc ((linesFrom [] tail).1.filterMap lineMessage).length
      ≤ (linesFrom [] tail).1.length := List.length_filterMap_le _ _
    _ = tail.count 0x0A := length_linesFrom
    _ < lines.length := by omega
    _ = (lines.filterMap lineMessage).length := (length_messages hlines).symm

/-- A first chunk that ends no line leaves the rest of the first one. -/
theorem exists_back (hcut : front ++ tail = line ++ 0x0A :: bytes) (hended : 0x0A ∉ front) :
    ∃ back, line = front ++ back ∧ tail = back ++ 0x0A :: bytes := by
  cases List.append_eq_append_iff.mp hcut with
  | inl h => exact h
  | inr h =>
      obtain ⟨rest, hfront, htail⟩ := h
      cases rest with
      | nil => exact ⟨[], by rw [hfront, List.append_nil, List.append_nil], htail.symm⟩
      | cons b rest =>
          obtain ⟨rfl, -⟩ := List.cons.inj htail
          exact absurd (by rw [hfront]; simp) hended

theorem spares_iff (hline : line = front ++ back) :
    Spares line (0x01 :: front) ↔ lineMessage back = lineMessage line := by
  constructor
  · rintro ⟨front', back', hfront, hline', hmessage⟩
    obtain rfl := (List.cons.inj hfront).2
    obtain rfl := List.append_cancel_left (hline.symm.trans hline')
    exact hmessage
  · exact fun hmessage => ⟨front, back, rfl, hline, hmessage⟩

theorem filterMap_cons_eq_iff (h : (lineMessage line).isSome) :
    (back :: lines).filterMap lineMessage = (line :: lines).filterMap lineMessage ↔
      lineMessage back = lineMessage line := by
  obtain ⟨message, hmessage⟩ := Option.isSome_iff_exists.mp h
  rw [List.filterMap_cons, List.filterMap_cons, hmessage]
  cases lineMessage back with
  | none => simp
  | some other => simp

/-- However the stream is cut into chunks, its messages are handled in order exactly where the
first message is spared by the first chunk. -/
theorem messages_handled_iff (hlines : ∀ line ∈ lines, IsMessage line)
    (hchunks : chunks.flatten = rosterStream lines) :
    readIncomingStreams chunks = lines.filterMap lineMessage ↔
      ∀ line ∈ lines.head?, ∃ firstChunk ∈ chunks.head?, Spares line firstChunk := by
  cases lines with
  | nil => simp [readIncomingStreams_of_nil hchunks]
  | cons line lines =>
      have hline := hlines line List.mem_cons_self
      have hrest : ∀ line ∈ lines, IsMessage line := fun other hother =>
        hlines other (List.mem_cons_of_mem line hother)
      cases chunks with
      | nil => cases hchunks
      | cons firstChunk chunks =>
          simp only [List.head?_cons, Option.mem_some_iff, forall_eq', exists_eq_left']
          cases firstChunk with
          | nil =>
              obtain ⟨message, hmessage⟩ := Option.isSome_iff_exists.mp hline.message
              rw [readIncomingStreams, if_neg nofun, List.filterMap_cons, hmessage]
              exact ⟨nofun, fun ⟨_, _, hfirst, _⟩ => nomatch hfirst⟩
          | cons b front =>
              obtain ⟨rfl, hcut⟩ := List.cons.inj hchunks
              change front ++ chunks.flatten = _ at hcut
              have hread : readIncomingStreams ((0x01 :: front) :: chunks) =
                  (linesFrom [] chunks.flatten).1.filterMap lineMessage :=
                readRosterStream_eq List.not_mem_nil
              rw [hread]
              by_cases hended : 0x0A ∈ front
              · refine iff_of_false (fun heq => ?_) ?_
                · exact absurd (congrArg List.length heq)
                    (Nat.ne_of_lt (messages_of_ended hlines hcut hended))
                · rintro ⟨front', back, hfront, rfl, -⟩
                  obtain rfl := (List.cons.inj hfront).2
                  exact hline.whole (List.mem_append_left back hended)
              · rw [List.flatMap_cons, List.append_assoc, List.singleton_append] at hcut
                obtain ⟨back, hback, htail⟩ := exists_back hcut hended
                have hwhole : 0x0A ∉ back := fun hmem =>
                  hline.whole (hback ▸ List.mem_append_right front hmem)
                rw [htail, linesFrom_whole hwhole, linesFrom_lines hrest, List.nil_append,
                  filterMap_cons_eq_iff hline.message, spares_iff hback]

/-- A type byte that comes alone spares every line. -/
theorem spares_alone : Spares line [0x01] :=
  ⟨[], line, rfl, rfl, rfl⟩

/-! ## Values as lines -/

/-- A character that is printed, and is not a blank. -/
def Printed (c : Char) : Prop :=
  0x20 < c.toNat ∧ c.toNat < 0x7f

theorem printed_of_number {c : Char} (h : c = '-' ∨ c.isDigit = true) : Printed c := by
  cases h with
  | inl h => rw [h]; exact ⟨by decide, by decide⟩
  | inr h =>
      have hdigit := Char.isDigit_iff_toNat.mp h
      have hzero : '0'.toNat = 48 := rfl
      have hnine : '9'.toNat = 57 := rfl
      rw [hzero, hnine] at hdigit
      exact ⟨by omega, by omega⟩

theorem toDigits_last (n : ℕ) :
    ∃ front c, Nat.toDigits 10 n = front ++ [c] ∧ c.isDigit = true := by
  obtain hnil | ⟨front, c, hlast⟩ := List.eq_nil_or_concat (Nat.toDigits 10 n)
  · exact absurd hnil (JsonText.toDigits_ne_nil n)
  · rw [List.concat_eq_append] at hlast
    exact ⟨front, c, hlast, JsonText.toDigits_isDigit (n := n) (by rw [hlast]; simp)⟩

theorem writeInt_last (n : ℤ) :
    ∃ front c, JsonText.writeInt n = front ++ [c] ∧ c.isDigit = true := by
  cases n with
  | ofNat n => exact toDigits_last n
  | negSucc n =>
      obtain ⟨front, c, hlast, hdigit⟩ := toDigits_last (n + 1)
      exact ⟨'-' :: front, c, by rw [JsonText.writeInt, hlast]; rfl, hdigit⟩

theorem write_head (v : Value) : ∃ c t, JsonText.write v = c :: t ∧ Printed c := by
  cases v with
  | null => exact ⟨'n', _, by rw [JsonText.write]; rfl, by decide, by decide⟩
  | bool b =>
      cases b with
      | true => exact ⟨'t', _, by rw [JsonText.write]; rfl, by decide, by decide⟩
      | false => exact ⟨'f', _, by rw [JsonText.write]; rfl, by decide, by decide⟩
  | number m e =>
      obtain ⟨c, t, hc, hstart⟩ := JsonText.writeNumber_cons m e
      exact ⟨c, t, by rw [JsonText.write, hc], printed_of_number hstart⟩
  | string s => exact ⟨'"', _, by rw [JsonText.write]; rfl, by decide, by decide⟩
  | array items => exact ⟨'[', _, by rw [JsonText.write]; rfl, by decide, by decide⟩
  | object members => exact ⟨'{', _, by rw [JsonText.write]; rfl, by decide, by decide⟩

theorem write_last (v : Value) : ∃ front c, JsonText.write v = front ++ [c] ∧ Printed c := by
  cases v with
  | null => exact ⟨['n', 'u', 'l'], 'l', by rw [JsonText.write]; rfl, by decide, by decide⟩
  | bool b =>
      cases b with
      | true => exact ⟨['t', 'r', 'u'], 'e', by rw [JsonText.write]; rfl, by decide, by decide⟩
      | false =>
          exact ⟨['f', 'a', 'l', 's'], 'e', by rw [JsonText.write]; rfl, by decide, by decide⟩
  | number m e =>
      rw [JsonText.write, JsonText.writeNumber]
      split
      · obtain ⟨front, c, hc, hdigit⟩ := writeInt_last m
        exact ⟨front, c, hc, printed_of_number (Or.inr hdigit)⟩
      · obtain ⟨front, c, hc, hdigit⟩ := writeInt_last e
        exact ⟨JsonText.writeInt m ++ 'e' :: front, c, by rw [hc]; simp,
          printed_of_number (Or.inr hdigit)⟩
  | string s =>
      exact ⟨_, '"', by rw [JsonText.write, JsonText.writeString], by decide, by decide⟩
  | array items => exact ⟨_, ']', by rw [JsonText.write], by decide, by decide⟩
  | object members => exact ⟨_, '}', by rw [JsonText.write], by decide, by decide⟩

theorem not_isWhitespace {c : Char} (h : Printed c) : isWhitespace c = false := by
  obtain ⟨hlow, hhigh⟩ := h
  simp [isWhitespace]
  omega

theorem trim_write (v : Value) : trim (JsonText.write v) = JsonText.write v := by
  obtain ⟨c, t, hhead, hc⟩ := write_head v
  obtain ⟨front, d, hlast, hd⟩ := write_last v
  rw [trim, hhead, List.dropWhile_cons_of_neg (by simp [not_isWhitespace hc]), ← hhead, hlast,
    List.reverse_append, List.reverse_singleton, List.singleton_append,
    List.dropWhile_cons_of_neg (by simp [not_isWhitespace hd]), List.reverse_cons,
    List.reverse_reverse]

/-- The text of a value is a line with that value for a message. -/
theorem lineMessage_write (v : Value) :
    lineMessage (MlsStore.utf8 (String.ofList (JsonText.write v))) = some v := by
  obtain ⟨c, t, hhead, hc⟩ := write_head v
  have htext : (MlsStore.fromUtf8Lossy (MlsStore.utf8 (String.ofList (JsonText.write v)))).toList =
      JsonText.write v := by
    rw [MlsStore.fromUtf8Lossy_utf8, String.toList_ofList]
  have hdecode : decode (MlsStore.utf8 (String.ofList (JsonText.write v))) = JsonText.write v := by
    rw [decode, htext]
    split
    · rename_i hmark
      obtain ⟨rfl, -⟩ := List.cons.inj (hhead.symm.trans hmark)
      exact absurd hc.2 (by decide)
    · rfl
  rw [lineMessage, hdecode, trim_write, if_neg (by rw [hhead]; nofun), JsonText.parse_write]

/-! ## One message -/

def duckRelease : Value :=
  .object [("type".toList, .string "DuckRelease".toList)]

def duckReleaseLine : Bytes :=
  MlsStore.utf8 (String.ofList (JsonText.write duckRelease))

theorem duckReleaseLine_isMessage : ∀ line ∈ [duckReleaseLine], IsMessage line := by
  intro line hline
  obtain rfl := List.mem_singleton.mp hline
  exact ⟨by decide +kernel, by rw [duckReleaseLine, lineMessage_write]; rfl⟩

theorem messages_handled_apart :
    readIncomingStreams [[0x01], duckReleaseLine ++ [0x0A]] = [duckRelease] := by
  have hspared : ∀ line ∈ [duckReleaseLine].head?,
      ∃ firstChunk ∈ [[0x01], duckReleaseLine ++ [0x0A]].head?, Spares line firstChunk :=
    fun _ _ => ⟨[0x01], rfl, spares_alone⟩
  have h := (messages_handled_iff duckReleaseLine_isMessage (by simp [rosterStream])).mpr hspared
  rw [h, List.filterMap_cons, duckReleaseLine, lineMessage_write]
  rfl

/-- A message that comes with the type byte is lost. -/
theorem message_lost :
    ¬ readIncomingStreams [rosterStream [duckReleaseLine]] =
      [duckReleaseLine].filterMap lineMessage := by
  rw [List.filterMap_cons, duckReleaseLine, lineMessage_write]
  exact nofun

end SpecterComs.RosterStream
