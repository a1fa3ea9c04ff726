import SpecterComs.Model.Desktop.EventFrames
import SpecterComs.Verification.MlsStore.LossyText

/-! # Frames and the cuts between chunks

A cut inside a character leaves its bytes to two decodings, and each of them makes characters of its
own. The text grows, and with it the frame that holds the cut.
-/

namespace SpecterComs.EventFrames

open MlsStore

variable {acc acc' text text' buf frame rest : List Char} {c : Char} {chunk front back bytes : Bytes}
  {chunks : List Bytes}

/-! ## One character after the other -/

/-- The frames of a text behind what is pending, and what is pending then. -/
def feed (acc : List Char) : List Char → List (List Char) × List Char
  | [] => ([], acc)
  | c :: text =>
      if c = '\n' ∧ acc.getLast? = some '\n' then
        let (frames, acc') := feed [] text
        ((acc ++ [c]) :: frames, acc')
      else feed (acc ++ [c]) text

def framesFrom (acc text : List Char) : List (List Char) :=
  (feed acc text).1

theorem feed_append : feed acc (text ++ text') =
    ((feed acc text).1 ++ (feed (feed acc text).2 text').1, (feed (feed acc text).2 text').2) := by
  induction text generalizing acc with
  | nil => rfl
  | cons c text ih =>
      rw [List.cons_append, feed, feed]
      split
      · simp only [ih, List.cons_append]
      · exact ih

theorem drainFrame_append (h : drainFrame buf = some (frame, rest)) :
    drainFrame (buf ++ text) = some (frame, rest ++ text) := by
  induction buf generalizing frame with
  | nil => cases h
  | cons a buf ih =>
      cases buf with
      | nil => cases h
      | cons b buf =>
          simp only [List.cons_append, drainFrame] at h ih ⊢
          split at h
          · rename_i hblank
            obtain ⟨rfl, rfl⟩ := Prod.mk.inj (Option.some.inj h)
            rw [if_pos hblank]
          · rename_i hblank
            obtain ⟨⟨frame', rest'⟩, hfound, heq⟩ := Option.map_eq_some_iff.mp h
            obtain ⟨rfl, rfl⟩ := Prod.mk.inj heq
            rw [if_neg hblank, ih hfound]
            rfl

/-- The character that completes a blank line ends the first frame. -/
theorem drainFrame_concat (h : drainFrame acc = none) :
    drainFrame (acc ++ [c]) =
      if c = '\n' ∧ acc.getLast? = some '\n' then some (acc ++ [c], []) else none := by
  induction acc with
  | nil => simp [drainFrame]
  | cons a acc ih =>
      cases acc with
      | nil =>
          simp only [List.cons_append, List.nil_append, drainFrame, List.getLast?_singleton,
            Option.some.injEq, Option.map_none]
          split_ifs <;> tauto
      | cons b acc =>
          simp only [List.cons_append, drainFrame] at h ih ⊢
          split at h
          · cases h
          · rename_i hblank
            rw [if_neg hblank, ih (Option.map_eq_none_iff.mp h), List.getLast?_cons_cons]
            split_ifs <;> rfl

theorem drainFrames_eq {rounds : ℕ} (h : drainFrame acc = none) (hrounds : text.length ≤ rounds) :
    drainFrames rounds (acc ++ text) = feed acc text := by
  induction text generalizing acc rounds with
  | nil =>
      rw [List.append_nil]
      cases rounds with
      | zero => rfl
      | succ rounds => simp [drainFrames, h, feed]
  | cons c text ih =>
      obtain ⟨rounds, rfl⟩ : ∃ n, rounds = n + 1 := ⟨rounds - 1, by simp at hrounds; omega⟩
      have hlength : text.length ≤ rounds := by simpa using hrounds
      have hnext := drainFrame_concat (c := c) h
      rw [feed, List.append_cons]
      split_ifs at hnext ⊢
      · rw [drainFrames, drainFrame_append hnext, List.nil_append]
        simp only [← ih (show drainFrame [] = none from rfl) hlength, List.nil_append]
      · exact ih hnext (Nat.le_succ_of_le hlength)

/-- What is pending holds no blank line. -/
theorem drainFrame_feed (h : drainFrame acc = none) : drainFrame (feed acc text).2 = none := by
  induction text generalizing acc with
  | nil => exact h
  | cons c text ih =>
      have hnext := drainFrame_concat (c := c) h
      rw [feed]
      split_ifs at hnext ⊢
      · exact ih rfl
      · exact ih hnext

/-- The frames are those of the chunks' texts one behind the other. -/
theorem sseSession_eq (h : drainFrame acc = none) :
    sseSession acc chunks = framesFrom acc (chunks.flatMap lossyText) := by
  induction chunks generalizing acc with
  | nil => rfl
  | cons chunk chunks ih =>
      have htext : (fromUtf8Lossy chunk).toList = lossyText chunk := String.toList_ofList
      rw [sseSession, htext, List.flatMap_cons, framesFrom, feed_append]
      simp only [drainFrames_eq h (show (lossyText chunk).length ≤ (acc ++ lossyText chunk).length by simp)]
      rw [ih (drainFrame_feed h)]
      rfl

theorem framesFrom_end (h : acc.getLast? = some '\n') :
    framesFrom acc ('\n' :: text) = (acc ++ ['\n']) :: framesFrom [] text := by
  simp [framesFrom, feed, h]

theorem framesFrom_cons (h : ¬(c = '\n' ∧ acc.getLast? = some '\n')) :
    framesFrom acc (c :: text) = framesFrom (acc ++ [c]) text := by
  simp [framesFrom, feed, h]

theorem framesFrom_append (h : '\n' ∉ text) :
    framesFrom acc (text ++ text') = framesFrom (acc ++ text) text' := by
  induction text generalizing acc with
  | nil => simp
  | cons c text ih =>
      rw [List.mem_cons, not_or] at h
      rw [List.cons_append, framesFrom_cons (fun hc => h.1 hc.1.symm), ih h.2, List.append_assoc]
      rfl

/-! ## Blank lines in the bytes -/

/-- The bytes have a blank line, if a line feed may be pending. -/
def blank : Bool → Bytes → Bool
  | _, [] => false
  | pending, b :: rest => if b = 10 then pending || blank true rest else blank false rest

theorem blank_append {pending : Bool} (hne : front ≠ []) (h : 10 ∉ front) :
    blank pending (front ++ back) = blank false back := by
  induction front generalizing pending with
  | nil => exact absurd rfl hne
  | cons b front ih =>
      rw [List.mem_cons, not_or] at h
      rw [List.cons_append, blank, if_neg fun hb => h.1 hb.symm]
      cases front with
      | nil => rfl
      | cons b' front => exact ih (List.cons_ne_nil _ _) h.2

theorem blank_iff {pending : Bool} : blank pending bytes = true ↔
    [10, 10] <:+: bytes ∨ pending = true ∧ bytes.head? = some 10 := by
  induction bytes generalizing pending with
  | nil => simp [blank]
  | cons b bytes ih =>
      rw [blank, List.infix_cons_iff]
      cases bytes with
      | nil =>
          simp [blank]
          tauto
      | cons b' bytes =>
          split
          · rename_i hb
            subst hb
            rw [Bool.or_eq_true, ih]
            simp
            tauto
          · rename_i hb
            rw [ih]
            simp [Ne.symm hb, hb]

/-! ## Chunks as text -/

/-- Each chunk is decoded alone. -/
def chunkText (chunks : List Bytes) : List Char :=
  chunks.flatMap lossyText

theorem lossyText_step (back : Bytes) (h : chunk ≠ []) (hunit : unitLength (chunk ++ back) ≤ chunk.length) :
    lossyText (chunk ++ back) =
      unitChar chunk :: lossyText (chunk.drop (unitLength chunk) ++ back) := by
  have hlength : unitLength chunk = unitLength (chunk ++ back) := by
    rw [unitLength_append h back]
    exact Nat.min_eq_right hunit
  obtain ⟨first, rest, hcons⟩ := List.exists_cons_of_ne_nil (List.append_ne_nil_of_left_ne_nil h back)
  rw [hcons, lossyText_cons, ← hcons, ← unitChar_append h hunit, hlength,
    List.drop_append_of_le_length hunit]

theorem chunkText_step (h : chunk ≠ []) :
    chunkText (chunk :: chunks) =
      unitChar chunk :: chunkText (chunk.drop (unitLength chunk) :: chunks) := by
  have hstep := lossyText_step [] h (by simpa using unitLength_le chunk)
  simp only [List.append_nil] at hstep
  simp only [chunkText, List.flatMap_cons, hstep, List.cons_append]

/-- What is left behind the first unit is shorter. -/
theorem chunks_shorter (h : chunk ≠ []) (chunks : List Bytes) :
    (List.flatten (chunk.drop (unitLength chunk) :: chunks)).length +
        (chunk.drop (unitLength chunk) :: chunks).length <
      (List.flatten (chunk :: chunks)).length + (chunk :: chunks).length := by
  have hpos := unitLength_pos h
  have hle := unitLength_le chunk
  simp only [List.flatten_cons, List.length_append, List.length_drop, List.length_cons]
  omega

/-- The bytes of a unit that does not begin with a line feed hold none. -/
theorem newline_notMem_unit (h : bytes.head? ≠ some 10) : 10 ∉ bytes.take (unitLength bytes) := by
  intro hmem
  cases bytes with
  | nil => simp at hmem
  | cons first rest =>
      have hfirst : first ≠ 10 := by
        rintro rfl
        exact h rfl
      have htake : (first :: rest).take (unitLength (first :: rest)) =
          first :: ((first :: rest).take (unitLength (first :: rest))).tail := by
        simp [unitLength]
      rw [htake, List.mem_cons] at hmem
      have hcontinuation := isContinuation_of_mem_unit (hmem.resolve_left (Ne.symm hfirst))
      revert hcontinuation
      decide

/-- Frames come exactly of blank lines. -/
theorem framesFrom_ne_nil : framesFrom acc (chunkText chunks) ≠ [] ↔
    blank (acc.getLast? = some '\n') chunks.flatten = true := by
  induction hn : chunks.flatten.length + chunks.length using Nat.strongRecOn generalizing acc chunks with
  | ind n ih =>
      rcases chunks with _ | ⟨_ | ⟨b, chunk⟩, chunks⟩
      · simp [chunkText, framesFrom, feed, blank]
      · have hrest : framesFrom acc (chunkText chunks) ≠ [] ↔
            blank (acc.getLast? = some '\n') chunks.flatten = true :=
          ih (chunks.flatten.length + chunks.length) (by rw [← hn]; simp) rfl
        exact hrest
      · have hshort := hn ▸ chunks_shorter (List.cons_ne_nil b chunk) chunks
        rw [chunkText_step (List.cons_ne_nil b chunk)]
        by_cases hb : b = 10
        · subst hb
          obtain ⟨hlength, hchar⟩ := unit_newline chunk
          rw [hlength] at hshort
          rw [hlength, hchar, List.flatten_cons, List.cons_append, blank, if_pos rfl]
          by_cases hlast : acc.getLast? = some '\n'
          · simp [framesFrom_end hlast, hlast]
          · rw [framesFrom_cons (fun h => hlast h.2), ih _ hshort rfl]
            simp [hlast]
        · have hchar : unitChar (b :: chunk) ≠ '\n' := unitChar_ne_newline hb
          have hskip : 10 ∉ (b :: chunk).take (unitLength (b :: chunk)) :=
            newline_notMem_unit (by simpa using hb)
          have htake : (b :: chunk).take (unitLength (b :: chunk)) ≠ [] := by
            simp [unitLength]
          have hsplit : List.flatten ((b :: chunk) :: chunks) =
              (b :: chunk).take (unitLength (b :: chunk)) ++
                List.flatten ((b :: chunk).drop (unitLength (b :: chunk)) :: chunks) := by
            rw [List.flatten_cons, List.flatten_cons, ← List.append_assoc, List.take_append_drop]
          rw [framesFrom_cons (fun h => hchar h.1), ih _ hshort rfl, hsplit, blank_append htake hskip]
          simp [hchar]

/-- Continuation bytes at the begin of the chunks are decoded one by one. -/
theorem chunkText_continuation (h : ∀ b ∈ front, isContinuation b)
    (hchunks : chunks.flatten = front ++ back) :
    ∃ chunks', chunks'.flatten = back ∧ chunks'.length ≤ chunks.length ∧
      chunkText chunks = List.replicate front.length '\uFFFD' ++ chunkText chunks' := by
  induction hn : front.length + chunks.length using Nat.strongRecOn generalizing front chunks with
  | ind n ih =>
      cases front with
      | nil => exact ⟨chunks, hchunks, Nat.le_refl _, rfl⟩
      | cons b front =>
          rcases chunks with _ | ⟨_ | ⟨b', chunk⟩, chunks⟩
          · cases hchunks
          · obtain ⟨chunks', hback, hlength, htext⟩ := ih ((b :: front).length + chunks.length)
              (by rw [← hn]; simp) h (show chunks.flatten = b :: front ++ back from hchunks) rfl
            exact ⟨chunks', hback, Nat.le_succ_of_le hlength, htext⟩
          · rw [List.flatten_cons, List.cons_append, List.cons_append] at hchunks
            obtain ⟨rfl, hrest⟩ := List.cons.inj hchunks
            obtain ⟨hunit, hchar⟩ := unit_continuation (h b' List.mem_cons_self) chunk
            obtain ⟨chunks', hback, hlength, htext⟩ := ih (front.length + (chunk :: chunks).length)
              (by rw [← hn]; simp) (fun b hb => h b (List.mem_cons_of_mem _ hb))
              (List.flatten_cons.trans hrest) rfl
            refine ⟨chunks', hback, hlength, ?_⟩
            rw [chunkText_step (List.cons_ne_nil b' chunk), hunit, hchar, List.drop_one, List.tail_cons, htext]
            rfl

/-! ## A cut inside a unit -/

/-- The chunks' text has more characters for the bytes of the unit than the whole text has. -/
theorem chunkText_cut (h : chunk ≠ []) (hcut : chunk.length < unitLength (chunk ++ chunks.flatten)) :
    ∃ (parts : List Char) (c : Char) (chunks' : List Bytes),
      '\n' ∉ parts ∧ c ≠ '\n' ∧ 2 ≤ parts.length ∧ chunks'.length ≤ chunks.length ∧
      chunks'.flatten.length < chunks.flatten.length ∧
      blank false chunks.flatten = blank false chunks'.flatten ∧
      chunkText (chunk :: chunks) = parts ++ chunkText chunks' ∧
      lossyText (chunk ++ chunks.flatten) = c :: lossyText chunks'.flatten := by
  obtain ⟨first, chunk, rfl⟩ := List.exists_cons_of_ne_nil h
  obtain ⟨k, hk⟩ := Nat.exists_eq_add_of_lt hcut
  -- The unit takes the chunk, and as many bytes behind it.
  obtain ⟨others, rest, hothers, hflat⟩ : ∃ others rest : Bytes, others.length = k + 1 ∧
      chunks.flatten = others ++ rest := by
    have hle := unitLength_le (first :: chunk ++ chunks.flatten)
    rw [hk, List.length_append] at hle
    exact ⟨_, _, List.length_take_of_le (by omega), (List.take_append_drop (k + 1) _).symm⟩
  rw [hflat] at hcut hk ⊢
  have hfirst : first ≠ 10 := by
    rintro rfl
    rw [List.cons_append, (unit_newline _).1] at hcut
    simp at hcut
  have hwhole : unitLength (first :: chunk ++ (others ++ rest)) = (first :: (chunk ++ others)).length := by
    rw [hk, List.length_cons, List.length_cons, List.length_append, hothers]
    omega
  have hall : first :: chunk ++ (others ++ rest) = first :: (chunk ++ others) ++ rest := by simp
  have hcontinuation : ∀ b ∈ others, isContinuation b := by
    intro b hb
    have hmem : b ∈ ((first :: chunk ++ (others ++ rest)).take
        (unitLength (first :: chunk ++ (others ++ rest)))).tail := by
      rw [hwhole, hall, List.take_left, List.tail_cons]
      exact List.mem_append_right _ hb
    exact isContinuation_of_mem_unit hmem
  obtain ⟨chunks', hflatten, hlength, htext⟩ := chunkText_continuation hcontinuation hflat
  have halone : unitLength (first :: chunk) = (first :: chunk).length := by
    rw [unitLength_append h (others ++ rest)]
    exact Nat.min_eq_left hcut.le
  refine ⟨unitChar (first :: chunk) :: List.replicate others.length '\uFFFD',
    unitChar (first :: chunk ++ (others ++ rest)), chunks', ?_, unitChar_ne_newline hfirst, ?_,
    hlength, ?_, ?_, ?_, ?_⟩
  · rw [List.mem_cons, not_or]
    refine ⟨(unitChar_ne_newline hfirst).symm, fun hmem => ?_⟩
    have hnewline := List.eq_of_mem_replicate hmem
    revert hnewline
    decide
  · rw [List.length_cons, List.length_replicate]
    omega
  · rw [hflatten, List.length_append]
    omega
  · rw [hflatten]
    refine blank_append (List.ne_nil_of_length_eq_add_one hothers) fun hmem => ?_
    have hnewline := hcontinuation 10 hmem
    revert hnewline
    decide
  · rw [chunkText_step h, halone, List.drop_length, List.cons_append, ← htext]
    rfl
  · rw [List.cons_append, lossyText_cons, ← List.cons_append, hwhole, hall, List.drop_left, hflatten]

theorem getLast?_ne_newline (h : '\n' ∉ text) (hne : text ≠ []) :
    (acc ++ text).getLast? ≠ some '\n' := by
  rw [List.getLast?_append_of_ne_nil _ hne]
  exact fun hlast => h (List.mem_of_getLast? hlast)

/-- The characters in frames. -/
def size (frames : List (List Char)) : ℕ :=
  frames.flatten.length

/-- The frames of the chunks hold no fewer characters than those of the whole, and more where more
are pending before them. -/
theorem size_le (hlength : acc'.length ≤ acc.length)
    (hlast : acc'.getLast? = some '\n' ↔ acc.getLast? = some '\n') :
    size (framesFrom acc' (lossyText chunks.flatten)) ≤ size (framesFrom acc (chunkText chunks)) ∧
      (acc'.length < acc.length → framesFrom acc' (lossyText chunks.flatten) ≠ [] →
        size (framesFrom acc' (lossyText chunks.flatten)) <
          size (framesFrom acc (chunkText chunks))) := by
  induction hn : chunks.flatten.length + chunks.length using Nat.strongRecOn
    generalizing acc acc' chunks with
  | ind n ih =>
      rcases chunks with _ | ⟨_ | ⟨b, chunk⟩, chunks⟩
      · exact ⟨Nat.le_refl _, fun _ hne => absurd rfl hne⟩
      · have hrest := ih (chunks.flatten.length + chunks.length) (by rw [← hn]; simp) hlength hlast
          (show chunks.flatten.length + chunks.length = _ from rfl)
        exact hrest
      · have hne := List.cons_ne_nil b chunk
        by_cases hunit : unitLength (b :: chunk ++ chunks.flatten) ≤ (b :: chunk).length
        · -- The unit lies in the chunk, and both texts begin with its character.
          have hshort := hn ▸ chunks_shorter (List.cons_ne_nil b chunk) chunks
          rw [List.flatten_cons, lossyText_step _ hne hunit, chunkText_step hne, ← List.flatten_cons]
          generalize unitChar (b :: chunk) = c
          by_cases hend : c = '\n' ∧ acc.getLast? = some '\n'
          · obtain ⟨rfl, hend⟩ := hend
            have hrest := (ih _ hshort (show ([] : List Char).length ≤ ([] : List Char).length from
              Nat.le_refl 0) Iff.rfl rfl).1
            rw [framesFrom_end hend, framesFrom_end (hlast.mpr hend)]
            simp only [size, List.flatten_cons, List.length_append] at hrest ⊢
            constructor
            · omega
            · intro hlt _
              omega
          · rw [framesFrom_cons hend, framesFrom_cons (fun h => hend ⟨h.1, hlast.mp h.2⟩)]
            obtain ⟨hle', hlt'⟩ := ih _ hshort
              (show (acc' ++ [c]).length ≤ (acc ++ [c]).length by simpa using hlength) (by simp) rfl
            exact ⟨hle', fun hlt => hlt' (by simpa using hlt)⟩
        · obtain ⟨parts, c, chunks', hparts, hc, htwo, hchunks, hshort, -, htext, hwhole⟩ :=
            chunkText_cut hne (Nat.lt_of_not_le hunit)
          rw [List.flatten_cons, hwhole, htext, framesFrom_append hparts,
            framesFrom_cons (fun h => hc h.1)]
          have hparts' : parts ≠ [] := by
            rintro rfl
            simp at htwo
          have hmeasure : chunks'.flatten.length + chunks'.length < n := by
            subst hn
            simp only [List.flatten_cons, List.length_append, List.length_cons]
            omega
          obtain ⟨hle', hlt'⟩ := ih _ hmeasure
            (show (acc' ++ [c]).length ≤ (acc ++ parts).length by simp; omega)
            (iff_of_false (by simpa using hc) (getLast?_ne_newline hparts hparts')) rfl
          exact ⟨hle', fun _ => hlt' (by simp; omega)⟩

/-! ## Chunking -/

/-- The two parts make the text that they make together. -/
def KeepsText (front back : Bytes) : Prop :=
  fromUtf8Lossy (front ++ back) = fromUtf8Lossy front ++ fromUtf8Lossy back

instance : Decidable (KeepsText front back) :=
  inferInstanceAs (Decidable (_ = _))

theorem keepsText_iff :
    KeepsText front back ↔ lossyText (front ++ back) = lossyText front ++ lossyText back := by
  have htext (bytes : Bytes) : fromUtf8Lossy bytes = String.ofList (lossyText bytes) := rfl
  rw [KeepsText, htext, htext, htext, ← String.ofList_append, String.ofList_inj]

/-- Every cut with a blank line behind it keeps the text. -/
def CutsKeepText (chunks : List Bytes) : Prop :=
  ∀ front back, chunks = front ++ back → [10, 10] <:+: back.flatten →
    KeepsText front.flatten back.flatten

theorem keepsText_step (h : chunk ≠ []) (hunit : unitLength (chunk ++ (front ++ back)) ≤ chunk.length) :
    KeepsText (chunk ++ front) back ↔ KeepsText (chunk.drop (unitLength chunk) ++ front) back := by
  have hfront : unitLength (chunk ++ front) ≤ chunk.length := by
    rw [unitLength_append (List.append_ne_nil_of_left_ne_nil h front) back, List.append_assoc]
    exact (Nat.min_le_right _ _).trans hunit
  rw [keepsText_iff, keepsText_iff, List.append_assoc, List.append_assoc, lossyText_step _ h hunit,
    lossyText_step _ h hfront, List.cons_append, List.cons_inj_right]

theorem cutsKeepText_nil : CutsKeepText ([] :: chunks) ↔ CutsKeepText chunks := by
  constructor
  · intro h front back hchunks
    exact h ([] :: front) back (congrArg (List.cons []) hchunks)
  · intro h front back hchunks hblank
    rcases List.cons_eq_append_iff.mp hchunks with ⟨rfl, rfl⟩ | ⟨front, rfl, hrest⟩
    · exact keepsText_iff.mpr rfl
    · exact h front back hrest hblank

theorem cutsKeepText_step (h : chunk ≠ [])
    (hunit : unitLength (chunk ++ chunks.flatten) ≤ chunk.length) :
    CutsKeepText (chunk :: chunks) ↔ CutsKeepText (chunk.drop (unitLength chunk) :: chunks) := by
  constructor
  · intro hkeeps front back hchunks hblank
    rcases List.cons_eq_append_iff.mp hchunks with ⟨rfl, rfl⟩ | ⟨front, rfl, rfl⟩
    · exact keepsText_iff.mpr rfl
    · rw [List.flatten_append] at hunit
      exact (keepsText_step h hunit).mp (hkeeps (chunk :: front) back rfl hblank)
  · intro hkeeps front back hchunks hblank
    rcases List.cons_eq_append_iff.mp hchunks with ⟨rfl, rfl⟩ | ⟨front, rfl, rfl⟩
    · exact keepsText_iff.mpr rfl
    · rw [List.flatten_append] at hunit
      exact (keepsText_step h hunit).mpr
        (hkeeps (chunk.drop (unitLength chunk) :: front) back rfl hblank)

/-- A cut inside a unit does not keep the text. -/
theorem cutsKeepText_cut (h : chunk ≠ []) (hcut : chunk.length < unitLength (chunk ++ chunks.flatten)) :
    CutsKeepText (chunk :: chunks) ↔ blank false chunks.flatten = false := by
  rw [← Bool.not_eq_true, blank_iff]
  simp only [Bool.false_eq_true, false_and, or_false]
  constructor
  · intro hkeeps hblank
    have hkept := keepsText_iff.mp (hkeeps [chunk] chunks rfl hblank)
    rw [List.flatten_singleton] at hkept
    have hone : [chunks.flatten].flatten = chunks.flatten := List.flatten_singleton
    obtain ⟨parts, c, chunks', -, -, htwo, hlength, -, -, htext, hwhole⟩ :=
      chunkText_cut h (show chunk.length < unitLength (chunk ++ [chunks.flatten].flatten) by rwa [hone])
    have hsame : chunkText chunks' = lossyText chunks'.flatten := by
      rcases chunks' with _ | ⟨only, _ | ⟨_, _⟩⟩
      · rfl
      · simp [chunkText]
      · simp at hlength
    rw [hone] at hwhole
    have htext' : lossyText chunk ++ lossyText chunks.flatten = parts ++ lossyText chunks'.flatten := by
      rw [← hsame, ← htext]
      simp [chunkText]
    have hlengths := congrArg List.length (hwhole.symm.trans (hkept.trans htext'))
    simp only [List.length_cons, List.length_append] at hlengths
    omega
  · intro hnone front back hchunks hblank
    rcases List.cons_eq_append_iff.mp hchunks with ⟨rfl, rfl⟩ | ⟨front, rfl, rfl⟩
    · exact keepsText_iff.mpr rfl
    · rw [List.flatten_append] at hnone
      exact absurd (hblank.trans (List.suffix_append _ _).isInfix) hnone

theorem framesFrom_eq_iff : framesFrom acc (chunkText chunks) =
    framesFrom acc (lossyText chunks.flatten) ↔ CutsKeepText chunks := by
  induction hn : chunks.flatten.length + chunks.length using Nat.strongRecOn
    generalizing acc chunks with
  | ind n ih =>
      rcases chunks with _ | ⟨_ | ⟨b, chunk⟩, chunks⟩
      · refine iff_of_true rfl fun front back hchunks hblank => ?_
        obtain ⟨rfl, rfl⟩ := List.append_eq_nil_iff.mp hchunks.symm
        exact keepsText_iff.mpr rfl
      · have hrest : framesFrom acc (chunkText chunks) = framesFrom acc (lossyText chunks.flatten) ↔
            CutsKeepText chunks :=
          ih (chunks.flatten.length + chunks.length) (by rw [← hn]; simp) rfl
        rw [cutsKeepText_nil]
        exact hrest
      · have hne := List.cons_ne_nil b chunk
        by_cases hunit : unitLength (b :: chunk ++ chunks.flatten) ≤ (b :: chunk).length
        · have hshort := hn ▸ chunks_shorter (List.cons_ne_nil b chunk) chunks
          rw [cutsKeepText_step hne hunit, List.flatten_cons, lossyText_step _ hne hunit,
            chunkText_step hne, ← List.flatten_cons]
          generalize unitChar (b :: chunk) = c
          by_cases hend : c = '\n' ∧ acc.getLast? = some '\n'
          · obtain ⟨rfl, hend⟩ := hend
            rw [framesFrom_end hend, framesFrom_end hend, List.cons_inj_right]
            exact ih _ hshort rfl
          · rw [framesFrom_cons hend, framesFrom_cons hend]
            exact ih _ hshort rfl
        · have hcut := Nat.lt_of_not_le hunit
          obtain ⟨parts, c, chunks', hparts, hc, htwo, -, -, hblank, htext, hwhole⟩ :=
            chunkText_cut hne hcut
          have hparts' : parts ≠ [] := by
            rintro rfl
            simp at htwo
          have hframes : framesFrom (acc ++ [c]) (lossyText chunks'.flatten) ≠ [] ↔
              blank false chunks'.flatten = true := by
            have hwhole : framesFrom (acc ++ [c]) (chunkText [chunks'.flatten]) ≠ [] ↔ _ :=
              framesFrom_ne_nil
            simpa [chunkText, hc] using hwhole
          have hframes' : framesFrom (acc ++ parts) (chunkText chunks') ≠ [] ↔
              blank false chunks'.flatten = true := by
            rw [framesFrom_ne_nil, decide_eq_false (getLast?_ne_newline hparts hparts')]
          rw [cutsKeepText_cut hne hcut, List.flatten_cons, hwhole, htext, framesFrom_append hparts,
            framesFrom_cons (fun h => hc h.1), hblank]
          constructor
          · intro heq
            by_contra hsome
            have hlt := (size_le (show (acc ++ [c]).length ≤ (acc ++ parts).length by simp; omega)
              (iff_of_false (by simpa using hc) (getLast?_ne_newline hparts hparts'))).2
              (by simp; omega) (hframes.mpr (Bool.of_not_eq_false hsome))
            rw [heq] at hlt
            exact Nat.lt_irrefl _ hlt
          · intro hnone
            rw [hnone] at hframes hframes'
            rw [not_not.mp (mt hframes.mp Bool.false_ne_true),
              not_not.mp (mt hframes'.mp Bool.false_ne_true)]

/-- The frames are the same for the chunks and for the whole exactly where every cut with a blank
line behind it keeps the text. -/
theorem chunked_frames_eq_iff (chunks : List Bytes) :
    sseSession [] chunks = sseSession [] [chunks.flatten] ↔ CutsKeepText chunks := by
  have hwhole : [chunks.flatten].flatMap lossyText = lossyText chunks.flatten := by simp
  rw [sseSession_eq rfl, sseSession_eq rfl, hwhole]
  exact framesFrom_eq_iff

/-- `é` and a blank line, cut inside the `é`. -/
theorem cut_character_frames :
    sseSession [] [[0xC3], [0xA9, 10, 10]] = [['\uFFFD', '\uFFFD', '\n', '\n']] ∧
      sseSession [] [[[0xC3], [0xA9, 10, 10]].flatten] = [['é', '\n', '\n']] ∧
      sseSession [] [[0xC3], [0xA9, 10, 10]] ≠ sseSession [] [[[0xC3], [0xA9, 10, 10]].flatten] := by
  decide

end SpecterComs.EventFrames
