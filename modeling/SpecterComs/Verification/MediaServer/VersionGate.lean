import SpecterComs.Model.MediaServer.VersionGate

/-! # The two version gates

Both gates read the same numbers out of a text that both read. They do not read the same texts: each
trims a blank that the other leaves, one bounds the digits and refuses a line end in the suffix.
-/

namespace SpecterComs.VersionGate

open Strip

/-! ## The text of a version -/

/-- What either gate takes for blank. -/
def isBlank (c : Char) : Bool :=
  jsBlank c || rustBlank c

def IsNumber (digits : Text) : Prop :=
  digits ≠ [] ∧ ∀ c ∈ digits, c.isDigit = true

/-- What a version may be followed by: a suffix, or blanks. -/
def IsRest (rest : Text) : Prop :=
  (∀ c ∈ rest, isBlank c = true) ∨ ∃ c ∈ rest.head?, isSign c = true

/-- The parts of a text that is a version. -/
structure VersionText where
  lead : Text
  v : Bool
  major : Text
  minor : Text
  patch : Text
  rest : Text
  blank_lead : ∀ c ∈ lead, isBlank c = true
  major_number : IsNumber major
  minor_number : IsNumber minor
  patch_number : IsNumber patch
  rest_ok : IsRest rest

/-- The numbers with what they are written between. -/
def coreText (v : Bool) (major minor patch : Text) : Text :=
  (if v then ['v'] else []) ++ (major ++ '.' :: (minor ++ '.' :: patch))

namespace VersionText

variable (t : VersionText)

def core : Text :=
  coreText t.v t.major t.minor t.patch

def text : Text :=
  t.lead ++ (t.core ++ t.rest)

def version : Version :=
  (digitsValue t.major, digitsValue t.minor, digitsValue t.patch)

/-- Identity-node reads the text: `trim` takes the blanks around it, no number has more than six
digits, and no line ends in the suffix. -/
structure IssuerReads : Prop where
  lead : ∀ c ∈ t.lead, jsBlank c = true
  digits : t.major.length ≤ 6 ∧ t.minor.length ≤ 6 ∧ t.patch.length ≤ 6
  rest : matchSuffix (t.rest.rdropWhile jsBlank) = true

/-- The media server reads the text: `trim` takes the blanks around it, and the numbers fit into 64
bits. -/
structure RelayReads : Prop where
  lead : ∀ c ∈ t.lead, rustBlank c = true
  fits : digitsValue t.major < 2 ^ 64 ∧ digitsValue t.minor < 2 ^ 64 ∧ digitsValue t.patch < 2 ^ 64
  rest : ∀ c ∈ (t.rest.rdropWhile rustBlank).head?, isSign c = true

end VersionText

/-! ## Characters -/

variable {c : Char}

theorem isBlank_toNat (h : isBlank c = true) : c.toNat ≤ 32 ∨ 0x85 ≤ c.toNat := by
  simp only [isBlank, jsBlank, rustBlank, Bool.or_eq_true, Bool.and_eq_true, decide_eq_true_eq,
    List.contains_eq_mem, List.mem_cons, List.not_mem_nil, or_false] at h
  omega

theorem isDigit_toNat (h : c.isDigit = true) : 48 ≤ c.toNat ∧ c.toNat ≤ 57 := by
  simp only [Char.isDigit, Bool.and_eq_true, decide_eq_true_eq] at h
  exact ⟨h.1, h.2⟩

theorem isBlank_eq_false (h : 32 < c.toNat) (h' : c.toNat < 0x85) : isBlank c = false := by
  by_contra hblank
  have hnat := isBlank_toNat (Bool.not_eq_false _ ▸ hblank)
  omega

theorem isBlank_digit (h : c.isDigit = true) : isBlank c = false := by
  have hnat := isDigit_toNat h
  exact isBlank_eq_false (by omega) (by omega)

theorem jsBlank_of_isBlank (h : isBlank c = false) : jsBlank c = false :=
  (Bool.or_eq_false_iff.mp h).1

theorem rustBlank_of_isBlank (h : isBlank c = false) : rustBlank c = false :=
  (Bool.or_eq_false_iff.mp h).2

theorem isSign_iff : isSign c = true ↔ c = '-' ∨ c = '+' := by
  simp [isSign]

theorem isDigit_sign (h : isSign c = true) : c.isDigit = false := by
  rcases isSign_iff.mp h with rfl | rfl <;> rfl

theorem isDigit_blank (h : isBlank c = true) : c.isDigit = false := by
  by_contra hdigit
  rw [isBlank_digit (Bool.not_eq_false _ ▸ hdigit)] at h
  cases h

/-! ## The numbers in front of a rest -/

section Core

variable {v : Bool} {major minor patch rest : Text} {p : Char → Bool}

theorem IsNumber.stops {text : Text} (h : IsNumber text)
    (hp : ∀ c : Char, c.isDigit = true → p c = false) (back : Text) : Stops p (text ++ back) := by
  intro c hc
  rw [List.head?_append_of_ne_nil _ h.1] at hc
  exact hp c (h.2 c (List.mem_of_mem_head? hc))

theorem coreText_ne_nil (hmajor : IsNumber major) : coreText v major minor patch ≠ [] := by
  intro h
  exact hmajor.1 (List.append_eq_nil_iff.mp (List.append_eq_nil_iff.mp h).2).1

theorem stops_coreText (hmajor : IsNumber major) (hv : p 'v' = false)
    (hp : ∀ c : Char, c.isDigit = true → p c = false) (back : Text) :
    Stops p (coreText v major minor patch ++ back) := by
  cases v with
  | true =>
      intro c hc
      obtain rfl : 'v' = c := by simpa [coreText] using hc
      exact hv
  | false =>
      have h := hmajor.stops hp ('.' :: (minor ++ '.' :: patch) ++ back)
      simpa [coreText] using h

theorem getLast_coreText (hmajor : IsNumber major) (hpatch : IsNumber patch) :
    ((coreText v major minor patch).getLast (coreText_ne_nil hmajor)).isDigit = true := by
  have hlast : (coreText v major minor patch).getLast? = patch.getLast? := by
    have hsplit : coreText v major minor patch =
        ((if v then ['v'] else []) ++ (major ++ '.' :: (minor ++ ['.']))) ++ patch := by
      simp [coreText]
    rw [hsplit, List.getLast?_append_of_ne_nil _ hpatch.1]
  rw [List.getLast?_eq_some_getLast (coreText_ne_nil hmajor),
    List.getLast?_eq_some_getLast hpatch.1] at hlast
  rw [Option.some.inj hlast]
  exact hpatch.2 _ (List.getLast_mem _)

/-! ### What the regular expression matches -/

theorem matchNumber_eq_some {text text' : Text} {n : ℕ} :
    matchNumber text = some (n, text') ↔
      ∃ digits, text = digits ++ text' ∧ IsNumber digits ∧ digits.length ≤ 6 ∧
        digitsValue digits = n ∧ Stops Char.isDigit text' := by
  constructor
  · intro h
    unfold matchNumber at h
    rw [Option.ite_none_right_eq_some] at h
    obtain ⟨hlength, hsome⟩ := h
    obtain ⟨rfl, rfl⟩ := Prod.mk.inj (Option.some.inj hsome)
    refine ⟨_, List.takeWhile_append_dropWhile.symm, ⟨?_, ?_⟩, hlength.2, rfl,
      stops_dropWhile _ _⟩
    · exact List.ne_nil_of_length_pos hlength.1
    · exact fun c hc => List.mem_takeWhile_imp hc
  · rintro ⟨digits, rfl, hdigits, hlength, rfl, hstops⟩
    unfold matchNumber
    simp only [takeWhile_append hdigits.2 hstops, dropWhile_append hdigits.2 hstops]
    exact if_pos ⟨List.length_pos_iff.mpr hdigits.1, hlength⟩

theorem matchDot_eq_some {text text' : Text} : matchDot text = some text' ↔ text = '.' :: text' := by
  unfold matchDot
  split
  · simp
  · rename_i hdot
    simp only [reduceCtorEq, false_iff]
    rintro rfl
    exact hdot _ rfl

theorem matchSuffix_stops (h : matchSuffix rest = true) : Stops Char.isDigit rest := by
  intro c hc
  cases rest with
  | nil => cases hc
  | cons c' rest =>
      obtain rfl := Option.some.inj hc
      exact isDigit_sign (Bool.and_eq_true_iff.mp h).1

/-- The rest of the client's parser, behind the blanks. -/
def matchVersion (text : Text) : Option Version := do
  let (major, text) ← matchNumber (stripV text)
  let text ← matchDot text
  let (minor, text) ← matchNumber text
  let text ← matchDot text
  let (patch, text) ← matchNumber text
  if matchSuffix text then some (major, minor, patch) else none

theorem stripV_coreText (hmajor : IsNumber major) :
    stripV (coreText v major minor patch ++ rest) =
      major ++ '.' :: (minor ++ '.' :: (patch ++ rest)) := by
  cases v with
  | true => simp [coreText, stripV]
  | false =>
      have hv : (major ++ '.' :: (minor ++ '.' :: (patch ++ rest))).head? ≠ some 'v' := by
        intro h
        rw [List.head?_append_of_ne_nil _ hmajor.1] at h
        exact absurd (hmajor.2 _ (List.mem_of_mem_head? h)) (by decide)
      have hcore : coreText false major minor patch ++ rest =
          major ++ '.' :: (minor ++ '.' :: (patch ++ rest)) := by
        simp [coreText]
      rw [hcore]
      exact if_neg hv

/-- A text is what `stripV` leaves of it, behind a "v" or not. -/
theorem exists_stripV (text : Text) :
    ∃ v : Bool, text = (if v then ['v'] else []) ++ stripV text := by
  unfold stripV
  cases text with
  | nil => exact ⟨false, rfl⟩
  | cons c text =>
      by_cases hv : c = 'v'
      · exact ⟨true, by simp [hv]⟩
      · exact ⟨false, by simp [hv]⟩

theorem matchVersion_eq_some {text : Text} {a : Version} :
    matchVersion text = some a ↔
      ∃ v major minor patch rest, text = coreText v major minor patch ++ rest ∧
        (IsNumber major ∧ IsNumber minor ∧ IsNumber patch) ∧
        (major.length ≤ 6 ∧ minor.length ≤ 6 ∧ patch.length ≤ 6) ∧
        (digitsValue major, digitsValue minor, digitsValue patch) = a ∧
        matchSuffix rest = true := by
  constructor
  · intro h
    obtain ⟨v, hv⟩ := exists_stripV text
    simp only [matchVersion, Option.bind_eq_bind, Option.bind_eq_some_iff, Prod.exists,
      matchNumber_eq_some, matchDot_eq_some, Option.ite_none_right_eq_some] at h
    obtain ⟨_, _, ⟨major, hmajor, hmajorNum, hmajorLen, rfl, -⟩, _, rfl, _, _,
      ⟨minor, rfl, hminorNum, hminorLen, rfl, -⟩, _, rfl, _, rest,
      ⟨patch, rfl, hpatchNum, hpatchLen, rfl, -⟩, hsuffix, hversion⟩ := h
    refine ⟨v, major, minor, patch, rest, ?_, ⟨hmajorNum, hminorNum, hpatchNum⟩,
      ⟨hmajorLen, hminorLen, hpatchLen⟩, Option.some.inj hversion, hsuffix⟩
    rw [hv, hmajor]
    simp [coreText]
  · rintro ⟨v, major, minor, patch, rest, rfl, ⟨hmajor, hminor, hpatch⟩,
      ⟨hmajorLen, hminorLen, hpatchLen⟩, rfl, hsuffix⟩
    have hdot : ∀ text : Text, Stops Char.isDigit ('.' :: text) := by
      intro text c hc
      obtain rfl := Option.some.inj hc
      rfl
    have h1 := matchNumber_eq_some.mpr ⟨major, rfl, hmajor, hmajorLen, rfl,
      hdot (minor ++ '.' :: (patch ++ rest))⟩
    have h2 := matchNumber_eq_some.mpr ⟨minor, rfl, hminor, hminorLen, rfl, hdot (patch ++ rest)⟩
    have h3 := matchNumber_eq_some.mpr ⟨patch, rfl, hpatch, hpatchLen, rfl,
      matchSuffix_stops hsuffix⟩
    simp [matchVersion, stripV_coreText hmajor, h1, h2, h3, matchDot, hsuffix]

/-! ### What the server splits -/

theorem parseU64_eq_some {text : Text} (hplus : '+' ∉ text) {n : ℕ} :
    parseU64 text = some n ↔
      IsNumber text ∧ digitsValue text < 2 ^ 64 ∧ digitsValue text = n := by
  have hhead : text.head? ≠ some '+' := fun h => hplus (List.mem_of_mem_head? h)
  unfold parseU64 IsNumber
  simp only [hhead, if_false]
  rw [← List.all_eq_true, ← Bool.not_eq_false]
  by_cases hnil : text = []
  · simp [hnil]
  · by_cases hdigits : text.all Char.isDigit = false
    · simp [hnil, hdigits]
    · simp [hnil, hdigits, Option.ite_none_right_eq_some]

/-- The rest of the server's parser, behind the blanks. -/
def splitVersion (text : Text) : Option Version :=
  match ((stripV text).takeWhile fun c => !isSign c).splitOn '.' with
  | [a, b, c] => do
      let a ← parseU64 a
      let b ← parseU64 b
      let c ← parseU64 c
      some (a, b, c)
  | _ => none

theorem intercalate_three (a b c : Text) :
    ['.'].intercalate [a, b, c] = a ++ '.' :: (b ++ '.' :: c) := by
  simp [List.intercalate_cons_cons]

theorem not_mem_number {text : Text} (h : IsNumber text) (hc : c.isDigit = false) : c ∉ text := by
  intro hmem
  rw [h.2 c hmem] at hc
  cases hc

theorem splitVersion_eq_some {text : Text} {a : Version} :
    splitVersion text = some a ↔
      ∃ v major minor patch rest, text = coreText v major minor patch ++ rest ∧
        (IsNumber major ∧ IsNumber minor ∧ IsNumber patch) ∧
        (digitsValue major < 2 ^ 64 ∧ digitsValue minor < 2 ^ 64 ∧ digitsValue patch < 2 ^ 64) ∧
        (digitsValue major, digitsValue minor, digitsValue patch) = a ∧
        ∀ c ∈ rest.head?, isSign c = true := by
  constructor
  · intro h
    obtain ⟨v, hv⟩ := exists_stripV text
    unfold splitVersion at h
    split at h
    · rename_i major minor patch hsplit
      have hcore : (stripV text).takeWhile (fun c => !isSign c) =
          major ++ '.' :: (minor ++ '.' :: patch) := by
        rw [← intercalate_three, ← hsplit, List.intercalate_splitOn]
      have hplus : '+' ∉ major ++ '.' :: (minor ++ '.' :: patch) := by
        intro hmem
        rw [← hcore] at hmem
        exact absurd (List.mem_takeWhile_imp hmem) (by decide)
      simp only [List.mem_append, List.mem_cons, not_or] at hplus
      simp only [Option.bind_eq_bind, Option.bind_eq_some_iff, parseU64_eq_some hplus.1,
        parseU64_eq_some hplus.2.2.1, parseU64_eq_some hplus.2.2.2.2] at h
      obtain ⟨_, ⟨hmajor, hmajorFits, rfl⟩, _, ⟨hminor, hminorFits, rfl⟩, _,
        ⟨hpatch, hpatchFits, rfl⟩, hversion⟩ := h
      refine ⟨v, major, minor, patch, (stripV text).dropWhile fun c => !isSign c, ?_,
        ⟨hmajor, hminor, hpatch⟩, ⟨hmajorFits, hminorFits, hpatchFits⟩, Option.some.inj hversion,
        fun c hc => ?_⟩
      · rw [coreText, ← hcore, List.append_assoc, List.takeWhile_append_dropWhile]
        exact hv
      · simpa using stops_dropWhile _ _ c hc
    · cases h
  · rintro ⟨v, major, minor, patch, rest, rfl, ⟨hmajor, hminor, hpatch⟩, ⟨h1, h2, h3⟩, rfl, hrest⟩
    have hsign : ∀ digits : Text, IsNumber digits → ∀ c ∈ digits, (!isSign c) = true := by
      intro digits hdigits c hc
      cases hc' : isSign c with
      | true => exact absurd hc (not_mem_number hdigits (isDigit_sign hc'))
      | false => rfl
    have hcore : ∀ c ∈ major ++ '.' :: (minor ++ '.' :: patch), (!isSign c) = true := by
      intro c hc
      simp only [List.mem_append, List.mem_cons] at hc
      rcases hc with hc | rfl | hc | rfl | hc
      · exact hsign major hmajor c hc
      · rfl
      · exact hsign minor hminor c hc
      · rfl
      · exact hsign patch hpatch c hc
    have hstops : Stops (fun c => !isSign c) rest := fun c hc => by simp [hrest c hc]
    have htext : stripV (coreText v major minor patch ++ rest) =
        (major ++ '.' :: (minor ++ '.' :: patch)) ++ rest := by
      rw [stripV_coreText hmajor]
      simp
    have hdots : ∀ l ∈ [major, minor, patch], '.' ∉ l := by
      intro l hl
      have hnumber : IsNumber l := by
        simp only [List.mem_cons, List.not_mem_nil, or_false] at hl
        rcases hl with rfl | rfl | rfl <;> assumption
      exact not_mem_number hnumber rfl
    have hsplit : ((stripV (coreText v major minor patch ++ rest)).takeWhile
        fun c => !isSign c).splitOn '.' = [major, minor, patch] := by
      rw [htext, takeWhile_append hcore hstops, ← intercalate_three,
        List.splitOn_intercalate _ hdots (by simp)]
    have hparse : ∀ {digits : Text}, IsNumber digits → digitsValue digits < 2 ^ 64 →
        parseU64 digits = some (digitsValue digits) := fun hdigits hfits =>
      (parseU64_eq_some (not_mem_number hdigits rfl)).mpr ⟨hdigits, hfits, rfl⟩
    unfold splitVersion
    rw [hsplit]
    simp [hparse hmajor h1, hparse hminor h2, hparse hpatch h3]

end Core

/-! ## What each gate reads -/

theorem parseClientVersion_eq_matchVersion (text : Text) :
    parseClientVersion text = matchVersion (strip jsBlank text) := rfl

theorem parseSemver_eq_splitVersion (text : Text) :
    parseSemver text = splitVersion (strip rustBlank text) := rfl

namespace VersionText

variable (t : VersionText)

/-- A blank around the numbers is stripped, with the numbers untouched. -/
theorem strip_text {p : Char → Bool} (hp : ∀ c, isBlank c = false → p c = false)
    (hlead : ∀ c ∈ t.lead, p c = true) :
    strip p t.text = t.core ++ t.rest.rdropWhile p := by
  have hdigit : ∀ c : Char, c.isDigit = true → p c = false := fun c hc => hp c (isBlank_digit hc)
  have hstops : Stops p (t.core ++ []) := stops_coreText t.major_number (hp 'v' rfl) hdigit []
  rw [List.append_nil] at hstops
  exact strip_append hlead (coreText_ne_nil t.major_number) hstops
    (hdigit _ (getLast_coreText t.major_number t.patch_number))

/-- The parts are determined by the text. -/
theorem text_inj {t t' : VersionText} (h : t.text = t'.text) : t = t' := by
  obtain ⟨lead, v, major, minor, patch, rest, hlead, hmajor, hminor, hpatch, hrest⟩ := t
  obtain ⟨lead', v', major', minor', patch', rest', hlead', hmajor', hminor', hpatch', hrest'⟩ := t'
  have hblank : ∀ c : Char, c.isDigit = true → isBlank c = false := fun c hc => isBlank_digit hc
  have hdot : ∀ text : Text, Stops Char.isDigit ('.' :: text) := by
    intro text c hc
    obtain rfl := Option.some.inj hc
    rfl
  have hstops : ∀ {rest : Text}, IsRest rest → Stops Char.isDigit rest := by
    rintro rest (hrest | ⟨c, hc, hsign⟩) c' hc'
    · exact isDigit_blank (hrest c' (List.mem_of_mem_head? hc'))
    · obtain rfl := Option.mem_unique hc hc'
      exact isDigit_sign hsign
  obtain ⟨rfl, hcore⟩ := append_inj h hlead hlead' (stops_coreText hmajor rfl hblank _)
    (stops_coreText hmajor' rfl hblank _)
  have hnumbers := congrArg stripV hcore
  change stripV (coreText v major minor patch ++ rest) =
    stripV (coreText v' major' minor' patch' ++ rest') at hnumbers
  rw [stripV_coreText hmajor, stripV_coreText hmajor'] at hnumbers
  obtain ⟨rfl, htail⟩ := append_inj hnumbers hmajor.2 hmajor'.2 (hdot _) (hdot _)
  obtain ⟨rfl, hend⟩ := append_inj (List.cons.inj htail).2 hminor.2 hminor'.2 (hdot _) (hdot _)
  obtain ⟨rfl, rfl⟩ := append_inj (List.cons.inj hend).2 hpatch.2 hpatch'.2 (hstops hrest)
    (hstops hrest')
  have hv : v = v' := by
    have hlength := congrArg List.length hcore
    cases v <;> cases v' <;> simp [core, coreText] at hlength ⊢
  subst hv
  rfl

end VersionText

variable {p : Char → Bool} {rest digits : Text}

/-- What remains of a rest where a gate stripped its blanks. -/
theorem isRest_of_rdropWhile (hp : ∀ c, p c = true → isBlank c = true)
    (h : ∀ c ∈ (rest.rdropWhile p).head?, isSign c = true) : IsRest rest := by
  cases hdrop : rest.rdropWhile p with
  | nil =>
      left
      exact fun c hc => hp c (List.rdropWhile_eq_nil_iff.mp hdrop c hc)
  | cons c text =>
      right
      obtain ⟨tail, htail⟩ := List.rdropWhile_prefix p (l := rest)
      rw [hdrop] at htail h
      exact ⟨c, by simp [← htail], h c rfl⟩

theorem head_of_matchSuffix (h : matchSuffix rest = true) : ∀ c ∈ rest.head?, isSign c = true := by
  intro c hc
  cases rest with
  | nil => cases hc
  | cons c' rest =>
      obtain rfl := Option.some.inj hc
      exact (Bool.and_eq_true_iff.mp h).1

theorem isBlank_of_js (h : jsBlank c = true) : isBlank c = true := by
  simp [isBlank, h]

theorem isBlank_of_rust (h : rustBlank c = true) : isBlank c = true := by
  simp [isBlank, h]

theorem parseClientVersion_eq_some {text : Text} {a : Version} :
    parseClientVersion text = some a ↔
      ∃ t : VersionText, t.text = text ∧ t.version = a ∧ t.IssuerReads := by
  rw [parseClientVersion_eq_matchVersion, matchVersion_eq_some]
  constructor
  · rintro ⟨v, major, minor, patch, sfx, hstrip, ⟨hmajor, hminor, hpatch⟩, hdigits, rfl, hsuffix⟩
    obtain ⟨lead, rest, rfl, hlead, rfl⟩ := exists_of_strip hstrip (coreText_ne_nil hmajor)
      (jsBlank_of_isBlank (isBlank_digit (getLast_coreText hmajor hpatch)))
    have hrest := isRest_of_rdropWhile (fun c => isBlank_of_js) (head_of_matchSuffix hsuffix)
    exact ⟨⟨lead, v, major, minor, patch, rest, fun c hc => isBlank_of_js (hlead c hc), hmajor,
      hminor, hpatch, hrest⟩, rfl, rfl, hlead, hdigits, hsuffix⟩
  · rintro ⟨t, rfl, rfl, hlead, hdigits, hsuffix⟩
    exact ⟨t.v, t.major, t.minor, t.patch, _, t.strip_text (fun c => jsBlank_of_isBlank) hlead,
      ⟨t.major_number, t.minor_number, t.patch_number⟩, hdigits, rfl, hsuffix⟩

theorem parseSemver_eq_some {text : Text} {a : Version} :
    parseSemver text = some a ↔
      ∃ t : VersionText, t.text = text ∧ t.version = a ∧ t.RelayReads := by
  rw [parseSemver_eq_splitVersion, splitVersion_eq_some]
  constructor
  · rintro ⟨v, major, minor, patch, sfx, hstrip, ⟨hmajor, hminor, hpatch⟩, hfits, rfl, hsuffix⟩
    obtain ⟨lead, rest, rfl, hlead, rfl⟩ := exists_of_strip hstrip (coreText_ne_nil hmajor)
      (rustBlank_of_isBlank (isBlank_digit (getLast_coreText hmajor hpatch)))
    have hrest := isRest_of_rdropWhile (fun c => isBlank_of_rust) hsuffix
    exact ⟨⟨lead, v, major, minor, patch, rest, fun c hc => isBlank_of_rust (hlead c hc), hmajor,
      hminor, hpatch, hrest⟩, rfl, rfl, hlead, hfits, hsuffix⟩
  · rintro ⟨t, rfl, rfl, hlead, hfits, hsuffix⟩
    exact ⟨t.v, t.major, t.minor, t.patch, _, t.strip_text (fun c => rustBlank_of_isBlank) hlead,
      ⟨t.major_number, t.minor_number, t.patch_number⟩, hfits, rfl, hsuffix⟩

/-! ## The minimum -/

/-- The text that either gate takes its minimum from: the default stands behind the blanks of a
variable that holds nothing else. -/
def minimumText (env : Option Text) : Text :=
  if (env.getD []).all isBlank then env.getD [] ++ defaultMinimum else env.getD []

theorem isNumber_digit (hc : c.isDigit = true) : IsNumber [c] :=
  ⟨by simp, by simpa using hc⟩

/-- The default behind blanks. -/
def defaultText (lead : Text) (hlead : ∀ c ∈ lead, isBlank c = true) : VersionText where
  lead := lead
  v := false
  major := ['2']
  minor := ['0']
  patch := ['0']
  rest := []
  blank_lead := hlead
  major_number := isNumber_digit rfl
  minor_number := isNumber_digit rfl
  patch_number := isNumber_digit rfl
  rest_ok := .inl (by simp)

theorem text_defaultText (lead : Text) (hlead : ∀ c ∈ lead, isBlank c = true) :
    (defaultText lead hlead).text = lead ++ defaultMinimum := rfl

/-- No text of blanks is a version. -/
theorem VersionText.not_all_blank (t : VersionText) : ¬ ∀ c ∈ t.text, isBlank c = true := by
  intro h
  obtain ⟨c, hc⟩ := List.exists_mem_of_ne_nil _ t.major_number.1
  have hmem : c ∈ t.text := by
    simp only [text, core, coreText, List.mem_append]
    exact .inr (.inl (.inr (.inl hc)))
  have hblank := h c hmem
  rw [isBlank_digit (t.major_number.2 c hc)] at hblank
  cases hblank

/-- A gate that strips its blanks and falls back on the default reads the minimum's text. -/
theorem parse_minimum {parse : Text → Option Version} {Reads : VersionText → Prop}
    (hp : ∀ c, isBlank c = false → p c = false)
    (hstrip : ∀ text text', strip p text = strip p text' → parse text = parse text')
    (hreads : ∀ text a, parse text = some a ↔ ∃ t : VersionText, t.text = text ∧ t.version = a ∧ Reads t)
    (hlead : ∀ t, Reads t → ∀ c ∈ t.lead, p c = true) (env : Option Text) :
    parse (if strip p (env.getD []) = [] then defaultMinimum else strip p (env.getD [])) =
      parse (minimumText env) := by
  unfold minimumText
  generalize env.getD [] = text
  by_cases hblank : text.all isBlank = true
  · rw [if_pos hblank]
    rw [List.all_eq_true] at hblank
    by_cases hstripped : strip p text = []
    · rw [if_pos hstripped]
      apply hstrip
      have h := (defaultText text hblank).strip_text hp (strip_eq_nil_iff.mp hstripped)
      have h' := (defaultText [] (by simp)).strip_text hp (by simp [defaultText])
      exact h'.trans h.symm
    · -- A blank that this gate does not strip stands in front of the numbers.
      rw [if_neg hstripped, hstrip _ _ (strip_strip p text)]
      have hnone : parse text = none := by
        rw [Option.eq_none_iff_forall_ne_some]
        intro a ha
        obtain ⟨t, rfl, -⟩ := (hreads _ _).mp ha
        exact t.not_all_blank hblank
      have hnone' : parse (text ++ defaultMinimum) = none := by
        rw [Option.eq_none_iff_forall_ne_some]
        intro a ha
        obtain ⟨t, htext, -, ht⟩ := (hreads _ _).mp ha
        obtain rfl := VersionText.text_inj (htext.trans (text_defaultText text hblank).symm)
        exact hstripped (strip_eq_nil_iff.mpr (hlead _ ht))
      rw [hnone, hnone']
  · rw [if_neg hblank, if_neg, hstrip _ _ (strip_strip p text)]
    intro hnil
    apply hblank
    rw [List.all_eq_true]
    intro c hc
    by_contra hnot
    have hpc := hp c (Bool.not_eq_true _ ▸ hnot)
    rw [strip_eq_nil_iff.mp hnil c hc] at hpc
    cases hpc

theorem parse_minVoiceClientVersion (env : Option Text) :
    parseClientVersion (minVoiceClientVersion env) = parseClientVersion (minimumText env) := by
  apply parse_minimum (fun c => jsBlank_of_isBlank) ?_ (fun _ _ => parseClientVersion_eq_some)
    (fun t ht => ht.lead)
  intro text text' h
  rw [parseClientVersion_eq_matchVersion, parseClientVersion_eq_matchVersion, h]

theorem minRelayClientVersion_eq (env : Option Text) :
    minRelayClientVersion env =
      if strip rustBlank (env.getD []) = [] then defaultMinimum
      else strip rustBlank (env.getD []) := by
  unfold minRelayClientVersion
  cases env with
  | none => rfl
  | some text =>
      by_cases hnil : strip rustBlank text = [] <;> simp [hnil, Option.filter]

theorem parse_minRelayClientVersion (env : Option Text) :
    parseSemver (minRelayClientVersion env) = parseSemver (minimumText env) := by
  rw [minRelayClientVersion_eq]
  apply parse_minimum (fun c => rustBlank_of_isBlank) ?_ (fun _ _ => parseSemver_eq_some)
    (fun t ht => ht.lead)
  intro text text' h
  rw [parseSemver_eq_splitVersion, parseSemver_eq_splitVersion, h]

/-! ## The comparison -/

theorem compareVersions_nonneg (a b : Version) :
    decide (0 ≤ compareVersions a b) = atLeast a b := by
  obtain ⟨a₁, a₂, a₃⟩ := a
  obtain ⟨b₁, b₂, b₃⟩ := b
  unfold compareVersions compareNumbers compareNumbers compareNumbers compareNumbers atLeast
  rcases Nat.lt_trichotomy a₁ b₁ with h₁ | rfl | h₁
  · simp [h₁, h₁.ne, h₁.ne', h₁.le]
  · rcases Nat.lt_trichotomy a₂ b₂ with h₂ | rfl | h₂
    · simp [h₂, h₂.ne, h₂.ne', h₂.le]
    · rcases Nat.lt_trichotomy a₃ b₃ with h₃ | rfl | h₃
      · simp [h₃, h₃.ne]
      · simp
      · simp [h₃.ne', h₃.le, Nat.not_lt.mpr h₃.le]
    · simp [h₂, h₂.ne', Nat.not_lt.mpr h₂.le]
  · simp [h₁, h₁.ne', Nat.not_lt.mpr h₁.le]

/-! ## Both gates -/

theorem digitsValue_lt (h : ∀ c ∈ digits, c.isDigit = true) :
    digitsValue digits < 10 ^ digits.length := by
  induction digits using List.reverseRecOn with
  | nil => simp [digitsValue]
  | append_singleton digits c ih =>
      have hdigits := ih fun c hc => h c (by simp [hc])
      have hc := isDigit_toNat (h c (by simp))
      have hsnoc : digitsValue (digits ++ [c]) = 10 * digitsValue digits + (c.toNat - 48) := by
        simp [digitsValue]
      rw [hsnoc, List.length_append, List.length_singleton, Nat.pow_succ]
      omega

theorem fits_of_length (h : IsNumber digits) (hlength : digits.length ≤ 6) :
    digitsValue digits < 2 ^ 64 := by
  have hlt := digitsValue_lt h.2
  have hpow : 10 ^ digits.length ≤ 10 ^ 6 := Nat.pow_le_pow_right (by omega) hlength
  omega

/-- The media server reads the text that identity-node puts into the ticket. -/
theorem parseSemver_ticket {t : VersionText} (h : t.IssuerReads) :
    parseSemver (strip jsBlank t.text) = some t.version := by
  have hsign := head_of_matchSuffix h.rest
  have hrest : IsRest (t.rest.rdropWhile jsBlank) := by
    cases hdrop : t.rest.rdropWhile jsBlank with
    | nil => exact .inl (by simp)
    | cons c text =>
        rw [hdrop] at hsign
        exact .inr ⟨c, rfl, hsign c rfl⟩
  refine parseSemver_eq_some.mpr ⟨{ t with
    lead := []
    rest := t.rest.rdropWhile jsBlank
    blank_lead := by simp
    rest_ok := hrest }, ?_, rfl, ?_, ?_, ?_⟩
  · exact (t.strip_text (fun c => jsBlank_of_isBlank) h.lead).symm
  · simp
  · exact ⟨fits_of_length t.major_number h.digits.1, fits_of_length t.minor_number h.digits.2.1,
      fits_of_length t.patch_number h.digits.2.2⟩
  · intro c hc
    obtain ⟨tail, htail⟩ := List.rdropWhile_prefix rustBlank (l := t.rest.rdropWhile jsBlank)
    apply hsign
    rw [← htail, Option.mem_def, List.head?_append, Option.mem_def.mp hc]
    rfl

/-- Whatever identity-node puts into a ticket passes the media server, and what passes there passes
at identity-node. -/
structure Agree (env : Option Text) (clientVersion : Text) : Prop where
  served : ∀ ticket, ticketVersion env clientVersion = some ticket →
    clientVersionOk env ticket = true
  issued : clientVersionOk env clientVersion = true →
    meetsVoiceMinimum clientVersion (minVoiceClientVersion env) = true

/-- A version at or above the minimum is read by one gate exactly if the other reads it. -/
structure ReadAlike (env : Option Text) (clientVersion : Text) : Prop where
  served : ∀ t m : VersionText, t.text = clientVersion → m.text = minimumText env →
    atLeast t.version m.version = true → t.IssuerReads → m.IssuerReads → m.RelayReads
  issued : ∀ t m : VersionText, t.text = clientVersion → m.text = minimumText env →
    atLeast t.version m.version = true → t.RelayReads → m.RelayReads →
      t.IssuerReads ∧ m.IssuerReads

section Gates

variable {env : Option Text} {clientVersion : Text}

theorem meetsVoiceMinimum_iff :
    meetsVoiceMinimum clientVersion (minVoiceClientVersion env) = true ↔
      ∃ t m : VersionText, t.text = clientVersion ∧ m.text = minimumText env ∧
        atLeast t.version m.version = true ∧ t.IssuerReads ∧ m.IssuerReads := by
  unfold meetsVoiceMinimum
  rw [parse_minVoiceClientVersion]
  constructor
  · intro h
    split at h
    · rename_i a n ha hn
      obtain ⟨t, rfl, rfl, ht⟩ := parseClientVersion_eq_some.mp ha
      obtain ⟨m, hm, rfl, hmReads⟩ := parseClientVersion_eq_some.mp hn
      rw [compareVersions_nonneg] at h
      exact ⟨t, m, rfl, hm, h, ht, hmReads⟩
    · cases h
  · rintro ⟨t, m, rfl, hm, hle, ht, hmReads⟩
    rw [parseClientVersion_eq_some.mpr ⟨t, rfl, rfl, ht⟩,
      parseClientVersion_eq_some.mpr ⟨m, hm, rfl, hmReads⟩]
    exact (compareVersions_nonneg _ _).trans hle

theorem clientVersionOk_iff :
    clientVersionOk env clientVersion = true ↔
      ∃ t m : VersionText, t.text = clientVersion ∧ m.text = minimumText env ∧
        atLeast t.version m.version = true ∧ t.RelayReads ∧ m.RelayReads := by
  unfold clientVersionOk
  rw [parse_minRelayClientVersion]
  constructor
  · intro h
    split at h
    · rename_i a n ha hn
      obtain ⟨t, rfl, rfl, ht⟩ := parseSemver_eq_some.mp ha
      obtain ⟨m, hm, rfl, hmReads⟩ := parseSemver_eq_some.mp hn
      exact ⟨t, m, rfl, hm, h, ht, hmReads⟩
    · cases h
  · rintro ⟨t, m, rfl, hm, hle, ht, hmReads⟩
    rw [parseSemver_eq_some.mpr ⟨t, rfl, rfl, ht⟩, parseSemver_eq_some.mpr ⟨m, hm, rfl, hmReads⟩]
    exact hle

/-- The ticket of a version that identity-node reads passes the media server exactly if the media
server reads the minimum. -/
theorem clientVersionOk_ticket {t m : VersionText} (ht : t.IssuerReads)
    (hm : m.text = minimumText env) (hle : atLeast t.version m.version = true) :
    clientVersionOk env (strip jsBlank t.text) = true ↔ m.RelayReads := by
  unfold clientVersionOk
  rw [parse_minRelayClientVersion, parseSemver_ticket ht]
  constructor
  · intro h
    split at h
    · rename_i a n ha hn
      obtain ⟨m', hm', -, hreads⟩ := parseSemver_eq_some.mp hn
      rwa [VersionText.text_inj (hm'.trans hm.symm)] at hreads
    · cases h
  · intro hreads
    rw [parseSemver_eq_some.mpr ⟨m, hm, rfl, hreads⟩]
    exact hle

end Gates

/-- The gates agree on a version and a configured minimum exactly if they read them alike. -/
theorem agree_iff_readAlike (env : Option Text) (clientVersion : Text) :
    Agree env clientVersion ↔ ReadAlike env clientVersion := by
  constructor
  · rintro ⟨hserved, hissued⟩
    refine ⟨?_, ?_⟩
    · rintro t m rfl hm hle ht hmReads
      have hmeets := meetsVoiceMinimum_iff.mpr ⟨t, m, rfl, hm, hle, ht, hmReads⟩
      exact (clientVersionOk_ticket ht hm hle).mp (hserved _ (if_pos hmeets))
    · rintro t m rfl hm hle ht hmReads
      have hok := clientVersionOk_iff.mpr ⟨t, m, rfl, hm, hle, ht, hmReads⟩
      obtain ⟨t', m', ht', hm', -, hreads⟩ := meetsVoiceMinimum_iff.mp (hissued hok)
      rwa [VersionText.text_inj ht', VersionText.text_inj (hm'.trans hm.symm)] at hreads
  · rintro ⟨hserved, hissued⟩
    refine ⟨?_, ?_⟩
    · intro ticket hticket
      unfold ticketVersion at hticket
      rw [Option.ite_none_right_eq_some] at hticket
      obtain ⟨hmeets, hsome⟩ := hticket
      obtain rfl := Option.some.inj hsome
      obtain ⟨t, m, rfl, hm, hle, ht, hmReads⟩ := meetsVoiceMinimum_iff.mp hmeets
      exact (clientVersionOk_ticket ht hm hle).mpr (hserved t m rfl hm hle ht hmReads)
    · intro hok
      obtain ⟨t, m, rfl, hm, hle, ht, hmReads⟩ := clientVersionOk_iff.mp hok
      obtain ⟨htReads, hmIssuer⟩ := hissued t m rfl hm hle ht hmReads
      exact meetsVoiceMinimum_iff.mpr ⟨t, m, rfl, hm, hle, htReads, hmIssuer⟩

/-- A byte order mark in the variable shuts the media server's gate, a patch number of eight digits
and a line end in a suffix identity-node's. -/
theorem gates_differ :
    ¬ Agree (some "\uFEFF2.0.0".toList) "2.0.0".toList ∧
      ¬ Agree none "2.0.20261101".toList ∧ ¬ Agree none "2.0.0-rc\n1".toList := by
  refine ⟨?_, ?_, ?_⟩
  · intro h
    exact absurd (h.served _ rfl) (by decide +kernel)
  · intro h
    exact absurd (h.issued (by decide +kernel)) (by decide +kernel)
  · intro h
    exact absurd (h.issued (by decide +kernel)) (by decide +kernel)

end SpecterComs.VersionGate
