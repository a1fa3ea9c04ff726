import Mathlib.Data.List.Infix
import SpecterComs.Library.ExceptBind
import SpecterComs.Model.MlsCrypto.GroupStorage
import SpecterComs.Verification.MlsStore.LossyText

/-! # Which group a stored entry belongs to

The encoding of a group id holds its own brackets, so one encoding is part of a key only where it is
the key's own.
-/

namespace SpecterComs.GroupStorage

open MlsStore (Bytes DeviceState fromUtf8Lossy utf8 fromUtf8Lossy_utf8 utf8_eq)

variable {version : Version} {groupId groupId' key : Bytes} {b : UInt8} {c : Char}

/-! ## Lists of numbers -/

theorem toNat_digit {n : ℕ} (h : n < 10) : (digit n).toNat = 48 + n := by
  revert n
  decide

theorem mem_decimal (h : c ∈ decimal b) : ∃ n < 10, c = digit n := by
  have hlt : b.toNat < 256 := b.toNat_lt
  simp only [decimal] at h
  split_ifs at h <;> simp only [List.mem_cons, List.not_mem_nil, or_false] at h
  · exact ⟨_, by omega, h⟩
  · rcases h with h | h
    · exact ⟨_, by omega, h⟩
    · exact ⟨_, by omega, h⟩
  · rcases h with h | h | h
    · exact ⟨_, by omega, h⟩
    · exact ⟨_, by omega, h⟩
    · exact ⟨_, by omega, h⟩

theorem toNat_of_mem_decimal (h : c ∈ decimal b) : 48 ≤ c.toNat ∧ c.toNat ≤ 57 := by
  obtain ⟨n, hn, rfl⟩ := mem_decimal h
  rw [toNat_digit hn]
  omega

theorem decimal_ne_nil : decimal b ≠ [] := by
  simp only [decimal]
  split_ifs <;> simp

theorem isWhitespace_of_digit (h : 48 ≤ c.toNat ∧ c.toNat ≤ 57) : isWhitespace c = false := by
  simp only [isWhitespace, Bool.or_eq_false_iff, Bool.and_eq_false_iff, decide_eq_false_iff_not,
    List.contains_eq_mem, List.mem_cons, List.not_mem_nil, or_false]
  omega

theorem trim_decimal : trim (decimal b) = decimal b := by
  have hkeep : ∀ text : List Char, (∀ c ∈ text, isWhitespace c = false) →
      text.dropWhile isWhitespace = text := by
    intro text htext
    cases text with
    | nil => rfl
    | cons c text => rw [List.dropWhile_cons, htext c List.mem_cons_self]; rfl
  have hall : ∀ c ∈ decimal b, isWhitespace c = false := fun c hc =>
    isWhitespace_of_digit (toNat_of_mem_decimal hc)
  rw [trim, hkeep _ hall, hkeep _ fun c hc => hall c (List.mem_reverse.mp hc), List.reverse_reverse]

theorem parseU8_decimal : parseU8 (decimal b) = some b := by
  have hlt : b.toNat < 256 := b.toNat_lt
  have hdigits : ∀ c ∈ decimal b, ('0' ≤ c && c ≤ '9') = true := by
    intro c hc
    have hrange := toNat_of_mem_decimal hc
    simp only [Bool.and_eq_true, decide_eq_true_eq, Char.le_def, UInt32.le_iff_toNat_le]
    exact hrange
  have hsign : (decimal b).head? ≠ some '+' := by
    intro hplus
    have hrange := toNat_of_mem_decimal (List.mem_of_mem_head? hplus)
    revert hrange
    decide
  have hvalue : (decimal b).foldl (fun n c => n * 10 + (c.toNat - 48)) 0 = b.toNat := by
    simp only [decimal]
    split_ifs
    · simp only [List.foldl_cons, List.foldl_nil, toNat_digit ‹b.toNat < 10›]
      omega
    · simp only [List.foldl_cons, List.foldl_nil,
        toNat_digit (show b.toNat / 10 < 10 by omega), toNat_digit (show b.toNat % 10 < 10 by omega)]
      omega
    · simp only [List.foldl_cons, List.foldl_nil, toNat_digit (show b.toNat / 100 < 10 by omega),
        toNat_digit (show b.toNat / 10 % 10 < 10 by omega), toNat_digit (show b.toNat % 10 < 10 by omega)]
      omega
  simp only [parseU8, if_neg hsign, List.all_eq_true.mpr hdigits, hvalue, List.isEmpty_eq_false_iff.mpr
    decimal_ne_nil]
  simp [hlt]

theorem mem_jsonList (h : c ∈ jsonList groupId) : c = ',' ∨ ∃ b ∈ groupId, c ∈ decimal b := by
  unfold jsonList at h
  induction groupId with
  | nil => simp at h
  | cons b groupId ih =>
      cases groupId with
      | nil => exact .inr ⟨b, List.mem_cons_self, by simpa using h⟩
      | cons b' rest =>
          simp only [List.map_cons, List.intercalate_cons_cons, List.mem_append, List.mem_singleton] at h ih
          rcases h with (h | h) | h
          · exact .inr ⟨b, List.mem_cons_self, h⟩
          · exact .inl h
          · obtain h | ⟨b'', hb, hc⟩ := ih h
            · exact .inl h
            · exact .inr ⟨b'', List.mem_cons_of_mem _ hb, hc⟩

theorem toNat_of_mem_jsonList (h : c ∈ jsonList groupId) : 44 ≤ c.toNat ∧ c.toNat ≤ 57 := by
  rcases mem_jsonList h with rfl | ⟨b, -, hc⟩
  · decide
  · have hrange := toNat_of_mem_decimal hc
    omega

/-! ## Bytes of text -/

theorem utf8_ascii {text : List Char} (h : ∀ c ∈ text, c.toNat < 128) :
    utf8 (String.ofList text) = ascii text := by
  rw [utf8_eq, String.toList_ofList, ascii]
  induction text with
  | nil => rfl
  | cons c text ih =>
      have hc : String.utf8EncodeChar c = [.ofNat c.toNat] := by
        have hle : c.val.toNat ≤ 0x7f := Nat.le_of_lt_succ (h c List.mem_cons_self)
        unfold String.utf8EncodeChar
        simp only [if_pos hle]
        rfl
      rw [List.flatMap_cons, hc, ih fun c hc => h c (List.mem_cons_of_mem _ hc)]
      rfl

/-- The bytes of a group id are read back. -/
theorem parseBytes_jsonList (groupId : Bytes) : parseBytes (ascii (jsonList groupId)) = some groupId := by
  cases groupId with
  | nil => rfl
  | cons b groupId =>
      have htext : fromUtf8 (ascii (jsonList (b :: groupId))) =
          some (String.ofList (jsonList (b :: groupId))) := by
        have hascii : ∀ c ∈ jsonList (b :: groupId), c.toNat < 128 := by
          intro c hc
          have hrange := toNat_of_mem_jsonList hc
          omega
        rw [fromUtf8, ← utf8_ascii hascii, fromUtf8Lossy_utf8, if_pos rfl]
      have hsplit : (jsonList (b :: groupId)).splitOn ',' = (b :: groupId).map decimal := by
        refine List.splitOn_intercalate ',' (fun l hl hcomma => ?_) (by simp)
        obtain ⟨b', -, rfl⟩ := List.mem_map.mp hl
        have hrange := toNat_of_mem_decimal hcomma
        revert hrange
        decide
      have hmap : ∀ bytes : Bytes,
          (bytes.map decimal).mapM (fun n => parseU8 (trim n)) = some bytes := by
        intro bytes
        induction bytes with
        | nil => rfl
        | cons b bytes ih =>
            rw [List.map_cons, List.mapM_cons, trim_decimal, parseU8_decimal, ih]
            rfl
      have hne : ascii (jsonList (b :: groupId)) ≠ [] := by
        intro hnil
        rw [List.map_eq_nil_iff.mp hnil] at hsplit
        exact decimal_ne_nil (List.cons.inj hsplit).1.symm
      rw [parseBytes, if_neg (by simpa using hne), htext, Option.bind_some, String.toList_ofList, hsplit,
        hmap]

/-! ## Encodings inside keys -/

/-- `{"value":{"vec":[` -/
theorem json_eq : json groupId =
    [123, 34, 118, 97, 108, 117, 101, 34, 58, 123, 34, 118, 101, 99, 34, 58, 91] ++
      ascii (jsonList groupId) ++ [93, 125, 125] := by
  have hstart : ascii "\x7b\"value\":\x7b\"vec\":[".toList =
      [123, 34, 118, 97, 108, 117, 101, 34, 58, 123, 34, 118, 101, 99, 34, 58, 91] := by
    decide
  have hend : ascii "]\x7d\x7d".toList = [93, 125, 125] := by decide
  rw [← hstart, ← hend]
  simp [json, ascii]

theorem mem_ascii_jsonList (h : b ∈ ascii (jsonList groupId)) : 44 ≤ b.toNat ∧ b.toNat ≤ 57 := by
  obtain ⟨c, hc, rfl⟩ := List.mem_map.mp h
  have hrange := toNat_of_mem_jsonList hc
  rw [UInt8.toNat_ofNat']
  omega

theorem jsonList_inj (h : ascii (jsonList groupId) = ascii (jsonList groupId')) :
    groupId = groupId' := by
  have hread := parseBytes_jsonList groupId
  rw [h, parseBytes_jsonList] at hread
  exact (Option.some.inj hread).symm

/-- Up to the first separator, the one is the other. -/
theorem eq_of_separator {xs ys tail tail' : Bytes} (hxs : b ∉ xs) (hys : b ∉ ys)
    (h : xs ++ b :: tail <+: ys ++ b :: tail') : xs = ys := by
  induction xs generalizing ys with
  | nil =>
      cases ys with
      | nil => rfl
      | cons y ys =>
          obtain ⟨heq, -⟩ := List.cons_prefix_cons.mp h
          exact absurd (heq ▸ List.mem_cons_self) hys
  | cons x xs ih =>
      cases ys with
      | nil =>
          obtain ⟨heq, -⟩ := List.cons_prefix_cons.mp h
          exact absurd (heq ▸ List.mem_cons_self) hxs
      | cons y ys =>
          obtain ⟨rfl, hrest⟩ := List.cons_prefix_cons.mp h
          rw [ih (fun hmem => hxs (List.mem_cons_of_mem _ hmem))
            (fun hmem => hys (List.mem_cons_of_mem _ hmem)) hrest]

/-- Bytes that begin with a brace are not found to begin among bytes without one. -/
theorem infix_skip (front : Bytes) {needle back : Bytes} (hfront : 123 ∉ front)
    (h : 123 :: needle <:+: front ++ back) : 123 :: needle <:+: back := by
  induction front with
  | nil => exact h
  | cons b front ih =>
      rcases List.infix_cons_iff.mp h with hprefix | hinfix
      · obtain ⟨rfl, -⟩ := List.cons_prefix_cons.mp hprefix
        exact absurd List.mem_cons_self hfront
      · exact ih (fun hmem => hfront (List.mem_cons_of_mem _ hmem)) hinfix

theorem bracket_notMem : 93 ∉ ascii (jsonList groupId) := by
  intro h
  have hrange := mem_ascii_jsonList h
  revert hrange
  decide

theorem brace_notMem : 123 ∉ ascii (jsonList groupId) ++ [93, 125, 125] := by
  intro h
  rcases List.mem_append.mp h with h | h
  · have hrange := mem_ascii_jsonList h
    revert hrange
    decide
  · revert h
    decide

/-- A key holds the encoding of its own group id, and of no other. -/
theorem json_infix_iff (label : GroupLabel) :
    json groupId <:+: storageKey version label.bytes groupId' ↔ groupId = groupId' := by
  constructor
  · intro h
    have h : json groupId <:+: json groupId' ++ version.val := by
      rw [storageKey, List.append_assoc, json_eq] at h
      rw [json_eq]
      exact infix_skip _ label.no_brace h
    simp only [json_eq, List.cons_append, List.nil_append, List.append_assoc] at h
    rcases List.infix_cons_iff.mp h with hhere | h
    · simp only [List.cons_prefix_cons, true_and] at hhere
      exact jsonList_inj (eq_of_separator bracket_notMem bracket_notMem hhere)
    · -- The other brace of the key's own encoding is followed by another name.
      have h := infix_skip [34, 118, 97, 108, 117, 101, 34, 58] (by decide) h
      rcases List.infix_cons_iff.mp h with hhere | h
      · revert hhere
        simp
      · have h := infix_skip [34, 118, 101, 99, 34, 58, 91] (by decide) h
        have h := infix_skip (ascii (jsonList groupId') ++ [93, 125, 125]) brace_notMem
          (by simpa using h)
        have hversion := h.length_le
        rw [version.property] at hversion
        simp [storageVersionSuffixLen] at hversion
  · rintro rfl
    exact ⟨label.bytes, version.val, rfl⟩

/-- No label of the device is the begin of a key of a group. -/
theorem not_isDeviceWide (label : GroupLabel) (rest : Bytes) :
    ¬IsDeviceWide (label.bytes ++ 123 :: rest) := by
  rintro ⟨wide, hwide, hbegin⟩
  have hname : ∀ wide ∈ nonGroupStorageLabels, 123 ∉ wide := by decide
  rcases List.prefix_or_prefix_of_prefix hbegin (List.prefix_append label.bytes _) with h | h
  · exact label.grouped wide hwide h
  · obtain ⟨more, rfl⟩ := h
    have hmore := (List.prefix_append_right_inj label.bytes).mp hbegin
    cases more with
    | nil => exact label.grouped _ hwide (by simp)
    | cons b more =>
        obtain ⟨rfl, -⟩ := List.cons_prefix_cons.mp hmore
        exact hname _ hwide (by simp)

theorem belongsTo_json (h : BelongsTo version groupId key) : ¬IsDeviceWide key ∧
    ∀ id, BelongsTo version id key → id = groupId := by
  obtain ⟨label, rfl⟩ := h
  constructor
  · rw [storageKey, json_eq]
    simpa using not_isDeviceWide label _
  · rintro id ⟨label', hkey⟩
    exact ((json_infix_iff label).mp (hkey ▸ (json_infix_iff label').mpr rfl))

/-! ## Encodings of group ids -/

theorem middle_eq (label middle : Bytes) :
    ((label ++ middle ++ version.val).take ((label ++ middle ++ version.val).length -
      storageVersionSuffixLen)).drop label.length = middle := by
  have hlength : (label ++ middle ++ version.val).length - storageVersionSuffixLen =
      (label ++ middle).length := by
    rw [List.length_append, version.property, Nat.add_sub_cancel]
  rw [hlength, List.take_left, List.drop_left]

theorem storageKeyForGroup_eq (groupId : Bytes) :
    storageKeyForGroup version groupId = .ok (json groupId) := by
  have hlong : ¬(storageKey version ownLeafIndexStorageLabel groupId).length <
      ownLeafIndexStorageLabel.length + storageVersionSuffixLen := by
    rw [storageKey, List.length_append, version.property, List.length_append]
    omega
  have hstart : ownLeafIndexStorageLabel.isPrefixOf
      (storageKey version ownLeafIndexStorageLabel groupId) = true := by
    rw [List.isPrefixOf_iff_prefix, storageKey, List.append_assoc]
    exact List.prefix_append _ _
  simp only [storageKeyForGroup, hstart, hlong]
  exact congrArg Except.ok (middle_eq _ _)

/-- Every group id is read back from its encoding, and from no other. -/
theorem groupIdFromStorageKey_iff {encoded : Bytes} :
    groupIdFromStorageKey version encoded (json []) = some groupId ↔ encoded = json groupId := by
  have hsplit : splitEmpty (json []) =
      some ([123, 34, 118, 97, 108, 117, 101, 34, 58, 123, 34, 118, 101, 99, 34, 58, 91],
        [93, 125, 125]) := by
    rw [json_eq]
    rfl
  unfold groupIdFromStorageKey
  rw [hsplit]
  simp only [Option.bind_eq_bind, Option.bind_some, storageKeyForGroup_eq, Except.toOption]
  constructor
  · intro h
    obtain ⟨inner, hinner, h⟩ := Option.bind_eq_some_iff.mp h
    obtain ⟨id, hid, h⟩ := Option.bind_eq_some_iff.mp h
    split at h
    · rename_i hencoded
      obtain rfl := Option.some.inj h
      exact (Option.some.inj hencoded).symm
    · cases h
  · rintro rfl
    have hstart : stripStart
        [123, 34, 118, 97, 108, 117, 101, 34, 58, 123, 34, 118, 101, 99, 34, 58, 91] (json groupId) =
          some (ascii (jsonList groupId) ++ [93, 125, 125]) := by
      rw [stripStart, json_eq, List.append_assoc, if_pos (List.isPrefixOf_iff_prefix.mpr
        (List.prefix_append _ _)), List.drop_left]
    have hend : stripEnd [93, 125, 125] (ascii (jsonList groupId) ++ [93, 125, 125]) =
        some (ascii (jsonList groupId)) := by
      rw [stripEnd, if_pos (List.isSuffixOf_iff_suffix.mpr (List.suffix_append _ _)),
        List.length_append, Nat.add_sub_cancel, List.take_left]
    rw [hstart, Option.bind_some, hend, Option.bind_some, parseBytes_jsonList, Option.bind_some,
      if_pos rfl]

/-! ## Sweeping and listing -/

variable {storage storage' : Storage version} {P : Provider version} {deviceState out : Bytes}
  {state : DeviceState (Storage version) Bytes}

theorem containsSubslice_iff {haystack needle : Bytes} (h : needle ≠ []) :
    containsSubslice haystack needle = true ↔ needle <:+: haystack := by
  simp only [containsSubslice, Bool.and_eq_true, List.any_eq_true, List.mem_tails,
    List.isPrefixOf_iff_prefix, List.infix_iff_prefix_suffix]
  constructor
  · rintro ⟨-, tail, hsuffix, hprefix⟩
    exact ⟨tail, hprefix, hsuffix⟩
  · rintro ⟨tail, hprefix, hsuffix⟩
    exact ⟨by simpa using h, tail, hsuffix, hprefix⟩

/-- The sweep keeps what belongs to the device or to another group. -/
theorem isKept_iff (h : key ∈ storage.keys) :
    isKept (json groupId) key = true ↔ ¬BelongsTo version groupId key := by
  have hwide : nonGroupStorageLabels.any (·.isPrefixOf key) = true ↔ IsDeviceWide key := by
    simp only [List.any_eq_true, List.isPrefixOf_iff_prefix, IsDeviceWide]
  have hfound : containsSubslice key (json groupId) = true ↔ json groupId <:+: key := by
    refine containsSubslice_iff ?_
    rw [json_eq]
    simp
  rw [isKept, Bool.or_eq_true, hwide, Bool.not_eq_true', ← Bool.not_eq_true, hfound]
  rcases storage.formed key h with hdevice | ⟨id, label, rfl⟩
  · simp only [hdevice, true_or, true_iff]
    exact fun hbelongs => (belongsTo_json hbelongs).1 hdevice
  · have hgroup : ¬IsDeviceWide (storageKey version label.bytes id) :=
      (belongsTo_json ⟨label, rfl⟩).1
    rw [json_infix_iff]
    simp only [hgroup, false_or, not_iff_not]
    constructor
    · rintro rfl
      exact ⟨label, rfl⟩
    · exact fun hbelongs => ((belongsTo_json hbelongs).2 id ⟨label, rfl⟩).symm

def groupStateLabel : GroupLabel where
  bytes := groupStateStorageLabel
  no_brace := by decide
  grouped := by decide

/-- The group id in the key of a group state. -/
def stateGroupId (version : Version) (key : Bytes) : Option Bytes :=
  (encodedGroupId key).bind fun encoded => groupIdFromStorageKey version encoded (json [])

/-- A key of a group state ends in the version. -/
theorem key_of_state {last : Bytes} (h : groupStateStorageLabel ++ (json groupId ++ last) ∈ storage.keys)
    (hlast : last.length = storageVersionSuffixLen) :
    groupStateStorageLabel ++ (json groupId ++ last) =
      storageKey version groupStateStorageLabel groupId := by
  have hopen : ∀ id : Bytes, ∃ rest, json id = 123 :: rest := by
    intro id
    rw [json_eq]
    exact ⟨_, rfl⟩
  obtain ⟨rest, hrest⟩ := hopen groupId
  rcases storage.formed _ h with hdevice | ⟨id, label, hkey⟩
  · rw [hrest] at hdevice
    exact absurd hdevice (not_isDeviceWide groupStateLabel _)
  · obtain ⟨rest', hrest'⟩ := hopen id
    have hkey' := hkey
    rw [storageKey, List.append_assoc, hrest, hrest'] at hkey'
    have hlabel : groupStateStorageLabel = label.bytes :=
      eq_of_separator groupStateLabel.no_brace label.no_brace ⟨[], by rw [List.append_nil]; exact hkey'⟩
    rw [storageKey, ← hlabel, List.append_assoc] at hkey
    obtain ⟨-, rfl⟩ := List.append_inj' (List.append_cancel_left hkey) (hlast.trans version.property.symm)
    rw [storageKey, List.append_assoc]

theorem stateGroupId_iff (h : key ∈ storage.keys) :
    stateGroupId version key = some groupId ↔
      key = storageKey version groupStateStorageLabel groupId := by
  constructor
  · intro hkey
    obtain ⟨encoded, hencoded, hid⟩ := Option.bind_eq_some_iff.mp hkey
    obtain rfl := groupIdFromStorageKey_iff.mp hid
    unfold encodedGroupId at hencoded
    split at hencoded
    · rename_i hlabel
      obtain ⟨hstart, hlong⟩ := Bool.and_eq_true_iff.mp hlabel
      obtain ⟨rest, rfl⟩ := List.isPrefixOf_iff_prefix.mp hstart
      have hlong : storageVersionSuffixLen ≤ rest.length := by
        have hle := of_decide_eq_true hlong
        rw [List.length_append] at hle
        omega
      have hencoded : rest.take (rest.length - storageVersionSuffixLen) = json groupId := by
        have hmiddle := Option.some.inj hencoded
        rwa [List.length_append, Nat.add_sub_assoc hlong, List.take_length_add_append, List.drop_left]
          at hmiddle
      obtain ⟨last, rfl⟩ : ∃ last, json groupId ++ last = rest :=
        ⟨_, hencoded ▸ List.take_append_drop _ _⟩
      have hlast : last.length = storageVersionSuffixLen := by
        have hlength := congrArg List.length hencoded
        simp only [List.length_take, List.length_append] at hlength hlong
        omega
      exact key_of_state h hlast
    · cases hencoded
  · rintro rfl
    have hencoded : encodedGroupId (storageKey version groupStateStorageLabel groupId) =
        some (json groupId) := by
      have hstart : groupStateStorageLabel.isPrefixOf
          (storageKey version groupStateStorageLabel groupId) = true := by
        rw [List.isPrefixOf_iff_prefix, storageKey, List.append_assoc]
        exact List.prefix_append _ _
      have hlong : groupStateStorageLabel.length + storageVersionSuffixLen ≤
          (storageKey version groupStateStorageLabel groupId).length := by
        rw [storageKey, List.length_append, version.property, List.length_append]
        omega
      simp only [encodedGroupId, hstart, hlong, decide_true, Bool.and_self, if_true]
      exact congrArg some (middle_eq _ _)
    rw [stateGroupId, hencoded, Option.bind_some, groupIdFromStorageKey_iff]

/-- The ids of the stored group states. -/
def storedIds (storage : Storage version) : List Bytes :=
  storage.keys.filterMap (stateGroupId version)

theorem mem_storedIds :
    groupId ∈ storedIds storage ↔ storageKey version groupStateStorageLabel groupId ∈ storage.keys := by
  rw [storedIds, List.mem_filterMap]
  constructor
  · rintro ⟨key, hkey, hid⟩
    rwa [← (stateGroupId_iff hkey).mp hid]
  · intro hkey
    exact ⟨_, hkey, (stateGroupId_iff hkey).mpr rfl⟩

theorem nodup_storedIds : (storedIds storage).Nodup := by
  rw [storedIds, List.Nodup, List.pairwise_filterMap]
  refine List.Pairwise.imp_of_mem (fun hkey hkey' hne id hid id' hid' => ?_) storage.distinct
  rw [stateGroupId_iff hkey] at hid
  rw [stateGroupId_iff hkey'] at hid'
  rintro rfl
  exact hne (hid.trans hid'.symm)

theorem groupIds_eq (h : loadDeviceState P deviceState = .ok state) :
    groupIds P deviceState =
      .ok (((storedIds state.storageValues).map fromUtf8Lossy).mergeSort fun a b => a ≤ b) := by
  rw [groupIds, h, storageKeyForGroup_eq]
  change Except.ok _ = Except.ok _
  rw [storedIds, List.filterMap_filterMap]
  rfl

/-! ## Deleting -/

/-- What the code relies on: `bincode` reads back what it wrote, `MlsGroup::delete` removes entries
of the group only, and a group without entries is none. -/
structure Provider.Lawful (P : Provider version) : Prop where
  serialize : ∀ state bytes, P.serialize state = .ok bytes →
    bytes ≠ [] ∧ P.deserialize bytes = .ok state
  delete : ∀ storage groupId storage', P.delete storage groupId = .ok storage' →
    (∀ entry ∈ storage'.values, entry ∈ storage.values) ∧
      ∀ entry ∈ storage.values, ¬BelongsTo version groupId entry.1 → entry ∈ storage'.values
  load : ∀ (storage : Storage version) groupId,
    (∀ key ∈ storage.keys, ¬BelongsTo version groupId key) → P.load storage groupId = .ok false

theorem deleteGroup_missing (h : loadDeviceState P deviceState = .ok state)
    (hload : P.load state.storageValues groupId = .ok false) :
    deleteGroup P deviceState groupId = .ok deviceState := by
  rw [deleteGroup, h]
  change (P.load state.storageValues groupId >>= _) = _
  rw [hload]
  rfl

theorem deleteGroup_held (hP : P.Lawful) (h : loadDeviceState P deviceState = .ok state)
    (hload : P.load state.storageValues groupId = .ok true)
    (hout : deleteGroup P deviceState groupId = .ok out) :
    ∃ state', loadDeviceState P out = .ok state' ∧ state'.signer = state.signer ∧
      state'.credential = state.credential ∧
      ∀ entry, entry ∈ state'.storageValues.values ↔
        entry ∈ state.storageValues.values ∧ ¬BelongsTo version groupId entry.1 := by
  rw [deleteGroup, h, storageKeyForGroup_eq] at hout
  obtain ⟨_, hheld, hout⟩ := Except.bind_eq_ok.mp hout
  obtain ⟨held, hheld', hout⟩ := Except.bind_eq_ok.mp hout
  obtain rfl := Except.ok.inj hheld
  obtain rfl := Except.ok.inj (hheld'.symm.trans hload)
  obtain ⟨storage, hdelete, hout⟩ := Except.bind_eq_ok.mp hout
  obtain ⟨hne, hread⟩ := hP.serialize _ _ hout
  obtain ⟨hfrom, hkept⟩ := hP.delete _ _ _ hdelete
  refine ⟨{ state with storageValues := storage.retain (isKept (json groupId)) }, ?_, rfl, rfl,
    fun entry => ?_⟩
  · rw [loadDeviceState, if_neg (by simpa using hne)]
    exact hread
  · simp only [Storage.retain, List.mem_filter]
    constructor
    · rintro ⟨hmem, hentry⟩
      exact ⟨hfrom entry hmem, (isKept_iff (List.mem_map_of_mem hmem)).mp hentry⟩
    · rintro ⟨hmem, hother⟩
      have hstays := hkept entry hmem hother
      exact ⟨hstays, (isKept_iff (List.mem_map_of_mem hstays)).mpr hother⟩

/-- What a deletion does to a device state, and what the listing shows of it. -/
structure DeletesOnly (P : Provider version) (deviceState : Bytes)
    (state : DeviceState (Storage version) Bytes) (groupId : Bytes) : Prop where
  /-- The ids of the stored groups, each as text. -/
  listed : ∃ ids : List Bytes, ids.Nodup ∧
    (∀ id, id ∈ ids ↔ storageKey version groupStateStorageLabel id ∈ state.storageValues.keys) ∧
    groupIds P deviceState = .ok ((ids.map fromUtf8Lossy).mergeSort fun a b => a ≤ b)
  /-- A group that does not load is left as it is. -/
  missing : P.load state.storageValues groupId = .ok false →
    deleteGroup P deviceState groupId = .ok deviceState
  /-- All entries of a group that loads go, and no others. -/
  removed : P.load state.storageValues groupId = .ok true →
    ∀ out, deleteGroup P deviceState groupId = .ok out →
      ∃ state', loadDeviceState P out = .ok state' ∧ state'.signer = state.signer ∧
        state'.credential = state.credential ∧
        ∀ entry, entry ∈ state'.storageValues.values ↔
          entry ∈ state.storageValues.values ∧ ¬BelongsTo version groupId entry.1
  again : ∀ out, deleteGroup P deviceState groupId = .ok out → deleteGroup P out groupId = .ok out
  /-- What belongs to the device or another group is none of the group's. -/
  others : ∀ key, BelongsTo version groupId key →
    ¬IsDeviceWide key ∧ ∀ id, BelongsTo version id key → id = groupId

theorem delete_group_deletes_only (hP : P.Lawful) (hstate : loadDeviceState P deviceState = .ok state)
    (groupId : Bytes) : DeletesOnly P deviceState state groupId := by
  refine ⟨⟨_, nodup_storedIds, fun _ => mem_storedIds, groupIds_eq hstate⟩,
    deleteGroup_missing hstate, fun hload out hout => deleteGroup_held hP hstate hload hout,
    fun out hout => ?_, fun _ => belongsTo_json⟩
  cases hload : P.load state.storageValues groupId with
  | error e =>
      rw [deleteGroup, hstate] at hout
      change (P.load state.storageValues groupId >>= _) = _ at hout
      rw [hload] at hout
      cases hout
  | ok held =>
      cases held with
      | false =>
          rw [deleteGroup_missing hstate hload] at hout
          obtain rfl := Except.ok.inj hout
          exact deleteGroup_missing hstate hload
      | true =>
          obtain ⟨state', hstate', -, -, hentries⟩ := deleteGroup_held hP hstate hload hout
          refine deleteGroup_missing hstate' (hP.load _ _ fun key hkey => ?_)
          obtain ⟨entry, hentry, rfl⟩ := List.mem_map.mp hkey
          exact ((hentries entry).mp hentry).2

/-! ## A device with leftover entries -/

def firstVersion : Version := ⟨[0, 1], rfl⟩

def epochSecretsLabel : GroupLabel where
  bytes := ascii "EpochSecrets".toList
  no_brace := by decide
  grouped := by decide

def keptEntries : List (Bytes × Bytes) :=
  [(storageKey firstVersion groupStateStorageLabel [255], [1]),
    (storageKey firstVersion epochSecretsLabel.bytes [66], [2]), (ascii "Psk".toList, [3])]

/-- A group of id `A`, one whose id is the byte FF, and the secrets of a group `B` that is none. -/
def storedEntries : List (Bytes × Bytes) :=
  (storageKey firstVersion groupStateStorageLabel [65], [4]) ::
    (storageKey firstVersion epochSecretsLabel.bytes [65], [5]) :: keptEntries

theorem storedEntries_formed : ∀ entry ∈ storedEntries,
    IsDeviceWide entry.1 ∨ ∃ groupId, BelongsTo firstVersion groupId entry.1 := by
  simp only [storedEntries, keptEntries, List.forall_mem_cons]
  refine ⟨.inr ⟨_, groupStateLabel, rfl⟩, .inr ⟨_, epochSecretsLabel, rfl⟩,
    .inr ⟨_, groupStateLabel, rfl⟩, .inr ⟨_, epochSecretsLabel, rfl⟩, .inl ?_, nofun⟩
  exact ⟨ascii "Psk".toList, by decide, List.prefix_rfl⟩

def entries (values : List (Bytes × Bytes)) (h : values.Sublist storedEntries) :
    Storage firstVersion where
  values := values
  distinct := by
    have hall : (storedEntries.map Prod.fst).Nodup := by decide
    exact hall.sublist (h.map _)
  formed key hkey := by
    obtain ⟨entry, hentry, rfl⟩ := List.mem_map.mp hkey
    exact storedEntries_formed entry (h.subset hentry)

/-- A group loads where its state is stored, and its deletion takes the state. -/
def memory : Provider firstVersion where
  deserialize bytes :=
    if bytes = [0] then .ok ⟨entries storedEntries (.refl _), none, none⟩
    else if bytes = [1] then .ok ⟨entries keptEntries (by simp [storedEntries]), none, none⟩
    else .error "invalid state"
  serialize state :=
    if state.storageValues.values = keptEntries ∧ state.signer = none ∧ state.credential = none then
      .ok [1]
    else .error "no room"
  load storage groupId :=
    .ok (storage.keys.contains (storageKey firstVersion groupStateStorageLabel groupId))
  delete storage groupId :=
    .ok (storage.retain (· ≠ storageKey firstVersion groupStateStorageLabel groupId))

theorem memory_lawful : memory.Lawful where
  serialize state bytes h := by
    simp only [memory] at h
    split at h
    · rename_i hstate
      obtain rfl := Except.ok.inj h
      obtain ⟨hvalues, hsigner, hcredential⟩ := hstate
      obtain ⟨⟨values, distinct, formed⟩, signer, credential⟩ := state
      obtain rfl := hvalues
      obtain rfl := hsigner
      obtain rfl := hcredential
      exact ⟨by simp, rfl⟩
    · cases h
  delete storage groupId storage' h := by
    obtain rfl := Except.ok.inj h
    simp only [Storage.retain, List.mem_filter]
    refine ⟨fun entry => And.left, fun entry hentry hother => ⟨hentry, ?_⟩⟩
    rw [decide_eq_true_iff]
    exact fun hkey => hother ⟨groupStateLabel, hkey⟩
  load storage groupId h := by
    refine congrArg Except.ok (Bool.eq_false_iff.mpr fun hkey => ?_)
    exact h _ (List.contains_iff_mem.mp hkey) ⟨groupStateLabel, rfl⟩

theorem delete_group_stored :
    DeletesOnly memory [0] ⟨entries storedEntries (.refl _), none, none⟩ [65] :=
  delete_group_deletes_only memory_lawful rfl [65]

/-- The secrets of `B` stay, and no listed id is the byte FF. -/
theorem delete_group_leaves_entries :
    memory.Lawful ∧
      loadDeviceState memory [0] = .ok ⟨entries storedEntries (.refl _), none, none⟩ ∧
      deleteGroup memory [0] [66] = .ok [0] ∧
      (∃ entry ∈ storedEntries, BelongsTo firstVersion [66] entry.1) ∧
      storageKey firstVersion groupStateStorageLabel [255] ∈ storedEntries.map Prod.fst ∧
      ∀ ids, groupIds memory [0] = .ok ids → ∀ text ∈ ids, utf8 text ≠ [255] := by
  have hnone : ∀ text, utf8 text ≠ [255] := by
    intro text htext
    have hread := fromUtf8Lossy_utf8 text
    rw [htext] at hread
    rw [← hread] at htext
    revert htext
    decide
  refine ⟨memory_lawful, rfl, deleteGroup_missing rfl (by rfl), ?_, ?_,
    fun _ _ text _ => hnone text⟩
  · exact ⟨(storageKey firstVersion epochSecretsLabel.bytes [66], [2]), by
      simp [storedEntries, keptEntries], epochSecretsLabel, rfl⟩
  · simp [storedEntries, keptEntries]

end SpecterComs.GroupStorage
