import Mathlib.Data.List.Lex
import SpecterComs.Library.Rank
import SpecterComs.Verification.Chat.Answers

/-! # Which rows an answer brings

The rows are read in the order of the index. Which of them an answer brings is a matter of
how many of the rows asked for come before.
-/

namespace SpecterComs.Chat

/-! ## Strings are ordered -/

/-- The code units of one character. -/
def units (c : Char) : List ℕ :=
  if c.toNat < 0x10000 then [c.toNat]
  else [0xD800 + (c.toNat - 0x10000) / 0x400, 0xDC00 + (c.toNat - 0x10000) % 0x400]

theorem toNat_valid (c : Char) : c.toNat < 0xD800 ∨ 0xDFFF < c.toNat ∧ c.toNat < 0x110000 :=
  c.valid

/-- Code units that start with those of a character tell it: no character is a surrogate. -/
theorem units_append_inj {c d : Char} {ns ms : List ℕ} (h : units c ++ ns = units d ++ ms) :
    c = d ∧ ns = ms := by
  have hc := toNat_valid c
  have hd := toNat_valid d
  have hsame : c.toNat = d.toNat → c = d := fun heq => Char.ext (UInt32.toNat_inj.mp heq)
  unfold units at h
  split_ifs at h with hsmallc hsmalld hsmalld
  · obtain ⟨hunit, hrest⟩ := List.cons_eq_cons.mp h
    exact ⟨hsame hunit, hrest⟩
  · obtain ⟨hunit, -⟩ := List.cons_eq_cons.mp h
    omega
  · obtain ⟨hunit, -⟩ := List.cons_eq_cons.mp h
    omega
  · obtain ⟨hhigh, hrest⟩ := List.cons_eq_cons.mp h
    obtain ⟨hlow, hrest⟩ := List.cons_eq_cons.mp hrest
    exact ⟨hsame (by omega), hrest⟩

theorem units_ne_nil (c : Char) : units c ≠ [] := by
  unfold units
  split_ifs <;> simp

theorem utf16_inj {a b : String} (h : utf16 a = utf16 b) : a = b := by
  have hunits : ∀ cs ds : List Char, cs.flatMap units = ds.flatMap units → cs = ds := by
    intro cs
    induction cs with
    | nil =>
        intro ds h
        cases ds with
        | nil => rfl
        | cons d ds =>
            rw [List.flatMap_cons] at h
            exact absurd (List.append_eq_nil_iff.mp h.symm).1 (units_ne_nil d)
    | cons c cs ih =>
        intro ds h
        cases ds with
        | nil =>
            rw [List.flatMap_cons] at h
            exact absurd (List.append_eq_nil_iff.mp h).1 (units_ne_nil c)
        | cons d ds =>
            obtain ⟨rfl, hrest⟩ := units_append_inj h
            rw [ih ds hrest]
  exact String.toList_inj.mp (hunits _ _ h)

theorem before_irrefl (a : String) : before a a = false := by
  simp [before]

theorem before_asymm {a b : String} (h : before a b) : before b a = false := by
  simp only [before, decide_eq_true_eq, decide_eq_false_iff_not] at h ⊢
  exact h.asymm

/-! ## The order of the index -/

variable {platform : Platform} {byteLength : BundleItem → ℕ} {peer : ChannelStore}
  {channelId : String} {since : Option String}

/-- By timestamp, then by id. -/
def precedes (platform : Platform) (a b : ChannelRow) : Bool :=
  a.time platform < b.time platform ||
    (a.time platform == b.time platform && before a.id b.id)

theorem precedes_irrefl (row : ChannelRow) : precedes platform row row = false := by
  simp [precedes, before_irrefl]

theorem precedes_asymm (a b : ChannelRow) (h : precedes platform a b) :
    precedes platform b a = false := by
  simp only [precedes, Bool.or_eq_true, Bool.and_eq_true, decide_eq_true_eq, beq_iff_eq,
    Bool.or_eq_false_iff, Bool.and_eq_false_iff, decide_eq_false_iff_not, beq_eq_false_iff_ne] at h ⊢
  rcases h with hlt | ⟨heq, hid⟩
  · exact ⟨by omega, .inl (by omega)⟩
  · exact ⟨by omega, .inr (before_asymm hid)⟩

/-- What the index sorts by. -/
def indexLe (a b : ChannelRow) : Bool :=
  before a.timestamp b.timestamp ||
    (!before b.timestamp a.timestamp && !before b.id a.id)

theorem indexLe_total (a b : ChannelRow) : indexLe a b || indexLe b a := by
  simp only [indexLe, before, Bool.or_eq_true, Bool.and_eq_true, decide_eq_true_eq,
    Bool.not_eq_true', decide_eq_false_iff_not, not_lt]
  rcases lt_trichotomy (utf16 a.timestamp) (utf16 b.timestamp) with h | h | h
  · exact .inl (.inl h)
  · rcases le_total (utf16 a.id) (utf16 b.id) with hid | hid
    · exact .inl (.inr ⟨h.le, hid⟩)
    · exact .inr (.inr ⟨h.ge, hid⟩)
  · exact .inr (.inl h)

theorem indexLe_trans (a b c : ChannelRow) (hab : indexLe a b) (hbc : indexLe b c) :
    indexLe a c := by
  simp only [indexLe, before, Bool.or_eq_true, Bool.and_eq_true, decide_eq_true_eq,
    Bool.not_eq_true', decide_eq_false_iff_not, not_lt] at hab hbc ⊢
  rcases hab with hab | ⟨hab, hidab⟩
  · rcases hbc with hbc | ⟨hbc, -⟩
    · exact .inl (hab.trans hbc)
    · exact .inl (hab.trans_le hbc)
  · rcases hbc with hbc | ⟨hbc, hidbc⟩
    · exact .inl (hab.trans_lt hbc)
    · exact .inr ⟨hab.trans hbc, hidab.trans hidbc⟩

theorem precedes_of_indexLe (hp : platform.Lawful) {a b : ChannelRow} (ha : Dated a.timestamp)
    (hb : Dated b.timestamp) (hid : a.id ≠ b.id) (h : indexLe a b) : precedes platform a b := by
  simp only [indexLe, Bool.or_eq_true, Bool.and_eq_true, Bool.not_eq_true'] at h
  simp only [precedes, Bool.or_eq_true, Bool.and_eq_true, decide_eq_true_eq, beq_iff_eq]
  rcases h with hbefore | ⟨hnot, hnotid⟩
  · exact .inl ((before_iff hp ha hb).mp hbefore)
  · have hle : ¬b.time platform < a.time platform := by
      intro hlt
      rw [(before_iff hp hb ha).mpr hlt] at hnot
      cases hnot
    rcases Int.lt_or_eq_of_le (not_lt.mp hle) with hlt | heq
    · exact .inl hlt
    · refine .inr ⟨heq, ?_⟩
      simp only [before, decide_eq_true_eq, decide_eq_false_iff_not, not_lt] at hnotid ⊢
      exact lt_of_le_of_ne hnotid fun hsame => hid (utf16_inj hsame)

/-- The rows of the channel a request asks for. -/
def askedRows (peer : ChannelStore) (channelId : String) (since : Option String) :
    List ChannelRow :=
  (channelRows peer channelId).filter fun row =>
    (since.filter (· ≠ "")).all fun asked => before asked row.timestamp

theorem mem_askedRows {row : ChannelRow} :
    row ∈ askedRows peer channelId since ↔
      row ∈ channelRows peer channelId ∧ After since row.timestamp := by
  unfold askedRows After
  rw [List.mem_filter, Option.all_eq_true]
  rfl

/-- Reading the index gives the rows asked for, in their order. -/
theorem indexRange_sorted (hp : platform.Lawful) (h : AllDated (channelRows peer channelId)) :
    (indexRange peer channelId (since.filter (· ≠ ""))).Perm (askedRows peer channelId since) ∧
      (indexRange peer channelId (since.filter (· ≠ ""))).Pairwise fun a b =>
        precedes platform a b := by
  have hperm : (indexRange peer channelId (since.filter (· ≠ ""))).Perm
      (askedRows peer channelId since) := by
    refine (List.mergeSort_perm _ _).trans (List.Perm.of_eq ?_)
    rw [askedRows, channelRows, List.filter_filter]
    apply List.filter_congr
    intro row hrow
    by_cases hplace : row.place = some channelId
    · simp [hplace, not_before_end (h row (mem_channelRows.mpr ⟨hrow, hplace⟩))]
    · have hother : (row.place == some channelId) = false := by simpa using hplace
      simp only [hother, Bool.false_and, Bool.and_false]
  refine ⟨hperm, ?_⟩
  have hsorted : (indexRange peer channelId (since.filter (· ≠ ""))).Pairwise fun a b =>
      indexLe a b := List.pairwise_mergeSort indexLe_trans indexLe_total _
  have hnodup : (indexRange peer channelId (since.filter (· ≠ ""))).Pairwise fun a b =>
      a.id ≠ b.id := by
    rw [← List.pairwise_map, ← List.Nodup]
    exact (hperm.map _).nodup_iff.mpr
      (peer.nodup.sublist ((List.filter_sublist.trans List.filter_sublist).map _))
  have hdates : ∀ row ∈ indexRange peer channelId (since.filter (· ≠ "")),
      Dated row.timestamp := fun row hrow => h row (mem_askedRows.mp (hperm.mem_iff.mp hrow)).1
  refine (hsorted.and hnodup).imp_of_mem fun ha hb hab => ?_
  exact precedes_of_indexLe hp (hdates _ ha) (hdates _ hb) hab.2 hab.1

theorem sortByTimestamp_of_sorted (hp : platform.Lawful) {rows : List ChannelRow}
    (hdated : AllDated rows) (hsorted : rows.Pairwise fun a b => precedes platform a b) :
    sortByTimestamp platform rows = rows := by
  apply List.mergeSort_of_pairwise
  refine hsorted.imp_of_mem fun {a b} ha hb hab => ?_
  obtain ⟨hta, heqa⟩ := (hdated a ha).stamp hp
  obtain ⟨htb, heqb⟩ := (hdated b hb).stamp hp
  have hle : a.time platform ≤ b.time platform := by
    simp only [precedes, Bool.or_eq_true, Bool.and_eq_true, decide_eq_true_eq, beq_iff_eq] at hab
    omega
  rw [heqa, heqb, hp.compare _ _ hta htb, bne_iff_ne, ne_eq, compare_gt_iff_gt, not_lt]
  exact hle

/-! ## The rows chosen -/

/-- The oldest rows come first where a time is asked for, else the newest. -/
def answerOrder (platform : Platform) (since : Option String) : ChannelRow → ChannelRow → Bool :=
  if (since.filter (· ≠ "")).isSome then precedes platform else flip (precedes platform)

def scanMax (since : Option String) : ℕ :=
  syncReplyMax * if (since.filter (· ≠ "")).isSome then 3 else 2

/-- A readable row that is asked for, among the first of all these rows and among the
first of the readable ones. -/
structure Chosen (platform : Platform) (peer : ChannelStore) (channelId : String)
    (since : Option String) (row : ChannelRow) : Prop where
  asked : row ∈ askedRows peer channelId since
  readable : row.isReadable
  scanned : rank (answerOrder platform since) row (askedRows peer channelId since) < scanMax since
  paged : rank (answerOrder platform since) row
    ((askedRows peer channelId since).filter Row.isReadable) < syncReplyMax

theorem mem_chosen_iff (hp : platform.Lawful) (h : AllDated (channelRows peer channelId))
    {row : ChannelRow} :
    row ∈ chosen platform peer channelId since ↔ Chosen platform peer channelId since row := by
  obtain ⟨hperm, hsorted⟩ := @indexRange_sorted platform peer channelId since hp h
  have hdates : AllDated (indexRange peer channelId (since.filter (· ≠ ""))) :=
    fun row hrow => h row (mem_askedRows.mp (hperm.mem_iff.mp hrow)).1
  have hparts : ∀ {rows : List ChannelRow},
      rows.Sublist (indexRange peer channelId (since.filter (· ≠ ""))) →
        sortByTimestamp platform rows = rows := fun hsub =>
    sortByTimestamp_of_sorted hp (fun row hrow => hdates row (hsub.mem hrow)) (hsorted.sublist hsub)
  have hranks : Chosen platform peer channelId since row ↔
      row ∈ indexRange peer channelId (since.filter (· ≠ "")) ∧ row.isReadable ∧
        rank (answerOrder platform since) row
          (indexRange peer channelId (since.filter (· ≠ ""))) < scanMax since ∧
        rank (answerOrder platform since) row
          ((indexRange peer channelId (since.filter (· ≠ ""))).filter Row.isReadable) <
            syncReplyMax := by
    rw [hperm.mem_iff, rank_perm hperm, rank_perm (hperm.filter _)]
    constructor
    · exact fun hrow => ⟨hrow.asked, hrow.readable, hrow.scanned, hrow.paged⟩
    · exact fun ⟨hasked, hreadable, hscanned, hpaged⟩ => ⟨hasked, hreadable, hscanned, hpaged⟩
  have hafter : ∀ row ∈ indexRange peer channelId (since.filter (· ≠ "")),
      After since row.timestamp := fun row hrow => (mem_askedRows.mp (hperm.mem_iff.mp hrow)).2
  rw [hranks]
  unfold chosen selectReplyRows scanned getChannelMessagesSince getChannelMessages answerOrder
    scanMax
  unfold After at hafter
  cases hsince : since.filter (· ≠ "") with
  | some asked =>
      have hasked : asked ≠ "" := by simpa using (Option.filter_eq_some_iff.mp hsince).2
      rw [hsince] at hparts hsorted hafter
      simp only [if_neg hasked, Option.isSome_some, if_true]
      rw [hparts (List.Sublist.refl _),
        hparts (List.filter_sublist.trans (List.take_sublist _ _)), List.filter_eq_self.mpr,
        mem_take_filter_take hsorted precedes_irrefl precedes_asymm]
      intro row hrow
      exact hafter row (List.mem_of_mem_take (List.mem_of_mem_filter hrow)) asked rfl
  | none =>
      rw [hsince] at hparts hsorted
      simp only [Option.isSome_none, Bool.false_eq_true, if_false]
      rw [hparts (List.Sublist.refl _), lastOf, lastOf,
        hparts (List.filter_sublist.trans (List.drop_sublist _ _)),
        mem_drop_filter_drop hsorted precedes_irrefl precedes_asymm]

/-! ## The copies that arrive -/

/-- The item of a row fits in a bundle and is within a reader's limits. -/
structure Sendable (byteLength : BundleItem → ℕ) (row : ChannelRow) : Prop where
  size : bundleOverhead + (byteLength (fitted byteLength bundleMaxBytes (toBundleItem row)) + 1) ≤
    bundleMaxBytes
  id : row.id ≠ "" ∧ DeliveryService.jsLength row.id ≤ 128
  timestamp : row.timestamp ≠ "" ∧ DeliveryService.jsLength row.timestamp ≤ 64
  text : ∀ text ∈ row.plaintext, DeliveryService.jsLength text ≤ 20000

theorem parseItem_isSome_iff {relayedBy : Option String} {now id timestamp text : String}
    {item : BundleItem} (hid : item.id = some id) (htime : item.timestamp = some timestamp)
    (htext : item.text = some text) :
    (parseItem platform channelId relayedBy now item).isSome ↔
      (id ≠ "" ∧ DeliveryService.jsLength id ≤ 128) ∧
      (timestamp ≠ "" ∧ DeliveryService.jsLength timestamp ≤ 64) ∧
      DeliveryService.jsLength text ≤ 20000 ∧ (platform.dateParse timestamp).isSome := by
  have hfilter : ∀ (s : String) (max : ℕ), (str (some s) max).filter (· ≠ "") =
      if s ≠ "" ∧ DeliveryService.jsLength s ≤ max then some s else none := by
    intro s max
    simp only [str, Option.filter]
    split_ifs <;> simp_all
  unfold parseItem
  rw [hid, htime, htext, hfilter, hfilter]
  by_cases hidOk : id ≠ "" ∧ DeliveryService.jsLength id ≤ 128
  · by_cases htimeOk : timestamp ≠ "" ∧ DeliveryService.jsLength timestamp ≤ 64
    · by_cases htextOk : DeliveryService.jsLength text ≤ 20000
      · rw [if_pos hidOk, if_pos htimeOk]
        cases hdate : platform.dateParse timestamp with
        | none => simp [str, Option.filter, htextOk, hdate]
        | some t => simp [str, Option.filter, htextOk, hidOk, htimeOk, hdate]
      · simp [str, Option.filter, htextOk]
    · simp [htimeOk]
  · simp [hidOk]

/-- Neither the clock nor who relayed a bundle changes which copies it holds. -/
theorem page_other {relayedBy relayedBy' : Option String} {now now' : String}
    {bundles : List (List BundleItem)} {copy : Incoming ChannelExtra}
    (h : copy ∈ page platform relayedBy now channelId bundles) :
    ∃ copy' ∈ page platform relayedBy' now' channelId bundles,
      copy'.msg.key = copy.msg.key ∧ copy'.msg.plaintext = copy.msg.plaintext := by
  obtain ⟨bundle, hbundle, hcopy⟩ := List.mem_flatMap.mp h
  obtain ⟨item, hitem, hcopy⟩ := List.mem_filterMap.mp hcopy
  obtain ⟨id, timestamp, text, hid, htime, htext, hkey, hplain⟩ := parseItem_eq_some hcopy
  have hsome : (parseItem platform channelId relayedBy' now' item).isSome := by
    rw [parseItem_isSome_iff hid htime htext,
      ← @parseItem_isSome_iff _ _ relayedBy now _ _ _ _ hid htime htext, hcopy]
    rfl
  obtain ⟨copy', hcopy'⟩ := Option.isSome_iff_exists.mp hsome
  obtain ⟨id', timestamp', text', hid', htime', htext', hkey', hplain'⟩ :=
    parseItem_eq_some hcopy'
  obtain rfl := Option.some.inj (hid.symm.trans hid')
  obtain rfl := Option.some.inj (htime.symm.trans htime')
  obtain rfl := Option.some.inj (htext.symm.trans htext')
  exact ⟨copy', List.mem_flatMap.mpr ⟨bundle, hbundle, List.mem_filterMap.mpr ⟨item, hitem, hcopy'⟩⟩,
    hkey'.trans hkey.symm, hplain'.trans hplain.symm⟩

theorem arrives_iff {relayedBy : Option String} {now : String} {row : ChannelRow}
    (hreadable : row.isReadable) (hdate : (platform.dateParse row.timestamp).isSome) :
    (∃ copy, arrival platform byteLength relayedBy now channelId row = some copy) ↔
      Sendable byteLength row := by
  obtain ⟨text, htext⟩ := Option.isSome_iff_exists.mp hreadable
  have hparsed : ∀ item, sent byteLength bundleMaxBytes (toBundleItem row) = some item →
      ((parseItem platform channelId relayedBy now item).isSome ↔
        (row.id ≠ "" ∧ DeliveryService.jsLength row.id ≤ 128) ∧
        (row.timestamp ≠ "" ∧ DeliveryService.jsLength row.timestamp ≤ 64) ∧
        DeliveryService.jsLength text ≤ 20000) := by
    intro item hitem
    obtain ⟨hid, htime, hitemtext⟩ := sent_fields hitem
    rw [parseItem_isSome_iff hid htime (hitemtext.trans htext)]
    simp [hdate]
  rw [← Option.isSome_iff_exists, arrival]
  constructor
  · intro h
    obtain ⟨copy, hcopy⟩ := Option.isSome_iff_exists.mp h
    obtain ⟨item, hitem, hcopy⟩ := Option.bind_eq_some_iff.mp hcopy
    obtain ⟨hid, htime, hlength⟩ := (hparsed item hitem).mp (by rw [hcopy]; rfl)
    refine ⟨?_, hid, htime, by simpa [htext] using hlength⟩
    by_contra hsize
    rw [sent, if_neg hsize] at hitem
    cases hitem
  · intro h
    have hitem : sent byteLength bundleMaxBytes (toBundleItem row) =
        some (fitted byteLength bundleMaxBytes (toBundleItem row)) := if_pos h.size
    rw [hitem, Option.bind_some]
    exact (hparsed _ hitem).mpr ⟨h.id, h.timestamp, h.text text htext⟩

/-- The rows whose copies an answer brings. -/
structure InPage (platform : Platform) (byteLength : BundleItem → ℕ) (peer : ChannelStore)
    (channelId : String) (since : Option String) (row : ChannelRow) : Prop where
  chosen : Chosen platform peer channelId since row
  sendable : Sendable byteLength row

theorem mem_page_iff (hp : platform.Lawful) (h : AllDated (channelRows peer channelId))
    {relayedBy : Option String} {now id timestamp : String} :
    (∃ copy ∈ page platform relayedBy now channelId
        (answerOrgSync platform byteLength peer channelId since),
      copy.msg.key = some (id, timestamp)) ↔
      ∃ row, InPage platform byteLength peer channelId since row ∧ row.id = id ∧
        row.timestamp = timestamp := by
  rw [page_answer]
  have hdate : ∀ row, Chosen platform peer channelId since row →
      (platform.dateParse row.timestamp).isSome := by
    intro row hrow
    rw [(h row (mem_askedRows.mp hrow.asked).1).parse hp]
    rfl
  constructor
  · rintro ⟨copy, hcopy, hkey⟩
    obtain ⟨row, hrow, hcopy⟩ := List.mem_filterMap.mp hcopy
    have hchosen := (mem_chosen_iff hp h).mp hrow
    rw [(arrival_spec hcopy).1] at hkey
    obtain ⟨hid, htime⟩ := Prod.mk.inj (Option.some.inj hkey)
    exact ⟨row, ⟨hchosen, (arrives_iff hchosen.readable (hdate row hchosen)).mp ⟨copy, hcopy⟩⟩,
      hid, htime⟩
  · rintro ⟨row, hrow, rfl, rfl⟩
    obtain ⟨copy, hcopy⟩ :=
      (@arrives_iff platform byteLength channelId relayedBy now row hrow.chosen.readable
        (hdate row hrow.chosen)).mpr hrow.sendable
    exact ⟨copy, List.mem_filterMap.mpr ⟨row, (mem_chosen_iff hp h).mpr hrow.chosen, hcopy⟩,
      (arrival_spec hcopy).1⟩

end SpecterComs.Chat
