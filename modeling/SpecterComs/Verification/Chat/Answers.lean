import SpecterComs.Verification.Chat.Merge
import SpecterComs.Verification.Chat.Since

/-! # What an answer brings

An answer's copies are readable rows of the responder after the time asked for. Merging
them makes each of their messages readable and leaves every other row as it was.
-/

namespace SpecterComs.Chat

/-! ## Bundles -/

section

variable {byteLength : BundleItem → ℕ} {maxBytes : ℕ} {items : List BundleItem}

/-- An item without its image where it is too large with it. -/
def fitted (byteLength : BundleItem → ℕ) (maxBytes : ℕ) (item : BundleItem) : BundleItem :=
  if maxBytes < bundleOverhead + (byteLength item + 1) ∧ item.imageUrl.any (· ≠ "") then
    { item with imageUrl := none }
  else item

/-- What is sent of an item, if anything. -/
def sent (byteLength : BundleItem → ℕ) (maxBytes : ℕ) (item : BundleItem) : Option BundleItem :=
  if bundleOverhead + (byteLength (fitted byteLength maxBytes item) + 1) ≤ maxBytes then
    some (fitted byteLength maxBytes item)
  else none

def Chunking.all (c : Chunking) : List BundleItem :=
  c.done.flatten ++ c.current

theorem chunkItem_items {c : Chunking} {item : BundleItem} :
    (chunkItem byteLength maxBytes c item).all =
      c.all ++ (sent byteLength maxBytes item).toList := by
  simp only [chunkItem]
  generalize hkept : (if maxBytes < bundleOverhead + (byteLength item + 1) ∧
    item.imageUrl.any (· ≠ "") then { item with imageUrl := none } else item) = kept
  have hfitted : fitted byteLength maxBytes item = kept := hkept
  rw [sent, hfitted]
  by_cases hskip : maxBytes < bundleOverhead + (byteLength kept + 1)
  · rw [if_pos hskip, if_neg (by omega)]
    simp
  · have hfits : bundleOverhead + (byteLength kept + 1) ≤ maxBytes := by omega
    rw [if_neg hskip, if_pos hfits]
    split_ifs with hfull
    · simp [Chunking.all]
    · simp [Chunking.all]

theorem foldl_chunkItem {c : Chunking} :
    (items.foldl (chunkItem byteLength maxBytes) c).all =
      c.all ++ items.filterMap (sent byteLength maxBytes) := by
  induction items generalizing c with
  | nil => simp
  | cons item items ih =>
      rw [List.foldl_cons, ih, chunkItem_items, List.filterMap_cons]
      cases sent byteLength maxBytes item with
      | none => simp
      | some kept => simp

/-- The items of all chunks, in order. -/
theorem flatten_chunkBundle :
    (chunkBundle byteLength items maxBytes).flatten =
      items.filterMap (sent byteLength maxBytes) := by
  have hall : (chunkBundle byteLength items maxBytes).flatten =
      (items.foldl (chunkItem byteLength maxBytes) ⟨[], [], bundleOverhead⟩).all := by
    simp only [chunkBundle, Chunking.all]
    split_ifs with h
    · simp [h]
    · simp
  rw [hall, foldl_chunkItem]
  simp [Chunking.all]

theorem sent_fields {item kept : BundleItem} (h : sent byteLength maxBytes item = some kept) :
    kept.id = item.id ∧ kept.timestamp = item.timestamp ∧ kept.text = item.text := by
  unfold sent at h
  split_ifs at h
  obtain rfl := Option.some.inj h
  unfold fitted
  split_ifs
  · exact ⟨rfl, rfl, rfl⟩
  · exact ⟨rfl, rfl, rfl⟩

end

variable {platform : Platform} {byteLength : BundleItem → ℕ}

/-! ## The copies of an answer -/

/-- The copies the requester merges, of all bundles. -/
def page (platform : Platform) (relayedBy : Option String) (now channelId : String)
    (bundles : List (List BundleItem)) : List (Incoming ChannelExtra) :=
  bundles.flatMap (parseBundle platform channelId relayedBy now)

/-- A copy of a readable row. -/
structure CopyOf (row : ChannelRow) (copy : Incoming ChannelExtra) : Prop where
  key : copy.msg.key = some (row.id, row.timestamp)
  readable : row.isReadable
  text : copy.msg.plaintext = row.plaintext

variable {channelId now : String} {relayedBy since : Option String} {copy : Incoming ChannelExtra}

theorem parseItem_eq_some {item : BundleItem}
    (h : parseItem platform channelId relayedBy now item = some copy) :
    ∃ id timestamp text, item.id = some id ∧ item.timestamp = some timestamp ∧
      item.text = some text ∧ copy.msg.key = some (id, timestamp) ∧
      copy.msg.plaintext = some text := by
  unfold parseItem at h
  obtain ⟨id, hid, h⟩ := Option.bind_eq_some_iff.mp h
  obtain ⟨timestamp, htimestamp, h⟩ := Option.bind_eq_some_iff.mp h
  obtain ⟨text, htext, h⟩ := Option.bind_eq_some_iff.mp h
  obtain ⟨t, -, h⟩ := Option.bind_eq_some_iff.mp h
  obtain ⟨hid, hidne⟩ := Option.filter_eq_some_iff.mp hid
  obtain ⟨htimestamp, htimestampne⟩ := Option.filter_eq_some_iff.mp htimestamp
  refine ⟨id, timestamp, text, (Option.filter_eq_some_iff.mp hid).1,
    (Option.filter_eq_some_iff.mp htimestamp).1, (Option.filter_eq_some_iff.mp htext).1, ?_, ?_⟩
  · cases h
    have hid' : id ≠ "" := by simpa using hidne
    have htimestamp' : timestamp ≠ "" := by simpa using htimestampne
    simp [Msg.key, Option.filter, hid', htimestamp']
  · cases h
    rfl

/-- What is asked for is after the time asked for. -/
def After (since : Option String) (timestamp : String) : Prop :=
  ∀ asked ∈ since.filter (· ≠ ""), before asked timestamp

theorem selectReplyRows_spec {rows : List ChannelRow} {max : ℕ} :
    (selectReplyRows platform rows since max).length ≤ max ∧
      ∀ row ∈ selectReplyRows platform rows since max,
        row ∈ rows ∧ row.isReadable ∧ After since row.timestamp := by
  unfold selectReplyRows After
  simp only
  cases hsince : since.filter (· ≠ "") with
  | none =>
      refine ⟨?_, fun row hrow => ?_⟩
      · simp only [lastOf, List.length_drop]
        omega
      · have hmem := mem_sortByTimestamp.mp (mem_lastOf hrow)
        obtain ⟨hrow, hreadable⟩ := List.mem_filter.mp hmem
        exact ⟨hrow, hreadable, by simp⟩
  | some asked =>
      refine ⟨by simp, fun row hrow => ?_⟩
      obtain ⟨hmem, hafter⟩ := List.mem_filter.mp (List.mem_of_mem_take hrow)
      obtain ⟨hrow, hreadable⟩ := List.mem_filter.mp (mem_sortByTimestamp.mp hmem)
      exact ⟨hrow, hreadable, by simpa using hafter⟩

variable {s peer : ChannelStore} {row : ChannelRow}

theorem mem_indexRange {above : Option String} (h : row ∈ indexRange s channelId above) :
    row ∈ channelRows s channelId := by
  have hmem := List.mem_mergeSort.mp h
  simp only [List.mem_filter, Bool.and_eq_true, beq_iff_eq] at hmem
  exact mem_channelRows.mpr ⟨hmem.1, hmem.2.1.1⟩

/-- No bundle has more items than a reader takes. -/
theorem page_eq {bundles : List (List BundleItem)} (h : bundles.flatten.length ≤ syncReplyMax) :
    page platform relayedBy now channelId bundles =
      bundles.flatten.filterMap (parseItem platform channelId relayedBy now) := by
  induction bundles with
  | nil => rfl
  | cons bundle bundles ih =>
      rw [List.flatten_cons, List.length_append] at h
      rw [page, List.flatMap_cons, List.flatten_cons, List.filterMap_append, parseBundle,
        List.take_of_length_le (by omega)]
      exact congrArg _ (ih (by omega))

/-- The rows an answer is chosen from. -/
def scanned (platform : Platform) (peer : ChannelStore) (channelId : String)
    (since : Option String) : List ChannelRow :=
  match since.filter (· ≠ "") with
  | some since => getChannelMessagesSince platform peer channelId since (syncReplyMax * 3)
  | none => getChannelMessages platform peer channelId (syncReplyMax * 2)

def chosen (platform : Platform) (peer : ChannelStore) (channelId : String)
    (since : Option String) : List ChannelRow :=
  selectReplyRows platform (scanned platform peer channelId since) since syncReplyMax

theorem mem_chosen (h : row ∈ chosen platform peer channelId since) :
    row ∈ channelRows peer channelId ∧ row.isReadable ∧ After since row.timestamp := by
  obtain ⟨hmem, hreadable, hafter⟩ := selectReplyRows_spec.2 row h
  refine ⟨?_, hreadable, hafter⟩
  unfold scanned at hmem
  cases hsince : since.filter (· ≠ "") with
  | none =>
      rw [hsince] at hmem
      exact mem_indexRange (mem_sortByTimestamp.mp (mem_lastOf hmem))
  | some asked =>
      rw [hsince] at hmem
      exact mem_indexRange (mem_sortByTimestamp.mp (List.mem_of_mem_take hmem))

/-- The copy of a row that arrives, if any. -/
def arrival (platform : Platform) (byteLength : BundleItem → ℕ) (relayedBy : Option String)
    (now channelId : String) (row : ChannelRow) : Option (Incoming ChannelExtra) :=
  (sent byteLength bundleMaxBytes (toBundleItem row)).bind
    (parseItem platform channelId relayedBy now)

theorem page_answer :
    page platform relayedBy now channelId
        (answerOrgSync platform byteLength peer channelId since) =
      (chosen platform peer channelId since).filterMap
        (arrival platform byteLength relayedBy now channelId) := by
  have hanswer : answerOrgSync platform byteLength peer channelId since =
      chunkBundle byteLength ((chosen platform peer channelId since).map toBundleItem)
        bundleMaxBytes := rfl
  have hlength : (chunkBundle byteLength ((chosen platform peer channelId since).map toBundleItem)
      bundleMaxBytes).flatten.length ≤ syncReplyMax := by
    rw [flatten_chunkBundle]
    calc _ ≤ ((chosen platform peer channelId since).map toBundleItem).length :=
          List.length_filterMap_le _ _
      _ ≤ syncReplyMax := by
          rw [List.length_map]
          exact selectReplyRows_spec.1
  rw [hanswer, page_eq hlength, flatten_chunkBundle, List.filterMap_filterMap,
    List.filterMap_map]
  rfl

theorem arrival_spec (h : arrival platform byteLength relayedBy now channelId row = some copy) :
    copy.msg.key = some (row.id, row.timestamp) ∧ copy.msg.plaintext = row.plaintext := by
  obtain ⟨item, hitem, hcopy⟩ := Option.bind_eq_some_iff.mp h
  obtain ⟨hitemid, hitemtime, hitemtext⟩ := sent_fields hitem
  obtain ⟨id, timestamp, text, hid, htimestamp, htext, hkey, hplain⟩ := parseItem_eq_some hcopy
  have hid : row.id = id := Option.some.inj (hitemid.symm.trans hid)
  have htimestamp : row.timestamp = timestamp := Option.some.inj (hitemtime.symm.trans htimestamp)
  rw [hid, htimestamp]
  exact ⟨hkey, by rw [hplain, ← htext, hitemtext]; rfl⟩

/-- The copies of an answer: at most a page of the responder's readable rows that were
asked for. -/
theorem page_spec {peer : ChannelStore} {channelId now : String} {relayedBy since : Option String} :
    (page platform relayedBy now channelId
      (answerOrgSync platform byteLength peer channelId since)).length ≤ syncReplyMax ∧
    ∀ copy ∈ page platform relayedBy now channelId
        (answerOrgSync platform byteLength peer channelId since),
      ∃ row ∈ channelRows peer channelId, CopyOf row copy ∧ After since row.timestamp := by
  rw [page_answer]
  constructor
  · exact (List.length_filterMap_le _ _).trans selectReplyRows_spec.1
  · intro copy hcopy
    obtain ⟨row, hrow, hcopy⟩ := List.mem_filterMap.mp hcopy
    obtain ⟨hmem, hreadable, hafter⟩ := mem_chosen hrow
    obtain ⟨hkey, htext⟩ := arrival_spec hcopy
    exact ⟨row, hmem, ⟨hkey, hreadable, htext⟩, hafter⟩

/-! ## Merging readable copies -/

/-- The message can be read. -/
def Held (s : ChannelStore) (id : String) : Prop :=
  ∃ text, s.cell id = .filled text

theorem Store.get_eq_some_iff : s.get row.id = some row ↔ row ∈ s.rows := by
  constructor
  · exact fun h => List.mem_of_find?_eq_some h
  · intro h
    unfold Store.get
    cases hfind : s.rows.find? fun other => other.id == row.id with
    | none => simpa using List.find?_eq_none.mp hfind row h
    | some other =>
        have hid : other.id = row.id := by simpa using List.find?_some hfind
        have hmem : other ∈ s.rows := List.mem_of_find?_eq_some hfind
        rw [List.inj_on_of_nodup_map s.nodup hmem h hid]

theorem held_of_mem (h : row ∈ s.rows) (hreadable : row.isReadable) : Held s row.id := by
  obtain ⟨text, htext⟩ := Option.isSome_iff_exists.mp hreadable
  exact ⟨text, by simp [Store.cell, Store.get_eq_some_iff.mpr h, cellOf, htext]⟩

theorem exists_row_of_held {id : String} (h : Held s id) :
    ∃ row ∈ s.rows, row.id = id ∧ row.isReadable := by
  obtain ⟨text, htext⟩ := h
  unfold Store.cell at htext
  cases hget : s.get id with
  | none => simp [hget, cellOf] at htext
  | some row =>
      have hid := Store.get_eq_some hget
      refine ⟨row, Store.get_eq_some_iff.mp (hid ▸ hget), hid, ?_⟩
      rw [hget] at htext
      cases hplain : row.plaintext with
      | none => simp [cellOf, hplain] at htext
      | some text' => simp [Row.isReadable, hplain]

/-- All copies of a run are readable, and its batches are for one channel. -/
def Readable (channelId : String) (run : List (Batch ChannelExtra)) : Prop :=
  ∀ b ∈ run, b.fixed = some channelId ∧
    ∀ incoming ∈ b.copies, incoming.msg.plaintext.isSome

theorem keyed_readable {b : Batch ChannelExtra} (hfixed : b.fixed = some channelId)
    (h : ∀ incoming ∈ b.copies, incoming.msg.plaintext.isSome) :
    ∀ copy ∈ b.keyed, (textOf copy).isSome ∧ copy.1.msg.place = some channelId ∧
      ∃ incoming ∈ b.copies, incoming.msg.key = some copy.2 := by
  intro copy hcopy
  obtain ⟨incoming, hincoming, hmap⟩ := List.mem_filterMap.mp hcopy
  obtain ⟨key, hkey, rfl⟩ := Option.map_eq_some_iff.mp hmap
  refine ⟨h incoming hincoming, by simp [hfixed], incoming, hincoming, hkey⟩

theorem orderly_of_readable {copies : List (Incoming ChannelExtra × (String × String))}
    (h : ∀ copy ∈ copies, (textOf copy).isSome) : Orderly s copies := by
  rw [Orderly, List.pairwise_iff_forall_sublist]
  intro first second hsub _ _ hnone
  have hsecond := h second (hsub.mem (by simp))
  simp [hnone] at hsecond

variable {run : List (Batch ChannelExtra)}

theorem eachBatch_orderly (h : Readable channelId run) :
    EachBatch (fun s b => Orderly s b.keyed) s run := by
  induction run generalizing s with
  | nil => trivial
  | cons b run ih =>
      obtain ⟨hfixed, hb⟩ := h b (by simp)
      exact ⟨orderly_of_readable fun copy hcopy => (keyed_readable hfixed hb copy hcopy).1,
        ih fun b' hb' => h b' (List.mem_cons_of_mem _ hb')⟩

/-- A message is held after a run of readable copies where it was before or one of them
is its. -/
theorem held_writeAll {s : ChannelStore} {channelId : String} {run : List (Batch ChannelExtra)}
    (h : Readable channelId run) (hagree : ∀ id, Cell.Agree (textsOf id (handed run)))
    {id : String} :
    Held (writeAll s run) id ↔
      Held s id ∨ ∃ msg ∈ handed run, msg.key.any fun key => key.1 == id := by
  unfold Held
  rw [cell_writeAll hagree (eachBatch_orderly h)]
  by_cases hfilled : ∃ text, s.cell id = .filled text
  · obtain ⟨text, htext⟩ := hfilled
    simp [htext]
  · have hopen : ∀ text, s.cell id ≠ .filled text := fun text htext => hfilled ⟨text, htext⟩
    constructor
    · rintro ⟨text, htext⟩
      have hmem := Cell.mem_of_absorbAll_eq_filled hopen htext
      obtain ⟨msg, hmsg, -⟩ := List.mem_map.mp hmem
      obtain ⟨hmsg, hkey⟩ := List.mem_filter.mp hmsg
      exact .inr ⟨msg, hmsg, hkey⟩
    · rintro (hheld | ⟨msg, hmsg, hkey⟩)
      · exact absurd hheld hfilled
      · obtain ⟨b, hb, hin⟩ := List.mem_flatMap.mp hmsg
        obtain ⟨incoming, hincoming, rfl⟩ := List.mem_map.mp hin
        obtain ⟨text, htext⟩ := Option.isSome_iff_exists.mp ((h b hb).2 incoming hincoming)
        refine ⟨text, Cell.absorbAll_eq_filled (hagree id) ?_ hopen⟩
        rw [← htext]
        exact List.mem_map.mpr ⟨incoming.msg, List.mem_filter.mpr ⟨hmsg, hkey⟩, rfl⟩

/-- What a readable copy writes. -/
theorem writeOf_readable {copy : Incoming ChannelExtra × (String × String)}
    (h : writeOf s copy = some row) (hreadable : (textOf copy).isSome)
    (hplace : copy.1.msg.place = some channelId) :
    row.timestamp = copy.2.2 ∧ row.place = some channelId ∧ row.isReadable := by
  have htext : copy.1.msg.plaintext.isSome := hreadable
  unfold writeOf mergeRow mergeNormalized at h
  cases hget : s.get copy.2.1 with
  | none =>
      rw [hget] at h
      cases h
      exact ⟨rfl, by simp [normalizeRow, hplace], htext⟩
  | some existing =>
      rw [hget] at h
      simp only at h
      split_ifs at h with hexisting hnext
      · cases h
        exact ⟨rfl, by simp [normalizeRow, hplace], htext⟩
      · exact absurd htext hnext

/-- A row after a run of readable copies was there before, or it is new and one of
them. -/
theorem mem_writeAll {s : ChannelStore} {channelId : String} {run : List (Batch ChannelExtra)}
    (h : Readable channelId run) {row : ChannelRow} (hrow : row ∈ (writeAll s run).rows) :
    row ∈ s.rows ∨ ((∃ msg ∈ handed run, msg.key = some (row.id, row.timestamp)) ∧
      row.place = some channelId ∧ row.isReadable) := by
  induction run generalizing s with
  | nil => exact .inl hrow
  | cons b run ih =>
      obtain ⟨hfixed, hb⟩ := h b (by simp)
      rcases ih (fun b' hb' => h b' (List.mem_cons_of_mem _ hb')) hrow with
        hmem | ⟨⟨msg, hmsg, hkey⟩, hrest⟩
      · have hget := Store.get_eq_some_iff.mpr hmem
        rw [get_mergeRowsInto] at hget
        rcases Option.or_eq_some_iff.mp hget with hwrite | ⟨-, hold⟩
        · obtain ⟨copy, hcopy, hwrite⟩ := List.mem_filterMap.mp (List.mem_of_getLast? hwrite)
          obtain ⟨hcopy, hid⟩ := mem_copiesOf.mp hcopy
          obtain ⟨hreadable, hplace, incoming, hincoming, hkey⟩ :=
            keyed_readable hfixed hb copy hcopy
          obtain ⟨htime, hrest⟩ := writeOf_readable hwrite hreadable hplace
          refine .inr ⟨⟨incoming.msg, ?_, ?_⟩, hrest⟩
          · exact List.mem_flatMap.mpr ⟨b, by simp, List.mem_map.mpr ⟨incoming, hincoming, rfl⟩⟩
          · rw [hkey, ← hid, htime]
        · exact .inl (Store.get_eq_some_iff.mp hold)
      · refine .inr ⟨⟨msg, ?_, hkey⟩, hrest⟩
        rw [handed_cons]
        exact List.mem_append_right _ hmsg

/-- A row none of the copies is about stays. -/
theorem mem_writeAll_of_mem (hrow : row ∈ s.rows)
    (hother : ∀ msg ∈ handed run, ∀ key ∈ msg.key, key.1 ≠ row.id) :
    row ∈ (writeAll s run).rows := by
  induction run generalizing s with
  | nil => exact hrow
  | cons b run ih =>
      refine ih ?_ fun msg hmsg => hother msg ?_
      · rw [← Store.get_eq_some_iff, get_mergeRowsInto]
        have hnone : copiesOf row.id (keyed b.fixed b.copies) = [] := by
          rw [List.eq_nil_iff_forall_not_mem]
          intro copy hcopy
          obtain ⟨hcopy, hid⟩ := mem_copiesOf.mp hcopy
          obtain ⟨incoming, hincoming, hmap⟩ := List.mem_filterMap.mp hcopy
          obtain ⟨key, hkey, rfl⟩ := Option.map_eq_some_iff.mp hmap
          refine hother incoming.msg ?_ key hkey hid
          rw [handed_cons]
          exact List.mem_append_left _ (List.mem_map.mpr ⟨incoming, hincoming, rfl⟩)
        rw [hnone]
        exact Store.get_eq_some_iff.mpr hrow
      · rw [handed_cons]
        exact List.mem_append_right _ hmsg

end SpecterComs.Chat
