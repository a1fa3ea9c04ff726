import Mathlib.Data.Finset.Card
import SpecterComs.Verification.Chat.Pages

/-! # Catch-up from one peer

A device asks, merges the answer and asks again until an answer brings nothing new. What
a page leaves out is asked for again only where nothing the device then holds hides it.
-/

namespace SpecterComs.Chat

section

variable (platform : Platform) (byteLength : BundleItem → ℕ) (relayedBy : Option String)
  (now channelId : String) (peer : ChannelStore)

/-- One request, its answer and the merge, with the rows written. -/
def catchUp (s : ChannelStore) : ChannelStore × List ChannelRow :=
  mergeBundles platform s channelId relayedBy now
    (answerOrgSync platform byteLength peer channelId (sinceOf platform s channelId))

def afterRounds (s : ChannelStore) : ℕ → ChannelStore
  | 0 => s
  | n + 1 => (catchUp platform byteLength relayedBy now channelId peer (afterRounds s n)).1

/-- The copies the next answer brings. -/
def nextPage (s : ChannelStore) : List (Incoming ChannelExtra) :=
  page platform relayedBy now channelId
    (answerOrgSync platform byteLength peer channelId (sinceOf platform s channelId))

/-- The next answer brings nothing new. -/
def Quiet (s : ChannelStore) : Prop :=
  (catchUp platform byteLength relayedBy now channelId peer s).2 = []

/-- A message the responder can read, that is asked for and not held. -/
structure Wanted (s : ChannelStore) (row : ChannelRow) : Prop where
  mem : row ∈ channelRows peer channelId
  readable : row.isReadable
  asked : After (sinceOf platform s channelId) row.timestamp
  missing : ¬Held s row.id

open Classical in
/-- Neither what is held nor what the page brings hides time `t`: all of it is older, or
an unreadable row that is not newer stays, among the newest `storeWindow` rows. -/
def Leaves (s : ChannelStore) (t : ℤ) : Prop :=
  let InPage := InPage platform byteLength peer channelId (sinceOf platform s channelId)
  ((∀ row ∈ channelRows s channelId, row.time platform < t) ∧
      ∀ row, InPage row → row.time platform < t) ∨
    ∃ u ∈ channelRows s channelId, u.isReadable = false ∧ u.time platform ≤ t ∧
      (∀ row, InPage row → row.id ≠ u.id) ∧
      (channelRows s channelId).countP
          (fun row => decide (u.time platform ≤ row.time platform)) +
        (channelRows peer channelId).countP (fun row =>
          decide (InPage row ∧ u.time platform ≤ row.time platform ∧ s.get row.id = none)) ≤
            storeWindow

/-- The page brings a wanted message where there is one, and hides none it leaves out. -/
structure RoundOk (s : ChannelStore) : Prop where
  brings : (∃ row, Wanted platform channelId peer s row) →
    ∃ row, Wanted platform channelId peer s row ∧
      InPage platform byteLength peer channelId (sinceOf platform s channelId) row
  hides : ∀ row, Wanted platform channelId peer s row →
    ¬InPage platform byteLength peer channelId (sinceOf platform s channelId) row →
      Leaves platform byteLength channelId peer s (row.time platform)

/-- The timestamps on both sides are the server's, and the copies of a message agree on
its channel and timestamp. -/
structure Comparable (s : ChannelStore) : Prop where
  requester : AllDated (channelRows s channelId)
  responder : AllDated (channelRows peer channelId)
  same : ∀ row ∈ channelRows peer channelId, ∀ own ∈ s.rows, own.id = row.id →
    own.place = some channelId ∧ own.timestamp = row.timestamp

end

variable {platform : Platform} {byteLength : BundleItem → ℕ} {relayedBy : Option String}
  {now channelId : String} {peer s : ChannelStore}

/-! ## The merge of an answer as a run of batches -/

def batchesOf (platform : Platform) (relayedBy : Option String) (now channelId : String)
    (bundles : List (List BundleItem)) : List (Batch ChannelExtra) :=
  bundles.map fun bundle => ⟨some channelId, parseBundle platform channelId relayedBy now bundle⟩

variable {batch : List (Incoming ChannelExtra)}

theorem saveMessages_eq :
    saveMessages s channelId batch = mergeRowsInto s (some channelId) batch := by
  cases batch with
  | nil => rfl
  | cons incoming batch => rfl

variable {bundles : List (List BundleItem)}

theorem mergeBundles_fst :
    (mergeBundles platform s channelId relayedBy now bundles).1 =
      writeAll s (batchesOf platform relayedBy now channelId bundles) := by
  induction bundles generalizing s with
  | nil => rfl
  | cons bundle bundles ih =>
      simp only [mergeBundles, handleSyncResponse, saveMessages_eq]
      rw [ih]
      rfl

theorem handed_batchesOf :
    handed (batchesOf platform relayedBy now channelId bundles) =
      (page platform relayedBy now channelId bundles).map Incoming.msg := by
  induction bundles with
  | nil => rfl
  | cons bundle bundles ih =>
      rw [batchesOf, List.map_cons, handed_cons, page, List.flatMap_cons, List.map_append]
      exact congrArg _ ih

theorem parseBundle_readable {bundle : List BundleItem} :
    ∀ copy ∈ parseBundle platform channelId relayedBy now bundle,
      copy.msg.plaintext.isSome ∧ ∃ key, copy.msg.key = some key := by
  intro copy hcopy
  obtain ⟨item, -, hcopy⟩ := List.mem_filterMap.mp hcopy
  obtain ⟨id, timestamp, text, -, -, -, hkey, hplain⟩ := parseItem_eq_some hcopy
  exact ⟨by simp [hplain], _, hkey⟩

theorem batchesOf_readable :
    Readable channelId (batchesOf platform relayedBy now channelId bundles) := by
  intro b hb
  obtain ⟨bundle, -, rfl⟩ := List.mem_map.mp hb
  exact ⟨rfl, fun copy hcopy => (parseBundle_readable copy hcopy).1⟩

theorem mergeRowsInto_of_nil {fixed : Option String} (h : (mergeRowsInto s fixed batch).2 = []) :
    (mergeRowsInto s fixed batch).1 = s := by
  rw [mergeRowsInto_eq] at h ⊢
  simp only at h ⊢
  rw [h]
  rfl

/-- Nothing is written where every copy's message is held. -/
theorem mergeBundles_snd :
    (mergeBundles platform s channelId relayedBy now bundles).2 = [] ↔
      ∀ copy ∈ page platform relayedBy now channelId bundles, ∀ key ∈ copy.msg.key,
        Held s key.1 := by
  induction bundles generalizing s with
  | nil => simp [mergeBundles, page]
  | cons bundle bundles ih =>
      simp only [mergeBundles, handleSyncResponse, saveMessages_eq, List.append_eq_nil_iff]
      have hfirst : (mergeRowsInto s (some channelId)
            (parseBundle platform channelId relayedBy now bundle)).2 = [] ↔
          ∀ copy ∈ parseBundle platform channelId relayedBy now bundle, ∀ key ∈ copy.msg.key,
            Held s key.1 := by
        rw [mergeRowsInto_eq, List.filterMap_eq_nil_iff]
        constructor
        · intro h copy hcopy key hkey
          have hmem : ({ copy with msg := { copy.msg with place := some channelId } }, key) ∈
              keyed (some channelId) (parseBundle platform channelId relayedBy now bundle) :=
            List.mem_filterMap.mpr ⟨copy, hcopy, by rw [hkey]; rfl⟩
          rcases writeOf_eq_none (h _ hmem) with hfilled | ⟨-, hnone⟩
          · exact hfilled
          · have hreadable := (parseBundle_readable copy hcopy).1
            have hnone' : copy.msg.plaintext = none := hnone
            simp [hnone'] at hreadable
        · intro h copy hcopy
          obtain ⟨incoming, hincoming, hmap⟩ := List.mem_filterMap.mp hcopy
          obtain ⟨key, hkey, rfl⟩ := Option.map_eq_some_iff.mp hmap
          obtain ⟨text, htext⟩ := h incoming hincoming key hkey
          by_contra hwrite
          obtain ⟨row, hrow⟩ := Option.ne_none_iff_exists'.mp hwrite
          exact (writeOf_eq_some hrow).1 text htext
      simp only [page, List.flatMap_cons, List.forall_mem_append] at ih ⊢
      rw [← hfirst]
      constructor
      · rintro ⟨hnil, hrest⟩
        rw [mergeRowsInto_of_nil hnil] at hrest
        exact ⟨hnil, ih.mp hrest⟩
      · rintro ⟨hnil, hrest⟩
        rw [mergeRowsInto_of_nil hnil]
        exact ⟨hnil, ih.mpr hrest⟩

theorem mergeBundles_of_nil (h : (mergeBundles platform s channelId relayedBy now bundles).2 = []) :
    (mergeBundles platform s channelId relayedBy now bundles).1 = s := by
  induction bundles generalizing s with
  | nil => rfl
  | cons bundle bundles ih =>
      simp only [mergeBundles, handleSyncResponse, saveMessages_eq, List.append_eq_nil_iff] at h ⊢
      have hfirst := mergeRowsInto_of_nil h.1
      rw [hfirst] at h ⊢
      exact ih h.2

/-! ## One round -/

theorem mem_nextPage {copy : Incoming ChannelExtra}
    (h : copy ∈ nextPage platform byteLength relayedBy now channelId peer s) :
    ∃ row ∈ channelRows peer channelId, CopyOf row copy ∧
      After (sinceOf platform s channelId) row.timestamp :=
  page_spec.2 copy h

/-- Copies of one store's rows carry one text for a message. -/
theorem agree_of_rows {msgs : List (Msg ChannelExtra)}
    (h : ∀ msg ∈ msgs, ∃ row ∈ peer.rows, msg.key = some (row.id, row.timestamp) ∧
      msg.plaintext = row.plaintext) (id : String) : Cell.Agree (textsOf id msgs) := by
  intro a b ha hb
  have origin : ∀ text, some text ∈ textsOf id msgs →
      ∃ row ∈ peer.rows, row.id = id ∧ row.plaintext = some text := by
    intro text htext
    obtain ⟨msg, hmsg, hplain⟩ := List.mem_map.mp htext
    obtain ⟨hmsg, hkey⟩ := List.mem_filter.mp hmsg
    obtain ⟨row, hrow, hrowkey, hrowtext⟩ := h msg hmsg
    refine ⟨row, hrow, ?_, hrowtext.symm.trans hplain⟩
    simpa [hrowkey] using hkey
  obtain ⟨rowa, hrowa, hida, hplaina⟩ := origin a ha
  obtain ⟨rowb, hrowb, hidb, hplainb⟩ := origin b hb
  have hrow := List.inj_on_of_nodup_map peer.nodup hrowa hrowb (hida.trans hidb.symm)
  rw [hrow, hplainb] at hplaina
  exact (Option.some.inj hplaina).symm

theorem nextPage_agree (id : String) :
    Cell.Agree (textsOf id
      ((nextPage platform byteLength relayedBy now channelId peer s).map Incoming.msg)) := by
  refine @agree_of_rows peer _ (fun msg hmsg => ?_) id
  obtain ⟨copy, hcopy, rfl⟩ := List.mem_map.mp hmsg
  obtain ⟨row, hrow, hof, -⟩ := mem_nextPage hcopy
  exact ⟨row, (mem_channelRows.mp hrow).1, hof.key, hof.text⟩

theorem catchUp_fst :
    (catchUp platform byteLength relayedBy now channelId peer s).1 =
      writeAll s (batchesOf platform relayedBy now channelId
        (answerOrgSync platform byteLength peer channelId (sinceOf platform s channelId))) :=
  mergeBundles_fst

/-- After a round the messages of its page are held, and those held before. -/
theorem held_catchUp {id : String} :
    Held (catchUp platform byteLength relayedBy now channelId peer s).1 id ↔
      Held s id ∨ ∃ copy ∈ nextPage platform byteLength relayedBy now channelId peer s,
        ∃ key ∈ copy.msg.key, key.1 = id := by
  rw [catchUp_fst, held_writeAll batchesOf_readable]
  · refine or_congr_right ?_
    rw [handed_batchesOf]
    simp only [List.mem_map, exists_exists_and_eq_and]
    constructor
    · rintro ⟨copy, hcopy, hkey⟩
      obtain ⟨row, -, hof, -⟩ := mem_nextPage hcopy
      rw [hof.key] at hkey
      exact ⟨copy, hcopy, _, hof.key, by simpa using hkey⟩
    · rintro ⟨copy, hcopy, key, hkey, rfl⟩
      exact ⟨copy, hcopy, by simp [Option.mem_def.mp hkey]⟩
  · rw [handed_batchesOf]
    exact nextPage_agree

variable {row : ChannelRow}

theorem mem_catchUp
    (h : row ∈ (catchUp platform byteLength relayedBy now channelId peer s).1.rows) :
    row ∈ s.rows ∨ (row.place = some channelId ∧ row.isReadable ∧
      ∃ copy ∈ nextPage platform byteLength relayedBy now channelId peer s,
        copy.msg.key = some (row.id, row.timestamp)) := by
  rw [catchUp_fst] at h
  rcases mem_writeAll batchesOf_readable h with hmem | ⟨⟨msg, hmsg, hkey⟩, hplace, hreadable⟩
  · exact .inl hmem
  · rw [handed_batchesOf] at hmsg
    obtain ⟨copy, hcopy, rfl⟩ := List.mem_map.mp hmsg
    exact .inr ⟨hplace, hreadable, copy, hcopy, hkey⟩

theorem mem_catchUp_of_mem (h : row ∈ s.rows)
    (hother : ∀ copy ∈ nextPage platform byteLength relayedBy now channelId peer s, ∀ key ∈ copy.msg.key, key.1 ≠ row.id) :
    row ∈ (catchUp platform byteLength relayedBy now channelId peer s).1.rows := by
  rw [catchUp_fst]
  refine mem_writeAll_of_mem h fun msg hmsg => ?_
  rw [handed_batchesOf] at hmsg
  obtain ⟨copy, hcopy, rfl⟩ := List.mem_map.mp hmsg
  exact hother copy hcopy

/-- A new row is a copy of one of the responder's. -/
theorem mem_catchUp_cases
    (h : row ∈ (catchUp platform byteLength relayedBy now channelId peer s).1.rows) :
    row ∈ s.rows ∨ (row.place = some channelId ∧ row.isReadable ∧
      ∃ own ∈ channelRows peer channelId, own.id = row.id ∧ own.timestamp = row.timestamp) := by
  rcases mem_catchUp h with hmem | ⟨hplace, hreadable, copy, hcopy, hkey⟩
  · exact .inl hmem
  · obtain ⟨own, hown, hof, -⟩ := mem_nextPage hcopy
    rw [hof.key] at hkey
    obtain ⟨hid, htime⟩ := Prod.mk.inj (Option.some.inj hkey)
    exact .inr ⟨hplace, hreadable, own, hown, hid, htime⟩

/-- The two sides stay comparable. -/
theorem comparable_catchUp (hc : Comparable channelId peer s) :
    Comparable channelId peer
      (catchUp platform byteLength relayedBy now channelId peer s).1 where
  requester row hrow := by
    obtain ⟨hmem, hplace⟩ := mem_channelRows.mp hrow
    rcases mem_catchUp_cases hmem with hold | ⟨-, -, own, hown, -, htime⟩
    · exact hc.requester row (mem_channelRows.mpr ⟨hold, hplace⟩)
    · exact htime ▸ hc.responder own hown
  responder := hc.responder
  same row hrow own hown hid := by
    rcases mem_catchUp_cases hown with hold | ⟨hplace, -, other, hother, hotherid, htime⟩
    · exact hc.same row hrow own hold hid
    · have heq := List.inj_on_of_nodup_map peer.nodup (mem_channelRows.mp hother).1
        (mem_channelRows.mp hrow).1 (hotherid.trans hid)
      exact ⟨hplace, by rw [← htime, heq]⟩

variable {timestamp : String}

theorem mem_nextPage_iff (hp : platform.Lawful) (hc : Comparable channelId peer s) {id : String} :
    (∃ copy ∈ nextPage platform byteLength relayedBy now channelId peer s,
      copy.msg.key = some (id, timestamp)) ↔
      ∃ row, InPage platform byteLength peer channelId (sinceOf platform s channelId) row ∧
        row.id = id ∧ row.timestamp = timestamp :=
  mem_page_iff hp hc.responder

variable {since : Option String}

theorem InPage.mem (h : InPage platform byteLength peer channelId since row) :
    row ∈ channelRows peer channelId :=
  (mem_askedRows.mp h.chosen.asked).1

/-- A row of the page is held after the round. -/
theorem held_of_inPage (hp : platform.Lawful) (hc : Comparable channelId peer s)
    (h : InPage platform byteLength peer channelId (sinceOf platform s channelId) row) :
    Held (catchUp platform byteLength relayedBy now channelId peer s).1 row.id := by
  obtain ⟨copy, hcopy, hkey⟩ := (mem_nextPage_iff hp hc).mpr ⟨row, h, rfl, rfl⟩
  exact held_catchUp.mpr (.inr ⟨copy, hcopy, _, hkey, rfl⟩)

variable {t : ℤ}

/-- What a page leaves is not hidden by what is held after it. -/
theorem ahead_of_leaves (hp : platform.Lawful) (hc : Comparable channelId peer s)
    (h : Leaves platform byteLength channelId peer s t) :
    Ahead platform (catchUp platform byteLength relayedBy now channelId peer s).1 channelId t := by
  -- a new row comes from one of the page
  have hnew : ∀ row ∈ (catchUp platform byteLength relayedBy now channelId peer s).1.rows,
      row ∈ s.rows ∨ ∃ source,
        InPage platform byteLength peer channelId (sinceOf platform s channelId) source ∧
          source.id = row.id ∧ source.timestamp = row.timestamp := by
    intro row hrow
    rcases mem_catchUp hrow with hold | ⟨-, -, copy, hcopy, hkey⟩
    · exact .inl hold
    · exact .inr ((mem_nextPage_iff hp hc).mp ⟨copy, hcopy, hkey⟩)
  rcases h with ⟨hheld, hbrought⟩ | ⟨u, hu, hunreadable, hle, hother, hcount⟩
  · refine .inl fun row hrow => ?_
    obtain ⟨hmem, hplace⟩ := mem_channelRows.mp hrow
    rcases hnew row hmem with hold | ⟨source, hsource, -, htime⟩
    · exact hheld row (mem_channelRows.mpr ⟨hold, hplace⟩)
    · rw [Row.time, ← htime]
      exact hbrought source hsource
  · obtain ⟨humem, huplace⟩ := mem_channelRows.mp hu
    have hstays : u ∈ (catchUp platform byteLength relayedBy now channelId peer s).1.rows := by
      refine mem_catchUp_of_mem humem fun copy hcopy key hkey hid => ?_
      obtain ⟨source, hsource, hsourceid, -⟩ :=
        (mem_nextPage_iff hp hc).mp ⟨copy, hcopy, (Option.mem_def.mp hkey).trans rfl⟩
      exact hother source hsource (hsourceid.trans hid)
    refine .inr ⟨u, mem_channelRows.mpr ⟨hstays, huplace⟩, hunreadable, hle,
      le_trans ?_ hcount⟩
    classical
    -- each row that is not older was held before, or is new and one of the page
    let later (row : ChannelRow) : Bool := decide (u.time platform ≤ row.time platform)
    let new (row : ChannelRow) : Bool := decide (InPage platform byteLength peer channelId
      (sinceOf platform s channelId) row ∧ u.time platform ≤ row.time platform ∧
        s.get row.id = none)
    let after := (catchUp platform byteLength relayedBy now channelId peer s).1
    have hsub : (((channelRows after channelId).filter later).map Row.id).Subperm
        (((channelRows s channelId).filter later).map Row.id ++
          ((channelRows peer channelId).filter new).map Row.id) := by
      refine List.subperm_of_subset ?_ ?_
      · exact after.nodup.sublist ((List.filter_sublist.trans List.filter_sublist).map _)
      intro id hid
      obtain ⟨row, hrow, rfl⟩ := List.mem_map.mp hid
      obtain ⟨hrow, hlater⟩ := List.mem_filter.mp hrow
      obtain ⟨hmem, hplace⟩ := mem_channelRows.mp hrow
      rw [List.mem_append]
      rcases hnew row hmem with hold | ⟨source, hsource, hid, hsametime⟩
      · exact .inl (List.mem_map_of_mem
          (List.mem_filter.mpr ⟨mem_channelRows.mpr ⟨hold, hplace⟩, hlater⟩))
      · have htime : u.time platform ≤ source.time platform := by
          have hsame : source.time platform = row.time platform :=
            congrArg (timeOf platform) hsametime
          rw [hsame]
          simpa [later] using hlater
        cases hget : s.get source.id with
        | none =>
            exact .inr (List.mem_map.mpr ⟨source,
              List.mem_filter.mpr ⟨hsource.mem, decide_eq_true ⟨hsource, htime, hget⟩⟩, hid⟩)
        | some own =>
            have hownid := Store.get_eq_some hget
            have hown : own ∈ s.rows := Store.get_eq_some_iff.mp (hownid ▸ hget)
            obtain ⟨hownplace, howntime⟩ := hc.same source hsource.mem own hown hownid
            have hsame : own.time platform = source.time platform :=
              congrArg (timeOf platform) howntime
            exact .inl (List.mem_map.mpr ⟨own, List.mem_filter.mpr
              ⟨mem_channelRows.mpr ⟨hown, hownplace⟩, decide_eq_true (hsame ▸ htime)⟩,
              hownid.trans hid⟩)
    have hlength := hsub.length_le
    rw [List.length_append, List.length_map, List.length_map, List.length_map] at hlength
    rw [List.countP_eq_length_filter, List.countP_eq_length_filter, List.countP_eq_length_filter]
    exact hlength

/-! ## All rounds -/

theorem quiet_iff :
    Quiet platform byteLength relayedBy now channelId peer s ↔
      ∀ copy ∈ nextPage platform byteLength relayedBy now channelId peer s,
        ∀ key ∈ copy.msg.key, Held s key.1 :=
  mergeBundles_snd

open Classical in
/-- How many of the responder's rows are of messages not held. -/
noncomputable def missing (peer s : ChannelStore) : ℕ :=
  (peer.rows.toFinset.filter fun row => ¬Held s row.id).card

theorem missing_catchUp_lt (h : ¬Quiet platform byteLength relayedBy now channelId peer s) :
    missing peer (catchUp platform byteLength relayedBy now channelId peer s).1 <
      missing peer s := by
  rw [quiet_iff] at h
  push Not at h
  obtain ⟨copy, hcopy, key, hkey, hnew⟩ := h
  obtain ⟨source, hsource, hof, -⟩ := mem_nextPage hcopy
  rw [hof.key] at hkey
  obtain rfl := Option.some.inj hkey
  apply Finset.card_lt_card
  rw [Finset.ssubset_iff_of_subset]
  · refine ⟨source, ?_, ?_⟩
    · simpa using ⟨(mem_channelRows.mp hsource).1, hnew⟩
    · have hheld : Held (catchUp platform byteLength relayedBy now channelId peer s).1 source.id :=
        held_catchUp.mpr (.inr ⟨copy, hcopy, _, hof.key, rfl⟩)
      simp [hheld]
  · intro row hrow
    simp only [Finset.mem_filter, List.mem_toFinset] at hrow ⊢
    exact ⟨hrow.1, fun hheld => hrow.2 (held_catchUp.mpr (.inl hheld))⟩

/-- An answer that brings nothing new comes after finitely many rounds. -/
theorem exists_quiet :
    ∃ n, Quiet platform byteLength relayedBy now channelId peer
      (afterRounds platform byteLength relayedBy now channelId peer s n) := by
  by_contra hnone
  push Not at hnone
  have hbound : ∀ n, missing peer (afterRounds platform byteLength relayedBy now channelId peer s n) +
      n ≤ missing peer s := by
    intro n
    induction n with
    | zero => simp [afterRounds]
    | succ n ih =>
        have hlt := missing_catchUp_lt (hnone n)
        simp only [afterRounds] at hlt ⊢
        omega
  have := hbound (missing peer s + 1)
  omega

theorem afterRounds_succ (n : ℕ) :
    afterRounds platform byteLength relayedBy now channelId peer s (n + 1) =
      afterRounds platform byteLength relayedBy now channelId peer
        (catchUp platform byteLength relayedBy now channelId peer s).1 n := by
  induction n with
  | zero => rfl
  | succ n ih => rw [afterRounds, ih, afterRounds]

theorem afterRounds_of_quiet (h : Quiet platform byteLength relayedBy now channelId peer s)
    (n : ℕ) : afterRounds platform byteLength relayedBy now channelId peer s n = s := by
  induction n with
  | zero => rfl
  | succ n ih => rw [afterRounds, ih, catchUp, mergeBundles_of_nil h]

theorem comparable_afterRounds (hc : Comparable channelId peer s) (n : ℕ) :
    Comparable channelId peer
      (afterRounds platform byteLength relayedBy now channelId peer s n) := by
  induction n with
  | zero => exact hc
  | succ n ih => exact comparable_catchUp ih

theorem after_of_before (h : ∀ asked ∈ since, before asked timestamp) : After since timestamp :=
  fun asked hasked => h asked (Option.filter_eq_some_iff.mp hasked).1

/-- What a round leaves out is still asked for. -/
theorem asked_catchUp (hp : platform.Lawful) (hc : Comparable channelId peer s)
    (hok : RoundOk platform byteLength channelId peer s) (hrow : row ∈ channelRows peer channelId)
    (hreadable : row.isReadable)
    (hasked : ¬Held s row.id → After (sinceOf platform s channelId) row.timestamp)
    (hmissing : ¬Held (catchUp platform byteLength relayedBy now channelId peer s).1 row.id) :
    After (sinceOf platform (catchUp platform byteLength relayedBy now channelId peer s).1
      channelId) row.timestamp := by
  have hbefore : ¬Held s row.id := fun hheld => hmissing (held_catchUp.mpr (.inl hheld))
  have hleaves := hok.hides row ⟨hrow, hreadable, hasked hbefore, hbefore⟩
    fun hpage => hmissing (held_of_inPage hp hc hpage)
  exact after_of_before (since_of_ahead hp (comparable_catchUp hc).requester
    (hc.responder row hrow) (ahead_of_leaves hp hc hleaves))

/-- Rounds end with an answer that brings nothing new. Where no round hides a message it
leaves out, the device then holds every message of the responder that was asked for at
first. -/
theorem catch_up_complete (hp : platform.Lawful) (hc : Comparable channelId peer s) :
    (∃ n, Quiet platform byteLength relayedBy now channelId peer
      (afterRounds platform byteLength relayedBy now channelId peer s n)) ∧
    ∀ n, Quiet platform byteLength relayedBy now channelId peer
        (afterRounds platform byteLength relayedBy now channelId peer s n) →
      (∀ k ≤ n, RoundOk platform byteLength channelId peer
        (afterRounds platform byteLength relayedBy now channelId peer s k)) →
      ∀ row ∈ channelRows peer channelId, row.isReadable →
        After (sinceOf platform s channelId) row.timestamp →
          Held (afterRounds platform byteLength relayedBy now channelId peer s n) row.id := by
  refine ⟨exists_quiet, fun n hquiet hok row hrow hreadable hasked => ?_⟩
  have hstill : ∀ k ≤ n,
      ¬Held (afterRounds platform byteLength relayedBy now channelId peer s k) row.id →
        After (sinceOf platform
          (afterRounds platform byteLength relayedBy now channelId peer s k) channelId)
          row.timestamp := by
    intro k
    induction k with
    | zero => exact fun _ _ => hasked
    | succ k ih =>
        intro hk hmissing
        exact asked_catchUp hp (comparable_afterRounds hc k) (hok k (by omega)) hrow hreadable
          (ih (by omega)) hmissing
  by_contra hmissing
  obtain ⟨brought, hwanted, hpage⟩ := (hok n le_rfl).brings
    ⟨row, hrow, hreadable, hstill n le_rfl hmissing, hmissing⟩
  obtain ⟨copy, hcopy, hkey⟩ :=
    (mem_nextPage_iff hp (comparable_afterRounds hc n)).mpr ⟨brought, hpage, rfl, rfl⟩
  exact hwanted.missing (quiet_iff.mp hquiet copy hcopy _ hkey)

theorem dated_ne_empty (h : Dated timestamp) : timestamp ≠ "" := by
  obtain ⟨t, ht, rfl⟩ := h
  intro hempty
  have hdatetime : isDatetime (toISOString t) :=
    isDatetime_toISOString.mpr (year_four_digits.mpr ht.fourDigits)
  rw [hempty] at hdatetime
  exact absurd hdatetime (by decide)

def rowAt (id : String) (t : ℤ) : ChannelRow where
  id := id
  place := some "c"
  senderId := some "u"
  callsign := none
  encryptedContent := none
  plaintext := some "hi"
  timestamp := toISOString t
  receivedAt := toISOString t
  pending := false
  failReason := none
  attempts := 0
  relayedBy := none
  extra := ⟨none, none⟩

/-- The store of a peer with one message. -/
def single : ChannelStore where
  rows := [rowAt "m" 1000]
  nodup := by simp

theorem mem_single (h : row ∈ channelRows single "c") : row = rowAt "m" 1000 := by
  simpa [single] using (mem_channelRows.mp h).1

theorem single_mem : rowAt "m" 1000 ∈ channelRows single "c" :=
  mem_channelRows.mpr ⟨by simp [single], rfl⟩

theorem dated_rowAt {id : String} (h : Stamp t) : Dated (rowAt id t).timestamp :=
  ⟨t, h, rfl⟩

theorem time_rowAt {id : String} (h : Stamp t) : (rowAt id t).time isoPlatform = t :=
  timeOf_toISOString isoPlatform_lawful h

theorem sendable_rowAt : Sendable (fun _ => 100) (rowAt "m" 1000) where
  size := by decide
  id := by decide
  timestamp := ⟨dated_ne_empty (dated_rowAt (by decide)), by decide⟩
  text := by decide

/-- A responder with fewer rows than a page sends all that is asked for. -/
theorem inPage_of_few (hfew : peer.rows.length < syncReplyMax)
    (hrow : row ∈ channelRows peer channelId) (hreadable : row.isReadable)
    (hasked : After since row.timestamp) (hsendable : Sendable byteLength row) :
    InPage platform byteLength peer channelId since row := by
  have hlength : (askedRows peer channelId since).length < syncReplyMax :=
    ((List.length_filter_le _ _).trans (List.length_filter_le _ _)).trans_lt hfew
  refine ⟨⟨mem_askedRows.mpr ⟨hrow, hasked⟩, hreadable, ?_, ?_⟩, hsendable⟩
  · refine List.countP_le_length.trans_lt (hlength.trans_le ?_)
    unfold scanMax
    split_ifs <;> decide
  · exact (List.countP_le_length.trans (List.length_filter_le _ _)).trans_lt hlength

theorem single_ok : RoundOk isoPlatform (fun _ => 100) "c" single s := by
  have hpage : ∀ row, Wanted isoPlatform "c" single s row →
      InPage isoPlatform (fun _ => 100) single "c" (sinceOf isoPlatform s "c") row := by
    intro row hrow
    obtain rfl := mem_single hrow.mem
    exact inPage_of_few (by decide) hrow.mem rfl hrow.asked sendable_rowAt
  exact ⟨fun ⟨row, hrow⟩ => ⟨row, hrow, hpage row hrow⟩,
    fun row hrow hnot => absurd (hpage row hrow) hnot⟩

theorem comparable_empty : Comparable "c" single Store.empty where
  requester row hrow := by simp [channelRows, Store.empty] at hrow
  responder row hrow := by
    rw [mem_single hrow]
    exact dated_rowAt (by decide)
  same row hrow own hown hid := by simp [Store.empty] at hown

theorem catch_up_complete_single :
    ∃ n, Held (afterRounds isoPlatform (fun _ => 100) none "" "c" single Store.empty n) "m" := by
  obtain ⟨⟨n, hquiet⟩, hcomplete⟩ :=
    @catch_up_complete isoPlatform (fun _ => 100) none "" "c" single Store.empty
      isoPlatform_lawful comparable_empty
  refine ⟨n, hcomplete n hquiet (fun k _ => single_ok) _ single_mem rfl ?_⟩
  exact after_of_before (since_of_ahead isoPlatform_lawful comparable_empty.requester
    (dated_rowAt (by decide)) (.inl fun row hrow => by simp [channelRows, Store.empty] at hrow))

/-! ## What is hidden stays hidden -/

/-- All rows are readable, and one of them is not older than a message that is not held. -/
structure Hidden (platform : Platform) (channelId : String) (s : ChannelStore)
    (row : ChannelRow) : Prop where
  readable : ∀ own ∈ channelRows s channelId, own.isReadable
  newer : ∃ own ∈ channelRows s channelId, row.time platform ≤ own.time platform
  missing : ¬Held s row.id

theorem not_after_of_hidden (hp : platform.Lawful) (hc : Comparable channelId peer s)
    (hrow : row ∈ channelRows peer channelId) (h : Hidden platform channelId s row) :
    ¬After (sinceOf platform s channelId) row.timestamp := by
  intro hasked
  obtain ⟨own, hown, hle⟩ := h.newer
  obtain ⟨last, hlast, hsince, hnewest⟩ := sinceOf_readable hp hc.requester h.readable hown
  have hlastdated := hc.requester last hlast
  have hbefore := hasked last.timestamp (by
    rw [hsince, Option.mem_def, Option.filter_eq_some_iff]
    exact ⟨rfl, by simpa using dated_ne_empty hlastdated⟩)
  rw [before_iff hp hlastdated (hc.responder row hrow)] at hbefore
  exact absurd (hbefore.trans_le (hle.trans hnewest)) (lt_irrefl _)

/-- A hidden message is in no later answer. -/
theorem hidden_catchUp (hp : platform.Lawful) (hc : Comparable channelId peer s)
    (hrow : row ∈ channelRows peer channelId) (h : Hidden platform channelId s row) :
    Hidden platform channelId
      (catchUp platform byteLength relayedBy now channelId peer s).1 row where
  readable own hown := by
    obtain ⟨hmem, hplace⟩ := mem_channelRows.mp hown
    rcases mem_catchUp_cases hmem with hold | ⟨-, hreadable, -⟩
    · exact h.readable own (mem_channelRows.mpr ⟨hold, hplace⟩)
    · exact hreadable
  newer := by
    obtain ⟨own, hown, hle⟩ := h.newer
    obtain ⟨hownmem, hownplace⟩ := mem_channelRows.mp hown
    have hheld : Held (catchUp platform byteLength relayedBy now channelId peer s).1 own.id :=
      held_catchUp.mpr (.inl (held_of_mem hownmem (h.readable own hown)))
    obtain ⟨later, hlater, hid, -⟩ := exists_row_of_held hheld
    rcases mem_catchUp_cases hlater with hold | ⟨hplace, -, source, hsource, hsourceid, htime⟩
    · have heq := List.inj_on_of_nodup_map s.nodup hold hownmem hid
      exact ⟨later, mem_channelRows.mpr ⟨hlater, heq ▸ hownplace⟩, heq ▸ hle⟩
    · obtain ⟨-, howntime⟩ := hc.same source hsource own hownmem (hid.symm.trans hsourceid.symm)
      refine ⟨later, mem_channelRows.mpr ⟨hlater, hplace⟩, ?_⟩
      rwa [Row.time, Row.time, ← htime, ← howntime]
  missing hheld := by
    rcases held_catchUp.mp hheld with hbefore | ⟨copy, hcopy, key, hkey, hid⟩
    · exact h.missing hbefore
    · obtain ⟨source, hsource, hof, hasked⟩ := mem_nextPage hcopy
      rw [hof.key] at hkey
      obtain rfl := Option.some.inj hkey
      have heq := List.inj_on_of_nodup_map peer.nodup (mem_channelRows.mp hsource).1
        (mem_channelRows.mp hrow).1 hid
      exact not_after_of_hidden hp hc hrow h (heq ▸ hasked)

theorem hidden_afterRounds (hp : platform.Lawful) (hc : Comparable channelId peer s)
    (hrow : row ∈ channelRows peer channelId) (h : Hidden platform channelId s row) (n : ℕ) :
    Hidden platform channelId
      (afterRounds platform byteLength relayedBy now channelId peer s n) row := by
  induction n with
  | zero => exact h
  | succ n ih => exact hidden_catchUp hp (comparable_afterRounds hc n) hrow ih

/-! ## More messages at one time than a page holds -/

def tiedId (i : ℕ) : String :=
  String.ofList ('m' :: digits 3 i)

theorem tiedId_inj {i j : ℕ} (hi : i < 1000) (hj : j < 1000) (h : tiedId i = tiedId j) : i = j := by
  have hlist : digits 3 i = digits 3 j := by
    simpa [tiedId, String.ofList_inj] using h
  calc i = numberOf (digits 3 i) := (numberOf_digits hi).symm
    _ = numberOf (digits 3 j) := by rw [hlist]
    _ = j := numberOf_digits hj

/-- The store of a peer with 201 messages at one time. -/
def crowd : ChannelStore where
  rows := (List.range 201).map fun i => rowAt (tiedId i) 1000
  nodup := by
    rw [List.map_map]
    refine List.Nodup.map_on ?_ List.nodup_range
    intro i hi j hj h
    exact tiedId_inj (by simp at hi; omega) (by simp at hj; omega) h

/-- A device with one message from before. -/
def lone : ChannelStore where
  rows := [rowAt "first" 0]
  nodup := by simp

theorem mem_crowd (h : row ∈ channelRows crowd "c") : ∃ i < 201, row = rowAt (tiedId i) 1000 := by
  obtain ⟨i, hi, rfl⟩ := List.mem_map.mp (mem_channelRows.mp h).1
  exact ⟨i, by simpa using hi, rfl⟩

theorem crowd_mem {i : ℕ} (h : i < 201) : rowAt (tiedId i) 1000 ∈ channelRows crowd "c" :=
  mem_channelRows.mpr ⟨List.mem_map.mpr ⟨i, by simpa using h, rfl⟩, rfl⟩

theorem mem_lone (h : row ∈ lone.rows) : row = rowAt "first" 0 := by
  simpa [lone] using h

theorem tiedId_ne_first (i : ℕ) : tiedId i ≠ "first" := by
  intro h
  have hhead := congrArg (fun s => s.toList.head?) h
  simp [tiedId] at hhead

theorem comparable_lone : Comparable "c" crowd lone where
  requester row hrow := by
    rw [mem_lone (mem_channelRows.mp hrow).1]
    exact ⟨0, by decide, rfl⟩
  responder row hrow := by
    obtain ⟨i, -, rfl⟩ := mem_crowd hrow
    exact ⟨1000, by decide, rfl⟩
  same row hrow own hown hid := by
    obtain ⟨i, -, rfl⟩ := mem_crowd hrow
    rw [mem_lone hown] at hid
    exact absurd hid.symm (tiedId_ne_first i)

theorem tied_missing (i : ℕ) : ¬Held lone (tiedId i) := by
  intro hheld
  obtain ⟨row, hrow, hid, -⟩ := exists_row_of_held hheld
  rw [mem_lone hrow] at hid
  exact tiedId_ne_first i hid.symm

theorem tied_asked (i : ℕ) :
    After (sinceOf isoPlatform lone "c") (rowAt (tiedId i) 1000).timestamp := by
  refine after_of_before (since_of_ahead isoPlatform_lawful comparable_lone.requester
    ⟨1000, by decide, rfl⟩ (.inl fun row hrow => ?_))
  rw [mem_lone (mem_channelRows.mp hrow).1]
  change (rowAt "first" 0).time isoPlatform < (rowAt (tiedId i) 1000).time isoPlatform
  rw [time_rowAt (by decide), time_rowAt (by decide)]
  decide

/-- One of the tied messages is in no page that fits. -/
theorem exists_tied_left_out {copies : List (Incoming ChannelExtra)}
    (h : copies.length ≤ syncReplyMax) :
    ∃ i < 201, ∀ copy ∈ copies, ∀ key ∈ copy.msg.key, key.1 ≠ tiedId i := by
  by_contra hnone
  push Not at hnone
  have hsub : ((List.range 201).map tiedId).Subperm
      (copies.map fun copy => copy.msg.key.elim "" Prod.fst) := by
    refine List.subperm_of_subset ?_ ?_
    · refine List.Nodup.map_on ?_ List.nodup_range
      intro i hi j hj
      exact tiedId_inj (by simp at hi; omega) (by simp at hj; omega)
    · intro id hid
      obtain ⟨i, hi, rfl⟩ := List.mem_map.mp hid
      obtain ⟨copy, hcopy, key, hkey, hid⟩ := hnone i (by simpa using hi)
      exact List.mem_map.mpr ⟨copy, hcopy, by rw [Option.mem_def.mp hkey]; exact hid⟩
  have hlength := hsub.length_le
  simp [syncReplyMax] at hlength h
  omega

/-- After a page of the tied messages the others are hidden. -/
theorem tied_hidden {i : ℕ}
    (hfirst : ¬Quiet isoPlatform (fun _ => 100) none "" "c" crowd lone)
    (hleft : ∀ copy ∈ nextPage isoPlatform (fun _ => 100) none "" "c" crowd lone,
      ∀ key ∈ copy.msg.key, key.1 ≠ tiedId i) :
    Hidden isoPlatform "c" (catchUp isoPlatform (fun _ => 100) none "" "c" crowd lone).1
      (rowAt (tiedId i) 1000) where
  readable own hown := by
    rcases mem_catchUp_cases (mem_channelRows.mp hown).1 with hold | ⟨-, hreadable, -⟩
    · rw [mem_lone hold]
      rfl
    · exact hreadable
  newer := by
    rw [quiet_iff] at hfirst
    push Not at hfirst
    obtain ⟨copy, hcopy, key, hkey, hnew⟩ := hfirst
    obtain ⟨own, hown, hid, -⟩ := exists_row_of_held (held_catchUp.mpr (.inr ⟨copy, hcopy, key, hkey, rfl⟩))
    rcases mem_catchUp_cases hown with hold | ⟨hplace, -, source, hsource, -, htime⟩
    · exact absurd (hid ▸ held_of_mem hold (by rw [mem_lone hold]; rfl)) hnew
    · obtain ⟨j, -, rfl⟩ := mem_crowd hsource
      refine ⟨own, mem_channelRows.mpr ⟨hown, hplace⟩, ?_⟩
      rw [Row.time, Row.time, ← htime]
      rfl
  missing hheld := by
    rcases held_catchUp.mp hheld with hlone | ⟨copy, hcopy, key, hkey, hid⟩
    · exact tied_missing i hlone
    · exact hleft copy hcopy key hkey hid

/-- The rounds of a device whose peer has 201 newer messages at one time end without one
of them. -/
theorem tied_messages_lost :
    ∃ n, Quiet isoPlatform (fun _ => 100) none "" "c" crowd
        (afterRounds isoPlatform (fun _ => 100) none "" "c" crowd lone n) ∧
      ∃ row ∈ channelRows crowd "c", row.isReadable ∧
        After (sinceOf isoPlatform lone "c") row.timestamp ∧
          ¬Held (afterRounds isoPlatform (fun _ => 100) none "" "c" crowd lone n) row.id := by
  obtain ⟨n, hquiet⟩ := @exists_quiet isoPlatform (fun _ => 100) none "" "c" crowd lone
  refine ⟨n, hquiet, ?_⟩
  by_cases hfirst : Quiet isoPlatform (fun _ => 100) none "" "c" crowd lone
  · rw [afterRounds_of_quiet hfirst]
    exact ⟨_, crowd_mem (by decide : 0 < 201), rfl, tied_asked 0, tied_missing 0⟩
  cases n with
  | zero => exact absurd hquiet hfirst
  | succ n =>
      obtain ⟨i, hi, hleft⟩ := exists_tied_left_out (@page_spec isoPlatform (fun _ => 100) crowd "c"
        "" none (sinceOf isoPlatform lone "c")).1
      refine ⟨_, crowd_mem hi, rfl, tied_asked i, ?_⟩
      rw [afterRounds_succ]
      exact (hidden_afterRounds isoPlatform_lawful (comparable_catchUp comparable_lone)
        (crowd_mem hi) (tied_hidden hfirst hleft) n).missing

end SpecterComs.Chat
