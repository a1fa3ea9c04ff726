import SpecterComs.Model.Chat.Sync
import SpecterComs.Verification.Chat.Dates

/-! # Catch-up requests against the server's schema

A bundle may carry any timestamp `Date.parse` takes, the server takes only UTC dates of
the ISO format. What is asked for a channel hangs on one stored row.
-/

namespace SpecterComs.Chat

open DeliveryService (isUuid)

/-! ## Slices -/

section

variable {α : Type} {n fuel : ℕ} {xs : List α}

theorem slices_length {slice : List α} (hn : 0 < n) (h : slice ∈ slices n fuel xs) :
    1 ≤ slice.length ∧ slice.length ≤ n := by
  induction fuel generalizing xs with
  | zero => simp [slices] at h
  | succ fuel ih =>
      cases xs with
      | nil => simp [slices] at h
      | cons x xs =>
          simp only [slices, List.isEmpty_cons, Bool.false_eq_true, if_false, List.mem_cons] at h
          rcases h with rfl | h
          · rw [List.length_take, List.length_cons]
            omega
          · exact ih h

theorem mem_of_mem_slices {slice : List α} {x : α} (h : slice ∈ slices n fuel xs) (hx : x ∈ slice) :
    x ∈ xs := by
  induction fuel generalizing xs with
  | zero => simp [slices] at h
  | succ fuel ih =>
      simp only [slices] at h
      split_ifs at h
      · simp at h
      · rcases List.mem_cons.mp h with rfl | h
        · exact List.mem_of_mem_take hx
        · exact List.mem_of_mem_drop (ih h)

end

/-! ## The schema -/

theorem orgSyncRequestIssues_nil {channels : List SyncChannelBody} :
    orgSyncRequestIssues channels = [] ↔
      (∀ c ∈ channels, uuidOk c.channelId ∧ sinceOk c.since) ∧
        1 ≤ channels.length ∧ channels.length ≤ orgSyncMaxChannels := by
  have helement : ∀ i c, channelIssues i c = [] ↔ uuidOk c.channelId ∧ sinceOk c.since := by
    intro i c
    simp [channelIssues]
  have hall : channels.zipIdx.flatMap (fun c => channelIssues c.2 c.1) = [] ↔
      ∀ c ∈ channels, uuidOk c.channelId ∧ sinceOk c.since := by
    rw [List.flatMap_eq_nil_iff]
    constructor
    · intro h c hc
      obtain ⟨i, hi, rfl⟩ := List.mem_iff_getElem.mp hc
      refine (helement i _).mp (h (channels[i], i) ?_)
      rw [List.mk_mem_zipIdx_iff_getElem?]
      simp [hi]
    · intro h c hc
      exact (helement _ _).mpr (h _ (List.fst_mem_of_mem_zipIdx hc))
  rw [orgSyncRequestIssues, List.append_eq_nil_iff, hall]
  refine and_congr_right fun _ => ?_
  split_ifs with hlength
  · simpa using hlength
  · simpa using hlength

/-! ## What is asked -/

variable (platform : Platform)

/-- The time of the oldest unreadable row, where it is a date. -/
def oldestUnreadable {Extra : Type} (rows : List (Row Extra)) : Option ℤ :=
  ((sortByTimestamp platform rows).find? fun row => !row.isReadable).bind fun row =>
    platform.dateParse row.timestamp

/-- The oldest unreadable row is from before the year 10000, or there is none with a date
and the newest row carries a UTC date of the ISO format. -/
def Askable {Extra : Type} (rows : List (Row Extra)) : Prop :=
  match oldestUnreadable platform rows with
  | some t => t ≤ 253402300800000
  | none => ∀ row ∈ (sortByTimestamp platform rows).getLast?, isDatetime row.timestamp

theorem sinceOk_computeSyncSince {Extra : Type} {rows : List (Row Extra)} :
    sinceOk ((computeSyncSince platform rows).elim .null .value) ↔ Askable platform rows := by
  unfold computeSyncSince Askable
  change _ ↔ (match oldestUnreadable platform rows with | some t => _ | none => _)
  cases hold : oldestUnreadable platform rows with
  | some t =>
      have hold' : ((sortByTimestamp platform rows).find? fun row => !row.isReadable).bind
          (fun row => platform.dateParse row.timestamp) = some t := hold
      simp only [hold']
      by_cases ht : 0 < t
      · simp only [ht, if_true, Option.elim_some, sinceOk]
        rw [isDatetime_toISOString, year_four_digits]
        omega
      · simp only [ht, if_false, Option.elim_none, sinceOk, true_iff]
        omega
  | none =>
      have hold' : ((sortByTimestamp platform rows).find? fun row => !row.isReadable).bind
          (fun row => platform.dateParse row.timestamp) = none := hold
      simp only [hold']
      cases (sortByTimestamp platform rows).getLast? with
      | none => simp [sinceOk]
      | some row => simp [sinceOk]

theorem mem_requestCatchUp {s : ChannelStore} {channelIds : List String}
    {request : List SyncChannel} (h : request ∈ requestCatchUp platform s channelIds) :
    (1 ≤ request.length ∧ request.length ≤ 500) ∧ ∀ c ∈ request, c.channelId ∈ channelIds ∧
      c.since = computeSyncSince platform
        (getChannelMessages platform s c.channelId storeWindow) := by
  refine ⟨slices_length (by norm_num) h, ?_⟩
  intro c hc
  obtain ⟨id, hid, rfl⟩ := List.mem_map.mp (mem_of_mem_slices h hc)
  exact ⟨hid, rfl⟩

/-- A catch-up request passes the server's schema exactly where each of its channels has
a uuid and rows the server can be asked about. -/
theorem catch_up_request_accepted (s : ChannelStore) (channelIds : List String) :
    ∀ request ∈ requestCatchUp platform s channelIds,
      (orgSyncRequestIssues (request.map SyncChannel.body) = [] ↔
        ∀ c ∈ request, isUuid c.channelId ∧
          Askable platform (getChannelMessages platform s c.channelId storeWindow)) := by
  intro request hrequest
  obtain ⟨hlength, hchannels⟩ := mem_requestCatchUp platform hrequest
  rw [orgSyncRequestIssues_nil]
  simp only [List.length_map, List.forall_mem_map, orgSyncMaxChannels, hlength, and_true]
  refine forall₂_congr fun c hc => ?_
  rw [← sinceOk_computeSyncSince, ← (hchannels c hc).2]
  rfl

/-! ## A peer's timestamp -/

/-- A platform that knows one date the server does not take. -/
def newYear : Platform where
  localeCompare a b := if before a b then .lt else if before b a then .gt else .eq
  dateParse s := if s = "Jan 1 2030" then some 1893456000000 else none

def bundleOfPeer : List BundleItem :=
  [⟨some "m", some "u", none, none, some "Jan 1 2030", some "hi", none⟩]

def lounge : String := "00000000-0000-4000-8000-000000000001"
def bridge : String := "00000000-0000-4000-8000-000000000002"

theorem catch_up_request_accepted_no_rows :
    orgSyncRequestIssues ([⟨lounge, none⟩, ⟨bridge, none⟩].map SyncChannel.body) = [] := by
  have hmem : [⟨lounge, none⟩, ⟨bridge, none⟩] ∈
      requestCatchUp newYear Store.empty [lounge, bridge] := by decide +kernel
  refine (catch_up_request_accepted newYear Store.empty [lounge, bridge] _ hmem).mpr ?_
  have hrows : ∀ id, Askable newYear
      (getChannelMessages newYear (Store.empty : ChannelStore) id storeWindow) := by
    intro id
    simp [getChannelMessages, indexRange, Store.empty, sortByTimestamp, lastOf, Askable,
      oldestUnreadable]
  intro c hc
  simp only [List.mem_cons, List.not_mem_nil, or_false] at hc
  rcases hc with rfl | rfl
  · exact ⟨by decide +kernel, hrows _⟩
  · exact ⟨by decide +kernel, hrows _⟩

/-- The row of a peer's bundle makes the request for two channels fail. -/
theorem bundle_breaks_request :
    let s := (saveMessages Store.empty lounge
      (parseBundle newYear lounge (some "peer") "2026-01-01T00:00:00.000Z" bundleOfPeer)).1
    (requestCatchUp newYear s [lounge, bridge]).map
      (fun request => orgSyncRequestIssues (request.map SyncChannel.body)) =
        [["channels.0.since"]] := by
  decide +kernel

end SpecterComs.Chat
