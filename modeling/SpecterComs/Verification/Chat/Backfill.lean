import SpecterComs.Model.Chat.Backfill
import SpecterComs.Verification.Chat.Merge

/-! # What an answer for one channel does to the rows of the others

Rows are found by message id alone, so a peer's answer reaches the unreadable rows of every
channel. Rows that are readable, and copies that bring nothing, are left alone.
-/

namespace SpecterComs.Chat

variable {Extra : Type}

/-! ## Copies that write nothing -/

/-- An unreadable copy that brings the row no ciphertext, no other reason, no further
attempt and no pending mark. -/
structure AddsNothing (row : Row Extra) (copy : Msg Extra) : Prop where
  unreadable : copy.plaintext = none
  ciphertext : row.encryptedContent.isSome ∨ copy.encryptedContent = none
  reason : copy.failReason = none ∨ copy.failReason = row.failReason
  attempts : copy.attempts.getD 0 ≤ row.attempts
  pending : row.pending = true

theorem unchanged_iff {row next : Row Extra} :
    unchanged row (refresh row next) = true ↔
      (row.encryptedContent.isSome ∨ next.encryptedContent = none) ∧
        (next.failReason = none ∨ next.failReason = row.failReason) ∧
        next.attempts ≤ row.attempts ∧ row.pending = true := by
  have hcipher : row.encryptedContent.or next.encryptedContent = row.encryptedContent ↔
      row.encryptedContent.isSome ∨ next.encryptedContent = none := by
    cases row.encryptedContent <;> simp
  have hreason : next.failReason.or row.failReason = row.failReason ↔
      next.failReason = none ∨ next.failReason = row.failReason := by
    cases next.failReason <;> simp
  simp only [unchanged, refresh, Bool.and_eq_true, beq_iff_eq, hcipher, hreason, and_assoc,
    max_eq_left_iff]

variable {s : Store Extra} {copy : Incoming Extra × (String × String)}

/-- A copy writes nothing where its row is readable, or unreadable and it brings nothing. -/
theorem writeOf_eq_none_iff :
    writeOf s copy = none ↔
      ∃ row, s.get copy.2.1 = some row ∧ (row.isReadable ∨ AddsNothing row copy.1.msg) := by
  unfold writeOf mergeRow mergeNormalized
  cases s.get copy.2.1 with
  | none => simp
  | some row =>
      simp only [Option.some_inj, exists_eq_left']
      cases hrow : row.isReadable with
      | true => simp
      | false =>
          cases htext : copy.1.msg.plaintext with
          | some text =>
              have hnot : ¬ AddsNothing row copy.1.msg := fun h => by
                rw [h.unreadable] at htext
                cases htext
              simp [Row.isReadable, normalizeRow, htext, hnot]
          | none =>
              simp only [Bool.false_eq_true, if_false, Row.isReadable, normalizeRow, htext,
                Option.isSome_none, false_or]
              split_ifs with hsame
              · obtain ⟨h₁, h₂, h₃, h₄⟩ := unchanged_iff.mp hsame
                exact iff_of_true rfl ⟨htext, h₁, h₂, h₃, h₄⟩
              · refine iff_of_false (by simp) fun h => hsame ?_
                exact unchanged_iff.mpr ⟨h.ciphertext, h.reason, h.attempts, h.pending⟩

/-- A copy that writes changes the row. -/
theorem writeOf_ne_stored {w : Row Extra} (h : writeOf s copy = some w) : s.get copy.2.1 ≠ some w := by
  intro hstored
  have hopen := (writeOf_eq_some h).1
  have htext := (writeOf_eq_some h).2
  have hplain : w.plaintext = none := by
    cases hw : w.plaintext with
    | none => rfl
    | some text => exact absurd (by simp [Store.cell, hstored, cellOf, hw]) (hopen text)
  have hcopy : copy.1.msg.plaintext = none := htext.symm.trans hplain
  unfold writeOf mergeRow mergeNormalized at h
  rw [hstored] at h
  simp only [Row.isReadable, normalizeRow, hplain, hcopy, Option.isSome_none,
    Bool.false_eq_true, if_false] at h
  split_ifs at h with hsame
  have hrefresh := Option.some.inj h
  apply hsame
  rw [hrefresh]
  have hpending : w.pending = true := by
    rw [← hrefresh]
    rfl
  simp [unchanged, hpending]

variable {batch : List (Incoming Extra)}

/-- A batch leaves a stored row as it is exactly where none of its copies writes. -/
theorem get_mergeRowsInto_eq_iff {fixed : Option String} {id : String} :
    (mergeRowsInto s fixed batch).1.get id = s.get id ↔
      ∀ copy ∈ keyed fixed batch, copy.2.1 = id → writeOf s copy = none := by
  rw [get_mergeRowsInto]
  constructor
  · intro h copy hcopy hid
    by_contra hwrite
    have hne : (copiesOf id (keyed fixed batch)).filterMap (writeOf s) ≠ [] := by
      intro hnil
      exact hwrite (List.filterMap_eq_nil_iff.mp hnil copy (mem_copiesOf.mpr ⟨hcopy, hid⟩))
    obtain ⟨last, hlast⟩ := Option.ne_none_iff_exists'.mp (mt List.getLast?_eq_none_iff.mp hne)
    obtain ⟨other, hother, hw⟩ := List.mem_filterMap.mp (List.mem_of_getLast? hlast)
    have hstored := writeOf_ne_stored hw
    rw [(mem_copiesOf.mp hother).2] at hstored
    rw [hlast, Option.some_or] at h
    exact hstored h.symm
  · intro h
    have hnil : (copiesOf id (keyed fixed batch)).filterMap (writeOf s) = [] :=
      List.filterMap_eq_nil_iff.mpr fun copy hcopy =>
        h copy (mem_copiesOf.mp hcopy).1 (mem_copiesOf.mp hcopy).2
    rw [hnil]
    rfl

/-! ## The rows of other channels -/

/-- Every row that is stored for another place is there unchanged. -/
def OthersKept (s s' : Store Extra) (place : String) : Prop :=
  ∀ id row, s.get id = some row → row.place ≠ some place → s'.get id = some row

/-- No copy brings anything to an unreadable row of another place. -/
def SparesOthers (s : Store Extra) (place : String) (batch : List (Incoming Extra)) : Prop :=
  ∀ copy ∈ keyed (some place) batch, ∀ row, s.get copy.2.1 = some row →
    row.place ≠ some place → row.isReadable ∨ AddsNothing row copy.1.msg

theorem othersKept_saveMessages_iff {place : String} :
    OthersKept s (saveMessages s place batch).1 place ↔ SparesOthers s place batch := by
  have hsave : (saveMessages s place batch).1 = (mergeRowsInto s (some place) batch).1 := by
    unfold saveMessages
    cases batch with
    | nil => rfl
    | cons => rfl
  rw [hsave]
  constructor
  · intro h copy hcopy row hrow hplace
    have hkept := h copy.2.1 row hrow hplace
    rw [← hrow] at hkept
    obtain ⟨row', hrow', hquiet⟩ := writeOf_eq_none_iff.mp
      (get_mergeRowsInto_eq_iff.mp hkept copy hcopy rfl)
    rw [Option.some.inj (hrow.symm.trans hrow')]
    exact hquiet
  · intro h id row hrow hplace
    rw [← hrow]
    refine get_mergeRowsInto_eq_iff.mpr fun copy hcopy hid => ?_
    subst hid
    exact writeOf_eq_none_iff.mpr ⟨row, hrow, h copy hcopy row hrow hplace⟩

/-- An answer for a channel leaves the rows of the other channels unchanged exactly where
it is not stored, or brings nothing to an unreadable row of them. -/
theorem backfill_isolated_iff (platform : Platform) {σ : Type} (mls : Decryption σ)
    (s : ChannelStore) (fates : StoreFates) (clock : Msg ChannelExtra → String) (now : String)
    (session : σ) (channelId : String) (relayedBy : Option String) (content : SyncContent) :
    OthersKept s
        (handleSyncPayload platform mls s fates clock now session
          ⟨channelId, relayedBy, content⟩).1 channelId ↔
      channelId = "" ∨ fates.write = false ∨
        SparesOthers s channelId
          (answerRows platform mls s fates channelId relayedBy clock now session content).1 := by
  have hself : OthersKept s s channelId := fun id row hrow _ => hrow
  unfold handleSyncPayload
  by_cases hchannel : channelId = ""
  · have hfilter : (some channelId).filter (fun id => decide (id ≠ "")) = none := by
      simp [hchannel]
    rw [hfilter]
    exact iff_of_true hself (Or.inl hchannel)
  · have hfilter : (some channelId).filter (fun id => decide (id ≠ "")) = some channelId := by
      simp [hchannel]
    rw [hfilter]
    cases hwrite : fates.write with
    | false => exact iff_of_true hself (Or.inr (Or.inl rfl))
    | true =>
        simp only [if_true, hchannel, false_or, Bool.true_eq_false]
        exact othersKept_saveMessages_iff

/-! ## A bundle for one channel that names a message of another -/

/-- A message of channel `b` that this device could not decrypt. -/
def waitingRow : ChannelRow where
  id := "m"
  place := "b"
  senderId := "u"
  callsign := none
  encryptedContent := "x"
  plaintext := none
  timestamp := "2026-01-01T00:00:00.000Z"
  receivedAt := "2026-01-01T00:00:01.000Z"
  pending := true
  failReason := "epoch_too_old"
  attempts := 1
  relayedBy := none
  extra := ⟨none, none⟩

def namedItem : BundleItem :=
  ⟨"m", "u", none, none, "2026-01-01T00:00:00.000Z", "not what was sent", none⟩

def plainPlatform : Platform :=
  ⟨fun a b => compareOfLessAndEq a b, fun _ => some 0⟩

/-- Every bundle opens, as one item for message `m`. -/
def oneItemSession : Decryption Unit where
  decryptChannel := fun _ _ _ => (.ok "", ())
  bundleItems := fun _ => some [namedItem]

/-- The bundle for channel `a` takes the row of channel `b` away, with the peer's text. -/
theorem bundle_moves_row :
    ¬ OthersKept (Store.empty.put waitingRow)
      (handleSyncPayload plainPlatform oneItemSession (Store.empty.put waitingRow) ⟨true, true⟩
        (fun _ => "2026-01-02T00:00:00.000Z") "2026-01-02T00:00:00.000Z" ()
        ⟨some "a", some "p", .bundle "y"⟩).1 "a" := by
  intro h
  have hkept := h "m" waitingRow (by decide) (by decide)
  revert hkept
  decide

end SpecterComs.Chat
