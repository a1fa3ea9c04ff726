import Mathlib.Data.List.Induction
import SpecterComs.Verification.DeliveryService.Transactions

/-! # One commit per epoch, and a GroupInfo of the current epoch only -/

namespace SpecterComs.DeliveryService

/-- The rows of one group, in the order they were logged. -/
def Db.loggedEpochs (db : Db) (groupId : GroupId) : List ℕ :=
  (db.commitLog.filter (·.groupId == groupId)).map LogRow.epoch

/-- The log numbers its commits without a gap, and no GroupInfo is ahead of its group. -/
structure Inv (db : Db) : Prop where
  logged : ∀ g, db.loggedEpochs g = List.range' 1 (db.epoch g)
  info_le : ∀ g info e, db.storedInfo g = (info, some e) → e ≤ db.epoch g

variable {codec : Base64} {db db' : Db} {groupId : GroupId} {epoch : ℕ} {body : Body}

theorem inv_empty : Inv Db.empty := by
  constructor
  · intro g
    rfl
  · intro g info e h
    simp [Db.empty, Db.storedInfo] at h

/-- A commit for the next epoch finds no row under its key. -/
theorem Inv.insertLog_fresh (h : Inv db) {entry : LogRow}
    (hnext : db.epoch entry.groupId + 1 = entry.epoch) :
    insertLog db.commitLog entry = db.commitLog ++ [entry] := by
  unfold insertLog
  rw [if_neg]
  simp only [List.any_eq_true, Bool.and_eq_true, beq_iff_eq, not_exists, not_and]
  intro row hrow hgroup hepoch
  have hmem : row.epoch ∈ db.loggedEpochs entry.groupId := by
    refine List.mem_map.mpr ⟨row, List.mem_filter.mpr ⟨hrow, ?_⟩, rfl⟩
    simpa using hgroup
  rw [h.logged, List.mem_range'_1] at hmem
  omega

theorem Inv.bumped (h : Inv db) {entry : LogRow} {info : Option Bytes}
    (hb : Bumped db entry info db') : Inv db' := by
  constructor
  · intro g
    rw [Db.loggedEpochs, hb.log, h.insertLog_fresh hb.next, List.filter_append, List.map_append,
      hb.epochs]
    change db.loggedEpochs g ++ _ = _
    rw [h.logged]
    by_cases hg : g = entry.groupId
    · subst g
      rw [if_pos rfl, ← hb.next, List.range'_1_concat]
      simp [← hb.next, Nat.add_comm]
    · have hne : (entry.groupId == g) = false := by simpa using Ne.symm hg
      simp [hg, hne]
  · intro g i e hstored
    rw [hb.infos] at hstored
    rw [hb.epochs]
    by_cases hg : g = entry.groupId
    · subst g
      rw [if_pos rfl]
      split_ifs at hstored with hinfo
      · cases hstored
        exact Nat.le_refl _
      · have := h.info_le _ i e hstored
        have := hb.next
        omega
    · rw [if_neg hg]
      rw [if_neg (fun hpos => hg hpos.1)] at hstored
      exact h.info_le g i e hstored

theorem Inv.uploaded (h : Inv db) {info : Bytes} (hu : Uploaded db groupId epoch info db') :
    Inv db' := by
  constructor
  · intro g
    rw [Db.loggedEpochs, hu.log, hu.epochs]
    exact h.logged g
  · intro g i e hstored
    rw [hu.infos] at hstored
    rw [hu.epochs]
    split_ifs at hstored with hg
    · cases hstored
      rw [hg, hu.current]
    · exact h.info_le g i e hstored

theorem Inv.wrote (h : Inv db) (hw : Wrote codec db groupId epoch body db') : Inv db' := by
  cases hw with
  | commit entry _ _ hbumped => exact h.bumped hbumped
  | upload info _ huploaded => exact h.uploaded huploaded

theorem Inv.run (h : Inv db) (c : Call) : Inv (c.run codec db).db := by
  rcases run_cases codec db c with ⟨hdb, -⟩ | ⟨handled, heffect, hdb, -⟩
  · rwa [hdb]
  · rw [hdb]
    cases heffect with
    | wrote groupId epoch body _ _ hwrote => exact h.wrote hwrote
    | readInfo _ hsame _ => rwa [hsame]
    | readLog _ _ hsame _ => rwa [hsame]

/-- The rows are logged in epoch order, so the catch-up query returns them as they
are. -/
theorem Inv.selectLog_eq (h : Inv db) (g : GroupId) :
    db.selectLog g = db.commitLog.filter (·.groupId == g) := by
  refine List.mergeSort_of_pairwise ?_
  have hsorted : (db.loggedEpochs g).Pairwise (· ≤ ·) := by
    rw [h.logged]
    exact List.pairwise_le_range'
  simpa [Db.loggedEpochs, List.pairwise_map] using hsorted

/-! ## Uploads -/

theorem after_snoc (history : List Call) (c : Call) :
    after codec db (history ++ [c]) = (c.run codec (after codec db history)).db := by
  rw [after, List.foldl_append]
  rfl

/-- A request of the history carried this GroupInfo for this epoch, and the group was
at that epoch when it was stored. -/
structure UploadedIn (codec : Base64) (history : List Call) (groupId : GroupId) (epoch : ℕ)
    (info : Bytes) : Prop where
  upload : ∃ before c rest body, history = before ++ c :: rest ∧
    Names c.user c.request groupId epoch body ∧ body.info codec = some info ∧
    (after codec Db.empty (before ++ [c])).epoch groupId = epoch

variable {history : List Call}

theorem UploadedIn.snoc {info : Bytes} (h : UploadedIn codec history groupId epoch info)
    (c : Call) : UploadedIn codec (history ++ [c]) groupId epoch info := by
  obtain ⟨before, c', rest, body, rfl, hnames, hinfo, hepoch⟩ := h.upload
  exact ⟨before, c', rest ++ [c], body, by simp, hnames, hinfo, hepoch⟩

/-- Every stored GroupInfo has its upload in the history. -/
def Provenance (codec : Base64) (history : List Call) (db : Db) : Prop :=
  ∀ g info e, db.storedInfo g = (some info, some e) → UploadedIn codec history g e info

theorem provenance_wrote {c : Call} (hdb : after codec Db.empty history = db)
    (hnext : (c.run codec db).db = db') (h : Provenance codec history db)
    (hnames : Names c.user c.request groupId epoch body)
    (hw : Wrote codec db groupId epoch body db') : Provenance codec (history ++ [c]) db' := by
  have hafter : after codec Db.empty (history ++ [c]) = db' := by
    rw [after_snoc, hdb, hnext]
  intro g i e hstored
  cases hw with
  | commit entry hgroup hepoch hbumped =>
      subst hgroup
      subst hepoch
      rw [hbumped.infos] at hstored
      split_ifs at hstored with hpos
      · obtain ⟨hinfo, he⟩ := Prod.mk.inj hstored
        obtain rfl := Option.some.inj he
        obtain ⟨rfl, -⟩ := hpos
        refine ⟨history, c, [], body, rfl, hnames, hinfo, ?_⟩
        rw [hafter, hbumped.epochs, if_pos rfl]
      · exact (h g i e hstored).snoc c
  | upload info hinfo huploaded =>
      rw [huploaded.infos] at hstored
      split_ifs at hstored with hg
      · cases hstored
        subst hg
        refine ⟨history, c, [], body, rfl, hnames, hinfo, ?_⟩
        rw [hafter, huploaded.epochs, huploaded.current]
      · exact (h g i e hstored).snoc c

theorem provenance_run (c : Call) (h : Provenance codec history (after codec Db.empty history)) :
    Provenance codec (history ++ [c]) (after codec Db.empty (history ++ [c])) := by
  have hkeep : Provenance codec (history ++ [c]) (after codec Db.empty history) :=
    fun g i e hstored => (h g i e hstored).snoc c
  rw [after_snoc]
  rcases run_cases codec (after codec Db.empty history) c with
    ⟨hdb, -⟩ | ⟨handled, heffect, hdb, -⟩
  · rwa [hdb]
  · rw [hdb]
    cases heffect with
    | wrote groupId epoch body _ hnames hwrote => exact provenance_wrote rfl hdb h hnames hwrote
    | readInfo _ hsame _ => rwa [hsame]
    | readLog _ _ hsame _ => rwa [hsame]

/-- Over any history both invariants hold of the tables. -/
theorem inv_after (codec : Base64) (history : List Call) :
    Inv (after codec Db.empty history) ∧
      Provenance codec history (after codec Db.empty history) := by
  induction history using List.reverseRecOn with
  | nil =>
      refine ⟨inv_empty, ?_⟩
      intro g info e h
      simp [after, Db.empty, Db.storedInfo] at h
  | append_singleton history c ih =>
      refine ⟨?_, provenance_run c ih.2⟩
      rw [after_snoc]
      exact ih.1.run c

/-! ## Answers -/

/-- A served GroupInfo is the stored one, and its epoch is the group's. -/
theorem readGroupInfo_served {s : String}
    (h : (readGroupInfo codec db groupId).groupInfo = some s) :
    (readGroupInfo codec db groupId).groupId = groupId ∧
      (readGroupInfo codec db groupId).epoch = db.epoch groupId ∧
      ∃ info, s = codec.encode info ∧
        db.storedInfo groupId = (some info, some (db.epoch groupId)) := by
  unfold readGroupInfo at h ⊢
  cases hrow : db.groups groupId with
  | none => simp [hrow] at h
  | some row =>
      rw [hrow] at h
      simp only at h ⊢
      split_ifs at h ⊢ with hzero hfresh
      · obtain ⟨info, hinfo, hs⟩ := Option.map_eq_some_iff.mp h
        refine ⟨rfl, ?_, info, hs.symm, ?_⟩
        · simp [Db.epoch, hrow]
        · simp [Db.storedInfo, Db.epoch, hrow, hinfo, hfresh]

/-- What holds of the tables after any history, and of the answer to any next request. -/
structure Sound (codec : Base64) (history : List Call) (db : Db) : Prop where
  /-- The logged epochs of a group are 1 up to its current epoch, one commit each. -/
  logged : ∀ g, (db.selectLog g).map LogRow.epoch = List.range' 1 (db.epoch g)
  /-- No GroupInfo is ahead of its group. -/
  info_le : ∀ g row e, db.groups g = some row → row.groupInfoEpoch = some e →
    e ≤ row.currentEpoch
  /-- A served GroupInfo was uploaded for the epoch the group is at. -/
  served : ∀ (c : Call) reply s, (c.run codec db).response = .groupInfo reply →
    reply.groupInfo = some s → reply.epoch = db.epoch reply.groupId ∧
      ∃ info, s = codec.encode info ∧ UploadedIn codec history reply.groupId reply.epoch info
  /-- A request answered with a conflict changes nothing. -/
  conflict : ∀ c : Call, (c.run codec db).response.status = 409 → (c.run codec db).db = db

theorem delivery_service_sound (codec : Base64) (history : List Call) :
    Sound codec history (after codec Db.empty history) := by
  obtain ⟨hinv, hprovenance⟩ := inv_after codec history
  refine ⟨?_, ?_, ?_, ?_⟩
  · intro g
    rw [hinv.selectLog_eq]
    exact hinv.logged g
  · intro g row e hrow he
    have hle := hinv.info_le g row.groupInfo e (by simp [Db.storedInfo, hrow, he])
    simpa [Db.epoch, hrow] using hle
  · intro c reply s hresponse hserved
    rcases run_cases codec (after codec Db.empty history) c with
      ⟨-, r, hr⟩ | ⟨handled, heffect, -, hr⟩
    · rw [hresponse] at hr
      cases hr
    · rw [hresponse] at hr
      rcases hr with hr | hr
      · cases heffect with
        | wrote _ _ _ hcarried _ _ =>
            rw [← hr] at hcarried
            cases hcarried
        | readInfo g _ hread =>
            obtain rfl : reply = _ := Response.groupInfo.inj (hr.trans hread)
            obtain ⟨hgroup, hepoch, info, hs, hstored⟩ := readGroupInfo_served hserved
            rw [hgroup, hepoch]
            exact ⟨rfl, info, hs, hprovenance _ _ _ hstored⟩
        | readLog g u _ hread =>
            rw [← hr] at hread
            cases hread
      · cases hr
  · intro c hstatus
    rcases run_cases codec (after codec Db.empty history) c with
      ⟨hdb, -⟩ | ⟨handled, heffect, hdb, hr⟩
    · exact hdb
    · rcases hr with hr | hr
      · rw [hr] at hstatus
        cases heffect with
        | wrote _ _ _ hcarried _ _ => exact absurd hstatus hcarried.status_ne
        | readInfo _ hsame _ => rw [hdb, hsame]
        | readLog _ _ hsame _ => rw [hdb, hsame]
      · rw [hr] at hstatus
        simp [internalError, Response.status, Refusal.status] at hstatus

end SpecterComs.DeliveryService
