import SpecterComs.Library.ExceptBind
import SpecterComs.Model.DeliveryService.Handlers

/-! # What each request writes

A request either leaves the tables alone, or bumps one group by one epoch and logs
the commit, or stores a GroupInfo for the epoch the group is at.
-/

namespace SpecterComs.DeliveryService

/-- The GroupInfo of a group's row, and the epoch it was uploaded for. -/
def Db.storedInfo (db : Db) (groupId : GroupId) : Option Bytes × Option ℕ :=
  (db.groups groupId).elim (none, none) fun row => (row.groupInfo, row.groupInfoEpoch)

/-- The transaction of an accepted commit. -/
structure Bumped (db : Db) (entry : LogRow) (info : Option Bytes) (db' : Db) : Prop where
  next : db.epoch entry.groupId + 1 = entry.epoch
  epochs : ∀ g, db'.epoch g = if g = entry.groupId then entry.epoch else db.epoch g
  infos : ∀ g, db'.storedInfo g =
    if g = entry.groupId ∧ info.isSome then (info, some entry.epoch) else db.storedInfo g
  log : db'.commitLog = insertLog db.commitLog entry

/-- The update of an accepted upload. -/
structure Uploaded (db : Db) (groupId : GroupId) (epoch : ℕ) (info : Bytes) (db' : Db) :
    Prop where
  current : db.epoch groupId = epoch
  epochs : ∀ g, db'.epoch g = db.epoch g
  infos : ∀ g, db'.storedInfo g =
    if g = groupId then (some info, some epoch) else db.storedInfo g
  log : db'.commitLog = db.commitLog

variable {codec : Base64} {db db' : Db} {groupId : GroupId}

@[simp] theorem epoch_insertGroup (db : Db) (groupId g : GroupId) :
    (db.insertGroup groupId).epoch g = db.epoch g := by
  unfold Db.insertGroup
  cases hrow : db.groups groupId with
  | some row => rfl
  | none =>
      by_cases hg : g = groupId
      · subst g
        simp [Db.epoch, hrow]
      · simp [Db.epoch, hg]

@[simp] theorem storedInfo_insertGroup (db : Db) (groupId g : GroupId) :
    (db.insertGroup groupId).storedInfo g = db.storedInfo g := by
  unfold Db.insertGroup
  cases hrow : db.groups groupId with
  | some row => rfl
  | none =>
      by_cases hg : g = groupId
      · subst g
        simp [Db.storedInfo, hrow]
      · simp [Db.storedInfo, hg]

@[simp] theorem commitLog_insertGroup (db : Db) (groupId : GroupId) :
    (db.insertGroup groupId).commitLog = db.commitLog := by
  unfold Db.insertGroup
  cases db.groups groupId with
  | some row => rfl
  | none => rfl

/-- Writing one row moves the epoch and the GroupInfo of that group only. -/
theorem epoch_update (db : Db) (row : GroupRow) (log : List LogRow) (g : GroupId) :
    Db.epoch ⟨Function.update db.groups groupId (some row), log⟩ g =
      if g = groupId then row.currentEpoch else db.epoch g := by
  by_cases hg : g = groupId
  · subst g
    simp [Db.epoch]
  · simp [Db.epoch, hg]

theorem storedInfo_update (db : Db) (row : GroupRow) (log : List LogRow) (g : GroupId) :
    Db.storedInfo ⟨Function.update db.groups groupId (some row), log⟩ g =
      if g = groupId then (row.groupInfo, row.groupInfoEpoch) else db.storedInfo g := by
  by_cases hg : g = groupId
  · subst g
    simp [Db.storedInfo]
  · simp [Db.storedInfo, hg]

variable {epoch max : ℕ} {commit path : String} {welcome : Option String}
  {welcomed : Option (List UserId)}

theorem bumpGroupEpoch_bumped {groupInfo : Option String}
    (h : bumpGroupEpoch codec db groupId epoch commit welcome welcomed groupInfo = some db') :
    ∃ entry, entry.groupId = groupId ∧ entry.epoch = epoch ∧
      entry.commit = codec.decode commit ∧ entry.welcome = bytesOrNull codec welcome ∧
      Bumped db entry (bytesOrNull codec groupInfo) db' := by
  unfold bumpGroupEpoch at h
  simp only at h
  cases hrow : (db.insertGroup groupId).groups groupId with
  | none =>
      rw [hrow] at h
      cases h
  | some row =>
      rw [hrow] at h
      simp only at h
      split at h
      · rename_i hnext
        have hepoch : db.epoch groupId = row.currentEpoch := by
          rw [← epoch_insertGroup db groupId, Db.epoch, hrow]
          rfl
        have hinfo : db.storedInfo groupId = (row.groupInfo, row.groupInfoEpoch) := by
          rw [← storedInfo_insertGroup db groupId, Db.storedInfo, hrow]
          rfl
        cases h
        refine ⟨_, rfl, rfl, rfl, rfl, ?_, ?_, ?_, by rw [commitLog_insertGroup]⟩
        · exact (congrArg (· + 1) hepoch).trans hnext
        · intro g
          rw [epoch_update, epoch_insertGroup]
          cases bytesOrNull codec groupInfo <;> rfl
        · intro g
          rw [storedInfo_update, storedInfo_insertGroup]
          cases bytesOrNull codec groupInfo with
          | none =>
              by_cases hg : g = groupId
              · simp [hg, hinfo]
              · simp [hg]
          | some info => simp
      · cases h

theorem updateGroupInfo_uploaded {groupInfo : String}
    (h : updateGroupInfo codec db groupId epoch groupInfo = some db') :
    Uploaded db groupId epoch (codec.decode groupInfo) db' := by
  unfold updateGroupInfo at h
  cases hrow : db.groups groupId with
  | none =>
      rw [hrow] at h
      cases h
  | some row =>
      rw [hrow] at h
      simp only at h
      split at h
      · rename_i hcurrent
        have hepoch : db.epoch groupId = row.currentEpoch := by
          rw [Db.epoch, hrow]
          rfl
        cases h
        refine ⟨hepoch.trans hcurrent, ?_, ?_, rfl⟩
        · intro g
          rw [epoch_update]
          split
          · rename_i hg
            rw [hg, hepoch]
          · rfl
        · intro g
          rw [storedInfo_update]
      · cases h

/-! ## Bodies -/

def Field.toOption {α : Type} : Field α → Option α
  | .value a => some a
  | _ => none

/-- The GroupInfo a body carries. -/
def Body.info (codec : Base64) (body : Body) : Option Bytes :=
  bytesOrNull codec body.groupInfo.toOption

theorem parseEpoch_eq_ok {f : Field ℤ} {n : ℕ+} (h : parseEpoch f = .ok n) :
    f = .value (n : ℕ) := by
  unfold parseEpoch at h
  split at h
  · cases h
    rfl
  · cases h

theorem parseNullish_eq_ok {f : Field String} {o : Option String}
    (h : parseNullish path max f = .ok o) : o = f.toOption := by
  unfold parseNullish at h
  split at h
  · split at h
    · cases h
      rfl
    · cases h
  · cases h
  · cases h
    cases f <;> simp_all [Field.toOption]

theorem parseString_eq_ok {min : ℕ} {f : Field String} {s : String}
    (h : parseString path min max f = .ok s) : f = .value s ∧ min ≤ jsLength s := by
  unfold parseString at h
  split at h
  · split at h
    · rename_i hlen
      cases h
      exact ⟨rfl, hlen.1⟩
    · cases h
  · cases h

variable {schema : CommitSchema} {data : CommitData}

theorem safeParse_eq_ok (codec : Base64) {body : Body} (h : schema.safeParse body = .ok data) :
    body.epoch = .value (data.epoch : ℕ) ∧
      bytesOrNull codec data.groupInfo = body.info codec := by
  unfold CommitSchema.safeParse at h
  simp only at h
  split at h
  · rename_i epoch commit welcome welcomed groupInfo hepoch hcommit hwelcome hwelcomed hinfo
    cases h
    exact ⟨parseEpoch_eq_ok hepoch, by rw [Body.info, ← parseNullish_eq_ok hinfo]⟩
  · cases h

theorem parsePutGroupInfo_eq_ok (codec : Base64) {body : Body} {data : ℕ+ × String}
    (h : parsePutGroupInfo body = .ok data) :
    body.epoch = .value (data.1 : ℕ) ∧ body.info codec = some (codec.decode data.2) := by
  unfold parsePutGroupInfo at h
  simp only at h
  split at h
  · rename_i epoch groupInfo hepoch hinfo
    cases h
    obtain ⟨hvalue, hlength⟩ := parseString_eq_ok hinfo
    refine ⟨parseEpoch_eq_ok hepoch, ?_⟩
    have hne : groupInfo.isEmpty = false := by
      rw [Bool.eq_false_iff]
      intro hempty
      rw [String.isEmpty_iff] at hempty
      subst hempty
      exact absurd hlength (by decide)
    simp [Body.info, hvalue, Field.toOption, bytesOrNull, hne]
  · cases h

/-! ## Endpoints -/

/-- The endpoints that write take a body. -/
def Request.body? : Request → Option (Target × Body)
  | .submitCommit target body => some (target, body)
  | .submitExternalCommit target body => some (target, body)
  | .putGroupInfo target body => some (target, body)
  | .getGroupInfo _ => none
  | .catchUp _ => none

/-- The request names this epoch of this group. -/
structure Names (user : Option UserId) (request : Request) (groupId : GroupId) (epoch : ℕ)
    (body : Body) : Prop where
  target : ∃ me target, user = some me ∧ request.body? = some (target, body) ∧
    target.groupId me = groupId
  epoch : body.epoch = .value epoch

/-- The two ways a request with a body writes. -/
inductive Wrote (codec : Base64) (db : Db) (groupId : GroupId) (epoch : ℕ) (body : Body)
    (db' : Db) : Prop
  | commit (entry : LogRow) (group : entry.groupId = groupId) (epoch : entry.epoch = epoch)
      (bumped : Bumped db entry (body.info codec) db')
  | upload (info : Bytes) (carried : body.info codec = some info)
      (uploaded : Uploaded db groupId epoch info db')

/-- The answer of a request that wrote. -/
inductive Carried : Response → Prop
  | accepted (epoch : ℕ) : Carried (.accepted epoch)
  | uploaded (epoch : ℕ) : Carried (.uploaded epoch)

theorem Carried.status_ne {response : Response} (h : Carried response) :
    response.status ≠ 409 := by
  cases h <;> simp [Response.status]

variable {dir : Directory} {user : Option UserId} {target : Target} {body : Body}
  {handled : Handled}

theorem requireUser_eq_ok {me : UserId} (h : requireUser user = .ok me) : user = some me := by
  cases user with
  | none => cases h
  | some u =>
      cases h
      rfl

theorem commitOrConflict_eq_ok {bumped : Option Db} (h : commitOrConflict bumped = .ok db') :
    bumped = some db' := by
  cases bumped with
  | none => cases h
  | some db =>
      cases h
      rfl

theorem bodyOf_eq_ok {α : Type} {parsed : Except Issues α} {a : α} (h : bodyOf parsed = .ok a) :
    parsed = .ok a :=
  Except.mapError_eq_ok.mp h

theorem resolve_eq_ok {access : GroupAccess} (h : resolve dir user target = .ok access) :
    ∃ me, user = some me ∧ target.groupId me = access.groupId := by
  cases target with
  | dm other =>
      simp only [resolve, resolveDmGroup, Except.bind_eq_ok] at h
      obtain ⟨me, hme, -, -, -, -, haccess⟩ := h
      cases haccess
      exact ⟨me, requireUser_eq_ok hme, rfl⟩
  | channel orgId chanId =>
      simp only [resolve, resolveChannelGroup, Except.bind_eq_ok] at h
      obtain ⟨me, hme, -, -, -, -, -, -, haccess⟩ := h
      cases haccess
      exact ⟨me, requireUser_eq_ok hme, rfl⟩
  | event orgId eventId =>
      simp only [resolve, resolveEventGroup, Except.bind_eq_ok] at h
      obtain ⟨me, hme, -, -, haccess⟩ := h
      cases haccess
      exact ⟨me, requireUser_eq_ok hme, rfl⟩

/-- Every commit endpoint ends in the same transaction. -/
theorem wrote_of_bump (hdata : bodyOf (schema.safeParse body) = .ok data)
    (hbump : commitOrConflict (bumpGroupEpoch codec db groupId data.epoch commit welcome welcomed data.groupInfo) = .ok db') :
    body.epoch = .value (data.epoch : ℕ) ∧ Wrote codec db groupId data.epoch body db' := by
  obtain ⟨hepoch, hinfo⟩ := safeParse_eq_ok codec (bodyOf_eq_ok hdata)
  obtain ⟨entry, hgroup, hentry, -, -, hbumped⟩ :=
    bumpGroupEpoch_bumped (commitOrConflict_eq_ok hbump)
  rw [hinfo] at hbumped
  exact ⟨hepoch, .commit entry hgroup hentry hbumped⟩

theorem submitCommit_wrote (h : submitCommit codec dir db user target body = .ok handled) :
    ∃ groupId epoch, Carried handled.response ∧
      Names user (.submitCommit target body) groupId epoch body ∧
        Wrote codec db groupId epoch body handled.db := by
  cases target with
  | dm other =>
      simp only [submitCommit, submitDmCommit, Except.bind_eq_ok] at h
      obtain ⟨me, hme, -, -, data, hdata, -, -, db', hbump, hhandled⟩ := h
      cases hhandled
      obtain ⟨hepoch, hwrote⟩ := wrote_of_bump hdata hbump
      exact ⟨_, _, .accepted _, ⟨⟨me, _, requireUser_eq_ok hme, rfl, rfl⟩, hepoch⟩, hwrote⟩
  | channel orgId chanId =>
      simp only [submitCommit, submitChannelCommit, Except.bind_eq_ok] at h
      obtain ⟨me, hme, data, hdata, -, -, -, -, -, -, -, -, db', hbump, hhandled⟩ := h
      cases hhandled
      obtain ⟨hepoch, hwrote⟩ := wrote_of_bump hdata hbump
      exact ⟨_, _, .accepted _, ⟨⟨me, _, requireUser_eq_ok hme, rfl, rfl⟩, hepoch⟩, hwrote⟩
  | event orgId eventId =>
      simp only [submitCommit, submitEventGroupCommit, Except.bind_eq_ok] at h
      obtain ⟨me, hme, data, hdata, -, -, -, -, db', hbump, hhandled⟩ := h
      cases hhandled
      obtain ⟨hepoch, hwrote⟩ := wrote_of_bump hdata hbump
      exact ⟨_, _, .accepted _, ⟨⟨me, _, requireUser_eq_ok hme, rfl, rfl⟩, hepoch⟩, hwrote⟩

theorem submitExternalCommit_wrote
    (h : submitExternalCommit codec dir db user target body = .ok handled) :
    ∃ groupId epoch, Carried handled.response ∧
      Names user (.submitExternalCommit target body) groupId epoch body ∧
        Wrote codec db groupId epoch body handled.db := by
  simp only [submitExternalCommit, Except.bind_eq_ok] at h
  obtain ⟨data, hdata, access, haccess, db', hbump, hhandled⟩ := h
  cases hhandled
  obtain ⟨me, hme, hgroup⟩ := resolve_eq_ok haccess
  obtain ⟨hepoch, hwrote⟩ := wrote_of_bump hdata hbump
  exact ⟨_, _, .accepted _, ⟨⟨me, target, hme, rfl, hgroup⟩, hepoch⟩, hwrote⟩

theorem putGroupInfo_wrote (h : putGroupInfo codec dir db user target body = .ok handled) :
    ∃ groupId epoch, Carried handled.response ∧
      Names user (.putGroupInfo target body) groupId epoch body ∧
        Wrote codec db groupId epoch body handled.db := by
  simp only [putGroupInfo, Except.bind_eq_ok] at h
  obtain ⟨data, hdata, access, haccess, hhandled⟩ := h
  cases hupdate : updateGroupInfo codec db access.groupId data.1 data.2 with
  | none =>
      rw [hupdate] at hhandled
      cases hhandled
  | some db' =>
      rw [hupdate] at hhandled
      cases hhandled
      obtain ⟨me, hme, hgroup⟩ := resolve_eq_ok haccess
      obtain ⟨hepoch, hinfo⟩ := parsePutGroupInfo_eq_ok codec (bodyOf_eq_ok hdata)
      exact ⟨_, _, .uploaded _, ⟨⟨me, target, hme, rfl, hgroup⟩, hepoch⟩,
        .upload _ hinfo (updateGroupInfo_uploaded hupdate)⟩

/-- Everything a request that was carried out can have done. -/
inductive Effect (codec : Base64) (db : Db) (user : Option UserId) (request : Request)
    (handled : Handled) : Prop
  | wrote (groupId : GroupId) (epoch : ℕ) (body : Body) (response : Carried handled.response)
      (names : Names user request groupId epoch body)
      (wrote : Wrote codec db groupId epoch body handled.db)
  | readInfo (groupId : GroupId) (db_eq : handled.db = db)
      (response : handled.response = .groupInfo (readGroupInfo codec db groupId))
  | readLog (groupId : GroupId) (userId : UserId) (db_eq : handled.db = db)
      (response : handled.response = .catchUp (fetchGroupCatchUp codec db db groupId userId))

theorem handle_effect {request : Request}
    (h : handle codec dir db user request = .ok handled) :
    Effect codec db user request handled := by
  cases request with
  | submitCommit target body =>
      obtain ⟨groupId, epoch, hresponse, hnames, hwrote⟩ := submitCommit_wrote h
      exact .wrote groupId epoch body hresponse hnames hwrote
  | submitExternalCommit target body =>
      obtain ⟨groupId, epoch, hresponse, hnames, hwrote⟩ := submitExternalCommit_wrote h
      exact .wrote groupId epoch body hresponse hnames hwrote
  | putGroupInfo target body =>
      obtain ⟨groupId, epoch, hresponse, hnames, hwrote⟩ := putGroupInfo_wrote h
      exact .wrote groupId epoch body hresponse hnames hwrote
  | getGroupInfo target =>
      simp only [handle, getGroupInfo, Except.bind_eq_ok] at h
      obtain ⟨access, -, hhandled⟩ := h
      cases hhandled
      exact .readInfo access.groupId rfl rfl
  | catchUp target =>
      simp only [handle, catchUp, Except.bind_eq_ok] at h
      obtain ⟨gate, -, hhandled⟩ := h
      cases hhandled
      exact .readLog gate.2 gate.1 rfl rfl

/-- A request is refused and leaves the tables alone, or is carried out, perhaps
with its answer lost. -/
theorem run_cases (codec : Base64) (db : Db) (c : Call) :
    (c.run codec db).db = db ∧ (∃ r, (c.run codec db).response = .refused r) ∨
      ∃ handled, Effect codec db c.user c.request handled ∧
        (c.run codec db).db = handled.db ∧
        ((c.run codec db).response = handled.response ∨
          (c.run codec db).response = .refused internalError) := by
  unfold Call.run
  cases hhandle : handle codec c.directory db c.user c.request with
  | error r =>
      left
      cases c.fault with
      | none => exact ⟨rfl, r, rfl⟩
      | query =>
          simp only
          split_ifs <;> exact ⟨rfl, _, rfl⟩
      | afterCommit sent =>
          simp only
          split_ifs <;> exact ⟨rfl, _, rfl⟩
  | ok handled =>
      have heffect := handle_effect hhandle
      cases c.fault with
      | none => exact Or.inr ⟨handled, heffect, rfl, Or.inl rfl⟩
      | query => exact Or.inl ⟨rfl, _, rfl⟩
      | afterCommit sent => exact Or.inr ⟨handled, heffect, rfl, Or.inr rfl⟩

end SpecterComs.DeliveryService
