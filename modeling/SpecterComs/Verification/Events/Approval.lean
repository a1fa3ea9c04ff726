import SpecterComs.Verification.Events.Handlers
import SpecterComs.Verification.Events.Keys

/-! # Who is accepted in a role that needs approval

Joining such a role leaves the membership pending. Joining its group, and answering an
assignment, accept whatever row is there.
-/

namespace SpecterComs.Events

open Handler

/-- An open role whose members a planner approves. -/
def Role.gated (r : Role) : Bool :=
  r.assignmentMode = .open && !r.autoApprove

def Db.gated (db : Db) (roleId : Option ℕ) : Bool :=
  db.roles.any fun r => roleId = some r.id && r.gated

/-- The user manages the event of the group. -/
def Db.managesGroup (db : Db) (userId groupId : ℕ) : Bool :=
  db.groups.any fun g => g.id = groupId &&
    db.events.any fun e => e.id = g.eventId && db.canManageThisEvent userId e.orgId e.id

/-- The membership waits for a planner's approval. -/
def Db.unapproved (db : Db) (m : Member) : Bool :=
  m.status ≠ .accepted && db.gated m.roleId

/-- The checks of a signup. -/
def Db.admits (db : Db) (orgId eventId userId : ℕ) : Bool :=
  ((db.event eventId orgId).any fun ev => ev.accessMode = .open) && db.isOrgMember orgId userId

namespace Request

/-- The approval of a membership by a planner of its event. -/
def approves (db : Db) (groupId userId : ℕ) : Request → Bool
  | approveGroupMember _ _ groupId' userId' requesterId =>
      groupId' = groupId && userId' = userId && db.managesGroup requesterId groupId
  | approveAllGroupMembers _ _ groupId' requesterId =>
      groupId' = groupId && db.managesGroup requesterId groupId
  | _ => false

/-- A request that accepts whatever row it finds does not meet an unapproved membership, other
than one of an event whose planner makes it. -/
def keepsGate (db : Db) : Request → Bool
  | joinEventGroup orgId eventId groupId userId =>
      !(db.admits orgId eventId userId && db.groupOfEvent groupId eventId) ||
        !(db.member groupId userId).any db.unapproved
  | respondEventAssignment eventId userId true =>
      db.members.all fun m => !(m.userId = userId && db.inEvent eventId m && db.unapproved m)
  | approveGroupMember orgId eventId groupId userId requesterId =>
      !db.canManageThisEvent requesterId orgId eventId || db.managesGroup requesterId groupId ||
        !(db.member groupId userId).any db.unapproved
  | approveAllGroupMembers orgId eventId groupId requesterId =>
      !db.canManageThisEvent requesterId orgId eventId || db.managesGroup requesterId groupId ||
        db.members.all fun m =>
          !(m.groupId = groupId && m.status = .pending && db.gated m.roleId)
  | _ => true

end Request

/-- The membership was accepted in its role already. -/
def Db.wasAccepted (db : Db) (m' : Member) : Prop :=
  ∃ m ∈ db.members, m.key = m'.key ∧ m.roleId = m'.roleId ∧ m.status = .accepted

/-- Every accepted membership in a role that needs approval was accepted before. -/
def AcceptsNobody (db db' : Db) : Prop :=
  ∀ m' ∈ db'.members, m'.status = .accepted → db.gated m'.roleId = true → db.wasAccepted m'

/-- Every accepted membership in a role that needs approval was accepted before, or is approved
by the request. -/
def KeepsGate (db : Db) (r : Request) (db' : Db) : Prop :=
  ∀ m' ∈ db'.members, m'.status = .accepted → db.gated m'.roleId = true →
    db.wasAccepted m' ∨ r.approves db m'.groupId m'.userId = true

variable {db db' : Db} {orgId eventId groupId roleId userId : ℕ}

/-! ## Gates -/

theorem gated_none : db.gated none = false := by
  simp [Db.gated]

variable {role : Role}

theorem gated_of_mem (h : Keyed db) (hrole : role ∈ db.roles) :
    db.gated (some role.id) = role.gated := by
  unfold Db.gated
  rw [Bool.eq_iff_iff, List.any_eq_true]
  constructor
  · rintro ⟨r, hr, hgated⟩
    obtain ⟨hid, hgated⟩ := by simpa using hgated
    rwa [eq_of_key_eq h.roles hrole hr hid]
  · intro hgated
    exact ⟨role, hrole, by simp [hgated]⟩

theorem joinStatus_gated (h : role.joinStatus = .accepted) : role.gated = false := by
  unfold Role.joinStatus at h
  split at h
  · rename_i hauto
    simp [Role.gated, hauto]
  · cases h

theorem gated_congr {f : Role → Role} (hf : ∀ r, (f r).id = r.id ∧ (f r).gated = r.gated)
    (hroles : db'.roles = db.roles.map f) (id : Option ℕ) : db'.gated id = db.gated id := by
  unfold Db.gated
  rw [hroles, List.any_map]
  congr 1
  funext r
  simp [hf r]

theorem gated_release (m : Option Member) (id : Option ℕ) : (release m db).gated id = db.gated id := by
  unfold release
  split
  · rfl
  · split
    · split
      · exact gated_congr (fun r => by split <;> simp [Role.gated]) rfl id
      · rfl
    · rfl

variable {m : Member}

theorem member_eq_some (h : Keyed db) (hm : m ∈ db.members) (hof : m.isOf groupId userId = true) :
    db.member groupId userId = some m := by
  obtain ⟨m₀, hm₀⟩ : ∃ m₀, db.member groupId userId = some m₀ := by
    cases hfind : db.member groupId userId with
    | some m₀ => exact ⟨m₀, rfl⟩
    | none => exact absurd hof (List.find?_eq_none.mp hfind m hm)
  have hkey : m₀.key = m.key :=
    (isOf_iff_key.mp (List.find?_some hm₀)).trans (isOf_iff_key.mp hof).symm
  rw [hm₀, eq_of_key_eq h.members (List.mem_of_find?_eq_some hm₀) hm hkey]

/-! ## Writes -/

variable {set : Member → Member}

theorem mem_upsertMember {m' : Member} (h : m' ∈ (db.upsertMember m set).members) :
    m' ∈ db.members ∨ m' = m ∨ ∃ m₀ ∈ db.members, m₀.key = m.key ∧ m' = set m₀ := by
  unfold Db.upsertMember at h
  split at h
  · obtain ⟨m₀, hm₀, rfl⟩ := List.mem_map.mp h
    split
    · rename_i hof
      exact .inr (.inr ⟨m₀, hm₀, isOf_iff_key.mp hof, rfl⟩)
    · exact .inl hm₀
  · rcases List.mem_append.mp h with h | h
    · exact .inl h
    · exact .inr (.inl (List.mem_singleton.mp h))

namespace AcceptsNobody

theorem of_same (h : db'.members = db.members) : AcceptsNobody db db' := by
  intro m' hm' haccepted _
  exact ⟨m', by rwa [← h], rfl, rfl, haccepted⟩

/-- Where every new row is pending or of no role that needs approval. -/
theorem of_mem
    (h : ∀ m' ∈ db'.members, m' ∈ db.members ∨
      (m'.status = .accepted → db.gated m'.roleId = false)) : AcceptsNobody db db' := by
  intro m' hm' haccepted hgated
  rcases h m' hm' with hold | hnew
  · exact ⟨m', hold, rfl, rfl, haccepted⟩
  · simp [hnew haccepted] at hgated

variable {db₁ db₂ : Db}

/-- A further write that leaves the member rows. -/
theorem same (h : AcceptsNobody db db₁) (hmembers : db₂.members = db₁.members) :
    AcceptsNobody db db₂ := by
  intro m' hm'
  rw [hmembers] at hm'
  exact h m' hm'

theorem deleteMembers (h : AcceptsNobody db db₁) (p : Member → Bool) :
    AcceptsNobody db (db₁.deleteMembers p) :=
  fun m' hm' => h m' (List.mem_filter.mp hm').1

theorem upsertMember (h : AcceptsNobody db db₁)
    (hm : m.status = .accepted → db.gated m.roleId = false)
    (hset : ∀ m₀, (set m₀).status = .accepted → db.gated (set m₀).roleId = true → m₀.status = .accepted ∧ m₀.roleId = (set m₀).roleId ∧ m₀.key = (set m₀).key) :
    AcceptsNobody db (db₁.upsertMember m set) := by
  intro m' hm' haccepted hgated
  rcases mem_upsertMember hm' with hold | rfl | ⟨m₀, hm₀, -, rfl⟩
  · exact h m' hold haccepted hgated
  · simp [hm haccepted] at hgated
  · obtain ⟨hstatus, hrole, hkey⟩ := hset m₀ haccepted hgated
    obtain ⟨m₁, hm₁, hkey₁, hrole₁, hstatus₁⟩ := h m₀ hm₀ hstatus (by rwa [hrole])
    exact ⟨m₁, hm₁, hkey₁.trans hkey, hrole₁.trans hrole, hstatus₁⟩

/-- Where the role of some rows is set to null. -/
theorem clearRoles (h : AcceptsNobody db db₁) (p : ℕ → Bool)
    (hmembers : ∀ m' ∈ db₂.members, ∃ m ∈ db₁.members,
      m' = { m with roleId := m.roleId.filter p }) : AcceptsNobody db db₂ := by
  intro m' hm' haccepted hgated
  obtain ⟨m, hm, rfl⟩ := hmembers m' hm'
  change db.gated (m.roleId.filter p) = true at hgated
  have hrole : m.roleId.filter p = m.roleId := by
    cases hrole : m.roleId with
    | none => rfl
    | some id =>
        by_cases hp : p id = true
        · simp [hp]
        · rw [hrole, Option.filter_some, if_neg hp, gated_none] at hgated
          cases hgated
  rw [hrole] at hgated
  obtain ⟨m₀, hm₀, hkey₀, hrole₀, hstatus₀⟩ := h m hm haccepted hgated
  exact ⟨m₀, hm₀, hkey₀, hrole₀.trans hrole.symm, hstatus₀⟩

theorem deleteRoles (h : AcceptsNobody db db₁) (ids : List ℕ) :
    AcceptsNobody db (db₁.deleteRoles ids) := by
  refine h.clearRoles (fun id => !decide (id ∈ ids)) fun m' hm' => ?_
  obtain ⟨m, hm, rfl⟩ := List.mem_map.mp hm'
  exact ⟨m, hm, rfl⟩

theorem deleteGroups (h : AcceptsNobody db db₁) (ids : List ℕ) :
    AcceptsNobody db (db₁.deleteGroups ids) := by
  refine h.clearRoles
    (fun id => !(db₁.roles.any fun r => decide (r.groupId ∈ ids) && decide (r.id = id)))
    fun m' hm' => ?_
  obtain ⟨m, hm, rfl⟩ := List.mem_map.mp hm'
  exact ⟨m, (List.mem_filter.mp hm).1, rfl⟩

end AcceptsNobody

/-- An upsert that sets the role and the status of those who join it. -/
theorem acceptsNobody_upsertMember (h : Keyed db) (hrole : role ∈ db.roles)
    (hm : m.roleId = some role.id ∧ m.status = role.joinStatus)
    (hset : ∀ m₀, (set m₀).roleId = some role.id ∧ (set m₀).status = role.joinStatus)
    (hmembers : db'.members = (db.upsertMember m set).members) : AcceptsNobody db db' := by
  apply AcceptsNobody.of_mem
  intro m' hm'
  rw [hmembers] at hm'
  rcases mem_upsertMember hm' with hold | rfl | ⟨m₀, -, -, rfl⟩
  · exact .inl hold
  · right
    rw [hm.1, hm.2, gated_of_mem h hrole]
    exact joinStatus_gated
  · right
    rw [(hset m₀).1, (hset m₀).2, gated_of_mem h hrole]
    exact joinStatus_gated

theorem mem_upsertMember_set {m₀ : Member} (hm₀ : m₀ ∈ db.members)
    (hof : m₀.isOf m.groupId m.userId = true) : set m₀ ∈ (db.upsertMember m set).members := by
  have hany : db.members.any (Member.isOf m.groupId m.userId) = true :=
    List.any_eq_true.mpr ⟨m₀, hm₀, hof⟩
  rw [Db.upsertMember, if_pos hany]
  exact List.mem_map.mpr ⟨m₀, hm₀, if_pos hof⟩

/-- The upsert that only accepts lets nobody in unless there is an unapproved row. -/
theorem acceptsNobody_acceptUpsert (h : Keyed db) :
    AcceptsNobody db (acceptUpsert groupId userId db) ↔
      (db.member groupId userId).any db.unapproved = false := by
  constructor
  · intro hkeeps
    cases hm : db.member groupId userId with
    | none => rfl
    | some m =>
        have hmem := List.mem_of_find?_eq_some hm
        have hof : m.isOf groupId userId = true := List.find?_some hm
        by_contra hunapproved
        obtain ⟨hstatus, hgated⟩ := by simpa [Db.unapproved] using hunapproved
        have hset : { m with status := .accepted } ∈ (acceptUpsert groupId userId db).members :=
          mem_upsertMember_set (m := .plain groupId userId .accepted) hmem hof
        obtain ⟨m₀, hm₀, hkey, -, haccepted⟩ := hkeeps _ hset rfl hgated
        rw [eq_of_key_eq h.members hm₀ hmem hkey] at haccepted
        exact hstatus haccepted
  · intro hnone m' hm' haccepted hgated
    rcases mem_upsertMember hm' with hold | rfl | ⟨m, hm, hkey, rfl⟩
    · exact ⟨m', hold, rfl, rfl, haccepted⟩
    · simp [Member.plain, gated_none] at hgated
    · have hof : m.isOf groupId userId = true := isOf_iff_key.mpr hkey
      rw [member_eq_some h hm hof, Option.any_some] at hnone
      refine ⟨m, hm, rfl, rfl, ?_⟩
      by_contra hstatus
      have hgated : db.gated m.roleId = true := hgated
      simp [Db.unapproved, hstatus, hgated] at hnone

/-- An update that accepts the rows meeting `p`, by a request that approves them or does not. -/
theorem keepsGate_updateMembers (h : Keyed db) {r : Request} {p : Member → Bool} {c : Bool}
    (hp : ∀ m, p m = true → r.approves db m.groupId m.userId = c) :
    KeepsGate db r (db.updateMembers p fun m => { m with status := .accepted }) ↔
      c = true ∨ ∀ m ∈ db.members, p m = true → db.unapproved m = false := by
  constructor
  · intro hkeeps
    cases c with
    | true => exact .inl rfl
    | false =>
        right
        intro m hm hpm
        by_contra hunapproved
        obtain ⟨hstatus, hgated⟩ := by simpa [Db.unapproved] using hunapproved
        have hset : { m with status := .accepted } ∈
            (db.updateMembers p fun m => { m with status := .accepted }).members :=
          List.mem_map.mpr ⟨m, hm, if_pos hpm⟩
        rcases hkeeps _ hset rfl hgated with ⟨m₀, hm₀, hkey, -, haccepted⟩ | happroves
        · rw [eq_of_key_eq h.members hm₀ hm hkey] at haccepted
          exact hstatus haccepted
        · rw [hp m hpm] at happroves
          cases happroves
  · intro hcases m' hm' haccepted hgated
    obtain ⟨m, hm, rfl⟩ := List.mem_map.mp hm'
    by_cases hpm : p m = true
    · rw [if_pos hpm] at hgated ⊢
      rcases hcases with rfl | hnone
      · exact .inr (hp m hpm)
      · refine .inl ⟨m, hm, rfl, rfl, ?_⟩
        by_contra hstatus
        have hgated : db.gated m.roleId = true := hgated
        simpa [Db.unapproved, hstatus, hgated] using hnone m hm hpm
    · rw [if_neg hpm] at haccepted ⊢
      exact .inl ⟨m, hm, rfl, rfl, haccepted⟩

theorem forall_isOf_iff (h : Keyed db) {P : Member → Bool} :
    (∀ m ∈ db.members, m.isOf groupId userId = true → P m = false) ↔
      (db.member groupId userId).any P = false := by
  constructor
  · intro hnone
    cases hm : db.member groupId userId with
    | none => rfl
    | some m => exact hnone m (List.mem_of_find?_eq_some hm) (List.find?_some hm)
  · intro hnone m hm hof
    rwa [member_eq_some h hm hof, Option.any_some] at hnone

/-! ## Requests -/

/-- A request that is no approval. -/
theorem keepsGate_iff {r : Request} (hr : ∀ g u, r.approves db g u = false) :
    KeepsGate db r db' ↔ AcceptsNobody db db' := by
  simp [KeepsGate, AcceptsNobody, hr]

theorem serve_joinEventGroup (db : Db) (orgId eventId groupId userId : ℕ) :
    ((Request.joinEventGroup orgId eventId groupId userId).serve db).2 =
      if db.admits orgId eventId userId && db.groupOfEvent groupId eventId then
        acceptUpsert groupId userId db
      else db := by
  rw [Request.serve, autocommit_snd, joinEventGroup]
  simp only [exec_select_bind, exec_found_bind, exec_require_bind, exec_update_bind, Db.admits]
  split
  · rename_i ev hev
    by_cases hopen : ev.accessMode = .open
    · by_cases hmember : db.isOrgMember orgId userId = true
      · by_cases hgroup : db.groupOfEvent groupId eventId = true
        · simp [hev, hopen, hmember, hgroup, acceptUpsert]
        · simp [hev, hopen, hmember, hgroup]
      · simp [hev, hopen, hmember]
    · simp [hev, hopen]
  · rename_i hev
    simp [hev]

theorem serve_respond_accept (db : Db) (eventId userId : ℕ) :
    ((Request.respondEventAssignment eventId userId true).serve db).2 =
      db.updateMembers (fun m => m.userId = userId && db.inEvent eventId m)
        fun m => { m with status := .accepted } := by
  rw [Request.serve, autocommit_snd, respondEventAssignment]
  simp only [exec_updateReturning_bind, exec_require_bind, exec_update_bind]
  split <;> rfl

theorem serve_approveGroupMember (db : Db) (orgId eventId groupId userId requesterId : ℕ) :
    ((Request.approveGroupMember orgId eventId groupId userId requesterId).serve db).2 =
      if db.canManageThisEvent requesterId orgId eventId then
        db.updateMembers (Member.isOf groupId userId) fun m => { m with status := .accepted }
      else db := by
  rw [Request.serve, autocommit_snd, approveGroupMember]
  simp only [exec_select_bind, exec_updateReturning_bind, exec_require_bind]
  split
  · split <;> rfl
  · rfl

theorem serve_approveAllGroupMembers (db : Db) (orgId eventId groupId requesterId : ℕ) :
    ((Request.approveAllGroupMembers orgId eventId groupId requesterId).serve db).2 =
      if db.canManageThisEvent requesterId orgId eventId then
        db.updateMembers (fun m => m.groupId = groupId && m.status = .pending)
          fun m => { m with status := .accepted }
      else db := by
  rw [Request.serve, autocommit_snd, approveAllGroupMembers]
  simp only [exec_select_bind, exec_updateReturning_bind, exec_require_bind]
  split <;> rfl

/-! ## Saves -/

section Save

variable {requesterId : ℕ} {existing created : List ℕ}

theorem acceptsNobody_saveGroup {g : GroupPayload} :
    Keeps (AcceptsNobody db) (saveGroup eventId existing created g) := by
  unfold saveGroup
  split
  · exact (Keeps.update fun _ h => h.same rfl).bind fun _ => Keeps.pure _
  · exact Keeps.updateReturning fun _ h => h.same rfl

theorem acceptsNobody_saveShips {ships : Option (List ShipPayload)} :
    Keeps (AcceptsNobody db) (saveShips groupId ships) :=
  (Keeps.update fun _ h => h.same rfl).bind fun _ =>
    (Keeps.forM fun _ _ => Keeps.update fun _ h => h.same rfl).bind fun _ =>
    (Keeps.select _).bind fun _ => (Keeps.update fun _ h => h.same rfl).bind fun _ =>
    Keeps.update fun _ h => h.deleteMembers _

theorem acceptsNobody_saveGroups (created : List ℕ) (groups : List GroupPayload) :
    Keeps (AcceptsNobody db) (saveGroups eventId existing created groups) := by
  induction groups generalizing created with
  | nil => exact Keeps.pure _
  | cons g groups ih =>
      exact acceptsNobody_saveGroup.bind fun _ => acceptsNobody_saveShips.bind fun _ => ih _

theorem acceptsNobody_saveLinks (i : ℕ) (groups : List GroupPayload) :
    Keeps (AcceptsNobody db) (saveLinks created i groups) := by
  induction groups generalizing i with
  | nil => exact Keeps.pure _
  | cons g groups ih =>
      refine (Keeps.update fun db h => ?_).bind fun _ => ih _
      cases created[i]? with
      | none => exact h
      | some groupId => exact h.same rfl

theorem acceptsNobody_saveRole {sortOrder : ℕ} {r : RolePayload} :
    Keeps (AcceptsNobody db) (saveRole groupId existing sortOrder r) := by
  unfold saveRole
  split
  · exact (Keeps.update fun _ h => h.same rfl).bind fun _ => Keeps.pure _
  · exact Keeps.updateReturning fun _ h => h.same rfl

theorem acceptsNobody_reconcile {r : RolePayload} :
    Keeps (AcceptsNobody db) (reconcile groupId roleId r) := by
  unfold reconcile
  split
  · exact Keeps.pure _
  · exact (Keeps.update fun _ h => h.deleteMembers _).bind fun _ =>
      Keeps.update fun _ h => h.upsertMember nofun fun _ => nofun
  · exact Keeps.update fun _ h => h.deleteMembers _

theorem acceptsNobody_saveRolesFrom (created : List ℕ) (roles : List RolePayload) :
    Keeps (AcceptsNobody db) (saveRolesFrom groupId existing created roles) := by
  induction roles generalizing created with
  | nil => exact Keeps.pure _
  | cons r roles ih =>
      exact acceptsNobody_saveRole.bind fun _ => acceptsNobody_reconcile.bind fun _ => ih _

variable {restricted : Bool}

theorem acceptsNobody_saveRoles {g : GroupPayload} :
    Keeps (AcceptsNobody db) (saveRoles restricted groupId g) := by
  refine (Keeps.select _).bind fun existing => ?_
  split
  · exact (Keeps.forM fun _ _ => Keeps.update fun _ h =>
      h.upsertMember (fun _ => gated_none) fun _ hstatus _ => ⟨hstatus, rfl, rfl⟩).bind
      fun _ => (Keeps.update fun _ h => h.deleteRoles _).bind fun _ => Keeps.pure _
  · exact (acceptsNobody_saveRolesFrom _ _).bind fun _ =>
      (Keeps.update fun _ h => h.deleteRoles _).bind fun _ => Keeps.pure _

theorem acceptsNobody_saveAllRoles (groups : List (ℕ × GroupPayload)) :
    Keeps (AcceptsNobody db) (saveAllRoles restricted groups) := by
  induction groups with
  | nil => exact Keeps.pure _
  | cons g groups ih =>
      exact acceptsNobody_saveRoles.bind fun _ => ih.bind fun _ => Keeps.pure _

theorem acceptsNobody_saveRoster {groups : Option (List GroupPayload)} :
    Keeps (AcceptsNobody db) (saveRoster eventId restricted groups) := by
  cases groups with
  | none => exact Keeps.pure _
  | some groups =>
      exact (Keeps.select _).bind fun _ => (acceptsNobody_saveGroups _ _).bind fun _ =>
        (Keeps.update fun _ h => h.deleteGroups _).bind fun _ =>
        (acceptsNobody_saveLinks _ _).bind fun _ => acceptsNobody_saveAllRoles _

theorem acceptsNobody_saveEventGroups {body : PlanPayload} :
    Keeps (AcceptsNobody db) (saveEventGroups orgId eventId userId body) :=
  keeps_saveEventGroups (fun _ _ hsame h => h.same hsame.members) fun _ => acceptsNobody_saveRoster

theorem acceptsNobody_refl (db : Db) : AcceptsNobody db db :=
  .of_same rfl

theorem acceptsNobody_releaseShipSlot :
    Keeps (AcceptsNobody db) (releaseShipSlot groupId userId) :=
  (Keeps.updateReturning fun _ h => h.same rfl).bind fun _ => (Keeps.require _ _).bind fun _ =>
    (Keeps.update fun _ h => h.deleteMembers _).bind fun _ => Keeps.pure _

theorem acceptsNobody_respond_decline :
    AcceptsNobody db ((Request.respondEventAssignment eventId userId false).serve db).2 := by
  apply AcceptsNobody.of_mem
  intro m' hm'
  rw [(serve_decline db eventId userId).2] at hm'
  obtain ⟨m, hm, rfl⟩ := List.mem_map.mp hm'
  split
  · exact .inr nofun
  · exact .inl hm

end Save

/-! ## Signups -/

theorem members_upsertMember {db₁ : Db} (h : db₁.members = db.members) (m : Member)
    (set : Member → Member) :
    (db₁.upsertMember m set).members = (db.upsertMember m set).members := by
  rw [Db.upsertMember, Db.upsertMember, h]

@[simp] theorem members_reserveAll (counts : List (String × ℕ)) (db : Db) :
    (reserveAll groupId counts db).members = db.members := by
  induction counts generalizing db with
  | nil => rfl
  | cons c counts ih =>
      rw [reserveAll, List.foldl_cons]
      exact ih _

section Signup

variable {claimedShipId : Option ℕ} {seatLabel : Option String}

theorem acceptsNobody_joinEventRole (h : Keyed db) :
    AcceptsNobody db ((Request.joinEventRole orgId eventId groupId roleId userId claimedShipId
      seatLabel).serve db).2 := by
  rcases spec_joinEventRole.transaction db with
    ⟨r, seen, w, hseen, hjoined, hserve⟩ | ⟨e, -, -, -, -, hserve⟩
  · obtain ⟨d, hd, d', -, role, hrole, -, hw⟩ := hjoined.writes
    rw [Request.serve, hserve]
    rw [hseen d hd] at hrole
    have hmem : role ∈ db.roles := List.mem_of_find?_eq_some hrole
    rcases hw with ⟨seat, res, counts, -, rfl, -⟩ | rfl
    · refine acceptsNobody_upsertMember h hmem ⟨rfl, rfl⟩ (fun _ => ⟨rfl, rfl⟩)
        (members_upsertMember ?_ _ _)
      simp
    · refine AcceptsNobody.upsertMember (.of_same ?_) (fun _ => gated_none) fun m₀ _ hgated => ?_
      · simp
      · rw [Member.plain, gated_none] at hgated
        cases hgated
  · rw [Request.serve, hserve]
    exact .of_same rfl

theorem acceptsNobody_quickJoinEvent (h : Keyed db) :
    AcceptsNobody db ((Request.quickJoinEvent orgId eventId userId).serve db).2 := by
  obtain ⟨r, seen, w, hseen, hjoined | hrefused, hserve⟩ :=
    spec_quickJoinEvent.autocommit db
  · rw [Request.serve, hserve]
    rcases hjoined.writes with rfl | ⟨⟨d, hd, hnone⟩, ⟨d', hd', role, hrole, -, -, -, rfl⟩ |
      ⟨d', hd', group, hgroup, hevent, rfl⟩⟩
    · exact .of_same rfl
    · rw [hseen d' hd'] at hrole
      exact acceptsNobody_upsertMember h hrole ⟨rfl, rfl⟩ (fun _ => ⟨rfl, rfl⟩) rfl
    · rw [hseen d' hd'] at hgroup
      rw [hseen d hd] at hnone
      rw [acceptsNobody_acceptUpsert h]
      -- The user has no row in a group of the event.
      cases hm : db.member group.id userId with
      | none => rfl
      | some m =>
          have hof : m.isOf group.id userId = true := List.find?_some hm
          have hin : db.inEvent eventId m = true := by
            rw [inEvent_of_isOf hof, Db.groupOfEvent, List.any_eq_true]
            exact ⟨group, hgroup, by simp [hevent]⟩
          exact absurd (isOf_eq.mp hof).2 (hnone m (List.mem_of_find?_eq_some hm) hin)
  · rw [Request.serve, hserve, show w = id from hrefused]
    exact .of_same rfl

theorem gated_claimWrites (claim : ShipClaim) (prev : Option Member) (id : Option ℕ) :
    (claimWrites claim prev db).gated id = db.gated id := by
  rw [claimWrites, gated_release, Db.insertClaim]
  split <;> rfl

theorem AcceptsNobody.of_claimWrites {claim : ShipClaim} {prev : Option Member}
    (h : AcceptsNobody (claimWrites claim prev db) db') : AcceptsNobody db db' := by
  intro m' hm' haccepted hgated
  obtain ⟨m, hm, hwas⟩ := h m' hm' haccepted (by rwa [gated_claimWrites])
  rw [members_claimWrites] at hm
  exact ⟨m, hm, hwas⟩

theorem acceptsNobody_claimShipSlot (h : Keyed db) {shipSlug : String}
    {userShipId slotIndex : Option ℕ} :
    AcceptsNobody db ((Request.claimShipSlot orgId eventId groupId shipSlug userId userShipId
      slotIndex).serve db).2 := by
  have hspec : Spec (Answered (SlotClaimed orgId eventId groupId shipSlug userId)) [] id
    (claimShipSlot orgId eventId groupId shipSlug userId userShipId slotIndex) := spec_claimShipSlot
  rcases hspec.transaction db with
    ⟨r, seen, w, hseen, hclaimed, hserve⟩ | ⟨e, -, -, -, -, hserve⟩
  · obtain ⟨claim, d, d', hd, hd', rfl, rfl, -, hw⟩ := hclaimed.writes
    rw [Request.serve, hserve]
    rcases hw with ⟨role, hrole, -, rfl⟩ | ⟨-, rfl⟩
    · obtain rfl := hseen d' hd'
      obtain ⟨hmem, -, -⟩ := mem_pilotRole hrole
      have hkeyed : Keyed (claimWrites claim (d.member claim.groupId claim.userId) d') :=
        ((h.deleteClaims _).insertClaim _).release _
      exact AcceptsNobody.of_claimWrites
        (acceptsNobody_upsertMember hkeyed hmem ⟨rfl, rfl⟩ (fun _ => ⟨rfl, rfl⟩) rfl)
    · exact .of_same (members_claimWrites _ _ _)
  · rw [Request.serve, hserve]
    exact .of_same rfl

end Signup

/-! ## When the gate is kept -/

theorem keepsGate_serve_iff (h : Keyed db) (r : Request) :
    KeepsGate db r (r.serve db).2 ↔ r.keepsGate db = true := by
  cases r with
  | joinEventGroup orgId eventId groupId userId =>
      rw [keepsGate_iff fun _ _ => rfl, serve_joinEventGroup, Request.keepsGate]
      cases db.admits orgId eventId userId && db.groupOfEvent groupId eventId with
      | true => simp [acceptsNobody_acceptUpsert h]
      | false => exact iff_of_true (.of_same rfl) rfl
  | leaveEventGroup groupId userId =>
      rw [keepsGate_iff fun _ _ => rfl, serve_leaveEventGroup]
      exact iff_of_true (((AcceptsNobody.of_same (members_release _ _)).same rfl).deleteMembers _) rfl
  | joinEventRole orgId eventId groupId roleId userId claimedShipId seatLabel =>
      rw [keepsGate_iff fun _ _ => rfl]
      exact iff_of_true (acceptsNobody_joinEventRole h) rfl
  | quickJoinEvent orgId eventId userId =>
      rw [keepsGate_iff fun _ _ => rfl]
      exact iff_of_true (acceptsNobody_quickJoinEvent h) rfl
  | leaveMyEventSignup eventId userId =>
      rw [keepsGate_iff fun _ _ => rfl]
      obtain ⟨db₁, hmembers, -, -, hserve⟩ := serve_leaveMyEventSignup db eventId userId
      rw [hserve]
      exact iff_of_true ((AcceptsNobody.of_same hmembers).deleteMembers _) rfl
  | leaveEventRole groupId roleId userId =>
      rw [keepsGate_iff fun _ _ => rfl, serve_leaveEventRole]
      exact iff_of_true (((AcceptsNobody.of_same (members_release _ _)).same rfl).deleteMembers _) rfl
  | claimShipSlot orgId eventId groupId shipSlug userId userShipId slotIndex =>
      rw [keepsGate_iff fun _ _ => rfl]
      exact iff_of_true (acceptsNobody_claimShipSlot h) rfl
  | releaseShipSlot groupId userId =>
      rw [keepsGate_iff fun _ _ => rfl]
      exact iff_of_true (acceptsNobody_releaseShipSlot.transaction (.of_same rfl)) rfl
  | respondEventAssignment eventId userId accept =>
      cases accept with
      | true =>
          rw [serve_respond_accept, keepsGate_updateMembers h fun _ _ => rfl, Request.keepsGate]
          simp [or_assoc, imp_iff_not_or]
      | false =>
          rw [keepsGate_iff fun _ _ => rfl]
          exact iff_of_true acceptsNobody_respond_decline rfl
  | approveGroupMember orgId eventId groupId userId requesterId =>
      rw [serve_approveGroupMember, Request.keepsGate]
      cases db.canManageThisEvent requesterId orgId eventId with
      | false =>
          exact iff_of_true (fun m' hm' haccepted hgated =>
            .inl (acceptsNobody_refl db m' hm' haccepted hgated)) rfl
      | true =>
          rw [if_pos rfl, keepsGate_updateMembers (c := db.managesGroup requesterId groupId) h,
            forall_isOf_iff h]
          · simp
          · intro m hm
            obtain ⟨rfl, rfl⟩ := isOf_eq.mp hm
            simp [Request.approves]
  | approveAllGroupMembers orgId eventId groupId requesterId =>
      rw [serve_approveAllGroupMembers, Request.keepsGate]
      cases db.canManageThisEvent requesterId orgId eventId with
      | false =>
          exact iff_of_true (fun m' hm' haccepted hgated =>
            .inl (acceptsNobody_refl db m' hm' haccepted hgated)) rfl
      | true =>
          rw [if_pos rfl, keepsGate_updateMembers (c := db.managesGroup requesterId groupId) h]
          · simp only [Bool.not_true, Bool.false_or, Bool.or_eq_true, List.all_eq_true,
              Bool.not_eq_true']
            refine or_congr_right (forall₂_congr fun m _ => ?_)
            cases hstatus : m.status <;> simp [Db.unapproved, hstatus]
          · intro m hm
            obtain ⟨rfl, -⟩ : m.groupId = groupId ∧ m.status = .pending := by simpa using hm
            simp [Request.approves]
  | removeGroupMember orgId eventId groupId userId requesterId =>
      rw [keepsGate_iff fun _ _ => rfl, serve_removeGroupMember]
      split
      · exact iff_of_true ((AcceptsNobody.of_same (members_release _ _)).deleteMembers _) rfl
      · exact iff_of_true (.of_same rfl) rfl
  | saveEventGroups orgId eventId requesterId body =>
      rw [keepsGate_iff fun _ _ => rfl]
      exact iff_of_true (acceptsNobody_saveEventGroups.transaction (.of_same rfl)) rfl

/-- On a run of requests, nobody is accepted in a role that needs approval but by a planner of
the event, exactly if no request that accepts any row meets an unapproved membership. -/
theorem approvals_are_planners_iff (h : Keyed db) (rs : List Request) :
    (∀ s r s', requests.Passes db rs s r s' → KeepsGate s r s') ↔
      ∀ s r s', requests.Passes db rs s r s' → r.keepsGate s = true := by
  refine forall_congr' fun s => forall_congr' fun r => forall_congr' fun s' =>
    forall_congr' fun hpasses => ?_
  obtain rfl : (r.serve s).2 = s' := Option.some.inj hpasses.step
  obtain ⟨rs₁, _, _, hrun, _⟩ := hpasses
  exact keepsGate_serve_iff (h.run hrun) r

/-- The wing without ships, with one role that needs approval. -/
def gatedWing : Db :=
  { wing [wingRole 30 "Medic" 2 false] [] with ships := [] }

theorem keyed_gatedWing : Keyed gatedWing where
  groups := by decide
  roles := by decide
  members := by decide
  groupsFresh := by decide
  rolesFresh := by decide

def applied : Db :=
  ((Request.joinEventRole 1 10 20 30 8 none none).serve gatedWing).2

theorem approvals_are_planners_applied :
    (∀ s r s', requests.Passes gatedWing [.joinEventRole 1 10 20 30 8 none none] s r s' →
      KeepsGate s r s') ↔
      ∀ s r s', requests.Passes gatedWing [.joinEventRole 1 10 20 30 8 none none] s r s' →
        r.keepsGate s = true :=
  approvals_are_planners_iff keyed_gatedWing _

/-- Joining the group of a role accepts the pending membership in it. -/
theorem applicant_accepts_themselves :
    ¬ ∀ (db : Db) (rs : List Request), Keyed db →
      ∀ s r s', requests.Passes db rs s r s' → KeepsGate s r s' := by
  intro hclaim
  have hrun : requests.Passes gatedWing
      [.joinEventRole 1 10 20 30 8 none none, .joinEventGroup 1 10 20 8] applied
      (.joinEventGroup 1 10 20 8) ((Request.joinEventGroup 1 10 20 8).serve applied).2 :=
    ⟨[.joinEventRole 1 10 20 30 8 none none], [], rfl, .cons rfl (.nil _), rfl⟩
  have hkeyed : Keyed applied := keyed_gatedWing.serve _
  have hkeeps := (keepsGate_serve_iff hkeyed _).mp (hclaim _ _ keyed_gatedWing _ _ _ hrun)
  have haccepts : (Request.joinEventGroup 1 10 20 8).keepsGate applied = false := by decide +kernel
  rw [haccepts] at hkeeps
  cases hkeeps

end SpecterComs.Events
