import SpecterComs.Verification.Events.Keys

/-! # What a save writes

Every write of `saveEventGroups` is to a group or a role of its event, or to no row of the
roster.
-/

namespace SpecterComs.Events

open Handler Relation

def Db.hasRole (db : Db) (groupId roleId : ℕ) : Prop :=
  ∃ r ∈ db.roles, r.id = roleId ∧ r.groupId = groupId

/-- A write of a save of the event's plan. -/
inductive PlanWrite (eventId : ℕ) : Db → Db → Prop
  | outside {db db' : Db} (hgroups : db'.groups = db.groups) (hroles : db'.roles = db.roles)
      (hmembers : db'.members = db.members) (hclaims : db'.claims = db.claims)
      (hnextId : db.nextId ≤ db'.nextId) : PlanWrite eventId db db'
  | mapGroups {db : Db} {f : Group → Group}
      (hf : ∀ g, (f g).id = g.id ∧ (f g).eventId = g.eventId) :
      PlanWrite eventId db { db with groups := db.groups.map f }
  | insertGroup {db : Db} {g : Group} (hg : g.eventId = eventId) :
      PlanWrite eventId db (db.insertGroup g)
  | deleteGroups {db : Db} {ids : List ℕ}
      (hids : ∀ id ∈ ids, db.groupOfEvent id eventId = true) :
      PlanWrite eventId db (db.deleteGroups ids)
  | pruneClaims {db : Db} {groupId : ℕ} {p : ShipClaim → Bool}
      (hgroup : db.groupOfEvent groupId eventId = true)
      (hp : ∀ c, p c = true → c.groupId = groupId) : PlanWrite eventId db (db.deleteClaims p)
  | pruneMembers {db : Db} {groupId : ℕ} {p : Member → Bool}
      (hgroup : db.groupOfEvent groupId eventId = true)
      (hp : ∀ m, p m = true → m.groupId = groupId) : PlanWrite eventId db (db.deleteMembers p)
  | mapRoles {db : Db} {f : Role → Role}
      (hf : ∀ r, (f r).id = r.id ∧ (f r).groupId = r.groupId ∧
        (f r).reservedSlots = r.reservedSlots) :
      PlanWrite eventId db { db with roles := db.roles.map f }
  | insertRole {db : Db} {r : Role} (hgroup : db.groupOfEvent r.groupId eventId = true)
      (hr : r.reservedSlots = 0) : PlanWrite eventId db (db.insertRole r)
  | clearRole {db : Db} {groupId roleId : ℕ} {p : Member → Bool}
      (hgroup : db.groupOfEvent groupId eventId = true) (hrole : db.hasRole groupId roleId)
      (hp : ∀ m, p m = true → m.roleId = some roleId) : PlanWrite eventId db (db.deleteMembers p)
  | upsert {db : Db} {m : Member} {set : Member → Member}
      (hgroup : db.groupOfEvent m.groupId eventId = true)
      (hm : m.reservedSeatsRoleId = none)
      (hset : ∀ m₀, (set m₀).key = m₀.key ∧
        (set m₀).reservedSeatsRoleId = m₀.reservedSeatsRoleId ∧
        (set m₀).reservedSeatsCount = m₀.reservedSeatsCount)
      (hrole : ∀ roleId, m.roleId = some roleId ∨ (∃ m₀, (set m₀).roleId = some roleId ∧
        m₀.roleId ≠ some roleId) → db.hasRole m.groupId roleId) :
      PlanWrite eventId db (db.upsertMember m set)
  | deleteRoles {db : Db} {groupId : ℕ} {ids : List ℕ}
      (hgroup : db.groupOfEvent groupId eventId = true)
      (hids : ∀ id ∈ ids, db.hasRole groupId id) : PlanWrite eventId db (db.deleteRoles ids)

variable {db db₀ : Db} {eventId groupId : ℕ}

/-! ## Groups of the event -/

theorem groupOfEvent_iff :
    db.groupOfEvent groupId eventId = true ↔ ∃ g ∈ db.groups, g.id = groupId ∧ g.eventId = eventId := by
  simp [Db.groupOfEvent]

theorem groupOfEvent_mapGroups {f : Group → Group}
    (hf : ∀ g, (f g).id = g.id ∧ (f g).eventId = g.eventId) :
    ({ db with groups := db.groups.map f } : Db).groupOfEvent groupId eventId =
      db.groupOfEvent groupId eventId := by
  simp [Db.groupOfEvent, List.any_map, Function.comp_def, hf]

theorem groupOfEvent_insertGroup {g : Group} (h : db.groupOfEvent groupId eventId = true) :
    (db.insertGroup g).groupOfEvent groupId eventId = true := by
  obtain ⟨g', hg', hid, hevent⟩ := groupOfEvent_iff.mp h
  exact groupOfEvent_iff.mpr ⟨g', List.mem_append_left _ hg', hid, hevent⟩

theorem groupOfEvent_inserted {g : Group} (hg : g.eventId = eventId) :
    (db.insertGroup g).groupOfEvent db.nextId eventId = true :=
  groupOfEvent_iff.mpr ⟨_, List.mem_append_right _ (List.mem_singleton_self _), rfl, hg⟩

theorem groupOfEvent_deleteGroups {ids : List ℕ} (h : db.groupOfEvent groupId eventId = true)
    (hkept : groupId ∉ ids) : (db.deleteGroups ids).groupOfEvent groupId eventId = true := by
  obtain ⟨g, hg, rfl, hevent⟩ := groupOfEvent_iff.mp h
  refine groupOfEvent_iff.mpr ⟨_, List.mem_map.mpr ⟨g, List.mem_filter.mpr ⟨hg, ?_⟩, rfl⟩, rfl, hevent⟩
  simpa using hkept

/-! ## A save is a chain of such writes -/

/-- The save has come from `db₀` to `db`; the groups are the event's. -/
structure Saving (eventId : ℕ) (db₀ : Db) (groupIds : List ℕ) (db : Db) : Prop where
  writes : ReflTransGen (PlanWrite eventId) db₀ db
  groups : ∀ id ∈ groupIds, db.groupOfEvent id eventId = true

namespace Saving

variable {groupIds groupIds' : List ℕ}

theorem mono (h : Saving eventId db₀ groupIds db) (hsub : groupIds' ⊆ groupIds) :
    Saving eventId db₀ groupIds' db :=
  ⟨h.writes, fun id hid => h.groups id (hsub hid)⟩

/-- A write that leaves the groups. -/
theorem write {db' : Db} (h : Saving eventId db₀ groupIds db) (hwrite : PlanWrite eventId db db')
    (hgroups : db'.groups = db.groups) : Saving eventId db₀ groupIds db' := by
  refine ⟨h.writes.tail hwrite, fun id hid => ?_⟩
  rw [Db.groupOfEvent, hgroups]
  exact h.groups id hid

theorem mapGroups (h : Saving eventId db₀ groupIds db) {f : Group → Group}
    (hf : ∀ g, (f g).id = g.id ∧ (f g).eventId = g.eventId) :
    Saving eventId db₀ groupIds { db with groups := db.groups.map f } := by
  refine ⟨h.writes.tail (.mapGroups hf), fun id hid => ?_⟩
  rw [groupOfEvent_mapGroups hf]
  exact h.groups id hid

end Saving

section Groups

variable {existing created : List ℕ}

theorem saveGroup_saving {g : GroupPayload} :
    Triple (Saving eventId db₀ (existing ++ created)) (saveGroup eventId existing created g)
      fun id => Saving eventId db₀ (existing ++ (created ++ [id])) := by
  unfold saveGroup
  split
  · rename_i id hid
    obtain ⟨-, hid⟩ := Option.filter_eq_some_iff.mp hid
    have hmem : id ∈ existing := of_decide_eq_true hid
    refine Triple.seq (Triple.update fun db h => ?_) fun _ => Triple.pure fun db h => ?_
    · refine h.mapGroups fun g => ?_
      split <;> exact ⟨rfl, rfl⟩
    · refine h.mono fun x hx => ?_
      simp only [List.mem_append, List.mem_singleton] at hx ⊢
      rcases hx with hx | hx | rfl
      · exact .inl hx
      · exact .inr hx
      · exact .inl hmem
  · refine Triple.updateReturning fun db h => ⟨h.writes.tail (.insertGroup rfl), ?_⟩
    intro id hid
    simp only [List.mem_append, List.mem_singleton] at hid
    rcases hid with hid | hid | rfl
    · exact groupOfEvent_insertGroup (h.groups id (by simp [hid]))
    · exact groupOfEvent_insertGroup (h.groups id (by simp [hid]))
    · exact groupOfEvent_inserted rfl

variable {groupIds : List ℕ}

theorem saveShips_saving (hmem : groupId ∈ groupIds) {ships : Option (List ShipPayload)} :
    Triple (Saving eventId db₀ groupIds) (saveShips groupId ships)
      fun _ => Saving eventId db₀ groupIds := by
  refine Triple.seq (Triple.update fun db h => ?_) fun _ =>
    Triple.seq (Triple.forM fun s _ => Triple.update fun db h => ?_) fun _ =>
    Triple.bind (Q := fun stale db => Saving eventId db₀ groupIds db ∧
      ∀ c ∈ stale, c.groupId = groupId) (Triple.select fun db h => ⟨h, fun c hc => ?_⟩) fun stale =>
    Triple.bind (Q := fun _ => Saving eventId db₀ groupIds) (Triple.update fun db h => ?_) fun _ =>
      Triple.update fun db h => ?_
  · exact h.write (.outside rfl rfl rfl rfl le_rfl) rfl
  · exact h.write (.outside rfl rfl rfl rfl le_rfl) rfl
  · exact of_decide_eq_true (Bool.and_eq_true_iff.mp (List.mem_filter.mp hc).2).1
  · refine h.1.write (.pruneClaims (h.1.groups groupId hmem) fun c hc => ?_) rfl
    exact h.2 c (of_decide_eq_true hc)
  · refine h.write (.pruneMembers (h.groups groupId hmem) fun m hm => ?_) rfl
    exact of_decide_eq_true (Bool.and_eq_true_iff.mp hm).1

theorem saveGroups_saving (created : List ℕ) (groups : List GroupPayload) :
    Triple (Saving eventId db₀ (existing ++ created)) (saveGroups eventId existing created groups)
      fun ids => Saving eventId db₀ (existing ++ ids) := by
  induction groups generalizing created with
  | nil => exact Triple.pure fun _ h => h
  | cons g groups ih =>
      exact saveGroup_saving.bind fun id =>
        (saveShips_saving (by simp)).bind fun _ => ih (created ++ [id])

theorem saveLinks_saving (i : ℕ) (groups : List GroupPayload) :
    Triple (Saving eventId db₀ groupIds) (saveLinks created i groups)
      fun _ => Saving eventId db₀ groupIds := by
  induction groups generalizing i with
  | nil => exact Triple.pure fun _ h => h
  | cons g groups ih =>
      refine Triple.seq (Triple.update fun db h => ?_) fun _ => ih _
      cases created[i]? with
      | none => exact h
      | some groupId =>
          refine h.mapGroups fun g => ?_
          split <;> exact ⟨rfl, rfl⟩

end Groups

/-- The roles are of one of the groups. -/
structure SavingRoles (eventId : ℕ) (db₀ : Db) (groupIds : List ℕ) (groupId : ℕ)
    (roleIds : List ℕ) (db : Db) : Prop extends Saving eventId db₀ groupIds db where
  roles : ∀ id ∈ roleIds, db.hasRole groupId id

namespace SavingRoles

variable {groupIds roleIds roleIds' : List ℕ}

theorem mono (h : SavingRoles eventId db₀ groupIds groupId roleIds db) (hsub : roleIds' ⊆ roleIds) :
    SavingRoles eventId db₀ groupIds groupId roleIds' db :=
  ⟨h.toSaving, fun id hid => h.roles id (hsub hid)⟩

/-- A write that leaves the groups and the roles. -/
theorem write {db' : Db} (h : SavingRoles eventId db₀ groupIds groupId roleIds db)
    (hwrite : PlanWrite eventId db db') (hgroups : db'.groups = db.groups)
    (hroles : db'.roles = db.roles) : SavingRoles eventId db₀ groupIds groupId roleIds db' := by
  refine ⟨h.toSaving.write hwrite hgroups, fun id hid => ?_⟩
  rw [Db.hasRole, hroles]
  exact h.roles id hid

end SavingRoles

theorem hasRole_mapRoles {f : Role → Role} {roleId : ℕ}
    (hf : ∀ r, (f r).id = r.id ∧ (f r).groupId = r.groupId) (h : db.hasRole groupId roleId) :
    ({ db with roles := db.roles.map f } : Db).hasRole groupId roleId := by
  obtain ⟨r, hr, hid, hgroup⟩ := h
  exact ⟨f r, List.mem_map_of_mem hr, (hf r).1.trans hid, (hf r).2.trans hgroup⟩

section Roles

variable {groupIds existing created roleIds : List ℕ}

theorem saveRole_saving (hmem : groupId ∈ groupIds) {sortOrder : ℕ} {r : RolePayload} :
    Triple (SavingRoles eventId db₀ groupIds groupId (existing ++ created))
      (saveRole groupId existing sortOrder r)
      fun id => SavingRoles eventId db₀ groupIds groupId (existing ++ (created ++ [id])) := by
  unfold saveRole
  split
  · rename_i id hid
    obtain ⟨-, hid⟩ := Option.filter_eq_some_iff.mp hid
    have hid : id ∈ existing := of_decide_eq_true hid
    refine Triple.seq (Triple.update fun db h => ?_) fun _ => Triple.pure fun db h => ?_
    · refine ⟨h.toSaving.write (.mapRoles fun r => ?_) rfl, fun id hid => ?_⟩
      · split <;> exact ⟨rfl, rfl, rfl⟩
      · refine hasRole_mapRoles (fun r => ?_) (h.roles id hid)
        split <;> exact ⟨rfl, rfl⟩
    · refine h.mono fun x hx => ?_
      simp only [List.mem_append, List.mem_singleton] at hx ⊢
      rcases hx with hx | hx | rfl
      · exact .inl hx
      · exact .inr hx
      · exact .inl hid
  · refine Triple.updateReturning fun db h => ?_
    refine ⟨h.toSaving.write (.insertRole (h.groups groupId hmem) rfl) rfl, fun id hid => ?_⟩
    simp only [List.mem_append, List.mem_singleton] at hid
    rcases hid with hid | hid | rfl
    · obtain ⟨r, hr, hrole⟩ := h.roles id (by simp [hid])
      exact ⟨r, List.mem_append_left _ hr, hrole⟩
    · obtain ⟨r, hr, hrole⟩ := h.roles id (by simp [hid])
      exact ⟨r, List.mem_append_left _ hr, hrole⟩
    · exact ⟨_, List.mem_append_right _ (List.mem_singleton_self _), rfl, rfl⟩

theorem reconcile_saving (hmem : groupId ∈ groupIds) {roleId : ℕ} (hrole : roleId ∈ roleIds)
    {r : RolePayload} :
    Triple (SavingRoles eventId db₀ groupIds groupId roleIds) (reconcile groupId roleId r)
      fun _ => SavingRoles eventId db₀ groupIds groupId roleIds := by
  unfold reconcile
  split
  · exact Triple.pure fun _ h => h
  · refine Triple.seq (Triple.update fun db h => ?_) fun _ => Triple.update fun db h => ?_
    · refine h.write (.clearRole (h.groups groupId hmem) (h.roles roleId hrole) fun m hm => ?_) rfl rfl
      exact of_decide_eq_true (Bool.and_eq_true_iff.mp hm).1
    · refine h.write (.upsert (h.groups groupId hmem) rfl (fun _ => ⟨rfl, rfl, rfl⟩) fun id hid => ?_) ?_ ?_
      · obtain rfl : roleId = id := by
          rcases hid with hid | ⟨m₀, hid, -⟩
          · exact Option.some.inj hid
          · exact Option.some.inj hid
        exact h.roles roleId hrole
      · unfold Db.upsertMember
        split <;> rfl
      · unfold Db.upsertMember
        split <;> rfl
  · refine Triple.update fun db h => ?_
    refine h.write (.clearRole (h.groups groupId hmem) (h.roles roleId hrole) fun m hm => ?_) rfl rfl
    exact of_decide_eq_true hm

theorem saveRolesFrom_saving (hmem : groupId ∈ groupIds) (created : List ℕ)
    (roles : List RolePayload) :
    Triple (SavingRoles eventId db₀ groupIds groupId (existing ++ created))
      (saveRolesFrom groupId existing created roles)
      fun ids => SavingRoles eventId db₀ groupIds groupId (existing ++ ids) := by
  induction roles generalizing created with
  | nil => exact Triple.pure fun _ h => h
  | cons r roles ih =>
      exact (saveRole_saving hmem).bind fun id =>
        (reconcile_saving hmem (by simp)).bind fun _ => ih (created ++ [id])

theorem saveRoles_saving (hmem : groupId ∈ groupIds) {restricted : Bool} {g : GroupPayload} :
    Triple (Saving eventId db₀ groupIds) (saveRoles restricted groupId g)
      fun _ => Saving eventId db₀ groupIds := by
  refine Triple.bind (Q := fun existing => SavingRoles eventId db₀ groupIds groupId existing)
    (Triple.select fun db h => ⟨h, fun id hid => ?_⟩) fun existing => ?_
  · obtain ⟨r, hr, rfl⟩ := List.mem_map.mp hid
    obtain ⟨hr, hgroup⟩ := List.mem_filter.mp hr
    exact ⟨r, hr, rfl, of_decide_eq_true hgroup⟩
  · split
    · refine Triple.seq (Triple.forM fun uid _ => Triple.update fun db h => ?_) fun _ =>
        Triple.bind (Q := fun _ => Saving eventId db₀ groupIds) (Triple.update fun db h => ?_)
          fun _ => Triple.pure fun _ h => h
      · refine h.write (.upsert (h.groups groupId hmem) rfl (fun _ => ⟨rfl, rfl, rfl⟩) fun id hid => ?_) ?_ ?_
        · rcases hid with hid | ⟨m₀, hid, hother⟩
          · cases hid
          · exact absurd hid hother
        · unfold Db.upsertMember
          split <;> rfl
        · unfold Db.upsertMember
          split <;> rfl
      · exact h.toSaving.write (.deleteRoles (h.groups groupId hmem) h.roles) rfl
    · refine Triple.bind (Q := fun ids => SavingRoles eventId db₀ groupIds groupId (existing ++ ids))
        ?_ fun created => Triple.bind (Q := fun _ => Saving eventId db₀ groupIds)
          (Triple.update fun db h => ?_) fun _ => Triple.pure fun _ h => h
      · exact (saveRolesFrom_saving hmem [] _).weaken (fun db h => by rwa [List.append_nil])
          fun _ _ h => h
      · refine h.toSaving.write (.deleteRoles (h.groups groupId hmem) fun id hid => ?_) rfl
        exact h.roles id (List.mem_append_left _ (List.mem_filter.mp hid).1)

end Roles

variable {restricted : Bool}

theorem saveAllRoles_saving {groupIds : List ℕ} (groups : List (ℕ × GroupPayload))
    (hmem : ∀ g ∈ groups, g.1 ∈ groupIds) :
    Triple (Saving eventId db₀ groupIds) (saveAllRoles restricted groups)
      fun _ => Saving eventId db₀ groupIds := by
  induction groups with
  | nil => exact Triple.pure fun _ h => h
  | cons g groups ih =>
      exact (saveRoles_saving (hmem g (by simp))).seq fun _ =>
        (ih fun g' hg' => hmem g' (by simp [hg'])).seq fun _ => Triple.pure fun _ h => h

theorem saveRoster_saving {groups : Option (List GroupPayload)} :
    Triple (fun db => db = db₀) (saveRoster eventId restricted groups)
      fun _ db => ReflTransGen (PlanWrite eventId) db₀ db := by
  cases groups with
  | none =>
      refine Triple.pure fun db h => ?_
      rw [h]
  | some groups =>
      refine Triple.bind (Q := fun existing => Saving eventId db₀ existing)
        (Triple.select fun db h => ⟨by rw [h], fun id hid => ?_⟩) fun existing => ?_
      · obtain ⟨g, hg, rfl⟩ := List.mem_map.mp hid
        obtain ⟨hg, hevent⟩ := List.mem_filter.mp hg
        exact groupOfEvent_iff.mpr ⟨g, hg, rfl, of_decide_eq_true hevent⟩
      · refine Triple.bind (Q := fun created => Saving eventId db₀ (existing ++ created)) ?_
          fun created => Triple.bind (Q := fun _ => Saving eventId db₀ created)
            (Triple.update fun db h => ?_) fun _ => (saveLinks_saving 0 groups).seq fun _ => ?_
        · exact (saveGroups_saving [] groups).weaken (fun db h => by rwa [List.append_nil])
            fun _ _ h => h
        · refine ⟨h.writes.tail (.deleteGroups fun id hid => ?_), fun id hid => ?_⟩
          · exact h.groups id (List.mem_append_left _ (List.mem_filter.mp hid).1)
          · refine groupOfEvent_deleteGroups (h.groups id (List.mem_append_right _ hid)) ?_
            simp [hid]
        · refine (saveAllRoles_saving _ fun g hg => ?_).weaken (fun _ h => h) fun _ _ h => h.writes
          exact (List.of_mem_zip hg).1

theorem PlanWrite.sameRoster {db' : Db} (h : SameRoster db db') : PlanWrite eventId db db' :=
  .outside h.groups h.roles h.members h.claims h.nextId

/-- A save that answers was made by a planner of an event that is there. -/
structure Saved (orgId eventId userId : ℕ) (db₀ db : Db) : Prop where
  manages : db₀.canManageThisEvent userId orgId eventId = true
  event : ∃ ev, db₀.event eventId orgId = some ev
  writes : ReflTransGen (PlanWrite eventId) db₀ db

theorem saveEventGroups_saved {orgId userId : ℕ} {body : PlanPayload} :
    Triple (fun db => db = db₀) (saveEventGroups orgId eventId userId body)
      fun _ => Saved orgId eventId userId db₀ := by
  have hsame : ∀ db db', SameRoster db db' → Saved orgId eventId userId db₀ db →
      Saved orgId eventId userId db₀ db' :=
    fun db db' hsame h => ⟨h.manages, h.event, h.writes.tail (.sameRoster hsame)⟩
  refine Triple.bind (Q := fun manages db => db = db₀ ∧
      manages = db₀.canManageThisEvent userId orgId eventId)
    (Triple.select fun db h => ⟨h, by rw [h]⟩) fun manages =>
    Triple.bind (Q := fun _ db => db = db₀ ∧ db₀.canManageThisEvent userId orgId eventId = true)
      (Triple.require fun db h hmanages => ⟨h.1, by rw [← h.2, hmanages]⟩) fun _ =>
    Triple.bind (Q := fun ev db => (db = db₀ ∧ db₀.canManageThisEvent userId orgId eventId = true) ∧
      ev = db₀.event eventId orgId) (Triple.select fun db h => ⟨h, by rw [h.1]⟩) fun ev =>
    Triple.bind (Q := fun _ db => Saved orgId eventId userId db₀ db)
      (Triple.found fun db x h hev => ⟨h.1.2, ⟨x, by rw [← h.2, hev]⟩, by rw [h.1.1]⟩) fun ev => ?_
  refine Triple.seq (Triple.each fun db₁ h => saveRoster_saving.weaken (fun _ h => h)
      fun _ db hwrites => ⟨h.manages, h.event, h.writes.trans hwrites⟩) fun _ =>
    Triple.seq (keeps_update hsame fun _ => ?_).triple fun _ =>
    Triple.seq (Triple.select fun _ h => h) fun _ =>
    Triple.seq (keeps_saveFrequencies hsame _ _).triple fun _ =>
    Triple.seq (keeps_update hsame fun _ => ?_).triple fun _ => Triple.pure fun _ h => h
  all_goals exact ⟨rfl, rfl, rfl, rfl, rfl, le_rfl⟩

/-- A save leaves the database, or is a chain of writes to the plan of an event it may plan. -/
theorem serve_saveEventGroups (db : Db) (orgId eventId requesterId : ℕ) (body : PlanPayload) :
    ((Request.saveEventGroups orgId eventId requesterId body).serve db).2 = db ∨
      Saved orgId eventId requesterId db
        ((Request.saveEventGroups orgId eventId requesterId body).serve db).2 := by
  rcases saveEventGroups_saved.transaction (rfl : db = db) with h | ⟨_, h⟩
  · exact .inl h
  · exact .inr h

end SpecterComs.Events
