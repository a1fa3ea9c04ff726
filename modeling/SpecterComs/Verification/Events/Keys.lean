import SpecterComs.Verification.Events.Hulls

/-! # Keys

Groups and roles keep distinct ids, below the next one to be generated, and a user keeps one
member row in a group, whatever is requested.
-/

namespace SpecterComs.Events

open Handler

def Member.key (m : Member) : ℕ × ℕ :=
  (m.groupId, m.userId)

variable {groupId userId : ℕ}

theorem isOf_iff_key {m : Member} : m.isOf groupId userId = true ↔ m.key = (groupId, userId) := by
  rw [isOf_eq, Member.key, Prod.mk.injEq]

structure Keyed (db : Db) : Prop where
  groups : (db.groups.map Group.id).Nodup
  roles : (db.roles.map Role.id).Nodup
  members : (db.members.map Member.key).Nodup
  groupsFresh : ∀ g ∈ db.groups, g.id < db.nextId
  rolesFresh : ∀ r ∈ db.roles, r.id < db.nextId

variable {db : Db}

/-! ## Lists of rows with keys -/

section Rows

variable {α κ : Type} {key : α → κ} {l : List α}

theorem nodup_map_map {f : α → α} (hf : ∀ a, key (f a) = key a) (h : (l.map key).Nodup) :
    ((l.map f).map key).Nodup := by
  rw [List.map_map, show key ∘ f = key from funext hf]
  exact h

theorem nodup_map_filter {p : α → Bool} (h : (l.map key).Nodup) :
    ((l.filter p).map key).Nodup :=
  h.sublist (List.filter_sublist.map key)

theorem nodup_map_append {a : α} (h : (l.map key).Nodup) (ha : ∀ b ∈ l, key b ≠ key a) :
    ((l ++ [a]).map key).Nodup := by
  rw [List.map_append, List.nodup_append]
  refine ⟨h, by simp, ?_⟩
  intro k hk k' hk'
  obtain ⟨b, hb, rfl⟩ := List.mem_map.mp hk
  obtain rfl : k' = key a := by simpa using hk'
  exact ha b hb

theorem eq_of_key_eq {a b : α} (h : (l.map key).Nodup) (ha : a ∈ l) (hb : b ∈ l)
    (hkey : key a = key b) : a = b :=
  List.inj_on_of_nodup_map h ha hb hkey

end Rows

/-! ## Writes -/

namespace Keyed

/-- A write that touches none of these tables. -/
theorem of_same {db' : Db} (h : Keyed db) (hgroups : db'.groups = db.groups)
    (hroles : db'.roles = db.roles) (hmembers : db'.members = db.members)
    (hnext : db'.nextId = db.nextId) : Keyed db' := by
  refine ⟨?_, ?_, ?_, ?_, ?_⟩
  · rw [hgroups]
    exact h.groups
  · rw [hroles]
    exact h.roles
  · rw [hmembers]
    exact h.members
  · rw [hgroups, hnext]
    exact h.groupsFresh
  · rw [hroles, hnext]
    exact h.rolesFresh

theorem mapRoles (h : Keyed db) {f : Role → Role} (hf : ∀ r, (f r).id = r.id) :
    Keyed { db with roles := db.roles.map f } where
  groups := h.groups
  roles := nodup_map_map hf h.roles
  members := h.members
  groupsFresh := h.groupsFresh
  rolesFresh r hr := by
    obtain ⟨r', hr', rfl⟩ := List.mem_map.mp hr
    rw [hf]
    exact h.rolesFresh r' hr'

theorem mapMembers (h : Keyed db) {f : Member → Member} (hf : ∀ m, (f m).key = m.key) :
    Keyed { db with members := db.members.map f } where
  groups := h.groups
  roles := h.roles
  members := nodup_map_map hf h.members
  groupsFresh := h.groupsFresh
  rolesFresh := h.rolesFresh

theorem releaseSlots (h : Keyed db) (count roleId : ℕ) : Keyed (db.releaseSlots count roleId) :=
  h.mapRoles fun r => by split <;> rfl

theorem reserveSlots (h : Keyed db) (count groupId : ℕ) (name : String) :
    Keyed (db.reserveSlots count groupId name) :=
  h.mapRoles fun r => by split <;> rfl

theorem release (h : Keyed db) (m : Option Member) : Keyed (release m db) := by
  unfold Events.release
  split
  · exact h
  · split
    · split
      · exact h.releaseSlots _ _
      · exact h
    · exact h

theorem releaseAll (h : Keyed db) (rows : List Member) : Keyed (releaseAll rows db) := by
  induction rows generalizing db with
  | nil => exact h
  | cons m rows ih =>
      rw [Events.releaseAll, List.foldl_cons]
      exact ih (h.release _)

variable {set : Member → Member}

theorem updateMembers (h : Keyed db) {p : Member → Bool} (hset : ∀ m, (set m).key = m.key) :
    Keyed (db.updateMembers p set) :=
  h.mapMembers fun m => by
    split
    · exact hset m
    · rfl

theorem deleteMembers (h : Keyed db) (p : Member → Bool) : Keyed (db.deleteMembers p) where
  groups := h.groups
  roles := h.roles
  members := nodup_map_filter h.members
  groupsFresh := h.groupsFresh
  rolesFresh := h.rolesFresh

theorem upsertMember (h : Keyed db) {m : Member}
    (hset : ∀ m', m'.key = m.key → (set m').key = m'.key) : Keyed (db.upsertMember m set) := by
  unfold Db.upsertMember
  split
  · apply h.mapMembers
    intro m'
    split
    · rename_i hof
      exact hset m' (isOf_iff_key.mp hof)
    · rfl
  · rename_i hnone
    refine ⟨h.groups, h.roles, nodup_map_append h.members ?_, h.groupsFresh, h.rolesFresh⟩
    intro m' hm' hkey
    exact hnone (List.any_eq_true.mpr ⟨m', hm', isOf_iff_key.mpr hkey⟩)

theorem deleteClaims (h : Keyed db) (p : ShipClaim → Bool) : Keyed (db.deleteClaims p) :=
  h.of_same rfl rfl rfl rfl

theorem insertClaim (h : Keyed db) (c : ShipClaim) : Keyed (db.insertClaim c) := by
  unfold Db.insertClaim
  split
  · exact h
  · exact h.of_same rfl rfl rfl rfl

theorem mapGroups (h : Keyed db) {f : Group → Group} (hf : ∀ g, (f g).id = g.id) :
    Keyed { db with groups := db.groups.map f } where
  groups := nodup_map_map hf h.groups
  roles := h.roles
  members := h.members
  groupsFresh g hg := by
    obtain ⟨g', hg', rfl⟩ := List.mem_map.mp hg
    rw [hf]
    exact h.groupsFresh g' hg'
  rolesFresh := h.rolesFresh

theorem insertGroup (h : Keyed db) (g : Group) : Keyed (db.insertGroup g) where
  groups := nodup_map_append h.groups fun g' hg' => Nat.ne_of_lt (h.groupsFresh g' hg')
  roles := h.roles
  members := h.members
  groupsFresh g' hg' := by
    rcases List.mem_append.mp hg' with hg' | hg'
    · exact Nat.lt_succ_of_lt (h.groupsFresh g' hg')
    · rw [List.mem_singleton.mp hg']
      exact Nat.lt_succ_self _
  rolesFresh r hr := Nat.lt_succ_of_lt (h.rolesFresh r hr)

theorem insertRole (h : Keyed db) (r : Role) : Keyed (db.insertRole r) where
  groups := h.groups
  roles := nodup_map_append h.roles fun r' hr' => Nat.ne_of_lt (h.rolesFresh r' hr')
  members := h.members
  groupsFresh g hg := Nat.lt_succ_of_lt (h.groupsFresh g hg)
  rolesFresh r' hr' := by
    rcases List.mem_append.mp hr' with hr' | hr'
    · exact Nat.lt_succ_of_lt (h.rolesFresh r' hr')
    · rw [List.mem_singleton.mp hr']
      exact Nat.lt_succ_self _

theorem updateRole (h : Keyed db) {roleId : ℕ} {set : Role → Role} (hset : ∀ r, (set r).id = r.id) :
    Keyed (db.updateRole roleId groupId set) :=
  h.mapRoles fun r => by
    split
    · exact hset r
    · rfl

theorem updateGroup (h : Keyed db) {eventId : ℕ} {set : Group → Group}
    (hset : ∀ g, (set g).id = g.id) : Keyed (db.updateGroup groupId eventId set) :=
  h.mapGroups fun g => by
    split
    · exact hset g
    · rfl

theorem setLinked (h : Keyed db) (groupId : ℕ) (linked : Option ℕ) :
    Keyed (db.setLinked groupId linked) :=
  h.mapGroups fun g => by split <;> rfl

theorem deleteRoles (h : Keyed db) (ids : List ℕ) : Keyed (db.deleteRoles ids) where
  groups := h.groups
  roles := nodup_map_filter h.roles
  members := nodup_map_map (fun _ => rfl) h.members
  groupsFresh := h.groupsFresh
  rolesFresh r hr := h.rolesFresh r (List.mem_filter.mp hr).1

theorem deleteGroups (h : Keyed db) (ids : List ℕ) : Keyed (db.deleteGroups ids) where
  groups := nodup_map_map (fun _ => rfl) (nodup_map_filter h.groups)
  roles := nodup_map_filter h.roles
  members := nodup_map_map (fun _ => rfl) (nodup_map_filter h.members)
  groupsFresh g hg := by
    obtain ⟨g', hg', rfl⟩ := List.mem_map.mp hg
    exact h.groupsFresh g' (List.mem_filter.mp hg').1
  rolesFresh r hr := h.rolesFresh r (List.mem_filter.mp hr).1

end Keyed

/-! ## Handlers -/

section Signup

variable {orgId eventId groupId roleId userId : ℕ}

theorem keyed_joinEventGroup : Keeps Keyed (joinEventGroup orgId eventId groupId userId) := by
  refine (Keeps.select _).bind fun _ => (Keeps.found _ _).bind fun _ =>
    (Keeps.require _ _).bind fun _ => (Keeps.select _).bind fun _ =>
    (Keeps.require _ _).bind fun _ => (Keeps.select _).bind fun _ =>
    (Keeps.require _ _).bind fun _ => (Keeps.update fun _ h => ?_).bind fun _ => Keeps.pure _
  exact h.upsertMember fun _ _ => rfl

theorem keyed_leaveEventGroup : Keeps Keyed (leaveEventGroup groupId userId) :=
  (Keeps.select _).bind fun _ => (Keeps.update fun _ h => h.release _).bind fun _ =>
    (Keeps.update fun _ h => h.deleteClaims _).bind fun _ =>
    (Keeps.update fun _ h => h.deleteMembers _).bind fun _ => Keeps.pure _

variable {seatLabel : Option String}

theorem keyed_requireHull {role : Role} : Keeps Keyed (requireHull groupId role seatLabel) :=
  (Keeps.select _).bind fun _ => Keeps.ite (Keeps.pure _) <|
    (Keeps.require _ _).bind fun _ => (Keeps.select _).bind fun _ =>
    (Keeps.select _).bind fun _ => Keeps.require _ _

theorem keyed_chooseSeat {seatLabels : List String} :
    Keeps Keyed (chooseSeat roleId userId seatLabels seatLabel) :=
  Keeps.ite
    ((Keeps.found _ _).bind fun _ => (Keeps.require _ _).bind fun _ =>
      (Keeps.select _).bind fun _ => (Keeps.require _ _).bind fun _ => Keeps.pure _)
    (Keeps.pure _)

theorem keyed_reserveSeats {shipId : ℕ} (counts : List (String × ℕ)) (r : Reservation) :
    Keeps Keyed (reserveSeats groupId shipId counts r) := by
  induction counts generalizing r with
  | nil => exact Keeps.pure _
  | cons c counts ih =>
      exact (Keeps.updateReturning fun _ h => h.reserveSlots _ _ _).bind fun _ => ih _

variable {claimedShipId : Option ℕ}

theorem keyed_reserveFor : Keeps Keyed (reserveFor groupId userId claimedShipId) := by
  cases claimedShipId with
  | none => exact Keeps.pure _
  | some shipId =>
      refine (Keeps.select _).bind fun ship => ?_
      cases ship with
      | none => exact Keeps.pure _
      | some ship =>
          exact (Keeps.select _).bind fun _ => Keeps.ite
            ((Keeps.select _).bind fun _ => keyed_reserveSeats _ _) (Keeps.pure _)

theorem keyed_joinEventRole :
    Keeps Keyed
      (joinEventRole orgId eventId groupId roleId userId claimedShipId seatLabel) := by
  refine (Keeps.select _).bind fun _ => (Keeps.found _ _).bind fun _ =>
    (Keeps.require _ _).bind fun _ => (Keeps.select _).bind fun _ =>
    (Keeps.require _ _).bind fun _ => (Keeps.select _).bind fun _ =>
    (Keeps.found _ _).bind fun _ => (Keeps.require _ _).bind fun _ =>
    keyed_requireHull.bind fun _ => (Keeps.select _).bind fun _ =>
    (Keeps.update fun _ h => h.release _).bind fun _ => Keeps.ite ?_ ?_
  · exact keyed_chooseSeat.bind fun _ => keyed_reserveFor.bind fun _ =>
      (Keeps.update fun _ h => h.upsertMember fun _ hkey => hkey.symm).bind fun _ => Keeps.pure _
  · exact (Keeps.select _).bind fun _ => (Keeps.require _ _).bind fun _ =>
      (Keeps.update fun _ h => h.upsertMember fun _ hkey => hkey.symm).bind fun _ => Keeps.pure _

theorem keyed_quickJoinEvent : Keeps Keyed (quickJoinEvent orgId eventId userId) := by
  refine (Keeps.select _).bind fun _ => (Keeps.found _ _).bind fun _ =>
    (Keeps.require _ _).bind fun _ => (Keeps.select _).bind fun _ =>
    Keeps.ite (Keeps.pure _) ((Keeps.select _).bind fun roles => ?_)
  split
  · exact (Keeps.update fun _ h => h.upsertMember fun _ _ => rfl).bind fun _ => Keeps.pure _
  · exact (Keeps.select _).bind fun _ => (Keeps.found _ _).bind fun _ =>
      (Keeps.update fun _ h => h.upsertMember fun _ _ => rfl).bind fun _ => Keeps.pure _

theorem keyed_leaveMyEventSignup : Keeps Keyed (leaveMyEventSignup eventId userId) :=
  (Keeps.select _).bind fun _ => (Keeps.update fun _ h => h.releaseAll _).bind fun _ =>
    (Keeps.update fun _ h => h.deleteMembers _).bind fun _ => Keeps.pure _

theorem keyed_leaveEventRole : Keeps Keyed (leaveEventRole groupId roleId userId) :=
  (Keeps.select _).bind fun _ => (Keeps.update fun _ h => h.release _).bind fun _ =>
    (Keeps.update fun _ h => h.deleteClaims _).bind fun _ =>
    (Keeps.update fun _ h => h.deleteMembers _).bind fun _ => Keeps.pure _

theorem keyed_claimShipSlot {shipSlug : String} {userShipId slotIndex : Option ℕ} :
    Keeps Keyed
      (claimShipSlot orgId eventId groupId shipSlug userId userShipId slotIndex) := by
  refine (Keeps.found _ _).bind fun _ => (Keeps.found _ _).bind fun _ =>
    (Keeps.select _).bind fun _ => (Keeps.found _ _).bind fun _ =>
    (Keeps.require _ _).bind fun _ => (Keeps.select _).bind fun _ =>
    (Keeps.require _ _).bind fun _ => (Keeps.select _).bind fun _ =>
    (Keeps.found _ _).bind fun _ => (Keeps.select _).bind fun _ =>
    (Keeps.require _ _).bind fun _ => (Keeps.select _).bind fun _ =>
    (Keeps.require _ _).bind fun _ => (Keeps.update fun _ h => h.deleteClaims _).bind fun _ =>
    (Keeps.updateReturning fun _ h => h.insertClaim _).bind fun _ =>
    (Keeps.require _ _).bind fun _ => (Keeps.select _).bind fun _ =>
    (Keeps.update fun _ h => h.release _).bind fun _ => (Keeps.select _).bind fun role => ?_
  split
  · exact Keeps.ite
      ((Keeps.update fun _ h => h.upsertMember fun _ _ => rfl).bind fun _ => Keeps.pure _)
      (Keeps.pure _)
  · exact Keeps.pure _

theorem keyed_releaseShipSlot : Keeps Keyed (releaseShipSlot groupId userId) :=
  (Keeps.updateReturning fun _ h => h.deleteClaims _).bind fun _ =>
    (Keeps.require _ _).bind fun _ => (Keeps.update fun _ h => h.deleteMembers _).bind fun _ =>
    Keeps.pure _

theorem keyed_respondEventAssignment {accept : Bool} :
    Keeps Keyed (respondEventAssignment eventId userId accept) := by
  refine (Keeps.updateReturning fun _ h => h.updateMembers fun _ => rfl).bind fun rows =>
    (Keeps.require _ _).bind fun _ => (Keeps.update fun _ h => ?_).bind fun _ => Keeps.pure _
  split
  · exact h
  · exact h.releaseAll _

end Signup

section Planner

variable {orgId eventId groupId userId requesterId : ℕ}

theorem keyed_approveGroupMember :
    Keeps Keyed (approveGroupMember orgId eventId groupId userId requesterId) :=
  (Keeps.select _).bind fun _ => (Keeps.require _ _).bind fun _ =>
    (Keeps.updateReturning fun _ h => h.updateMembers fun _ => rfl).bind fun _ =>
    (Keeps.require _ _).bind fun _ => Keeps.pure _

theorem keyed_approveAllGroupMembers :
    Keeps Keyed (approveAllGroupMembers orgId eventId groupId requesterId) :=
  (Keeps.select _).bind fun _ => (Keeps.require _ _).bind fun _ =>
    (Keeps.updateReturning fun _ h => h.updateMembers fun _ => rfl).bind fun _ => Keeps.pure _

theorem keyed_removeGroupMember :
    Keeps Keyed (removeGroupMember orgId eventId groupId userId requesterId) :=
  (Keeps.select _).bind fun _ => (Keeps.require _ _).bind fun _ =>
    (Keeps.select _).bind fun _ => (Keeps.update fun _ h => h.release _).bind fun _ =>
    (Keeps.update fun _ h => h.deleteMembers _).bind fun _ => Keeps.pure _

variable {existing created : List ℕ}

theorem keyed_saveGroup {g : GroupPayload} :
    Keeps Keyed (saveGroup eventId existing created g) := by
  unfold saveGroup
  split
  · exact (Keeps.update fun _ h => h.updateGroup fun _ => rfl).bind fun _ => Keeps.pure _
  · exact Keeps.updateReturning fun _ h => h.insertGroup _

theorem keyed_saveShips {ships : Option (List ShipPayload)} :
    Keeps Keyed (saveShips groupId ships) :=
  (Keeps.update fun _ h => h.of_same rfl rfl rfl rfl).bind fun _ =>
    (Keeps.forM fun _ _ => Keeps.update fun _ h => h.of_same rfl rfl rfl rfl).bind fun _ =>
    (Keeps.select _).bind fun _ => (Keeps.update fun _ h => h.deleteClaims _).bind fun _ =>
    Keeps.update fun _ h => h.deleteMembers _

theorem keyed_saveGroups (created : List ℕ) (groups : List GroupPayload) :
    Keeps Keyed (saveGroups eventId existing created groups) := by
  induction groups generalizing created with
  | nil => exact Keeps.pure _
  | cons g groups ih =>
      exact keyed_saveGroup.bind fun _ => keyed_saveShips.bind fun _ => ih _

theorem keyed_saveLinks (i : ℕ) (groups : List GroupPayload) :
    Keeps Keyed (saveLinks created i groups) := by
  induction groups generalizing i with
  | nil => exact Keeps.pure _
  | cons g groups ih =>
      refine (Keeps.update fun db h => ?_).bind fun _ => ih _
      cases created[i]? with
      | none => exact h
      | some groupId => exact h.setLinked _ _

theorem keyed_saveRole {sortOrder : ℕ} {r : RolePayload} :
    Keeps Keyed (saveRole groupId existing sortOrder r) := by
  unfold saveRole
  split
  · exact (Keeps.update fun _ h => h.updateRole fun _ => rfl).bind fun _ => Keeps.pure _
  · exact Keeps.updateReturning fun _ h => h.insertRole _

theorem keyed_reconcile {roleId : ℕ} {r : RolePayload} :
    Keeps Keyed (reconcile groupId roleId r) := by
  unfold reconcile
  split
  · exact Keeps.pure _
  · exact (Keeps.update fun _ h => h.deleteMembers _).bind fun _ =>
      Keeps.update fun _ h => h.upsertMember fun _ _ => rfl
  · exact Keeps.update fun _ h => h.deleteMembers _

theorem keyed_saveRolesFrom (created : List ℕ) (roles : List RolePayload) :
    Keeps Keyed (saveRolesFrom groupId existing created roles) := by
  induction roles generalizing created with
  | nil => exact Keeps.pure _
  | cons r roles ih =>
      exact keyed_saveRole.bind fun _ => keyed_reconcile.bind fun _ => ih _

variable {restricted : Bool}

theorem keyed_saveRoles {g : GroupPayload} : Keeps Keyed (saveRoles restricted groupId g) := by
  refine (Keeps.select _).bind fun existing => ?_
  split
  · exact (Keeps.forM fun _ _ => Keeps.update fun _ h => h.upsertMember fun _ _ => rfl).bind
      fun _ => (Keeps.update fun _ h => h.deleteRoles _).bind fun _ => Keeps.pure _
  · exact (keyed_saveRolesFrom _ _).bind fun _ =>
      (Keeps.update fun _ h => h.deleteRoles _).bind fun _ => Keeps.pure _

theorem keyed_saveAllRoles (groups : List (ℕ × GroupPayload)) :
    Keeps Keyed (saveAllRoles restricted groups) := by
  induction groups with
  | nil => exact Keeps.pure _
  | cons g groups ih => exact keyed_saveRoles.bind fun _ => ih.bind fun _ => Keeps.pure _

theorem keyed_saveRoster {groups : Option (List GroupPayload)} :
    Keeps Keyed (saveRoster eventId restricted groups) := by
  cases groups with
  | none => exact Keeps.pure _
  | some groups =>
      exact (Keeps.select _).bind fun _ => (keyed_saveGroups _ _).bind fun _ =>
        (Keeps.update fun _ h => h.deleteGroups _).bind fun _ =>
        (keyed_saveLinks _ _).bind fun _ => keyed_saveAllRoles _

end Planner

/-! ## The rest of a save -/

/-- A write to none of the tables of the roster; it may take ids. -/
structure SameRoster (db db' : Db) : Prop where
  groups : db'.groups = db.groups
  roles : db'.roles = db.roles
  members : db'.members = db.members
  ships : db'.ships = db.ships
  claims : db'.claims = db.claims
  nextId : db.nextId ≤ db'.nextId

section Save

variable {P : Db → Prop} (hsame : ∀ db db', SameRoster db db' → P db → P db')

include hsame

theorem keeps_update {write : Db → Db} (hwrite : ∀ db, SameRoster db (write db)) :
    Keeps P (update write : Handler Db Response Unit) :=
  Keeps.update fun db h => hsame db _ (hwrite db) h

variable {existing : List ℕ} {opensChannels : Bool}

theorem keeps_saveFrequency {eventId sortOrder : ℕ} {f : FrequencyPayload} :
    Keeps P (saveFrequency eventId sortOrder existing opensChannels f) := by
  unfold saveFrequency
  split
  · refine Keeps.bind (keeps_update hsame ?_) fun _ => Keeps.pure _
    exact fun _ => ⟨rfl, rfl, rfl, rfl, rfl, le_rfl⟩
  · refine Keeps.bind (Keeps.updateReturning fun db h => ?_) fun _ =>
      Keeps.bind (keeps_update hsame fun db => ?_) fun _ => Keeps.pure _
    · exact hsame db _ ⟨rfl, rfl, rfl, rfl, rfl, Nat.le_succ _⟩ h
    · split
      · exact ⟨rfl, rfl, rfl, rfl, rfl, Nat.le_succ _⟩
      · exact ⟨rfl, rfl, rfl, rfl, rfl, le_rfl⟩

variable {roleIds : List (List ℕ)}

theorem keeps_saveRoleRefs {frequencyId : ℕ} {refs : List RoleRef} :
    Keeps P (saveRoleRefs roleIds frequencyId refs) := by
  refine Keeps.bind (keeps_update hsame fun _ => ?_) fun _ => Keeps.forM fun ref _ => ?_
  · exact ⟨rfl, rfl, rfl, rfl, rfl, le_rfl⟩
  · split
    · refine keeps_update hsame fun db => ?_
      unfold Db.insertFrequencyRole
      split
      · exact ⟨rfl, rfl, rfl, rfl, rfl, le_rfl⟩
      · exact ⟨rfl, rfl, rfl, rfl, rfl, le_rfl⟩
    · exact Keeps.pure _

theorem keeps_saveFrequencies {eventId : ℕ} (kept : List ℕ) (frequencies : List FrequencyPayload) :
    Keeps P (saveFrequencies eventId existing opensChannels roleIds kept frequencies) := by
  induction frequencies generalizing kept with
  | nil => exact Keeps.pure _
  | cons f frequencies ih =>
      exact (keeps_saveFrequency hsame).bind fun _ => (keeps_saveRoleRefs hsame).bind fun _ => ih _

/-- What is kept by a save of the groups and by writes outside the roster is kept by a save. -/
theorem keeps_saveEventGroups {orgId eventId : ℕ} {body : PlanPayload}
    (hroster : ∀ restricted, Keeps P (saveRoster eventId restricted body.groups)) :
    Keeps P (saveEventGroups orgId eventId userId body) := by
  refine (Keeps.select _).bind fun _ => (Keeps.require _ _).bind fun _ =>
    (Keeps.select _).bind fun _ => (Keeps.found _ _).bind fun _ => (hroster _).bind fun _ =>
    Keeps.bind (keeps_update hsame fun _ => ?_) fun _ =>
    (Keeps.select _).bind fun _ => (keeps_saveFrequencies hsame _ _).bind fun _ =>
    Keeps.bind (keeps_update hsame fun _ => ?_) fun _ => Keeps.pure _
  all_goals exact ⟨rfl, rfl, rfl, rfl, rfl, le_rfl⟩

end Save

theorem Keyed.sameRoster {db' : Db} (h : Keyed db) (hsame : SameRoster db db') : Keyed db' where
  groups := by
    rw [hsame.groups]
    exact h.groups
  roles := by
    rw [hsame.roles]
    exact h.roles
  members := by
    rw [hsame.members]
    exact h.members
  groupsFresh := by
    rw [hsame.groups]
    exact fun g hg => (h.groupsFresh g hg).trans_le hsame.nextId
  rolesFresh := by
    rw [hsame.roles]
    exact fun r hr => (h.rolesFresh r hr).trans_le hsame.nextId

theorem keyed_saveEventGroups {orgId eventId : ℕ} {body : PlanPayload} :
    Keeps Keyed (saveEventGroups orgId eventId userId body) :=
  keeps_saveEventGroups (fun _ _ hsame h => h.sameRoster hsame) fun _ => keyed_saveRoster

theorem Keyed.serve (h : Keyed db) (r : Request) : Keyed (r.serve db).2 := by
  cases r with
  | joinEventGroup => exact keyed_joinEventGroup.autocommit h
  | leaveEventGroup => exact keyed_leaveEventGroup.transaction h
  | joinEventRole => exact keyed_joinEventRole.transaction h
  | quickJoinEvent => exact keyed_quickJoinEvent.autocommit h
  | leaveMyEventSignup => exact keyed_leaveMyEventSignup.transaction h
  | leaveEventRole => exact keyed_leaveEventRole.transaction h
  | claimShipSlot => exact keyed_claimShipSlot.transaction h
  | releaseShipSlot => exact keyed_releaseShipSlot.transaction h
  | respondEventAssignment => exact keyed_respondEventAssignment.autocommit h
  | approveGroupMember => exact keyed_approveGroupMember.autocommit h
  | approveAllGroupMembers => exact keyed_approveAllGroupMembers.autocommit h
  | removeGroupMember => exact keyed_removeGroupMember.autocommit h
  | saveEventGroups => exact keyed_saveEventGroups.transaction h

theorem Keyed.run {db' : Db} {rs : List Request} (h : Keyed db) (hrun : requests.Run db rs db') :
    Keyed db' := by
  refine hrun.invariant (P := Keyed) (fun s r t hs hstep => ?_) h
  obtain rfl : (r.serve s).2 = t := Option.some.inj hstep
  exact hs.serve r

end SpecterComs.Events
