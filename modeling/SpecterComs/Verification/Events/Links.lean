import SpecterComs.Verification.Events.Approval
import SpecterComs.Verification.Events.Saves

/-! # Links between the rows of a roster

The role of a member is a role of the member's group, and so is the role a reservation is on, if
it is still there.
-/

namespace SpecterComs.Events

open Handler Relation

structure Linked (db : Db) : Prop extends Keyed db where
  memberRole : ∀ m ∈ db.members, ∀ id, m.roleId = some id → db.hasRole m.groupId id
  reservedFresh : ∀ m ∈ db.members, ∀ id, m.reservedSeatsRoleId = some id → id < db.nextId
  reservedRole : ∀ m ∈ db.members, ∀ id, m.reservedSeatsRoleId = some id →
    ∀ r ∈ db.roles, r.id = id → r.groupId = m.groupId

/-- The links of one row. -/
structure LinkedRow (db : Db) (m : Member) : Prop where
  memberRole : ∀ id, m.roleId = some id → db.hasRole m.groupId id
  reservedFresh : ∀ id, m.reservedSeatsRoleId = some id → id < db.nextId
  reservedRole : ∀ id, m.reservedSeatsRoleId = some id → ∀ r ∈ db.roles, r.id = id →
    r.groupId = m.groupId

variable {db db' : Db} {eventId groupId roleId userId : ℕ}

theorem Linked.row (h : Linked db) {m : Member} (hm : m ∈ db.members) : LinkedRow db m :=
  ⟨h.memberRole m hm, h.reservedFresh m hm, h.reservedRole m hm⟩

theorem Keyed.linked (h : Keyed db) (hrows : ∀ m ∈ db.members, LinkedRow db m) : Linked db :=
  { h with
    memberRole := fun m hm => (hrows m hm).memberRole
    reservedFresh := fun m hm => (hrows m hm).reservedFresh
    reservedRole := fun m hm => (hrows m hm).reservedRole }

/-! ## Writes -/

namespace LinkedRow

variable {m m' : Member}

/-- A row with the same links. -/
theorem of_eq (h : LinkedRow db m) (hgroup : m'.groupId = m.groupId) (hrole : m'.roleId = m.roleId)
    (hreserved : m'.reservedSeatsRoleId = m.reservedSeatsRoleId) : LinkedRow db m' := by
  refine ⟨?_, ?_, ?_⟩
  · rw [hgroup, hrole]
    exact h.memberRole
  · rw [hreserved]
    exact h.reservedFresh
  · rw [hgroup, hreserved]
    exact h.reservedRole

/-- Roles keep their ids and groups, and new ones get new ids. -/
theorem of_roles (h : LinkedRow db m)
    (hkept : ∀ id, db.hasRole m.groupId id → db'.hasRole m.groupId id)
    (hnextId : db.nextId ≤ db'.nextId)
    (hold : ∀ r ∈ db'.roles, r.id < db.nextId → ∃ r' ∈ db.roles, r'.id = r.id ∧
      r'.groupId = r.groupId) : LinkedRow db' m where
  memberRole id hid := hkept id (h.memberRole id hid)
  reservedFresh id hid := (h.reservedFresh id hid).trans_le hnextId
  reservedRole id hid r hr hrid := by
    obtain ⟨r', hr', hid', hgroup'⟩ := hold r hr (by rw [hrid]; exact h.reservedFresh id hid)
    rw [← hgroup']
    exact h.reservedRole id hid r' hr' (hid'.trans hrid)

theorem of_same (h : LinkedRow db m) (hroles : db'.roles = db.roles)
    (hnextId : db.nextId ≤ db'.nextId) : LinkedRow db' m := by
  refine h.of_roles (fun id hid => ?_) hnextId fun r hr _ => ⟨r, by rwa [← hroles], rfl, rfl⟩
  rw [Db.hasRole, hroles]
  exact hid

theorem mapRoles (h : LinkedRow db m) {f : Role → Role}
    (hf : ∀ r, (f r).id = r.id ∧ (f r).groupId = r.groupId) :
    LinkedRow { db with roles := db.roles.map f } m := by
  refine h.of_roles (fun id hid => hasRole_mapRoles hf hid) le_rfl fun r hr _ => ?_
  obtain ⟨r', hr', rfl⟩ := List.mem_map.mp hr
  exact ⟨r', hr', (hf r').1.symm, (hf r').2.symm⟩

theorem release (h : LinkedRow db m) (prev : Option Member) : LinkedRow (release prev db) m := by
  unfold Events.release
  split
  · exact h
  · split
    · split
      · exact h.mapRoles fun r => by split <;> exact ⟨rfl, rfl⟩
      · exact h
    · exact h

theorem reserveAll (h : LinkedRow db m) (counts : List (String × ℕ)) :
    LinkedRow (reserveAll groupId counts db) m := by
  induction counts generalizing db with
  | nil => exact h
  | cons c counts ih =>
      rw [Events.reserveAll, List.foldl_cons]
      exact ih (h.mapRoles fun r => by split <;> exact ⟨rfl, rfl⟩)

/-- A row without a role or a reservation. -/
theorem of_none (hrole : m.roleId = none) (hreserved : m.reservedSeatsRoleId = none) :
    LinkedRow db m :=
  ⟨by simp [hrole], by simp [hreserved], by simp [hreserved]⟩

end LinkedRow

namespace Linked

theorem of_same (h : Linked db) (hgroups : db'.groups = db.groups) (hroles : db'.roles = db.roles)
    (hmembers : db'.members = db.members) (hnextId : db'.nextId = db.nextId) : Linked db' := by
  refine (h.toKeyed.of_same hgroups hroles hmembers hnextId).linked fun m hm => ?_
  rw [hmembers] at hm
  exact (h.row hm).of_same hroles hnextId.ge

theorem mapRoles (h : Linked db) {f : Role → Role}
    (hf : ∀ r, (f r).id = r.id ∧ (f r).groupId = r.groupId) :
    Linked { db with roles := db.roles.map f } :=
  (h.toKeyed.mapRoles fun r => (hf r).1).linked fun _ hm => (h.row hm).mapRoles hf

theorem releaseSlots (h : Linked db) (count roleId : ℕ) : Linked (db.releaseSlots count roleId) :=
  h.mapRoles fun r => by split <;> exact ⟨rfl, rfl⟩

theorem reserveSlots (h : Linked db) (count groupId : ℕ) (name : String) :
    Linked (db.reserveSlots count groupId name) :=
  h.mapRoles fun r => by split <;> exact ⟨rfl, rfl⟩

theorem release (h : Linked db) (m : Option Member) : Linked (release m db) := by
  unfold Events.release
  split
  · exact h
  · split
    · split
      · exact h.releaseSlots _ _
      · exact h
    · exact h

theorem releaseAll (h : Linked db) (rows : List Member) : Linked (releaseAll rows db) := by
  induction rows generalizing db with
  | nil => exact h
  | cons m rows ih =>
      rw [Events.releaseAll, List.foldl_cons]
      exact ih (h.release _)

theorem reserveAll (h : Linked db) (counts : List (String × ℕ)) :
    Linked (reserveAll groupId counts db) := by
  induction counts generalizing db with
  | nil => exact h
  | cons c counts ih =>
      rw [Events.reserveAll, List.foldl_cons]
      exact ih (h.reserveSlots _ _ _)

theorem deleteMembers (h : Linked db) (p : Member → Bool) : Linked (db.deleteMembers p) :=
  (h.toKeyed.deleteMembers p).linked fun _ hm =>
    (h.row (List.mem_filter.mp hm).1).of_same rfl le_rfl

variable {set : Member → Member}

/-- Where a row keeps its links. -/
theorem updateMembers (h : Linked db) {p : Member → Bool}
    (hset : ∀ m, (set m).key = m.key ∧ (set m).roleId = m.roleId ∧ (set m).reservedSeatsRoleId = m.reservedSeatsRoleId) :
    Linked (db.updateMembers p set) := by
  refine (h.toKeyed.updateMembers fun m => (hset m).1).linked fun m' hm' => ?_
  obtain ⟨m, hm, rfl⟩ := List.mem_map.mp hm'
  have hrow : LinkedRow db (if p m then set m else m) := by
    split
    · obtain ⟨hkey, hrole, hreserved⟩ := hset m
      exact (h.row hm).of_eq (congrArg Prod.fst hkey) hrole hreserved
    · exact h.row hm
  exact hrow.of_same rfl le_rfl

theorem upsertMember (h : Linked db) {m : Member} (hm : LinkedRow db m)
    (hkey : ∀ m₀, m₀.key = m.key → (set m₀).key = m₀.key)
    (hset : ∀ m₀ ∈ db.members, m₀.key = m.key → LinkedRow db (set m₀)) :
    Linked (db.upsertMember m set) := by
  have hroles : (db.upsertMember m set).roles = db.roles := by
    unfold Db.upsertMember
    split <;> rfl
  have hnextId : (db.upsertMember m set).nextId = db.nextId := by
    unfold Db.upsertMember
    split <;> rfl
  refine (h.toKeyed.upsertMember hkey).linked fun m' hm' => ?_
  have hrow : LinkedRow db m' := by
    rcases mem_upsertMember hm' with hold | rfl | ⟨m₀, hm₀, hkey₀, rfl⟩
    · exact h.row hold
    · exact hm
    · exact hset m₀ hm₀ hkey₀
  exact hrow.of_same hroles hnextId.ge

end Linked

/-! ## Saves -/

theorem PlanWrite.keyed (h : Keyed db) (hwrite : PlanWrite eventId db db') : Keyed db' := by
  cases hwrite with
  | outside hgroups hroles hmembers hclaims hnextId =>
      refine ⟨by rw [hgroups]; exact h.groups, by rw [hroles]; exact h.roles,
        by rw [hmembers]; exact h.members, ?_, ?_⟩
      · rw [hgroups]
        exact fun g hg => (h.groupsFresh g hg).trans_le hnextId
      · rw [hroles]
        exact fun r hr => (h.rolesFresh r hr).trans_le hnextId
  | mapGroups hf => exact h.mapGroups fun g => (hf g).1
  | insertGroup hg => exact h.insertGroup _
  | deleteGroups hids => exact h.deleteGroups _
  | pruneClaims hgroup hp => exact h.deleteClaims _
  | pruneMembers hgroup hp => exact h.deleteMembers _
  | mapRoles hf => exact h.mapRoles fun r => (hf r).1
  | insertRole hgroup hr => exact h.insertRole _
  | clearRole hgroup hrole hp => exact h.deleteMembers _
  | upsert hgroup hm hset hrole => exact h.upsertMember fun m _ => (hset m).1
  | deleteRoles hgroup hids => exact h.deleteRoles _

theorem PlanWrite.linked (h : Linked db) (hwrite : PlanWrite eventId db db') : Linked db' := by
  refine (hwrite.keyed h.toKeyed).linked ?_
  cases hwrite with
  | outside hgroups hroles hmembers hclaims hnextId =>
      intro m hm
      rw [hmembers] at hm
      exact (h.row hm).of_same hroles hnextId
  | mapGroups hf => exact fun m hm => (h.row hm).of_same rfl le_rfl
  | insertGroup hg => exact fun m hm => (h.row hm).of_same rfl (Nat.le_succ _)
  | @deleteGroups ids hids =>
      intro m' hm'
      obtain ⟨m, hm, rfl⟩ := List.mem_map.mp hm'
      obtain ⟨hm, hkept⟩ := List.mem_filter.mp hm
      have hrow := h.row hm
      refine ⟨fun id hid => ?_, hrow.reservedFresh, fun id hid r hr => ?_⟩
      · obtain ⟨hid, -⟩ := Option.filter_eq_some_iff.mp hid
        obtain ⟨r, hr, hrid, hgroup⟩ := hrow.memberRole id hid
        exact ⟨r, List.mem_filter.mpr ⟨hr, by rwa [hgroup]⟩, hrid, hgroup⟩
      · exact hrow.reservedRole id hid r (List.mem_filter.mp hr).1
  | pruneClaims hgroup hp => exact fun m hm => (h.row hm).of_same rfl le_rfl
  | pruneMembers hgroup hp => exact fun m hm => (h.deleteMembers _).row hm
  | mapRoles hf => exact fun m hm => (h.row hm).mapRoles fun r => ⟨(hf r).1, (hf r).2.1⟩
  | insertRole hgroup hr =>
      intro m hm
      refine (h.row hm).of_roles (fun id hid => ?_) (Nat.le_succ _) fun r hr hfresh => ?_
      · obtain ⟨r, hr, hrole⟩ := hid
        exact ⟨r, List.mem_append_left _ hr, hrole⟩
      · rcases List.mem_append.mp hr with hr | hr
        · exact ⟨r, hr, rfl, rfl⟩
        · rw [List.mem_singleton.mp hr] at hfresh
          exact absurd hfresh (Nat.lt_irrefl _)
  | clearRole hgroup hrole hp => exact fun m hm => (h.deleteMembers _).row hm
  | @upsert m set hgroup hm hset hrole =>
      have hnew : LinkedRow db m :=
        ⟨fun id hid => hrole id (.inl hid), by simp [hm], by simp [hm]⟩
      refine fun m' hm' => (h.upsertMember hnew (fun m₀ _ => (hset m₀).1) ?_).row hm'
      intro m₀ hm₀ hkey
      obtain ⟨hkey₀, hreserved, -⟩ := hset m₀
      have hgroup₀ : (set m₀).groupId = m₀.groupId := congrArg Prod.fst hkey₀
      have hgroup' : m₀.groupId = m.groupId := congrArg Prod.fst hkey
      have hrow := h.row hm₀
      refine ⟨fun id hid => ?_, ?_, ?_⟩
      · by_cases hold : m₀.roleId = some id
        · rw [hgroup₀]
          exact hrow.memberRole id hold
        · rw [hgroup₀, hgroup']
          exact hrole id (.inr ⟨m₀, hid, hold⟩)
      · rw [hreserved]
        exact hrow.reservedFresh
      · rw [hreserved, hgroup₀]
        exact hrow.reservedRole
  | @deleteRoles groupId ids hgroup hids =>
      intro m' hm'
      obtain ⟨m, hm, rfl⟩ := List.mem_map.mp hm'
      have hrow := h.row hm
      refine ⟨fun id hid => ?_, hrow.reservedFresh, fun id hid r hr => ?_⟩
      · obtain ⟨hid, hkept⟩ := Option.filter_eq_some_iff.mp hid
        obtain ⟨r, hr, rfl, hgroup⟩ := hrow.memberRole id hid
        exact ⟨r, List.mem_filter.mpr ⟨hr, hkept⟩, rfl, hgroup⟩
      · exact hrow.reservedRole id hid r (List.mem_filter.mp hr).1

theorem PlanWrite.linked_chain (h : Linked db)
    (hwrites : ReflTransGen (PlanWrite eventId) db db') : Linked db' := by
  induction hwrites with
  | refl => exact h
  | tail _ hwrite ih => exact hwrite.linked ih

/-! ## Signups -/

theorem Linked.insertClaim (h : Linked db) (c : ShipClaim) : Linked (db.insertClaim c) := by
  unfold Db.insertClaim
  split
  · exact h
  · exact h.of_same rfl rfl rfl rfl

theorem Linked.deleteClaims (h : Linked db) (p : ShipClaim → Bool) : Linked (db.deleteClaims p) :=
  h.of_same rfl rfl rfl rfl

theorem Linked.claimWrites (h : Linked db) (claim : ShipClaim) (prev : Option Member) :
    Linked (claimWrites claim prev db) :=
  ((h.deleteClaims _).insertClaim _).release _

theorem Linked.acceptUpsert (h : Linked db) : Linked (acceptUpsert groupId userId db) :=
  h.upsertMember (.of_none rfl rfl) (fun _ _ => rfl) fun _ hm₀ _ => (h.row hm₀).of_eq rfl rfl rfl

theorem hasRole_of_mem {role : Role} (hrole : role ∈ db.roles) (hgroup : role.groupId = groupId) :
    db.hasRole groupId role.id :=
  ⟨role, hrole, rfl, hgroup⟩

/-- A role of the group is of no other group. -/
theorem Keyed.role_group (h : Keyed db) (hrole : db.hasRole groupId roleId) {r : Role}
    (hr : r ∈ db.roles) (hid : r.id = roleId) : r.groupId = groupId := by
  obtain ⟨r', hr', hid', hgroup'⟩ := hrole
  rwa [eq_of_key_eq h.roles hr hr' (hid.trans hid'.symm)]

variable {claimedShipId : Option ℕ}

/-- A reservation is on a role of the group. -/
theorem hasRole_reservationFor {id : ℕ}
    (h : (reservationFor db groupId userId claimedShipId).roleId = some id) :
    db.hasRole groupId id := by
  unfold reservationFor at h
  have hkept : ∀ (counts : List (String × ℕ)) (r : Reservation),
      (∀ id, r.roleId = some id → db.hasRole groupId id) →
      ∀ id, (counts.foldl (fun r c => r.add (claimedShipId.getD 0) c.2 (rolesNamed groupId c.1 db))
        r).roleId = some id → db.hasRole groupId id := by
    intro counts
    induction counts with
    | nil => exact fun r hr => hr
    | cons c counts ih =>
        intro r hr
        rw [List.foldl_cons]
        refine ih _ fun id hid => ?_
        unfold Reservation.add at hid
        split at hid
        · exact hr id hid
        · rename_i id' rest hnamed
          split at hid
          · exact hr id hid
          · obtain rfl : id' = id := Option.some.inj hid
            have hmem : id' ∈ rolesNamed groupId c.1 db := by rw [hnamed]; simp
            obtain ⟨r', hr', rfl⟩ := List.mem_map.mp hmem
            obtain ⟨hr', hp⟩ := List.mem_filter.mp hr'
            exact hasRole_of_mem hr' (of_decide_eq_true (Bool.and_eq_true_iff.mp hp).1)
  exact hkept _ _ (fun _ hid => by cases hid) id h

theorem Linked.roleRow (h : Linked db) {role : Role} {seat : Option String} {r : Reservation}
    (hrole : role ∈ db.roles) (hgroup : role.groupId = groupId)
    (hr : ∀ id, r.roleId = some id → db.hasRole groupId id) :
    LinkedRow db (roleRow groupId userId role seat r) where
  memberRole id hid := by
    obtain rfl : role.id = id := Option.some.inj hid
    exact hasRole_of_mem hrole hgroup
  reservedFresh id hid := by
    obtain ⟨r', hr', rfl, -⟩ := hr id hid
    exact h.rolesFresh r' hr'
  reservedRole id hid _ hr' hid' := h.toKeyed.role_group (hr id hid) hr' hid'

variable {orgId : ℕ}

theorem linked_joinEventRole (h : Linked db) {seatLabel : Option String} :
    Linked ((Request.joinEventRole orgId eventId groupId roleId userId claimedShipId
      seatLabel).serve db).2 := by
  rcases spec_joinEventRole.transaction db with
    ⟨r, seen, w, hseen, hjoined, hserve⟩ | ⟨e, -, -, -, -, hserve⟩
  · obtain ⟨d, hd, d', -, role, hrole, -, hw⟩ := hjoined.writes
    rw [Request.serve, hserve]
    rw [hseen d hd] at hrole
    have hmem : role ∈ db.roles := List.mem_of_find?_eq_some hrole
    have hgroup : role.groupId = groupId := by
      have hp := List.find?_some hrole
      rw [Bool.and_eq_true, decide_eq_true_eq, decide_eq_true_eq] at hp
      exact hp.2
    rcases hw with ⟨seat, res, counts, -, rfl, hres⟩ | rfl
    · obtain ⟨-, rfl⟩ := hres db hseen
      have hrow : LinkedRow db (roleRow groupId userId role seat
          (reservationFor db groupId userId claimedShipId)) :=
        h.roleRow hmem hgroup fun id hid => hasRole_reservationFor hid
      exact ((h.release _).reserveAll counts).upsertMember ((hrow.release _).reserveAll counts)
        (fun _ hkey => hkey.symm) fun _ _ _ => (hrow.release _).reserveAll counts
    · exact (h.release _).upsertMember (.of_none rfl rfl) (fun _ hkey => hkey.symm)
        fun _ _ _ => .of_none rfl rfl
  · rw [Request.serve, hserve]
    exact h

theorem linked_quickJoinEvent (h : Linked db) :
    Linked ((Request.quickJoinEvent orgId eventId userId).serve db).2 := by
  obtain ⟨r, seen, w, hseen, hjoined | hrefused, hserve⟩ := spec_quickJoinEvent.autocommit db
  · rw [Request.serve, hserve]
    rcases hjoined.writes with rfl | ⟨-, ⟨d, hd, role, hrole, -, -, -, rfl⟩ |
      ⟨d, hd, group, -, -, rfl⟩⟩
    · exact h
    · rw [hseen d hd] at hrole
      refine h.upsertMember ⟨fun id hid => ?_, (fun _ h => by cases h), (fun _ h => by cases h)⟩
        (fun _ _ => rfl) fun m₀ hm₀ hkey => ?_
      · obtain rfl : role.id = id := Option.some.inj hid
        exact hasRole_of_mem hrole rfl
      · have hrow := h.row hm₀
        refine ⟨fun id hid => ?_, hrow.reservedFresh, hrow.reservedRole⟩
        obtain rfl : role.id = id := Option.some.inj hid
        exact hasRole_of_mem hrole (congrArg Prod.fst hkey).symm
    · exact h.acceptUpsert
  · rw [Request.serve, hserve, show w = id from hrefused]
    exact h

theorem linked_claimShipSlot (h : Linked db) {shipSlug : String} {userShipId slotIndex : Option ℕ} :
    Linked ((Request.claimShipSlot orgId eventId groupId shipSlug userId userShipId
      slotIndex).serve db).2 := by
  have hspec : Spec (Answered (SlotClaimed orgId eventId groupId shipSlug userId)) [] id
    (claimShipSlot orgId eventId groupId shipSlug userId userShipId slotIndex) := spec_claimShipSlot
  rcases hspec.transaction db with
    ⟨r, seen, w, hseen, hclaimed, hserve⟩ | ⟨e, -, -, -, -, hserve⟩
  · obtain ⟨claim, d, d', hd, hd', rfl, rfl, -, hw⟩ := hclaimed.writes
    rw [Request.serve, hserve]
    rcases hw with ⟨role, hrole, -, rfl⟩ | ⟨-, rfl⟩
    · obtain rfl := hseen d' hd'
      obtain ⟨hmem, hgroup, -⟩ := mem_pilotRole hrole
      have hlinked := h.claimWrites claim (d.member claim.groupId claim.userId)
      have hrow : ∀ m₀ : Member, m₀.groupId = claim.groupId →
          LinkedRow (claimWrites claim (d.member claim.groupId claim.userId) d')
            (pilotSet role claim.userShipId m₀) := by
        intro m₀ hm₀
        refine ⟨fun id hid => ?_, (fun _ h => by cases h), (fun _ h => by cases h)⟩
        obtain rfl : role.id = id := Option.some.inj hid
        exact hasRole_of_mem hmem (hgroup.trans hm₀.symm)
      exact hlinked.upsertMember (hrow _ rfl) (fun _ _ => rfl)
        fun m₀ _ hkey => hrow m₀ (congrArg Prod.fst hkey)
    · exact h.claimWrites _ _
  · rw [Request.serve, hserve]
    exact h

theorem linked_releaseShipSlot : Keeps Linked (releaseShipSlot groupId userId) :=
  (Keeps.updateReturning fun _ h => h.deleteClaims _).bind fun _ =>
    (Keeps.require _ _).bind fun _ => (Keeps.update fun _ h => h.deleteMembers _).bind fun _ =>
    Keeps.pure _

theorem linked_respondEventAssignment {accept : Bool} :
    Keeps Linked (respondEventAssignment eventId userId accept) := by
  refine (Keeps.updateReturning fun _ h => h.updateMembers fun _ => ⟨rfl, rfl, rfl⟩).bind
    fun rows => (Keeps.require _ _).bind fun _ => (Keeps.update fun _ h => ?_).bind fun _ =>
    Keeps.pure _
  split
  · exact h
  · exact h.releaseAll _

theorem linked_leaveMyEventSignup : Keeps Linked (leaveMyEventSignup eventId userId) :=
  (Keeps.select _).bind fun _ => (Keeps.update fun _ h => h.releaseAll _).bind fun _ =>
    (Keeps.update fun _ h => h.deleteMembers _).bind fun _ => Keeps.pure _

theorem Linked.serve (h : Linked db) (r : Request) : Linked (r.serve db).2 := by
  cases r with
  | joinEventGroup orgId eventId groupId userId =>
      rw [serve_joinEventGroup]
      split
      · exact h.acceptUpsert
      · exact h
  | leaveEventGroup => exact ((h.release _).deleteClaims _).deleteMembers _
  | joinEventRole => exact linked_joinEventRole h
  | quickJoinEvent => exact linked_quickJoinEvent h
  | leaveMyEventSignup => exact linked_leaveMyEventSignup.transaction h
  | leaveEventRole => exact ((h.release _).deleteClaims _).deleteMembers _
  | claimShipSlot => exact linked_claimShipSlot h
  | releaseShipSlot => exact linked_releaseShipSlot.transaction h
  | respondEventAssignment => exact linked_respondEventAssignment.autocommit h
  | approveGroupMember orgId eventId groupId userId requesterId =>
      rw [serve_approveGroupMember]
      split
      · exact h.updateMembers fun _ => ⟨rfl, rfl, rfl⟩
      · exact h
  | approveAllGroupMembers orgId eventId groupId requesterId =>
      rw [serve_approveAllGroupMembers]
      split
      · exact h.updateMembers fun _ => ⟨rfl, rfl, rfl⟩
      · exact h
  | removeGroupMember orgId eventId groupId userId requesterId =>
      rw [serve_removeGroupMember]
      split
      · exact (h.release _).deleteMembers _
      · exact h
  | saveEventGroups orgId eventId requesterId body =>
      rcases serve_saveEventGroups db orgId eventId requesterId body with hsame | hsaved
      · rwa [hsame]
      · exact PlanWrite.linked_chain h hsaved.writes

theorem Linked.run {rs : List Request} (h : Linked db) (hrun : requests.Run db rs db') :
    Linked db' := by
  refine hrun.invariant (P := Linked) (fun s r t hs hstep => ?_) h
  obtain rfl : (r.serve s).2 = t := Option.some.inj hstep
  exact hs.serve r

end SpecterComs.Events
