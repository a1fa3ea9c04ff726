import SpecterComs.Model.Events.Plan

/-! # What each signup handler writes

For every handler: what it found in the snapshots of its statements when it answers, and the
writes it makes. Run alone, all snapshots are the database it started from.
-/

namespace SpecterComs.Events

open Handler

/-- What a handler leaves when it answers; what a refused one wrote does not matter. -/
def Answered (Q : List Db → (Db → Db) → Prop) : Except Response Response → List Db → (Db → Db) → Prop
  | .ok _, seen, w => Q seen w
  | .error _, _, _ => True

/-- Where a refused handler has written nothing. -/
def Decided (Q : List Db → (Db → Db) → Prop) : Except Response Response → List Db → (Db → Db) → Prop
  | .ok _, seen, w => Q seen w
  | .error _, _, w => w = id

/-- What a step of a handler leaves when it goes on. -/
def Continues {α : Type} (Q : α → List Db → (Db → Db) → Prop) :
    Except Response α → List Db → (Db → Db) → Prop
  | .ok a, seen, w => Q a seen w
  | .error _, _, _ => True

/-- The checks of a signup: the event is open, and the user a member of its organization. -/
structure Admitted (orgId eventId userId : ℕ) (seen : List Db) : Prop where
  event : ∃ d ∈ seen, ∃ ev, d.event eventId orgId = some ev ∧ ev.accessMode = .open
  member : ∃ d ∈ seen, d.isOrgMember orgId userId = true

section

variable {orgId eventId groupId roleId userId : ℕ} {seen seen' : List Db} {w : Db → Db}

theorem Admitted.mono (h : Admitted orgId eventId userId seen) (hseen : seen ⊆ seen') :
    Admitted orgId eventId userId seen' := by
  obtain ⟨⟨d, hd, hev⟩, ⟨d', hd', hmem⟩⟩ := h
  exact ⟨⟨d, hseen hd, hev⟩, ⟨d', hseen hd', hmem⟩⟩

/-! ## Ship reservations -/

/-- The reservations on the roles of the given names. -/
def reserveAll (groupId : ℕ) (counts : List (String × ℕ)) (db : Db) : Db :=
  counts.foldl (fun db c => db.reserveSlots c.2 groupId c.1) db

def rolesNamed (groupId : ℕ) (name : String) (db : Db) : List ℕ :=
  (db.roles.filter fun r => r.groupId = groupId && r.name = name).map Role.id

/-- The seats that a hangar ship reserves, by the names of their roles. -/
def seatCounts (db : Db) (groupId userId : ℕ) (claimedShipId : Option ℕ) : List (String × ℕ) :=
  match claimedShipId.bind fun shipId => db.userShip shipId userId with
  | none => []
  | some ship =>
      if !ship.lockedSeats.isEmpty && decide (ship.shipSlug ∈ db.compSlugs groupId) then
        countsByRoleName (((db.gameShip ship.shipSlug).map GameShip.rawSeats).getD [])
          ship.lockedSeats
      else []

/-- What the member row remembers of it. -/
def reservationFor (db : Db) (groupId userId : ℕ) (claimedShipId : Option ℕ) : Reservation :=
  (seatCounts db groupId userId claimedShipId).foldl
    (fun r c => r.add (claimedShipId.getD 0) c.2 (rolesNamed groupId c.1 db)) Reservation.none

/-- Which roles there are, and the tables a reservation reads, do not change. -/
structure SameRoles (db db' : Db) : Prop where
  named : ∀ groupId name, rolesNamed groupId name db' = rolesNamed groupId name db
  userShips : db'.userShips = db.userShips
  gameShips : db'.gameShips = db.gameShips
  ships : db'.ships = db.ships

theorem SameRoles.refl (db : Db) : SameRoles db db := ⟨fun _ _ => rfl, rfl, rfl, rfl⟩

variable {db db' : Db}

theorem rolesNamed_map {f : Role → Role} {name : String}
    (hf : ∀ r, (f r).id = r.id ∧ (f r).groupId = r.groupId ∧ (f r).name = r.name) :
    rolesNamed groupId name { db with roles := db.roles.map f } = rolesNamed groupId name db := by
  unfold rolesNamed
  rw [List.filter_map, List.map_map]
  have hid : Role.id ∘ f = Role.id := funext fun r => (hf r).1
  have hp : (fun r : Role => decide (r.groupId = groupId) && decide (r.name = name)) ∘ f =
      fun r => decide (r.groupId = groupId) && decide (r.name = name) := by
    funext r
    simp [(hf r).2.1, (hf r).2.2]
  rw [hid, hp]

theorem SameRoles.releaseSlots (h : SameRoles db db') (count roleId : ℕ) :
    SameRoles db (db'.releaseSlots count roleId) := by
  refine ⟨fun groupId name => ?_, h.userShips, h.gameShips, h.ships⟩
  rw [← h.named]
  exact rolesNamed_map fun r => by split <;> simp

theorem SameRoles.reserveSlots (h : SameRoles db db') (count groupId : ℕ) (name : String) :
    SameRoles db (db'.reserveSlots count groupId name) := by
  refine ⟨fun groupId' name' => ?_, h.userShips, h.gameShips, h.ships⟩
  rw [← h.named]
  exact rolesNamed_map fun r => by split <;> simp

theorem SameRoles.release (h : SameRoles db db') (m : Option Member) :
    SameRoles db (release m db') := by
  unfold Events.release
  split
  · exact h
  · split
    · split
      · exact h.releaseSlots _ _
      · exact h
    · exact h

theorem spec_reserveSeats {shipId : ℕ} (counts : List (String × ℕ)) (r : Reservation) :
    Spec (Continues fun r' seen' w' => seen ⊆ seen' ∧ w' = reserveAll groupId counts ∘ w ∧
      ∀ db, (∀ d ∈ seen', d = db) → SameRoles db (w db) →
        r' = counts.foldl (fun r c => r.add shipId c.2 (rolesNamed groupId c.1 db)) r)
      seen w (reserveSeats groupId shipId counts r) := by
  induction counts generalizing seen w r with
  | nil => exact ⟨fun _ h => h, rfl, fun _ _ _ => rfl⟩
  | cons c counts ih =>
      obtain ⟨name, count⟩ := c
      unfold reserveSeats
      rw [spec_updateReturning_bind]
      intro d
      refine (ih _).weaken fun r' seen' w' h => ?_
      cases r' with
      | error e => trivial
      | ok r' =>
          obtain ⟨hseen, rfl, hr⟩ := h
          refine ⟨fun x hx => hseen (List.mem_cons_of_mem _ hx), rfl, fun db hdb hw => ?_⟩
          obtain rfl : d = db := hdb d (hseen (by simp))
          rw [hr d hdb (hw.reserveSlots count groupId name), List.foldl_cons]
          have hnamed := hw.named groupId name
          unfold rolesNamed at hnamed
          rw [hnamed]
          rfl

theorem SameRoles.userShip (h : SameRoles db db') (shipId userId : ℕ) :
    db'.userShip shipId userId = db.userShip shipId userId := by
  rw [Db.userShip, Db.userShip, h.userShips]

theorem SameRoles.gameShip (h : SameRoles db db') (slug : String) :
    db'.gameShip slug = db.gameShip slug := by
  rw [Db.gameShip, Db.gameShip, h.gameShips]

theorem SameRoles.compSlugs (h : SameRoles db db') (groupId : ℕ) :
    db'.compSlugs groupId = db.compSlugs groupId := by
  rw [Db.compSlugs, Db.compSlugs, h.ships]

theorem spec_reserveFor (claimedShipId : Option ℕ) :
    Spec (Continues fun r seen' w' => seen ⊆ seen' ∧
      ∃ counts, w' = reserveAll groupId counts ∘ w ∧
        ∀ db, (∀ d ∈ seen', d = db) → SameRoles db (w db) →
          counts = seatCounts db groupId userId claimedShipId ∧
            r = reservationFor db groupId userId claimedShipId)
      seen w (reserveFor groupId userId claimedShipId) := by
  have hnone : ∀ seen', seen ⊆ seen' →
      (∀ db, (∀ d ∈ seen', d = db) → SameRoles db (w db) →
        seatCounts db groupId userId claimedShipId = []) →
      Spec (Continues fun r seen' w' => seen ⊆ seen' ∧
        ∃ counts, w' = reserveAll groupId counts ∘ w ∧
          ∀ db, (∀ d ∈ seen', d = db) → SameRoles db (w db) →
            counts = seatCounts db groupId userId claimedShipId ∧
              r = reservationFor db groupId userId claimedShipId)
        seen' w (pure Reservation.none) := by
    intro seen' hseen hcounts
    refine ⟨hseen, [], rfl, fun db hdb hw => ?_⟩
    have h := hcounts db hdb hw
    exact ⟨h.symm, by rw [reservationFor, h]; rfl⟩
  unfold reserveFor
  cases claimedShipId with
  | none => exact hnone seen (fun _ h => h) fun _ _ _ => rfl
  | some shipId =>
      simp only [spec_select_bind]
      intro d₁
      cases hship : (w d₁).userShip shipId userId with
      | none =>
          apply hnone _ (fun _ h => List.mem_cons_of_mem _ h)
          intro db hdb hw
          obtain rfl : d₁ = db := hdb d₁ (by simp)
          simp [seatCounts, ← hw.userShip, hship]
      | some ship =>
          simp only [spec_select_bind]
          intro d₂
          by_cases hcomp : (!ship.lockedSeats.isEmpty &&
              decide (ship.shipSlug ∈ (w d₂).compSlugs groupId)) = true
          · rw [if_pos hcomp, spec_select_bind]
            intro d₃
            refine (spec_reserveSeats _ _).weaken fun r seen' w' h => ?_
            cases r with
            | error e => trivial
            | ok r =>
                obtain ⟨hseen, rfl, hr⟩ := h
                refine ⟨fun x hx => hseen (by simp [hx]), _, rfl, fun db hdb hw => ?_⟩
                obtain rfl : d₁ = db := hdb d₁ (hseen (by simp))
                obtain rfl : d₂ = d₁ := hdb d₂ (hseen (by simp))
                obtain rfl : d₃ = d₂ := hdb d₃ (hseen (by simp))
                rw [hw.userShip] at hship
                rw [hw.compSlugs] at hcomp
                have hcounts : seatCounts d₃ groupId userId (some shipId) =
                    countsByRoleName (((d₃.gameShip ship.shipSlug).map GameShip.rawSeats).getD [])
                      ship.lockedSeats := by
                  simp only [seatCounts, Option.bind_some, hship]
                  rw [if_pos hcomp]
                rw [hw.gameShip]
                refine ⟨hcounts.symm, ?_⟩
                rw [hr d₃ hdb hw, reservationFor, hcounts, hw.gameShip]
                rfl
          · rw [if_neg hcomp]
            apply hnone _ (fun _ h => by simp [h])
            intro db hdb hw
            obtain rfl : d₁ = db := hdb d₁ (by simp)
            obtain rfl : d₂ = d₁ := hdb d₂ (by simp)
            rw [hw.userShip] at hship
            rw [hw.compSlugs] at hcomp
            simp only [seatCounts, Option.bind_some, hship]
            rw [if_neg hcomp]

/-! ## Roles -/

variable {role : Role} {seatLabel : Option String}

theorem spec_requireHull :
    Spec (Continues fun _ seen' w' => seen ⊆ seen' ∧ w' = w) seen w
      (requireHull groupId role seatLabel) := by
  unfold requireHull
  rw [spec_select_bind]
  intro d₁
  split
  · exact ⟨fun _ h => by simp [h], rfl⟩
  · simp only [spec_require_bind, spec_select_bind]
    refine ⟨fun _ d₂ d₃ => ?_, fun _ => trivial⟩
    unfold require
    split
    · exact ⟨fun _ h => by simp [h], rfl⟩
    · trivial

theorem spec_chooseSeat {seatLabels : List String} :
    Spec (Continues fun _ seen' w' => seen ⊆ seen' ∧ w' = w) seen w
      (chooseSeat roleId userId seatLabels seatLabel) := by
  unfold chooseSeat
  split
  · simp only [spec_found_bind, spec_require_bind, spec_select_bind]
    refine ⟨fun label _ => ⟨fun _ d => ⟨fun _ => ?_, ?_⟩, ?_⟩, ?_⟩
    · exact ⟨fun _ h => by simp [h], rfl⟩
    all_goals exact fun _ => trivial
  · exact ⟨fun _ h => h, rfl⟩

/-- The row of a member with a role and a reservation. -/
def roleRow (groupId userId : ℕ) (role : Role) (seat : Option String) (r : Reservation) : Member where
  groupId := groupId
  userId := userId
  roleId := some role.id
  status := role.joinStatus
  role := some role.name
  seatLabel := seat
  claimedShipId := r.claimedShipId
  reservedSeatsRoleId := r.roleId
  reservedSeatsCount := r.count

variable {claimedShipId : Option ℕ}

theorem spec_joinWithRole :
    Spec (Answered fun seen' w' => seen ⊆ seen' ∧
      ∃ seat r counts,
        w' = (fun db => db.upsertMember (roleRow groupId userId role seat r)
          fun _ => roleRow groupId userId role seat r) ∘ reserveAll groupId counts ∘ w ∧
        ∀ db, (∀ d ∈ seen', d = db) → SameRoles db (w db) →
          counts = seatCounts db groupId userId claimedShipId ∧
            r = reservationFor db groupId userId claimedShipId)
      seen w (joinWithRole groupId userId role claimedShipId seatLabel) := by
  unfold joinWithRole
  refine Spec.bind spec_chooseSeat ?_ fun _ _ _ _ => trivial
  rintro seat seen₁ w₁ ⟨hseen₁, rfl⟩
  refine Spec.bind (spec_reserveFor claimedShipId) ?_ fun _ _ _ _ => trivial
  rintro r seen₂ w₂ ⟨hseen₂, counts, rfl, hr⟩
  simp only [spec_update_bind]
  intro d
  refine ⟨fun x hx => by simp [hseen₂ (hseen₁ hx)], seat, r, counts, rfl, fun db hdb hw => ?_⟩
  exact hr db (fun x hx => hdb x (by simp [hx])) hw

theorem spec_joinWithoutRole {roleName : String} :
    Spec (Answered fun seen' w' => seen ⊆ seen' ∧
      w' = (fun db => db.upsertMember (.plain groupId userId .accepted)
        fun _ => .plain groupId userId .accepted) ∘ w)
      seen w (joinWithoutRole groupId userId roleName) := by
  unfold joinWithoutRole
  simp only [spec_select_bind, spec_require_bind, spec_update_bind]
  exact fun d₁ => ⟨fun _ d₂ => ⟨fun _ h => by simp [h], rfl⟩, fun _ => trivial⟩

/-- What `joinEventRole` found, and what it wrote: the member row is of the role if it had a
free slot, else plain. -/
structure JoinedRole (orgId eventId groupId roleId userId : ℕ) (claimedShipId : Option ℕ)
    (seen : List Db) (w : Db → Db) : Prop where
  admitted : Admitted orgId eventId userId seen
  writes : ∃ d ∈ seen, ∃ d' ∈ seen, ∃ role, d.role roleId groupId = some role ∧
    role.assignmentMode = .open ∧
    ((∃ seat r counts,
        d.filledSlotsIn groupId roleId + role.reservedSlots < role.maxSlots ∧
        w = (fun db => db.upsertMember (roleRow groupId userId role seat r)
          fun _ => roleRow groupId userId role seat r) ∘ reserveAll groupId counts ∘
            release (d'.member groupId userId) ∧
        ∀ db, (∀ d ∈ seen, d = db) →
          counts = seatCounts db groupId userId claimedShipId ∧
            r = reservationFor db groupId userId claimedShipId) ∨
      w = (fun db => db.upsertMember (.plain groupId userId .accepted)
        fun _ => .plain groupId userId .accepted) ∘ release (d'.member groupId userId))

theorem spec_joinEventRole :
    Spec (Answered (JoinedRole orgId eventId groupId roleId userId claimedShipId)) [] id
      (joinEventRole orgId eventId groupId roleId userId claimedShipId seatLabel) := by
  unfold joinEventRole
  simp only [spec_select_bind, spec_found_bind, spec_require_bind, id_eq, decide_eq_true_eq]
  intro d₁
  refine ⟨fun ev hev => ⟨fun hopen d₂ => ⟨fun hmem d₃ => ⟨fun row hrow => ⟨fun hmode => ?_, ?_⟩, ?_⟩,
    ?_⟩, ?_⟩, ?_⟩
  rotate_left
  all_goals try exact fun _ => trivial
  refine Spec.bind spec_requireHull ?_ fun _ _ _ _ => trivial
  rintro _ seen₁ w₁ ⟨hseen₁, rfl⟩
  simp only [spec_select_bind, spec_update_bind, id_eq]
  intro d₄ d₅
  obtain ⟨role, hrole, rfl⟩ := Option.map_eq_some_iff.mp hrow
  have hadmitted : Admitted orgId eventId userId seen₁ :=
    ⟨⟨d₁, hseen₁ (by simp), ev, hev, hopen⟩, ⟨d₂, hseen₁ (by simp), hmem⟩⟩
  have hd₃ : d₃ ∈ seen₁ := hseen₁ (by simp)
  split
  · rename_i hfree
    refine spec_joinWithRole.weaken fun r seen' w' h => ?_
    cases r with
    | error e => trivial
    | ok r =>
        obtain ⟨hseen, seat, r', counts, rfl, hr⟩ := h
        have hsub : seen₁ ⊆ seen' := fun x hx => hseen (by simp [hx])
        refine ⟨hadmitted.mono hsub, d₃, hsub hd₃, d₄, hseen (by simp), role, hrole, hmode,
          .inl ⟨seat, r', counts, hfree, rfl, fun db hdb => ?_⟩⟩
        exact hr db hdb ((SameRoles.refl db).release _)
  · refine spec_joinWithoutRole.weaken fun r seen' w' h => ?_
    cases r with
    | error e => trivial
    | ok r =>
        obtain ⟨hseen, rfl⟩ := h
        have hsub : seen₁ ⊆ seen' := fun x hx => hseen (by simp [hx])
        exact ⟨hadmitted.mono hsub, d₃, hsub hd₃, d₄, hseen (by simp), role, hrole, hmode, .inr rfl⟩

/-! ## Quick signup -/

theorem mem_openRoles {r : Role × ℕ} (h : r ∈ openRoles db eventId) :
    r.1 ∈ db.roles ∧ db.groupOfEvent r.1.groupId eventId = true ∧
      r.1.assignmentMode = .open ∧ r.2 = db.filledSlots r.1.id := by
  obtain ⟨role, hrole, rfl⟩ := List.mem_map.mp h
  rw [List.mem_insertionSort, List.mem_filter, Bool.and_eq_true, decide_eq_true_eq] at hrole
  exact ⟨hrole.1, hrole.2.1, hrole.2.2, rfl⟩

/-- The upsert of `quickJoinEvent` for a role. -/
def quickUpsert (userId : ℕ) (role : Role) (db : Db) : Db :=
  db.upsertMember
    { Member.plain role.groupId userId role.joinStatus with
      roleId := some role.id
      role := some role.name }
    fun m =>
      { m with
        roleId := some role.id
        status := role.joinStatus
        role := some role.name }

/-- The upsert that only accepts. -/
def acceptUpsert (groupId userId : ℕ) (db : Db) : Db :=
  db.upsertMember (.plain groupId userId .accepted) fun m => { m with status := .accepted }

/-- What `quickJoinEvent` found, and what it wrote. -/
structure QuickJoined (orgId eventId userId : ℕ) (seen : List Db) (w : Db → Db) : Prop where
  event : ∃ d ∈ seen, ∃ ev, d.event eventId orgId = some ev ∧ ev.accessMode = .open
  writes : w = id ∨
    (∃ d ∈ seen, ∀ m ∈ d.members, d.inEvent eventId m = true → m.userId ≠ userId) ∧
      ((∃ d ∈ seen, ∃ role ∈ d.roles, d.groupOfEvent role.groupId eventId = true ∧
          role.assignmentMode = .open ∧ d.filledSlots role.id < role.maxSlots ∧
          w = quickUpsert userId role) ∨
        ∃ d ∈ seen, ∃ group ∈ d.groups, group.eventId = eventId ∧
          w = acceptUpsert group.id userId)

theorem spec_quickJoinEvent :
    Spec (Decided (QuickJoined orgId eventId userId)) [] id
      (quickJoinEvent orgId eventId userId) := by
  unfold quickJoinEvent
  simp only [spec_select_bind, spec_found_bind, spec_require_bind, id_eq, decide_eq_true_eq]
  intro d₁
  refine ⟨fun ev hev => ⟨fun hopen d₂ => ?_, fun _ => rfl⟩, fun _ => rfl⟩
  split
  · exact ⟨⟨d₁, by simp, ev, hev, hopen⟩, .inl rfl⟩
  · rename_i halready
    have hnone : ∀ m ∈ d₂.members, d₂.inEvent eventId m = true → m.userId ≠ userId := by
      intro m hm hin huser
      apply halready
      rw [List.any_eq_true]
      exact ⟨m, hm, by simp [hin, huser]⟩
    rw [spec_select_bind]
    intro d₃
    split
    · rename_i role filled hfind
      obtain ⟨hrole, hgroup, hmode, hfilled⟩ := mem_openRoles (List.mem_of_find?_eq_some hfind)
      have hfilled : filled = d₃.filledSlots role.id := hfilled
      have hfree : filled < role.maxSlots := by simpa using List.find?_some hfind
      simp only [spec_update_bind]
      intro d₄
      refine ⟨⟨d₁, by simp, ev, hev, hopen⟩, .inr ⟨⟨d₂, by simp, hnone⟩, .inl ?_⟩⟩
      exact ⟨d₃, by simp, role, hrole, hgroup, hmode, by rwa [← hfilled], rfl⟩
    · simp only [spec_select_bind, spec_found_bind, spec_update_bind]
      refine fun d₄ => ⟨fun group hfind d₅ => ?_, fun _ => rfl⟩
      obtain ⟨g, hg, rfl⟩ := List.mem_map.mp (List.mem_of_find?_eq_some hfind)
      rw [List.mem_filter, decide_eq_true_eq] at hg
      refine ⟨⟨d₁, by simp, ev, hev, hopen⟩, .inr ⟨⟨d₂, by simp, hnone⟩, .inr ?_⟩⟩
      exact ⟨d₄, by simp, g, hg.1, hg.2, rfl⟩

/-! ## Ship slots -/

theorem mem_pilotRole (h : pilotRole db groupId = some role) :
    role ∈ db.roles ∧ role.groupId = groupId ∧ isPilotRole role.name = true := by
  unfold pilotRole at h
  rcases Option.or_eq_some_iff.mp h with h | ⟨-, h⟩
  · have hp := List.find?_some h
    rw [Bool.and_eq_true, decide_eq_true_eq, decide_eq_true_eq] at hp
    exact ⟨List.mem_of_find?_eq_some h, hp.1, by simp [isPilotRole, hp.2]⟩
  · have hp := List.find?_some h
    rw [Bool.and_eq_true, decide_eq_true_eq, decide_eq_true_eq] at hp
    exact ⟨List.mem_of_find?_eq_some h, hp.1, by simp [isPilotRole, hp.2]⟩

/-- The row of a claimant in the role that brings the hull. -/
def pilotSet (role : Role) (userShipId : ℕ) (m : Member) : Member :=
  { m with
    roleId := some role.id
    status := role.joinStatus
    role := some role.name
    claimedShipId := some userShipId
    seatLabel := firstLabel role.seatLabels
    reservedSeatsRoleId := none
    reservedSeatsCount := 0 }

/-- The claim of a slot, before the member row. -/
def claimWrites (claim : ShipClaim) (prev : Option Member) (db : Db) : Db :=
  release prev ((db.deleteClaims (ShipClaim.isOf claim.groupId claim.userId)).insertClaim claim)

/-- What `claimShipSlot` found, and what it wrote. -/
structure SlotClaimed (orgId eventId groupId : ℕ) (shipSlug : String) (userId : ℕ)
    (seen : List Db) (w : Db → Db) : Prop where
  admitted : Admitted orgId eventId userId seen
  writes : ∃ (claim : ShipClaim) (d d' : Db), d ∈ seen ∧ d' ∈ seen ∧
    claim.groupId = groupId ∧ claim.userId = userId ∧ claim.shipSlug = shipSlug ∧
    ((∃ role, pilotRole (claimWrites claim (d.member groupId userId) d') groupId = some role ∧
        d'.filledSlotsIn groupId role.id < role.maxSlots ∧
        w = (fun db => db.upsertMember (pilotSet role claim.userShipId
            (.plain groupId userId role.joinStatus)) (pilotSet role claim.userShipId)) ∘
          claimWrites claim (d.member groupId userId)) ∨
      (∀ role, pilotRole (claimWrites claim (d.member groupId userId) d') groupId = some role →
          role.maxSlots ≤ d'.filledSlotsIn groupId role.id) ∧
        w = claimWrites claim (d.member groupId userId))

theorem members_insertClaim (claim : ShipClaim) (db : Db) :
    (db.insertClaim claim).members = db.members := by
  unfold Db.insertClaim
  split <;> rfl

theorem members_claimWrites (claim : ShipClaim) (prev : Option Member) (db : Db) :
    (claimWrites claim prev db).members = db.members := by
  unfold claimWrites release Db.insertClaim
  split
  · split <;> rfl
  · split
    · split <;> (try split) <;> rfl
    · split <;> rfl

theorem filledSlotsIn_claimWrites (claim : ShipClaim) (prev : Option Member) (db : Db)
    (roleId : ℕ) :
    (claimWrites claim prev db).filledSlotsIn groupId roleId = db.filledSlotsIn groupId roleId := by
  rw [Db.filledSlotsIn, Db.filledSlotsIn, members_claimWrites]

theorem spec_claimShipSlot {shipSlug : String} {userShipId slotIndex : Option ℕ} :
    Spec (Answered (SlotClaimed orgId eventId groupId shipSlug userId)) [] id
      (claimShipSlot orgId eventId groupId shipSlug userId userShipId slotIndex) := by
  unfold claimShipSlot
  simp only [spec_select_bind, spec_found_bind, spec_require_bind, spec_update_bind,
    spec_updateReturning_bind, id_eq, decide_eq_true_eq]
  refine ⟨fun shipId _ => ⟨fun slot _ d₁ => ⟨fun ev hev => ⟨fun hopen d₂ => ⟨fun hmem d₃ =>
    ⟨fun ship _ d₄ => ⟨fun _ d₅ => ⟨fun _ d₆ d₇ => ⟨fun _ d₈ d₉ d₁₀ => ?_, ?_⟩, ?_⟩, ?_⟩, ?_⟩, ?_⟩,
    ?_⟩, ?_⟩, ?_⟩, ?_⟩
  rotate_left
  all_goals try exact fun _ => trivial
  have hadmitted : ∀ seen, d₁ ∈ seen → d₂ ∈ seen → Admitted orgId eventId userId seen :=
    fun seen h₁ h₂ => ⟨⟨d₁, h₁, ev, hev, hopen⟩, ⟨d₂, h₂, hmem⟩⟩
  obtain ⟨claim, hclaim⟩ : ∃ claim : ShipClaim,
    claim = ⟨groupId, shipSlug, slot, userId, shipId, ship.shipSlug⟩ := ⟨_, rfl⟩
  have hgroup : claim.groupId = groupId := by rw [hclaim]
  have huser : claim.userId = userId := by rw [hclaim]
  have hslug : claim.shipSlug = shipSlug := by rw [hclaim]
  have hship : claim.userShipId = shipId := by rw [hclaim]
  rw [← hclaim]
  have hprev : (((fun db : Db => db.insertClaim claim) ∘
      (fun db => db.deleteClaims (ShipClaim.isOf groupId userId)) ∘ id) d₈).member groupId userId =
        d₈.member groupId userId := by
    unfold Db.member
    rw [show (((fun db : Db => db.insertClaim claim) ∘
      (fun db => db.deleteClaims (ShipClaim.isOf groupId userId)) ∘ id) d₈).members = d₈.members from
        members_insertClaim _ _]
  rw [hprev]
  split
  · rename_i role filled hrole
    obtain ⟨role', hrole', hpair⟩ := Option.map_eq_some_iff.mp hrole
    obtain ⟨rfl, rfl⟩ := Prod.mk.inj hpair
    have hcount : ((claimWrites claim (d₈.member groupId userId)) d₁₀).filledSlotsIn groupId
        role'.id = d₁₀.filledSlotsIn groupId role'.id := filledSlotsIn_claimWrites _ _ _ _
    split
    · rename_i hfree
      rw [spec_update_bind]
      intro d₁₁
      subst hgroup huser hslug hship
      refine ⟨hadmitted _ (by simp) (by simp), claim, d₈, d₁₀, by simp, by simp, rfl, rfl, rfl,
        .inl ⟨role', hrole', ?_, rfl⟩⟩
      rw [← hcount]
      exact hfree
    · rename_i hfull
      subst hgroup huser hslug
      refine ⟨hadmitted _ (by simp) (by simp), claim, d₈, d₁₀, by simp, by simp, rfl, rfl, rfl,
        .inr ⟨fun role hr => ?_, rfl⟩⟩
      obtain rfl : role' = role := Option.some.inj (hrole'.symm.trans hr)
      rw [← hcount]
      exact Nat.le_of_not_lt hfull
  · rename_i hrole
    subst hgroup huser hslug
    refine ⟨hadmitted _ (by simp) (by simp), claim, d₈, d₁₀, by simp, by simp, rfl, rfl, rfl,
      .inr ⟨fun role hr => ?_, rfl⟩⟩
    have hnone := Option.map_eq_none_iff.mp hrole
    exact absurd (hnone.symm.trans hr) (by simp)

theorem spec_releaseShipSlot :
    Spec (Answered fun seen w => ∃ d ∈ seen, ∃ d' ∈ seen,
      (∃ c ∈ d.claims, c.isOf groupId userId = true) ∧
      w = (fun db => db.deleteMembers fun m => m.isOf groupId userId &&
          db.roles.any fun r => r.groupId = groupId && isPilotRole r.name && m.roleId = some r.id) ∘
        fun db => db.deleteClaims (ShipClaim.isOf groupId userId))
      [] id (releaseShipSlot groupId userId) := by
  unfold releaseShipSlot
  simp only [spec_updateReturning_bind, spec_require_bind, spec_update_bind, id_eq,
    decide_eq_true_eq]
  refine fun d₁ => ⟨fun hclaims d₂ => ?_, fun _ => trivial⟩
  obtain ⟨c, hc⟩ := List.exists_mem_of_ne_nil _ hclaims
  rw [List.mem_filter] at hc
  exact ⟨d₁, by simp, d₂, by simp, ⟨c, hc.1, hc.2⟩, rfl⟩

/-! ## Leaving -/

end

end SpecterComs.Events
