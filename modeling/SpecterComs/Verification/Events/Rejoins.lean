import SpecterComs.Verification.Events.Scope

/-! # Joining a role again

A member who joins the role they hold counts in its filled slots, and what their row has reserved
in its reserved slots: at capacity they fall back to plain membership. With a slot to spare the
row is written anew, from the role and the ship as they are now.
-/

namespace SpecterComs.Events

open Handler

variable {db : Db} {orgId eventId groupId roleId userId : ℕ} {m : Member}

/-! ## What a ship reserves -/

/-- The names of the roles of locked seats. -/
def seatRoleNames (rawSeats : List RawSeat) (lockedSeats : List String) : List String :=
  lockedSeats.filterMap fun hp =>
    (rawSeats.find? fun s => s.hardpointName = hp).map fun seat => roleDisplayName seat.role

variable {counts : List (String × ℕ)}

theorem lookup_filter_ne {name other : String} (h : name ≠ other) :
    (counts.filter fun c => c.1 ≠ other).lookup name = counts.lookup name := by
  induction counts with
  | nil => rfl
  | cons c counts ih =>
      obtain ⟨key, count⟩ := c
      by_cases hkey : key = other
      · have hne : (name == key) = false := by simpa [hkey] using h
        rw [List.filter_cons_of_neg (by simpa using hkey), ih, List.lookup_cons, hne]
      · rw [List.filter_cons_of_pos (by simpa using hkey), List.lookup_cons, List.lookup_cons, ih]

theorem keys_countsByRoleName (rawSeats : List RawSeat) (lockedSeats : List String) :
    ((countsByRoleName rawSeats lockedSeats).map Prod.fst).Nodup := by
  induction lockedSeats with
  | nil => simp [countsByRoleName]
  | cons hp rest ih =>
      unfold countsByRoleName
      split
      · exact ih
      · rw [List.map_cons, List.nodup_cons]
        refine ⟨?_, nodup_map_filter ih⟩
        simp

/-- A name has as many seats as it occurs among the locked ones. -/
theorem lookup_countsByRoleName (rawSeats : List RawSeat) (lockedSeats : List String)
    (name : String) :
    ((countsByRoleName rawSeats lockedSeats).lookup name).getD 0 =
      (seatRoleNames rawSeats lockedSeats).count name := by
  induction lockedSeats with
  | nil => simp [countsByRoleName, seatRoleNames]
  | cons hp rest ih =>
      unfold countsByRoleName
      cases hseat : rawSeats.find? fun s => s.hardpointName = hp with
      | none => simpa [seatRoleNames, hseat] using ih
      | some seat =>
          have hnames : seatRoleNames rawSeats (hp :: rest) =
              roleDisplayName seat.role :: seatRoleNames rawSeats rest := by
            simp [seatRoleNames, hseat]
          rw [hnames]
          by_cases hname : name = roleDisplayName seat.role
          · subst hname
            simpa using ih
          · have hne : (name == roleDisplayName seat.role) = false := by simpa using hname
            rw [List.count_cons_of_ne (Ne.symm hname), ← ih]
            simp only [List.lookup_cons, hne, lookup_filter_ne hname]

variable {c : String × ℕ}

theorem countsByRoleName_pos {rawSeats : List RawSeat} {lockedSeats : List String}
    (h : c ∈ countsByRoleName rawSeats lockedSeats) : 0 < c.2 := by
  induction lockedSeats with
  | nil => cases h
  | cons hp rest ih =>
      unfold countsByRoleName at h
      split at h
      · exact ih h
      · rcases List.mem_cons.mp h with rfl | h
        · exact Nat.succ_pos _
        · exact ih (List.mem_filter.mp h).1

/-- The locked seats of a ship of the group's composition that are of a role of the group. -/
def Db.lockedFor (db : Db) (groupId userId : ℕ) (claimedShipId : Option ℕ) (r : Role) : ℕ :=
  match claimedShipId.bind fun shipId => db.userShip shipId userId with
  | none => 0
  | some ship =>
      if r.groupId = groupId ∧ ship.shipSlug ∈ db.compSlugs groupId then
        (seatRoleNames (((db.gameShip ship.shipSlug).map GameShip.rawSeats).getD [])
          ship.lockedSeats).count r.name
      else 0

section Reservation

variable {claimedShipId : Option ℕ}

theorem keys_seatCounts : ((seatCounts db groupId userId claimedShipId).map Prod.fst).Nodup := by
  unfold seatCounts
  split
  · simp
  · split
    · exact keys_countsByRoleName _ _
    · simp

theorem seatCounts_pos (h : c ∈ seatCounts db groupId userId claimedShipId) : 0 < c.2 := by
  unfold seatCounts at h
  split at h
  · cases h
  · split at h
    · exact countsByRoleName_pos h
    · cases h

variable {r : Role}

theorem lookup_seatCounts (hr : r.groupId = groupId) :
    ((seatCounts db groupId userId claimedShipId).lookup r.name).getD 0 =
      db.lockedFor groupId userId claimedShipId r := by
  unfold seatCounts Db.lockedFor
  cases hship : claimedShipId.bind fun shipId => db.userShip shipId userId with
  | none => rfl
  | some ship =>
      by_cases hcomp : ship.shipSlug ∈ db.compSlugs groupId
      · cases hseats : ship.lockedSeats with
        | nil => simp [hseats, seatRoleNames]
        | cons hp rest =>
            simp only [hseats, hcomp, hr, and_self, if_true, List.isEmpty_cons, Bool.not_false,
              Bool.true_and, decide_true, lookup_countsByRoleName]
      · simp [hcomp]

theorem lockedFor_of_group_ne (hr : r.groupId ≠ groupId) :
    db.lockedFor groupId userId claimedShipId r = 0 := by
  unfold Db.lockedFor
  split
  · rfl
  · exact if_neg fun h => hr h.1

/-- Every count of the ship is of its name. -/
theorem lockedFor_of_mem (hc : c ∈ seatCounts db groupId userId claimedShipId)
    (hgroup : r.groupId = groupId) (hname : r.name = c.1) :
    db.lockedFor groupId userId claimedShipId r = c.2 := by
  rw [← lookup_seatCounts hgroup, hname]
  obtain ⟨before, after, hsplit⟩ := List.append_of_mem hc
  have hlookup : (seatCounts db groupId userId claimedShipId).lookup c.1 = some c.2 := by
    rw [List.lookup_eq_some_iff]
    refine ⟨before, after, hsplit, ?_⟩
    intro p hp
    have hnodup := @keys_seatCounts db groupId userId claimedShipId
    rw [hsplit, List.map_append, List.nodup_append] at hnodup
    have hne := hnodup.2.2 p.1 (List.mem_map_of_mem hp) c.1 (by simp)
    simpa using hne.symm
  rw [hlookup]
  rfl

theorem mem_seatCounts_of_lockedFor (h : 0 < db.lockedFor groupId userId claimedShipId r) :
    r.groupId = groupId ∧ ∃ count, (r.name, count) ∈ seatCounts db groupId userId claimedShipId := by
  have hgroup : r.groupId = groupId := by
    by_contra hne
    rw [lockedFor_of_group_ne hne] at h
    exact Nat.lt_irrefl 0 h
  refine ⟨hgroup, ?_⟩
  rw [← lookup_seatCounts hgroup] at h
  cases hlookup : (seatCounts db groupId userId claimedShipId).lookup r.name with
  | none => simp [hlookup] at h
  | some count =>
      obtain ⟨before, after, hsplit, -⟩ := List.lookup_eq_some_iff.mp hlookup
      exact ⟨count, by simp [hsplit]⟩

/-- The reserved slots of the group's roles grow by their counts. -/
theorem roles_reserveAll (hcounts : (counts.map Prod.fst).Nodup) (db : Db) :
    (reserveAll groupId counts db).roles = db.roles.map fun r =>
      { r with
        reservedSlots := r.reservedSlots +
          if r.groupId = groupId then (counts.lookup r.name).getD 0 else 0 } := by
  induction counts generalizing db with
  | nil => simp [reserveAll]
  | cons c counts ih =>
      obtain ⟨name, count⟩ := c
      rw [List.map_cons, List.nodup_cons] at hcounts
      change (reserveAll groupId counts (db.reserveSlots count groupId name)).roles = _
      rw [ih hcounts.2, Db.reserveSlots, List.map_map]
      apply List.map_congr_left
      intro r _
      by_cases hgroup : r.groupId = groupId
      · by_cases hname : r.name = name
        · have hlookup : counts.lookup name = none := by
            rw [List.lookup_eq_none_iff]
            intro p hp
            have hne : name ≠ p.1 := by
              rintro rfl
              exact hcounts.1 (List.mem_map.mpr ⟨p, hp, rfl⟩)
            simpa using hne
          simp [hgroup, hname, hlookup]
        · have hne : (r.name == name) = false := by simpa using hname
          simp [hgroup, hname, List.lookup_cons, hne]
      · simp [hgroup]

theorem foldl_add_some {shipId id count : ℕ} (counts : List (String × ℕ)) :
    counts.foldl (fun (r : Reservation) c => r.add shipId c.2 (rolesNamed groupId c.1 db))
        { claimedShipId := some shipId, roleId := some id, count := count } =
      { claimedShipId := some shipId, roleId := some id, count := count } := by
  induction counts with
  | nil => rfl
  | cons c counts ih =>
      rw [List.foldl_cons]
      cases hids : rolesNamed groupId c.1 db with
      | nil => exact ih
      | cons first rest => exact ih

/-- What the row remembers: nothing where no role has one of the names, else one of the counts
with a role of its name. -/
theorem foldl_add_none {shipId : ℕ} (counts : List (String × ℕ)) :
    (∀ c ∈ counts, rolesNamed groupId c.1 db = []) ∧
        counts.foldl (fun (r : Reservation) c => r.add shipId c.2 (rolesNamed groupId c.1 db)) Reservation.none =
          Reservation.none ∨
      ∃ c ∈ counts, ∃ id ∈ rolesNamed groupId c.1 db,
        counts.foldl (fun (r : Reservation) c => r.add shipId c.2 (rolesNamed groupId c.1 db)) Reservation.none =
          { claimedShipId := some shipId, roleId := some id, count := c.2 } := by
  induction counts with
  | nil => simp
  | cons c counts ih =>
      rw [List.foldl_cons]
      cases hids : rolesNamed groupId c.1 db with
      | nil =>
          rcases ih with ⟨hall, hnone⟩ | ⟨c', hc', id, hid, hsome⟩
          · left
            exact ⟨by simpa [hids] using hall, hnone⟩
          · right
            exact ⟨c', List.mem_cons_of_mem _ hc', id, hid, hsome⟩
      | cons first rest =>
          right
          refine ⟨c, List.mem_cons_self, first, by simp [hids], ?_⟩
          exact foldl_add_some counts

/-- A join reserves again what the row already remembers, on the one role that it names. -/
inductive KeepsReservation (db : Db) (groupId userId : ℕ) (claimedShipId : Option ℕ) (m : Member) :
    Prop
  | nothing (ship : m.claimedShipId = none) (role : m.reservedSeatsRoleId = none)
      (count : m.reservedSeatsCount = 0)
      (locked : ∀ r ∈ db.roles, db.lockedFor groupId userId claimedShipId r = 0)
  | seats (r : Role) (mem : r ∈ db.roles) (ship : m.claimedShipId = claimedShipId)
      (role : m.reservedSeatsRoleId = some r.id)
      (count : m.reservedSeatsCount = db.lockedFor groupId userId claimedShipId r)
      (pos : 0 < m.reservedSeatsCount) (held : m.reservedSeatsCount ≤ r.reservedSlots)
      (only : ∀ r' ∈ db.roles, r'.id ≠ r.id → db.lockedFor groupId userId claimedShipId r' = 0)

/-- The seats of a role that the row gives back. -/
def Member.given (m : Member) (r : Role) : ℕ :=
  if m.reservedSeatsRoleId = some r.id then m.reservedSeatsCount else 0

theorem roles_release (m : Member) (db : Db) :
    (release (some m) db).roles =
      db.roles.map fun r => { r with reservedSlots := r.reservedSlots - m.given r } := by
  unfold Member.given
  cases hrole : m.reservedSeatsRoleId with
  | none =>
      have hsame : release (some m) db = db := by simp [release, hrole]
      simp [hsame]
  | some id =>
      by_cases hcount : 0 < m.reservedSeatsCount
      · have hrelease : release (some m) db = db.releaseSlots m.reservedSeatsCount id := by
          simp [release, hrole, hcount]
        rw [hrelease, Db.releaseSlots]
        apply List.map_congr_left
        intro r _
        by_cases hid : r.id = id
        · simp [hid]
        · simp [hid, Ne.symm hid]
      · have hsame : release (some m) db = db := by simp [release, hrole, hcount]
        simp [hsame, Nat.eq_zero_of_not_pos hcount]

/-- After a release and the reservation of the ship the roles are as before where they get back
what they gave. -/
theorem roles_reserve_release_iff (db : Db) (m : Member) :
    (reserveAll groupId (seatCounts db groupId userId claimedShipId)
        (release (some m) db)).roles = db.roles ↔
      ∀ r ∈ db.roles,
        r.reservedSlots - m.given r + db.lockedFor groupId userId claimedShipId r =
          r.reservedSlots := by
  have hroles : (reserveAll groupId (seatCounts db groupId userId claimedShipId)
      (release (some m) db)).roles = db.roles.map fun r =>
        { r with
          reservedSlots := r.reservedSlots - m.given r +
            db.lockedFor groupId userId claimedShipId r } := by
    rw [roles_reserveAll keys_seatCounts, roles_release, List.map_map]
    apply List.map_congr_left
    intro r _
    by_cases hgroup : r.groupId = groupId
    · simp [hgroup, lookup_seatCounts hgroup]
    · simp [hgroup, lockedFor_of_group_ne hgroup]
  rw [hroles]
  nth_rewrite 2 [← List.map_id db.roles]
  rw [List.map_inj_left]
  apply forall₂_congr
  intro r _
  constructor
  · intro h
    exact congrArg Role.reservedSlots h
  · intro h
    rw [h]
    rfl

theorem reservationFor_cases :
    (∀ r ∈ db.roles, db.lockedFor groupId userId claimedShipId r = 0) ∧
        reservationFor db groupId userId claimedShipId = Reservation.none ∨
      ∃ shipId r, claimedShipId = some shipId ∧ r ∈ db.roles ∧
        0 < db.lockedFor groupId userId claimedShipId r ∧
        reservationFor db groupId userId claimedShipId =
          { claimedShipId := some shipId
            roleId := some r.id
            count := db.lockedFor groupId userId claimedShipId r } := by
  have hmem : ∀ {name : String} {r : Role}, r ∈ db.roles → r.groupId = groupId → r.name = name →
      r.id ∈ rolesNamed groupId name db := by
    intro name r hr hgroup hname
    simp only [rolesNamed, List.mem_map, List.mem_filter, Bool.and_eq_true, decide_eq_true_eq]
    exact ⟨r, ⟨hr, hgroup, hname⟩, rfl⟩
  rcases @foldl_add_none db groupId (claimedShipId.getD 0)
    (seatCounts db groupId userId claimedShipId) with ⟨hall, hnone⟩ | ⟨c, hc, id, hid, hsome⟩
  · left
    refine ⟨fun r hr => ?_, hnone⟩
    by_contra hlocked
    obtain ⟨hgroup, count, hcount⟩ := mem_seatCounts_of_lockedFor (Nat.pos_of_ne_zero hlocked)
    have hid := hmem hr hgroup rfl
    rw [hall _ hcount] at hid
    cases hid
  · right
    simp only [rolesNamed, List.mem_map, List.mem_filter, Bool.and_eq_true,
      decide_eq_true_eq] at hid
    obtain ⟨r, ⟨hr, hgroup, hname⟩, rfl⟩ := hid
    have hlocked := lockedFor_of_mem hc hgroup hname
    cases hship : claimedShipId with
    | none =>
        subst hship
        cases hc
    | some shipId =>
        subst hship
        refine ⟨shipId, r, rfl, hr, ?_, ?_⟩
        · rw [hlocked]
          exact seatCounts_pos hc
        · rw [hlocked]
          exact hsome

/-- The row and the roles stay exactly where the ship reserves what the row remembers. -/
theorem keepsReservation_iff (hids : (db.roles.map Role.id).Nodup) :
    KeepsReservation db groupId userId claimedShipId m ↔
      (m.claimedShipId = (reservationFor db groupId userId claimedShipId).claimedShipId ∧
        m.reservedSeatsRoleId = (reservationFor db groupId userId claimedShipId).roleId ∧
        m.reservedSeatsCount = (reservationFor db groupId userId claimedShipId).count) ∧
      (reserveAll groupId (seatCounts db groupId userId claimedShipId)
        (release (some m) db)).roles = db.roles := by
  rw [roles_reserve_release_iff]
  constructor
  · intro h
    cases h with
    | nothing ship role count locked =>
        rcases @reservationFor_cases db groupId userId claimedShipId with ⟨-, hnone⟩ |
          ⟨shipId, r, -, hr, hpos, -⟩
        · rw [hnone]
          refine ⟨⟨ship, role, count⟩, fun r hr => ?_⟩
          simp [Member.given, role, locked r hr]
        · exact absurd (locked r hr) hpos.ne'
    | seats r mem ship role count pos held only =>
        rcases @reservationFor_cases db groupId userId claimedShipId with ⟨hall, -⟩ |
          ⟨shipId, r', hship, hr', hpos, hsome⟩
        · exact absurd (hall r mem) (count ▸ pos.ne')
        · obtain rfl : r' = r := by
            by_contra hne
            exact hpos.ne' (only r' hr' fun hid => hne (eq_of_key_eq hids hr' mem hid))
          rw [hsome]
          refine ⟨⟨ship.trans hship, role, count⟩, fun r hr => ?_⟩
          by_cases hid : r.id = r'.id
          · obtain rfl := eq_of_key_eq hids hr mem hid
            simp only [Member.given, role, if_true, count]
            omega
          · have hgiven : m.given r = 0 := by simp [Member.given, role, Ne.symm hid]
            simp [hgiven, only r hr hid]
  · rintro ⟨⟨hship, hrole, hcount⟩, hroles⟩
    rcases @reservationFor_cases db groupId userId claimedShipId with ⟨hall, hnone⟩ |
      ⟨shipId, r, hclaimed, hr, hpos, hsome⟩
    · rw [hnone] at hship hrole hcount
      exact .nothing hship hrole hcount hall
    · rw [hsome] at hship hrole hcount
      dsimp only at hship hrole hcount
      refine .seats r hr (hship.trans hclaimed.symm) hrole hcount (hcount ▸ hpos) ?_ ?_
      · have hback := hroles r hr
        simp only [Member.given, hrole, if_true] at hback
        omega
      · intro r' hr' hid
        have hback := hroles r' hr'
        simp only [Member.given, hrole, Option.some.injEq, Ne.symm hid, if_false] at hback
        omega

end Reservation

/-! ## Run alone -/

theorem member_upsertMember_row (db : Db) (row : Member) :
    (db.upsertMember row fun _ => row).member row.groupId row.userId = some row := by
  have hsome : ((db.upsertMember row fun _ => row).member row.groupId row.userId).isSome = true :=
    member_upsertMember_self fun _ hkey => hkey.symm
  obtain ⟨m, hm⟩ := Option.isSome_iff_exists.mp hsome
  rw [hm, Option.some_inj]
  have hof := List.find?_some hm
  have hmem : m ∈ (db.upsertMember row fun _ => row).members := List.mem_of_find?_eq_some hm
  unfold Db.upsertMember at hmem
  split at hmem
  · obtain ⟨m', -, rfl⟩ := List.mem_map.mp hmem
    by_cases h : m'.isOf row.groupId row.userId = true
    · exact if_pos h
    · rw [if_neg h] at hof
      exact absurd hof h
  · rename_i hany
    rcases List.mem_append.mp hmem with h | h
    · exact absurd (List.any_eq_true.mpr ⟨m, h, hof⟩) hany
    · exact List.mem_singleton.mp h

variable {claimedShipId : Option ℕ} {bodySeatLabel seatLabel : Option String} {role : Role}

/-- The seat that a join stores. -/
def Role.seat (r : Role) (seatLabel : Option String) : Option String :=
  if 1 < r.seatLabels.length then seatLabel else firstLabel r.seatLabels

theorem exec_chooseSeat_seat
    (hfree : db.seatFree role.id userId role.seatLabels seatLabel = true) :
    Program.exec (chooseSeat role.id userId role.seatLabels seatLabel).run db =
      (.ok (role.seat seatLabel), db) := by
  unfold chooseSeat Role.seat
  by_cases hmany : 1 < role.seatLabels.length
  · rw [if_pos hmany, if_pos hmany, exec_found_bind]
    cases seatLabel with
    | none => simp [Db.seatFree, hmany] at hfree
    | some label =>
        simp only [Db.seatFree, hmany, decide_true, Bool.not_true, Bool.false_or, Option.any_some,
          Bool.and_eq_true] at hfree
        simp only [exec_require_bind, exec_select_bind, hfree.1, if_true, hfree.2]
        rfl
  · rw [if_neg hmany, if_neg hmany]
    rfl

theorem exec_reserveFor_release (prev : Option Member) :
    Program.exec (reserveFor groupId userId claimedShipId).run (release prev db) =
      (.ok (reservationFor db groupId userId claimedShipId),
        reserveAll groupId (seatCounts db groupId userId claimedShipId) (release prev db)) := by
  obtain ⟨seen, w, hseen, hspec, hw⟩ := @Snapshots.exec _ _ [] (release prev) _ _ db
    (spec_reserveFor claimedShipId) (by simp)
  obtain ⟨r, db', hexec⟩ := @exec_reserveFor groupId userId claimedShipId (release prev db)
  rw [hexec] at hspec hw
  obtain ⟨-, counts, rfl, hcounts⟩ := hspec
  obtain ⟨rfl, rfl⟩ := hcounts db hseen ((SameRoles.refl db).release prev)
  have hdb' : db' = reserveAll groupId (seatCounts db groupId userId claimedShipId)
    (release prev db) := hw
  rw [hexec, hdb']

/-- The row that a join with a free slot writes. -/
def joinRow (db : Db) (groupId userId : ℕ) (role : Role) (claimedShipId : Option ℕ)
    (seatLabel : Option String) : Member :=
  roleRow groupId userId role (role.seat seatLabel) (reservationFor db groupId userId claimedShipId)

theorem exec_joinWithRole_release (prev : Option Member)
    (hfree : db.seatFree role.id userId role.seatLabels seatLabel = true) :
    (Program.exec (joinWithRole groupId userId role claimedShipId seatLabel).run
        (release prev db)).2 =
      (reserveAll groupId (seatCounts db groupId userId claimedShipId)
        (release prev db)).upsertMember (joinRow db groupId userId role claimedShipId seatLabel)
          fun _ => joinRow db groupId userId role claimedShipId seatLabel := by
  rw [← seatFree_release prev] at hfree
  unfold joinWithRole
  rw [exec_run_bind, exec_chooseSeat_seat hfree]
  dsimp only
  rw [exec_run_bind, exec_reserveFor_release]
  rfl

theorem exec_joinWithoutRole_release (prev : Option Member) (roleName : String)
    (hroom : db.hasRoom groupId = true) :
    (Program.exec (joinWithoutRole groupId userId roleName).run (release prev db)).2 =
      (release prev db).upsertMember (.plain groupId userId .accepted)
        fun _ => .plain groupId userId .accepted := by
  rw [← hasRoom_release prev] at hroom
  unfold joinWithoutRole
  rw [exec_select_bind, exec_require_bind, Option.all_map]
  exact congrArg Prod.snd (if_pos hroom)

/-- What a join that is let through leaves: with a slot to spare a row of the role, else a plain
one. -/
theorem transaction_joinEventRole
    (htakes : db.takesRole orgId eventId groupId roleId userId bodySeatLabel = true) :
    ∃ role, db.role roleId groupId = some role ∧
      ((joinEventRole orgId eventId groupId roleId userId claimedShipId
          bodySeatLabel).transaction db).2 =
        if db.filledSlotsIn groupId roleId + role.reservedSlots < role.maxSlots then
          (reserveAll groupId (seatCounts db groupId userId claimedShipId)
            (release (db.member groupId userId) db)).upsertMember
              (joinRow db groupId userId role claimedShipId (seatLabelOf bodySeatLabel))
              fun _ => joinRow db groupId userId role claimedShipId (seatLabelOf bodySeatLabel)
        else
          (release (db.member groupId userId) db).upsertMember (.plain groupId userId .accepted)
            fun _ => .plain groupId userId .accepted := by
  have hanswers : (joinEventRole orgId eventId groupId roleId userId claimedShipId
      bodySeatLabel).answers db = true := (answers_joinEventRole _ _ _).trans htakes
  rw [transaction_snd_of_answers hanswers]
  simp only [Db.takesRole, Db.admits, Bool.and_eq_true, Option.any_eq_true,
    decide_eq_true_eq] at htakes
  obtain ⟨⟨⟨ev, hev, hopen⟩, horg⟩, role, hrole, hmode, hhull, hrest⟩ := htakes
  refine ⟨role, hrole, ?_⟩
  unfold joinEventRole
  simp only [exec_select_bind, exec_found_bind, hev, exec_require_bind, hopen, decide_true, if_true,
    horg, hrole, Option.map_some, hmode]
  obtain ⟨e, hexec⟩ := exec_requireHull db groupId role (seatLabelOf bodySeatLabel)
  rw [hhull, if_pos rfl] at hexec
  rw [exec_run_bind, hexec]
  simp only [exec_select_bind, exec_update_bind]
  split
  · rename_i hfits
    rw [if_pos hfits] at hrest
    exact exec_joinWithRole_release _ hrest
  · rename_i hfits
    rw [if_neg hfits] at hrest
    exact exec_joinWithoutRole_release _ _ hrest

/-! ## A join that changes nothing -/

/-- The member's row and the reserved slots of every role are as they were. -/
structure Harmless (db db' : Db) (groupId userId : ℕ) : Prop where
  row : db'.member groupId userId = db.member groupId userId
  slots : db'.roles.map (fun r => (r.id, r.reservedSlots)) =
    db.roles.map fun r => (r.id, r.reservedSlots)

/-- The role has a slot beside those that are taken, the member's own among them, and gives the
member what they have. -/
structure Renews (db : Db) (groupId userId : ℕ) (claimedShipId : Option ℕ)
    (seatLabel : Option String) (m : Member) (role : Role) : Prop where
  free : db.filledSlotsIn groupId role.id + role.reservedSlots < role.maxSlots
  status : m.status = role.joinStatus
  name : m.role = some role.name
  seat : m.seatLabel = role.seat seatLabel
  ship : KeepsReservation db groupId userId claimedShipId m

theorem eq_joinRow_iff (hmember : db.member groupId userId = some m)
    (hrole : m.roleId = some role.id) :
    joinRow db groupId userId role claimedShipId seatLabel = m ↔
      (m.status = role.joinStatus ∧ m.role = some role.name ∧
        m.seatLabel = role.seat seatLabel) ∧
      m.claimedShipId = (reservationFor db groupId userId claimedShipId).claimedShipId ∧
      m.reservedSeatsRoleId = (reservationFor db groupId userId claimedShipId).roleId ∧
      m.reservedSeatsCount = (reservationFor db groupId userId claimedShipId).count := by
  obtain ⟨hgroup, huser⟩ := isOf_eq.mp (List.find?_some hmember)
  obtain ⟨_, _, _, _, _, _, _, _, _⟩ := m
  simp only at hgroup huser hrole
  subst hgroup huser hrole
  simp only [joinRow, roleRow, Member.mk.injEq]
  tauto

/-- The roles differ in their reserved slots only. -/
theorem roles_eq_iff (hcounts : (counts.map Prod.fst).Nodup) :
    (reserveAll groupId counts (release (some m) db)).roles = db.roles ↔
      (reserveAll groupId counts (release (some m) db)).roles.map
          (fun r => (r.id, r.reservedSlots)) =
        db.roles.map fun r => (r.id, r.reservedSlots) := by
  rw [roles_reserveAll hcounts, roles_release, List.map_map, List.map_map]
  nth_rewrite 2 [← List.map_id db.roles]
  rw [List.map_inj_left, List.map_inj_left]
  apply forall₂_congr
  intro r _
  obtain ⟨_, _, _, _, _, _, _, _, _, _, _⟩ := r
  simp

/-- Where the slots are all taken, the member becomes a plain one or is refused; else the row is
written anew. -/
theorem rejoin_harmless (hkeys : Keyed db) (hmember : db.member groupId userId = some m)
    (hholds : m.roleId = some roleId) :
    Harmless db ((joinEventRole orgId eventId groupId roleId userId claimedShipId
        bodySeatLabel).transaction db).2 groupId userId ↔
      db.takesRole orgId eventId groupId roleId userId bodySeatLabel = false ∨
        ∃ role, db.role roleId groupId = some role ∧
          Renews db groupId userId claimedShipId (seatLabelOf bodySeatLabel) m role := by
  cases htakes : db.takesRole orgId eventId groupId roleId userId bodySeatLabel with
  | false =>
      rw [transaction_snd_of_not_answers ((answers_joinEventRole _ _ _).trans htakes)]
      exact iff_of_true ⟨rfl, rfl⟩ (.inl rfl)
  | true =>
      obtain ⟨role, hrole, hdb'⟩ := @transaction_joinEventRole db orgId eventId groupId roleId
        userId claimedShipId bodySeatLabel htakes
      obtain rfl : role.id = roleId := by
        have hkey := List.find?_some (p := fun r : Role => r.id = roleId && r.groupId = groupId) hrole
        exact of_decide_eq_true (Bool.and_eq_true_iff.mp hkey).1
      rw [hdb', hmember]
      by_cases hfits : db.filledSlotsIn groupId role.id + role.reservedSlots < role.maxSlots
      · rw [if_pos hfits]
        have hrow := @eq_joinRow_iff db groupId userId m claimedShipId
          (seatLabelOf bodySeatLabel) role hmember hholds
        have hship := @keepsReservation_iff db groupId userId m claimedShipId hkeys.roles
        rw [roles_eq_iff keys_seatCounts] at hship
        constructor
        · rintro ⟨hsame, hslots⟩
          have hnew := member_upsertMember_row (reserveAll groupId
            (seatCounts db groupId userId claimedShipId) (release (some m) db))
              (joinRow db groupId userId role claimedShipId (seatLabelOf bodySeatLabel))
          obtain ⟨⟨hstatus, hname, hseat⟩, hreservation⟩ :=
            hrow.mp (Option.some.inj (hnew.symm.trans (hsame.trans hmember)))
          exact .inr ⟨role, hrole, hfits, hstatus, hname, hseat, hship.mpr ⟨hreservation, hslots⟩⟩
        · rintro (hrefused | ⟨role', hrole', hrenews⟩)
          · cases hrefused
          · obtain rfl := Option.some.inj (hrole.symm.trans hrole')
            obtain ⟨hreservation, hslots⟩ := hship.mp hrenews.ship
            have hm := hrow.mpr ⟨⟨hrenews.status, hrenews.name, hrenews.seat⟩, hreservation⟩
            refine ⟨?_, hslots⟩
            rw [hmember, ← hm]
            exact member_upsertMember_row _ _
      · rw [if_neg hfits]
        constructor
        · rintro ⟨hsame, -⟩
          have hnew := member_upsertMember_row (release (some m) db)
            (.plain groupId userId .accepted)
          obtain rfl := Option.some.inj (hnew.symm.trans (hsame.trans hmember))
          cases hholds
        · rintro (hrefused | ⟨role', hrole', hrenews⟩)
          · cases hrefused
          · obtain rfl := Option.some.inj (hrole.symm.trans hrole')
            exact absurd hrenews.free hfits

/-- A gunner with a second slot in the role, whose ship has a seat locked on it. -/
def crewed (maxSlots : ℕ) : Db :=
  { wing [{ wingRole 31 "Turret Gunner" maxSlots true with reservedSlots := 1 }] ["hp_turret"] with
    claims := [⟨20, "hornet", 0, 7, 50, "hornet"⟩]
    members :=
      [{ Member.plain 20 7 .accepted with
          roleId := some 31
          role := some "Turret Gunner"
          claimedShipId := some 50
          reservedSeatsRoleId := some 31
          reservedSeatsCount := 1 }] }

theorem keyed_crewed (maxSlots : ℕ) : Keyed (crewed maxSlots) := by
  refine ⟨?_, ?_, ?_, ?_, ?_⟩ <;> simp [crewed, wing, wingRole]

theorem rejoin_harmless_gunner :
    Harmless (crewed 3) ((joinEventRole 1 10 20 31 7 (some 50) none).transaction (crewed 3)).2
      20 7 := by
  refine (rejoin_harmless (keyed_crewed 3) rfl rfl).mpr (.inr ⟨_, rfl, ?_, rfl, rfl, rfl, ?_⟩)
  · decide +kernel
  · exact .seats _ (List.mem_singleton_self _) rfl rfl (by decide +kernel) (by decide +kernel)
      (by decide +kernel) (by decide +kernel)

/-- With the slots of the role taken by the member and the seat they reserved, joining again takes
the role from them. -/
theorem rejoin_at_capacity :
    ¬ ∀ (db : Db) (orgId eventId groupId roleId userId : ℕ) (m : Member), Keyed db →
      db.member groupId userId = some m → m.roleId = some roleId → m.status.active = true →
        Harmless db ((joinEventRole orgId eventId groupId roleId userId m.claimedShipId
          m.seatLabel).transaction db).2 groupId userId := by
  intro hclaim
  have hsame := (hclaim (crewed 2) 1 10 20 31 7 _ (keyed_crewed 2) rfl rfl rfl).row
  have hplain : ((joinEventRole 1 10 20 31 7 (some 50) none).transaction (crewed 2)).2.member 20 7 =
    some (.plain 20 7 .accepted) := by decide +kernel
  have hnone : (none : Option ℕ) = some 31 :=
    congrArg Member.roleId (Option.some.inj (hplain.symm.trans hsame))
  cases hnone

end SpecterComs.Events
