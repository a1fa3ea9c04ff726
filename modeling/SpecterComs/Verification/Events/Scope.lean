import SpecterComs.Verification.Events.Links
import Mathlib.Data.List.Find

/-! # Whose rows a request may change

The rights are checked on the event of the URL, the write goes to the group of the URL. Joining a
group and saving the plan tie the two together; the other handlers trust the URL.
-/

namespace SpecterComs.Events

open Handler Relation

/-- The group is of an event the user does not manage. -/
def Db.foreign (db : Db) (userId groupId : ℕ) : Bool :=
  (db.groups.any fun g => g.id = groupId) && !db.managesGroup userId groupId

def Db.claimsOf (db : Db) (groupId userId : ℕ) : List ShipClaim :=
  db.claims.filter (ShipClaim.isOf groupId userId)

/-- The event whose access a self-join checks. -/
def Request.checked : Request → Option (ℕ × ℕ)
  | .joinEventGroup orgId eventId _ _ | .joinEventRole orgId eventId _ _ _ _ _
  | .quickJoinEvent orgId eventId _ | .claimShipSlot orgId eventId _ _ _ _ _ => some (orgId, eventId)
  | _ => none

/-- The request stays within the rights of whoever makes it. -/
structure Scoped (db : Db) (r : Request) (db' : Db) : Prop where
  others : ∀ groupId, db.foreign r.requester groupId = true → ∀ userId, userId ≠ r.requester →
    db'.member groupId userId = db.member groupId userId ∧
      db'.claimsOf groupId userId = db.claimsOf groupId userId
  joins : ∀ orgId eventId, r.checked = some (orgId, eventId) → ∀ groupId,
    db.member groupId r.requester = none → (db'.member groupId r.requester).isSome = true →
      db.groupOfEvent groupId eventId = true ∧ db.admits orgId eventId r.requester = true

namespace Db

variable (db : Db)

/-! ## What lets a self-join through -/

def hullClaimed (groupId : ℕ) (role : Role) (seatLabel : Option String) : Bool :=
  db.compSlugs groupId = [] || (!isPilotRole role.name && db.claimed groupId
    (requiredSlug db (db.compSlugs groupId) (seatLabel.or (firstLabel role.seatLabels))))

def seatFree (roleId userId : ℕ) (seatLabels : List String) (seatLabel : Option String) : Bool :=
  !decide (1 < seatLabels.length) || seatLabel.any fun label =>
    decide (label ∈ seatLabels) && !(db.members.any fun m =>
      m.roleId = some roleId && m.seatLabel = some label && m.status.active && m.userId ≠ userId)

def hasRoom (groupId : ℕ) : Bool :=
  (db.group groupId).all fun g => g.maxMembers = 0 || db.filled groupId < g.maxMembers

/-- The checks of `joinEventRole`. -/
def takesRole (orgId eventId groupId roleId userId : ℕ) (bodySeatLabel : Option String) : Bool :=
  db.admits orgId eventId userId && (db.role roleId groupId).any fun role =>
    role.assignmentMode = .open && (db.hullClaimed groupId role (seatLabelOf bodySeatLabel) &&
      if db.filledSlotsIn groupId roleId + role.reservedSlots < role.maxSlots then
        db.seatFree role.id userId role.seatLabels (seatLabelOf bodySeatLabel)
      else db.hasRoom groupId)

/-- The checks of `quickJoinEvent`. -/
def quickJoins (orgId eventId userId : ℕ) : Bool :=
  ((db.event eventId orgId).any fun ev => ev.accessMode = .open) &&
    !(db.members.any fun m => db.inEvent eventId m && m.userId = userId) &&
    ((openRoles db eventId).any (fun r => r.2 < r.1.maxSlots) ||
      db.groups.any fun g => g.eventId = eventId &&
        (g.maxMembers = 0 || db.filled g.id < g.maxMembers))

/-- The checks of `claimShipSlot`. -/
def claimsSlot (orgId eventId groupId : ℕ) (shipSlug : String) (userId : ℕ)
    (userShipId slotIndex : Option ℕ) : Bool :=
  userShipId.any fun shipId => slotIndex.any fun slotIndex =>
    db.admits orgId eventId userId && (db.userShip shipId userId).any fun ship =>
      shipRolesMatch db ship.shipSlug shipSlug &&
        ((db.ships.find? fun s => s.groupId = groupId && s.shipSlug = shipSlug).any
          fun s => slotIndex < s.quantity) &&
        !(db.deleteClaims (ShipClaim.isOf groupId userId)).slotClaimed
          ⟨groupId, shipSlug, slotIndex, userId, shipId, ship.shipSlug⟩

/-- The group has a role for whoever brings a hull. -/
def pilotSeat (groupId : ℕ) : Bool :=
  (pilotRole db groupId).any fun role => db.filledSlotsIn groupId role.id < role.maxSlots

end Db

namespace Request

/-- The ids of the URL belong together, or the request changes nothing of others and adds the user
nowhere. -/
def inScope (db : Db) : Request → Bool
  | joinEventRole orgId eventId groupId roleId userId _ seatLabel =>
      db.groupOfEvent groupId eventId || (db.member groupId userId).isSome ||
        !db.takesRole orgId eventId groupId roleId userId seatLabel
  | quickJoinEvent orgId eventId userId =>
      db.isOrgMember orgId userId || !db.quickJoins orgId eventId userId
  | claimShipSlot orgId eventId groupId shipSlug userId userShipId slotIndex =>
      db.groupOfEvent groupId eventId || (db.member groupId userId).isSome ||
        !(db.claimsSlot orgId eventId groupId shipSlug userId userShipId slotIndex &&
          db.pilotSeat groupId)
  | approveGroupMember orgId eventId groupId userId requesterId =>
      !db.canManageThisEvent requesterId orgId eventId || !db.foreign requesterId groupId ||
        userId = requesterId || (db.member groupId userId).all fun m => m.status = .accepted
  | approveAllGroupMembers orgId eventId groupId requesterId =>
      !db.canManageThisEvent requesterId orgId eventId || !db.foreign requesterId groupId ||
        db.members.all fun m =>
          !(m.groupId = groupId && m.status = .pending && m.userId ≠ requesterId)
  | removeGroupMember orgId eventId groupId userId requesterId =>
      !db.canManageThisEvent requesterId orgId eventId || !db.foreign requesterId groupId ||
        userId = requesterId || (db.member groupId userId).isNone
  | _ => true

end Request

variable {db db' : Db} {orgId eventId groupId roleId userId : ℕ}

/-! ## The rows of others -/

/-- Only rows of the user change. -/
def OnlyOwn (userId : ℕ) (db db' : Db) : Prop :=
  ∀ g u, u ≠ userId → db'.member g u = db.member g u ∧ db'.claimsOf g u = db.claimsOf g u

variable {f set : Member → Member} {g u requesterId : ℕ}

theorem member_mapMembers (hf : ∀ m, (f m).key = m.key)
    (hmembers : db'.members = db.members.map f) : db'.member g u = (db.member g u).map f := by
  rw [Db.member, hmembers, List.find?_map, Db.member]
  congr 2
  funext m
  rw [Function.comp_apply, Bool.eq_iff_iff, isOf_iff_key, isOf_iff_key, hf]

theorem Option.map_eq_self {α : Type} {f : α → α} {a : Option α} (h : ∀ x ∈ a, f x = x) :
    a.map f = a := by
  cases a with
  | none => rfl
  | some x => rw [Option.map_some, h x rfl]

variable {p : Member → Bool}

/-- Whether `p` holds of the rows of others or not, they are left as they are. -/
theorem member_updateMembers_other (hset : ∀ m, p m = true → (set m).key = m.key)
    (hother : ∀ m : Member, m.isOf g u = true → p m = false) :
    (db.updateMembers p set).member g u = db.member g u := by
  have hf : ∀ m, (if p m = true then set m else m).key = m.key := by
    intro m
    split
    · rename_i hp
      exact hset m hp
    · rfl
  rw [member_mapMembers hf rfl]
  refine Option.map_eq_self fun m hm => if_neg ?_
  rw [hother m (List.find?_some hm)]
  simp

variable {m : Member}

theorem member_upsertMember_other (hset : ∀ m₀, m₀.key = m.key → (set m₀).key = m₀.key)
    (hother : m.key ≠ (g, u)) : (db.upsertMember m set).member g u = db.member g u := by
  unfold Db.upsertMember
  split
  · refine member_updateMembers_other (fun m₀ hm₀ => hset m₀ (isOf_iff_key.mp hm₀)) ?_
    intro m₀ hm₀
    by_contra hof
    rw [Bool.not_eq_false, isOf_iff_key] at hof
    exact hother (hof.symm.trans (isOf_iff_key.mp hm₀))
  · have hno : m.isOf g u = false := by
      by_contra hof
      rw [Bool.not_eq_false, isOf_iff_key] at hof
      exact hother hof
    simp [Db.member, List.find?_append, hno]

theorem member_upsertMember_self (hset : ∀ m₀, m₀.key = m.key → (set m₀).key = m₀.key) :
    ((db.upsertMember m set).member m.groupId m.userId).isSome = true := by
  rw [Db.member, List.find?_isSome]
  unfold Db.upsertMember
  split
  · rename_i hany
    obtain ⟨m₀, hm₀, hof⟩ := List.any_eq_true.mp hany
    refine ⟨_, List.mem_map.mpr ⟨m₀, hm₀, rfl⟩, ?_⟩
    rw [if_pos hof, isOf_iff_key, hset m₀ (isOf_iff_key.mp hof)]
    exact isOf_iff_key.mp hof
  · exact ⟨m, List.mem_append_right _ (List.mem_singleton_self m), by simp [Member.isOf]⟩

theorem member_of_members (h : db'.members = db.members) (g u : ℕ) :
    db'.member g u = db.member g u := by
  rw [Db.member, Db.member, h]

theorem claimsOf_of_claims (h : db'.claims = db.claims) (g u : ℕ) :
    db'.claimsOf g u = db.claimsOf g u := by
  rw [Db.claimsOf, Db.claimsOf, h]

theorem claimsOf_deleteClaims_other {p : ShipClaim → Bool}
    (hother : ∀ c : ShipClaim, c.isOf g u = true → p c = false) :
    (db.deleteClaims p).claimsOf g u = db.claimsOf g u := by
  rw [Db.claimsOf, Db.deleteClaims, List.filter_filter, Db.claimsOf]
  refine List.filter_congr fun c _ => ?_
  cases hc : c.isOf g u with
  | true => simp [hother c hc]
  | false => simp

theorem claimsOf_insertClaim_other {c : ShipClaim} (hother : c.isOf g u = false) :
    (db.insertClaim c).claimsOf g u = db.claimsOf g u := by
  unfold Db.insertClaim
  split
  · rfl
  · simp [Db.claimsOf, List.filter_append, hother]

namespace OnlyOwn

theorem refl (db : Db) : OnlyOwn userId db db :=
  fun _ _ _ => ⟨rfl, rfl⟩

theorem trans {db'' : Db} (h : OnlyOwn userId db db') (h' : OnlyOwn userId db' db'') :
    OnlyOwn userId db db'' :=
  fun g u hu => ⟨(h' g u hu).1.trans (h g u hu).1, (h' g u hu).2.trans (h g u hu).2⟩

theorem of_same (hmembers : db'.members = db.members) (hclaims : db'.claims = db.claims) :
    OnlyOwn userId db db' :=
  fun g u _ => ⟨member_of_members hmembers g u, claimsOf_of_claims hclaims g u⟩

theorem upsertMember (hm : m.userId = userId)
    (hset : ∀ m₀, m₀.key = m.key → (set m₀).key = m₀.key) :
    OnlyOwn userId db (db.upsertMember m set) := by
  refine fun g u hu => ⟨member_upsertMember_other hset fun hkey => ?_, ?_⟩
  · exact hu ((congrArg Prod.snd hkey).symm.trans hm)
  · refine claimsOf_of_claims ?_ g u
    unfold Db.upsertMember
    split <;> rfl

theorem updateMembers (hp : ∀ m, p m = true → m.userId = userId) (hset : ∀ m, (set m).key = m.key) :
    OnlyOwn userId db (db.updateMembers p set) := by
  refine fun g u hu => ⟨member_updateMembers_other (fun m _ => hset m) fun m hm => ?_, rfl⟩
  by_contra hpm
  exact hu ((isOf_eq.mp hm).2.symm.trans (hp m (by simpa using hpm)))

theorem deleteMembers (hp : ∀ m, p m = true → m.userId = userId) :
    OnlyOwn userId db (db.deleteMembers p) := by
  refine fun g u hu => ⟨member_deleteMembers_other fun m hm => ?_, rfl⟩
  by_contra hpm
  exact hu ((isOf_eq.mp hm).2.symm.trans (hp m (by simpa using hpm)))

theorem deleteClaims : OnlyOwn userId db (db.deleteClaims (ShipClaim.isOf groupId userId)) := by
  refine fun g u hu => ⟨rfl, claimsOf_deleteClaims_other fun c hc => ?_⟩
  have huser : c.userId = u := of_decide_eq_true (Bool.and_eq_true_iff.mp hc).2
  simpa [ShipClaim.isOf, huser] using fun _ => hu

theorem insertClaim {c : ShipClaim} (hc : c.userId = userId) :
    OnlyOwn userId db (db.insertClaim c) := by
  refine fun g u hu => ⟨member_of_members (members_insertClaim c db) g u,
    claimsOf_insertClaim_other ?_⟩
  simpa [ShipClaim.isOf, hc] using fun _ => Ne.symm hu

theorem release (m : Option Member) : OnlyOwn userId db (release m db) :=
  .of_same (members_release m db) (claims_release m db)

theorem claimWrites {claim : ShipClaim} {prev : Option Member} (hclaim : claim.userId = userId) :
    OnlyOwn userId db (claimWrites claim prev db) := by
  subst hclaim
  exact (deleteClaims.trans (insertClaim rfl)).trans (.release prev)

end OnlyOwn

/-! ## What users do for themselves -/

theorem claims_reserveAll (counts : List (String × ℕ)) (db : Db) :
    (reserveAll groupId counts db).claims = db.claims := by
  induction counts generalizing db with
  | nil => rfl
  | cons c counts ih =>
      rw [reserveAll, List.foldl_cons]
      exact ih _

theorem OnlyOwn.acceptUpsert : OnlyOwn userId db (acceptUpsert groupId userId db) :=
  .upsertMember rfl fun _ _ => rfl

section Self

variable {claimedShipId : Option ℕ} {seatLabel : Option String}

/-- What a role join changes; a refused one changes nothing. -/
theorem joinEventRole_rows :
    OnlyOwn userId db ((Request.joinEventRole orgId eventId groupId roleId userId claimedShipId
        seatLabel).serve db).2 ∧
      ∀ g, g ≠ groupId → ((Request.joinEventRole orgId eventId groupId roleId userId claimedShipId
        seatLabel).serve db).2.member g userId = db.member g userId := by
  rcases spec_joinEventRole.transaction db with
    ⟨r, seen, w, hseen, hjoined, hserve⟩ | ⟨e, -, -, -, -, hserve⟩
  · obtain ⟨d, hd, d', -, role, hrole, -, hw⟩ := hjoined.writes
    rw [Request.serve, hserve]
    rcases hw with ⟨seat, res, counts, -, rfl, -⟩ | rfl
    · refine ⟨((OnlyOwn.release _).trans (.of_same (members_reserveAll _ _)
        (claims_reserveAll _ _))).trans (.upsertMember rfl fun _ hkey => hkey.symm), fun g hg => ?_⟩
      rw [Function.comp_apply, member_upsertMember_other (fun _ hkey => hkey.symm)]
      · exact member_of_members ((members_reserveAll _ _).trans (members_release _ _)) g userId
      · exact fun hkey => hg (congrArg Prod.fst hkey).symm
    · refine ⟨(OnlyOwn.release _).trans (.upsertMember rfl fun _ hkey => hkey.symm), fun g hg => ?_⟩
      rw [Function.comp_apply, member_upsertMember_other (fun _ hkey => hkey.symm)]
      · exact member_of_members (members_release _ _) g userId
      · exact fun hkey => hg (congrArg Prod.fst hkey).symm
  · rw [Request.serve, hserve]
    exact ⟨.refl db, fun _ _ => rfl⟩

theorem claimShipSlot_rows {shipSlug : String} {userShipId slotIndex : Option ℕ} :
    OnlyOwn userId db ((Request.claimShipSlot orgId eventId groupId shipSlug userId userShipId
        slotIndex).serve db).2 ∧
      ∀ g, g ≠ groupId → ((Request.claimShipSlot orgId eventId groupId shipSlug userId userShipId
        slotIndex).serve db).2.member g userId = db.member g userId := by
  have hspec : Spec (Answered (SlotClaimed orgId eventId groupId shipSlug userId)) [] id
    (claimShipSlot orgId eventId groupId shipSlug userId userShipId slotIndex) := spec_claimShipSlot
  rcases hspec.transaction db with
    ⟨r, seen, w, hseen, hclaimed, hserve⟩ | ⟨e, -, -, -, -, hserve⟩
  · obtain ⟨claim, d, d', hd, hd', rfl, rfl, -, hw⟩ := hclaimed.writes
    rw [Request.serve, hserve]
    rcases hw with ⟨role, hrole, -, rfl⟩ | ⟨-, rfl⟩
    · refine ⟨(OnlyOwn.claimWrites rfl).trans (.upsertMember rfl fun _ _ => rfl), fun g hg => ?_⟩
      refine (member_upsertMember_other ?_ ?_).trans
        (member_of_members (members_claimWrites _ _ _) g _)
      · exact fun _ _ => rfl
      · exact fun hkey => hg (congrArg Prod.fst hkey).symm
    · exact ⟨.claimWrites rfl, fun g _ => member_of_members (members_claimWrites _ _ _) g _⟩
  · rw [Request.serve, hserve]
    exact ⟨.refl db, fun _ _ => rfl⟩

theorem quickJoinEvent_rows :
    OnlyOwn userId db ((Request.quickJoinEvent orgId eventId userId).serve db).2 := by
  obtain ⟨r, seen, w, hseen, hjoined | hrefused, hserve⟩ := spec_quickJoinEvent.autocommit db
  · rw [Request.serve, hserve]
    rcases hjoined.writes with rfl | ⟨-, ⟨d, hd, role, -, -, -, -, rfl⟩ | ⟨d, hd, group, -, -, rfl⟩⟩
    · exact .refl db
    · exact .upsertMember rfl fun _ _ => rfl
    · exact .acceptUpsert
  · rw [Request.serve, hserve, show w = id from hrefused]
    exact .refl db

theorem releaseShipSlot_rows :
    OnlyOwn userId db ((Request.releaseShipSlot groupId userId).serve db).2 := by
  rcases spec_releaseShipSlot.transaction db with
    ⟨r, seen, w, -, ⟨d, -, d', -, -, rfl⟩, hserve⟩ | ⟨e, -, -, -, -, hserve⟩
  · rw [Request.serve, hserve]
    refine OnlyOwn.deleteClaims.trans (.deleteMembers fun m hm => ?_)
    exact (isOf_eq.mp (Bool.and_eq_true_iff.mp hm).1).2
  · rw [Request.serve, hserve]
    exact .refl db

theorem decline_rows :
    OnlyOwn userId db ((Request.respondEventAssignment eventId userId false).serve db).2 := by
  have hrows : OnlyOwn userId db
      (db.updateMembers (fun m => m.userId = userId && db.inEvent eventId m)
        fun m => { m with status := .declined }) := by
    refine .updateMembers (fun m hm => ?_) fun _ => rfl
    exact of_decide_eq_true (Bool.and_eq_true_iff.mp hm).1
  exact hrows.trans (.of_same (serve_decline db eventId userId).2 (serve_decline db eventId userId).1)

end Self

/-! ## When a self-join is let through -/

theorem exec_require (c : Bool) (e : Response) (db : Db) :
    Program.exec (require c e : Handler Db Response Unit).run db =
      if c then (.ok (), db) else (.error e, db) := by
  cases c <;> rfl

theorem exec_requireHull (db : Db) (groupId : ℕ) (role : Role) (seatLabel : Option String) :
    ∃ e, Program.exec (requireHull groupId role seatLabel).run db =
      if db.hullClaimed groupId role seatLabel then (.ok (), db) else (.error e, db) := by
  unfold requireHull Db.hullClaimed
  rw [exec_select_bind]
  by_cases hcomp : db.compSlugs groupId = []
  · exact ⟨forbidden, by simp [hcomp]⟩
  · rw [if_neg hcomp, exec_require_bind]
    by_cases hpilot : isPilotRole role.name = true
    · exact ⟨_, by simp [hcomp, hpilot]; rfl⟩
    · rw [if_pos (by simpa using hpilot), exec_select_bind, exec_select_bind, exec_require]
      exact ⟨_, by simp [hcomp, hpilot]; rfl⟩

theorem exec_chooseSeat (db : Db) (roleId userId : ℕ) (seatLabels : List String)
    (seatLabel : Option String) :
    ∃ e seat, Program.exec (chooseSeat roleId userId seatLabels seatLabel).run db =
      if db.seatFree roleId userId seatLabels seatLabel then (.ok seat, db) else (.error e, db) := by
  unfold chooseSeat Db.seatFree
  by_cases hmany : 1 < seatLabels.length
  · rw [if_pos hmany, exec_found_bind]
    cases seatLabel with
    | none => exact ⟨_, none, by simp [hmany]; rfl⟩
    | some label =>
        simp only [exec_require_bind, exec_select_bind]
        by_cases hlabel : label ∈ seatLabels
        · exact ⟨reply 409 "That seat is already taken.", some label, by simp [hmany, hlabel]⟩
        · exact ⟨reply 400 "Invalid seat for this role.", none, by simp [hlabel, hmany]⟩
  · exact ⟨forbidden, firstLabel seatLabels, by simp [hmany]⟩

theorem exec_reserveSeats {shipId : ℕ} (counts : List (String × ℕ)) (r : Reservation) (db : Db) :
    ∃ r' db', Program.exec (reserveSeats groupId shipId counts r).run db = (.ok r', db') := by
  induction counts generalizing r db with
  | nil => exact ⟨r, db, rfl⟩
  | cons c counts ih =>
      unfold reserveSeats
      rw [exec_updateReturning_bind]
      exact ih _ _

theorem exec_reserveFor (claimedShipId : Option ℕ) (db : Db) :
    ∃ r db', Program.exec (reserveFor groupId userId claimedShipId).run db = (.ok r, db') := by
  unfold reserveFor
  cases claimedShipId with
  | none => exact ⟨_, db, rfl⟩
  | some shipId =>
      rw [exec_select_bind]
      cases db.userShip shipId userId with
      | none => exact ⟨_, db, rfl⟩
      | some ship =>
          simp only [exec_select_bind]
          split
          · rw [exec_select_bind]
            exact exec_reserveSeats _ _ _
          · exact ⟨_, db, rfl⟩

theorem answers_joinWithRole (role : Role) (claimedShipId : Option ℕ) (seatLabel : Option String)
    (db : Db) :
    (joinWithRole groupId userId role claimedShipId seatLabel).answers db =
      db.seatFree role.id userId role.seatLabels seatLabel := by
  unfold joinWithRole
  obtain ⟨e, seat, hseat⟩ := exec_chooseSeat db role.id userId role.seatLabels seatLabel
  cases hfree : db.seatFree role.id userId role.seatLabels seatLabel with
  | false =>
      rw [hfree] at hseat
      exact answers_bind_error hseat
  | true =>
      rw [hfree, if_pos rfl] at hseat
      rw [answers_bind hseat]
      obtain ⟨r, db', hr⟩ : ∃ r db', Program.exec (reserveFor groupId userId claimedShipId).run db =
        (.ok r, db') := exec_reserveFor claimedShipId db
      rw [answers_bind hr]
      rfl

theorem answers_joinWithoutRole (roleName : String) (db : Db) :
    (joinWithoutRole groupId userId roleName).answers db = db.hasRoom groupId := by
  unfold joinWithoutRole
  rw [answers_select_bind, answers_require_bind, answers_update_bind, answers_pure, Bool.and_true,
    Db.hasRoom, Option.all_map]

theorem seatFree_release (prev : Option Member) (db : Db) (roleId userId : ℕ)
    (seatLabels : List String) (seatLabel : Option String) :
    (release prev db).seatFree roleId userId seatLabels seatLabel =
      db.seatFree roleId userId seatLabels seatLabel := by
  rw [Db.seatFree, Db.seatFree, members_release]

theorem hasRoom_release (prev : Option Member) (db : Db) (groupId : ℕ) :
    (release prev db).hasRoom groupId = db.hasRoom groupId := by
  rw [Db.hasRoom, Db.hasRoom, Db.group, Db.group, groups_release, Db.filled, Db.filled,
    members_release]

theorem answers_joinEventRole (claimedShipId : Option ℕ) (bodySeatLabel : Option String) (db : Db) :
    (joinEventRole orgId eventId groupId roleId userId claimedShipId bodySeatLabel).answers db =
      db.takesRole orgId eventId groupId roleId userId bodySeatLabel := by
  unfold joinEventRole Db.takesRole Db.admits
  simp only [answers_select_bind, answers_found_bind, answers_require_bind, Option.any_map]
  have hrest : ∀ role : Role, (requireHull groupId role (seatLabelOf bodySeatLabel) >>= fun _ => do
      let prev ← select fun db => db.member groupId userId
      update (release prev)
      if db.filledSlotsIn groupId roleId + role.reservedSlots < role.maxSlots then
        joinWithRole groupId userId role claimedShipId (seatLabelOf bodySeatLabel)
      else joinWithoutRole groupId userId role.name).answers db =
      (db.hullClaimed groupId role (seatLabelOf bodySeatLabel) &&
        if db.filledSlotsIn groupId roleId + role.reservedSlots < role.maxSlots then
          db.seatFree role.id userId role.seatLabels (seatLabelOf bodySeatLabel)
        else db.hasRoom groupId) := by
    intro role
    obtain ⟨e, hhull⟩ := exec_requireHull db groupId role (seatLabelOf bodySeatLabel)
    cases hclaimed : db.hullClaimed groupId role (seatLabelOf bodySeatLabel) with
    | false =>
        rw [hclaimed] at hhull
        rw [answers_bind_error hhull]
        rfl
    | true =>
        rw [hclaimed, if_pos rfl] at hhull
        rw [answers_bind hhull, answers_select_bind, answers_update_bind, Bool.true_and]
        split
        · rw [answers_joinWithRole, seatFree_release]
        · rw [answers_joinWithoutRole, hasRoom_release]
  cases db.event eventId orgId with
  | none => rfl
  | some ev =>
      rw [Option.any_some, Option.any_some, Bool.and_assoc]
      congr 2
      cases db.role roleId groupId with
      | none => rfl
      | some role =>
          rw [Option.any_some, Option.any_some, ← hrest role]

variable {shipSlug : String} {userShipId slotIndex : Option ℕ}

theorem answers_claimShipSlot (db : Db) :
    (claimShipSlot orgId eventId groupId shipSlug userId userShipId slotIndex).answers db =
      db.claimsSlot orgId eventId groupId shipSlug userId userShipId slotIndex := by
  unfold claimShipSlot Db.claimsSlot Db.admits
  simp only [answers_select_bind, answers_found_bind, answers_require_bind, answers_update_bind,
    answers_updateReturning_bind]
  cases userShipId with
  | none => rfl
  | some shipId =>
      cases slotIndex with
      | none => rfl
      | some slotIndex =>
          simp only [Option.any_some]
          cases db.event eventId orgId with
          | none => rfl
          | some ev =>
              simp only [Option.any_some, Bool.and_assoc]
              congr 3
              funext ship
              congr 2
              -- The member row does not matter for the answer.
              refine (congrArg _ ?_).trans (Bool.and_true _)
              split
              · split <;> rfl
              · rfl

/-- What matters of the role for whoever brings a hull stays as reservations come and go. -/
theorem pilotRole_mapRoles {f : Role → Role}
    (hf : ∀ r, (f r).id = r.id ∧ (f r).groupId = r.groupId ∧ (f r).name = r.name ∧
      (f r).maxSlots = r.maxSlots) :
    pilotRole { db with roles := db.roles.map f } groupId = (pilotRole db groupId).map f := by
  have hfind : ∀ name, (db.roles.map f).find? (fun r => r.groupId = groupId && r.name = name) =
      (db.roles.find? fun r => r.groupId = groupId && r.name = name).map f := by
    intro name
    rw [List.find?_map]
    congr 2
    funext r
    simp [hf]
  unfold pilotRole
  rw [hfind, hfind, Option.map_or]

theorem pilotSeat_release (prev : Option Member) : (release prev db).pilotSeat groupId =
    db.pilotSeat groupId := by
  unfold release
  split
  · rfl
  · split
    · split
      · unfold Db.pilotSeat Db.releaseSlots
        rw [pilotRole_mapRoles, Option.any_map]
        · congr 1
          funext r
          split <;> rfl
        · intro r
          split <;> exact ⟨rfl, rfl, rfl, rfl⟩
      · rfl
    · rfl

theorem pilotSeat_claimWrites (claim : ShipClaim) (prev : Option Member) :
    (claimWrites claim prev db).pilotSeat groupId = db.pilotSeat groupId := by
  rw [claimWrites, pilotSeat_release, Db.insertClaim]
  split <;> rfl

/-- Claiming a slot adds a user to the group exactly if the claim is let through and the pilot's
role has room. -/
theorem claimShipSlot_adds (hnone : db.member groupId userId = none) :
    (((Request.claimShipSlot orgId eventId groupId shipSlug userId userShipId
      slotIndex).serve db).2.member groupId userId).isSome =
      (db.claimsSlot orgId eventId groupId shipSlug userId userShipId slotIndex &&
        db.pilotSeat groupId) := by
  rw [← answers_claimShipSlot]
  have hspec : Spec (Answered (SlotClaimed orgId eventId groupId shipSlug userId)) [] id
    (claimShipSlot orgId eventId groupId shipSlug userId userShipId slotIndex) := spec_claimShipSlot
  cases hanswers : (claimShipSlot orgId eventId groupId shipSlug userId userShipId
      slotIndex).answers db with
  | false =>
      rw [Request.serve, transaction_snd_of_not_answers hanswers, hnone]
      rfl
  | true =>
      obtain ⟨r, seen, w, hseen, hclaimed, hserve⟩ := hspec.answered hanswers
      obtain ⟨claim, d, d', hd, hd', rfl, rfl, -, hw⟩ := hclaimed.writes
      rw [Request.serve, hserve, Bool.true_and,
        ← pilotSeat_claimWrites claim (d.member claim.groupId claim.userId)]
      obtain rfl := hseen d' hd'
      rcases hw with ⟨role, hrole, hfree, rfl⟩ | ⟨hfull, rfl⟩
      · rw [Function.comp_apply, Db.pilotSeat, hrole, Option.any_some, filledSlotsIn_claimWrites,
          decide_eq_true hfree]
        exact member_upsertMember_self fun _ _ => rfl
      · rw [member_of_members (members_claimWrites _ _ _), hnone, Db.pilotSeat]
        cases hrole : pilotRole (claimWrites claim (d.member claim.groupId claim.userId) d')
            claim.groupId with
        | none => rfl
        | some role =>
            have hle := hfull role hrole
            rw [Option.any_some, filledSlotsIn_claimWrites]
            simpa using hle

/-- Joining a role adds a user to the group exactly if the checks let it through. -/
theorem joinEventRole_adds {claimedShipId : Option ℕ} {seatLabel : Option String}
    (hnone : db.member groupId userId = none) :
    (((Request.joinEventRole orgId eventId groupId roleId userId claimedShipId
      seatLabel).serve db).2.member groupId userId).isSome =
      db.takesRole orgId eventId groupId roleId userId seatLabel := by
  rw [← answers_joinEventRole claimedShipId]
  cases hanswers : (joinEventRole orgId eventId groupId roleId userId claimedShipId
      seatLabel).answers db with
  | false =>
      rw [Request.serve, transaction_snd_of_not_answers hanswers, hnone]
      rfl
  | true =>
      obtain ⟨r, seen, w, hseen, hjoined, hserve⟩ := spec_joinEventRole.answered hanswers
      obtain ⟨d, hd, d', -, role, hrole, -, hw⟩ := hjoined.writes
      rw [Request.serve, hserve]
      rcases hw with ⟨seat, res, counts, -, rfl, -⟩ | rfl
      · exact member_upsertMember_self fun _ hkey => hkey.symm
      · exact member_upsertMember_self fun _ hkey => hkey.symm

/-- The row that a quick signup writes. -/
def quickWrite (db : Db) (eventId userId : ℕ) : Db :=
  match (openRoles db eventId).find? fun r => r.2 < r.1.maxSlots with
  | some (role, _) => quickUpsert userId role db
  | none =>
      match ((db.groups.filter fun g => g.eventId = eventId).map fun g => (g, db.filled g.id)).find?
        fun g => g.1.maxMembers = 0 || g.2 < g.1.maxMembers with
      | some (group, _) => acceptUpsert group.id userId db
      | none => db

theorem serve_quickJoinEvent (db : Db) (orgId eventId userId : ℕ) :
    ((Request.quickJoinEvent orgId eventId userId).serve db).2 =
      if ((db.event eventId orgId).any fun ev => ev.accessMode = .open) &&
        !(db.members.any fun m => db.inEvent eventId m && m.userId = userId) then
        quickWrite db eventId userId
      else db := by
  rw [Request.serve, autocommit_snd, quickJoinEvent]
  simp only [exec_select_bind, exec_found_bind, exec_require_bind]
  split
  · rename_i ev hev
    rw [hev, Option.any_some]
    by_cases hopen : ev.accessMode = .open
    · by_cases halready : (db.members.any fun m => db.inEvent eventId m && m.userId = userId) = true
      · simp [hopen, halready]
      · simp only [hopen, halready, decide_true, if_true, Bool.not_false, Bool.and_self,
          Bool.false_eq_true, if_false, exec_select_bind]
        unfold quickWrite
        cases hfind : (openRoles db eventId).find? fun r => r.2 < r.1.maxSlots with
        | some found =>
            obtain ⟨role, filled⟩ := found
            rw [exec_update_bind]
            rfl
        | none =>
            dsimp only
            rw [exec_select_bind, exec_found_bind]
            cases hgroup : ((db.groups.filter fun g => g.eventId = eventId).map fun g =>
                (g, db.filled g.id)).find? fun g => g.1.maxMembers = 0 || g.2 < g.1.maxMembers with
            | some found =>
                obtain ⟨group, filled⟩ := found
                dsimp only
                rw [exec_update_bind]
                rfl
            | none => rfl
    · simp [hopen]
  · rename_i hev
    rw [hev]
    rfl

theorem mem_group_of_find {p : Group × ℕ → Bool} {group : Group} {filled : ℕ}
    (h : ((db.groups.filter fun g => g.eventId = eventId).map fun g => (g, db.filled g.id)).find? p =
      some (group, filled)) : db.groupOfEvent group.id eventId = true := by
  obtain ⟨g, hg, hpair⟩ := List.mem_map.mp (List.mem_of_find?_eq_some h)
  obtain ⟨rfl, -⟩ := Prod.mk.inj hpair
  obtain ⟨hg, hevent⟩ := List.mem_filter.mp hg
  exact groupOfEvent_iff.mpr ⟨g, hg, rfl, of_decide_eq_true hevent⟩

/-- Whoever is added by a quick signup was let through, and is added to a group of the event. -/
theorem quickJoinEvent_adds (hnone : db.member g userId = none)
    (hadded : (((Request.quickJoinEvent orgId eventId userId).serve db).2.member g userId).isSome = true) :
    db.groupOfEvent g eventId = true ∧ db.quickJoins orgId eventId userId = true := by
  rw [serve_quickJoinEvent] at hadded
  unfold Db.quickJoins
  split at hadded
  · rename_i hopen
    rw [hopen, Bool.true_and]
    unfold quickWrite at hadded
    split at hadded
    · rename_i role filled hfind
      have hmem := List.mem_of_find?_eq_some hfind
      have hrole : role.groupId = g := by
        by_contra hother
        rw [quickUpsert, member_upsertMember_other, hnone] at hadded
        · cases hadded
        · exact fun _ _ => rfl
        · exact fun hkey => hother (congrArg Prod.fst hkey)
      refine ⟨hrole ▸ (mem_openRoles hmem).2.1, ?_⟩
      rw [List.any_eq_true.mpr ⟨_, hmem, List.find?_some hfind⟩, Bool.true_or]
    · rename_i hfull
      split at hadded
      · rename_i group filled hfind
        have hgroup : group.id = g := by
          by_contra hother
          rw [acceptUpsert, member_upsertMember_other, hnone] at hadded
          · cases hadded
          · exact fun _ _ => rfl
          · exact fun hkey => hother (congrArg Prod.fst hkey)
        refine ⟨hgroup ▸ mem_group_of_find hfind, ?_⟩
        obtain ⟨g', hg', hpair⟩ := List.mem_map.mp (List.mem_of_find?_eq_some hfind)
        obtain ⟨rfl, rfl⟩ := Prod.mk.inj hpair
        obtain ⟨hg', hevent⟩ := List.mem_filter.mp hg'
        have hroom := List.find?_some hfind
        rw [Bool.or_eq_true]
        right
        exact List.any_eq_true.mpr ⟨_, hg', by rw [hevent, Bool.true_and]; exact hroom⟩
      · rw [hnone] at hadded
        cases hadded
  · rw [hnone] at hadded
    cases hadded

/-- A quick signup that is let through adds the user to some group. -/
theorem quickJoinEvent_adds_some (h : db.quickJoins orgId eventId userId = true) :
    ∃ g, db.member g userId = none ∧
      (((Request.quickJoinEvent orgId eventId userId).serve db).2.member g userId).isSome = true := by
  unfold Db.quickJoins at h
  rw [Bool.and_eq_true] at h
  obtain ⟨hopen, hroom⟩ := h
  have hnone : ∀ g, db.groupOfEvent g eventId = true → db.member g userId = none := by
    intro g hg
    rw [Db.member, List.find?_eq_none]
    intro m hm hof
    have hno := (Bool.and_eq_true_iff.mp hopen).2
    rw [Bool.not_eq_true', List.any_eq_false] at hno
    refine hno m hm ?_
    rw [inEvent_of_isOf hof, hg, (isOf_eq.mp hof).2]
    simp
  rw [serve_quickJoinEvent, if_pos hopen]
  unfold quickWrite
  split
  · rename_i role filled hfind
    refine ⟨role.groupId, hnone _ (mem_openRoles (List.mem_of_find?_eq_some hfind)).2.1, ?_⟩
    exact member_upsertMember_self fun _ _ => rfl
  · rename_i hfull
    split
    · rename_i group filled hfind
      refine ⟨group.id, hnone _ (mem_group_of_find hfind), ?_⟩
      exact member_upsertMember_self fun _ _ => rfl
    · rename_i hgroups
      exfalso
      rw [Bool.or_eq_true] at hroom
      rcases hroom with hroom | hroom
      · obtain ⟨r, hr, hfree⟩ := List.any_eq_true.mp hroom
        exact List.find?_eq_none.mp hfull r hr hfree
      · obtain ⟨g, hg, hfree⟩ := List.any_eq_true.mp hroom
        rw [Bool.and_eq_true] at hfree
        refine List.find?_eq_none.mp hgroups (g, db.filled g.id) ?_ hfree.2
        exact List.mem_map.mpr ⟨g, List.mem_filter.mpr ⟨hg, hfree.1⟩, rfl⟩

/-! ## Saves -/

/-- The rows of a group are as they were. -/
def RowsKept (groupId : ℕ) (db db' : Db) : Prop :=
  ∀ u, db'.member groupId u = db.member groupId u ∧ db'.claimsOf groupId u = db.claimsOf groupId u

/-- The group is of another event. -/
def Db.elsewhere (db : Db) (groupId eventId : ℕ) : Prop :=
  (∃ g ∈ db.groups, g.id = groupId) ∧ db.groupOfEvent groupId eventId = false

theorem elsewhere_ne (h : db.elsewhere g eventId)
    (hgroup : db.groupOfEvent groupId eventId = true) : groupId ≠ g := by
  rintro rfl
  rw [h.2] at hgroup
  cases hgroup

/-- A write to the plan of an event leaves the groups of others where they are. -/
theorem PlanWrite.elsewhere (hkeyed : Keyed db) (h : db.elsewhere g eventId)
    (hwrite : PlanWrite eventId db db') : db'.elsewhere g eventId := by
  have hsame : db'.groups = db.groups → db'.elsewhere g eventId := by
    intro hgroups
    rw [Db.elsewhere, Db.groupOfEvent, hgroups]
    exact h
  obtain ⟨⟨g', hg', hid⟩, hno⟩ := h
  cases hwrite with
  | outside hgroups hroles hmembers hclaims hnextId => exact hsame hgroups
  | @mapGroups f hf =>
      exact ⟨⟨f g', List.mem_map_of_mem hg', (hf g').1.trans hid⟩, by rw [groupOfEvent_mapGroups hf, hno]⟩
  | insertGroup hg =>
      refine ⟨⟨g', List.mem_append_left _ hg', hid⟩, ?_⟩
      have hfresh : db.nextId ≠ g := by
        rw [← hid]
        exact (Nat.ne_of_lt (hkeyed.groupsFresh g' hg')).symm
      rw [Db.groupOfEvent] at hno ⊢
      simp only [Db.insertGroup, List.any_append, hno]
      simp [hfresh]
  | @deleteGroups ids hids =>
      have hkept : g ∉ ids := by
        intro hg
        rw [hids g hg] at hno
        cases hno
      refine ⟨⟨_, List.mem_map.mpr ⟨g', List.mem_filter.mpr ⟨hg', ?_⟩, rfl⟩, hid⟩, ?_⟩
      · simpa [hid] using hkept
      · rw [← Bool.not_eq_true, groupOfEvent_iff] at hno ⊢
        rintro ⟨g'', hg'', hid'', hevent⟩
        obtain ⟨g₀, hg₀, rfl⟩ := List.mem_map.mp hg''
        exact hno ⟨g₀, (List.mem_filter.mp hg₀).1, hid'', hevent⟩
  | pruneClaims hgroup hp => exact hsame rfl
  | pruneMembers hgroup hp => exact hsame rfl
  | mapRoles hf => exact hsame rfl
  | insertRole hgroup hr => exact hsame rfl
  | clearRole hgroup hrole hp => exact hsame rfl
  | @upsert m set hgroup hm hset hrole =>
      refine hsame ?_
      unfold Db.upsertMember
      split <;> rfl
  | deleteRoles hgroup hids => exact hsame rfl

/-- Rows that a write maps, where the group's own are left. -/
theorem rowsKept_of_map (hmembers : db'.members = (db.members.filter p).map f)
    (hf : ∀ m, (f m).key = m.key) (hp : ∀ m ∈ db.members, m.groupId = g → p m = true ∧ f m = m)
    (hclaims : ∀ u, db'.claimsOf g u = db.claimsOf g u) : RowsKept g db db' := by
  refine fun u => ⟨?_, hclaims u⟩
  have hfilter : (db.deleteMembers fun m => !p m).member g u = db.member g u := by
    unfold Db.member Db.deleteMembers
    rw [List.find?_filter]
    refine List.find?_congr fun m hm => ?_
    cases hof : m.isOf g u with
    | true => simp [(hp m hm (isOf_eq.mp hof).1).1]
    | false => simp
  have hmap : db'.member g u = ((db.deleteMembers fun m => !p m).member g u).map f := by
    refine member_mapMembers hf ?_
    simp [hmembers, Db.deleteMembers]
  rw [hmap, hfilter]
  refine Option.map_eq_self fun m hm => ?_
  exact (hp m (List.mem_of_find?_eq_some hm) (isOf_eq.mp (List.find?_some hm)).1).2

theorem filter_eq_self_of_some {p : ℕ → Bool} {a : Option ℕ} (h : ∀ id, a = some id → p id = true) :
    a.filter p = a := by
  cases a with
  | none => rfl
  | some id => simp [h id rfl]

/-- A write to the plan of an event keeps the rows of the groups of others. -/
theorem PlanWrite.rowsKept (h : Linked db) (helse : db.elsewhere g eventId)
    (hwrite : PlanWrite eventId db db') : RowsKept g db db' := by
  have hrole : ∀ groupId roleId, db.groupOfEvent groupId eventId = true →
      db.hasRole groupId roleId → ∀ m ∈ db.members, m.groupId = g → m.roleId ≠ some roleId := by
    intro groupId roleId hgroup hrole m hm hg hid
    obtain ⟨r, hr, hrid, hrgroup⟩ := h.memberRole m hm roleId hid
    have hgroup' := h.toKeyed.role_group hrole hr hrid
    exact elsewhere_ne helse hgroup (hgroup'.symm.trans (hrgroup.trans hg))
  cases hwrite with
  | outside hgroups hroles hmembers hclaims hnextId =>
      exact fun u => ⟨member_of_members hmembers g u, claimsOf_of_claims hclaims g u⟩
  | mapGroups hf => exact fun u => ⟨rfl, rfl⟩
  | insertGroup hg => exact fun u => ⟨rfl, rfl⟩
  | @deleteGroups ids hids =>
      have hkept : g ∉ ids := by
        intro hg
        exact elsewhere_ne helse (hids g hg) rfl
      refine rowsKept_of_map rfl (fun _ => rfl) (fun m hm hg => ⟨?_, ?_⟩) fun u => ?_
      · simpa [hg] using hkept
      · have hfilter : m.roleId.filter (fun id =>
            !(db.roles.any fun r => decide (r.groupId ∈ ids) && decide (r.id = id))) = m.roleId := by
          refine filter_eq_self_of_some fun id hid => ?_
          rw [Bool.not_eq_true', List.any_eq_false]
          intro r hr hgone
          simp only [Bool.and_eq_true, decide_eq_true_eq] at hgone
          have hgroup := h.toKeyed.role_group (h.memberRole m hm id hid) hr hgone.2
          exact hkept (hg ▸ hgroup ▸ hgone.1)
        rw [hfilter]
      · unfold Db.claimsOf Db.deleteGroups
        rw [List.filter_filter]
        refine List.filter_congr fun c _ => ?_
        cases hc : c.isOf g u with
        | true =>
            have hcg : c.groupId = g := of_decide_eq_true (Bool.and_eq_true_iff.mp hc).1
            simp [hcg, hkept]
        | false => simp
  | @pruneClaims groupId p hgroup hp =>
      refine fun u => ⟨rfl, claimsOf_deleteClaims_other fun c hc => ?_⟩
      by_contra hpc
      have hcg : c.groupId = g := of_decide_eq_true (Bool.and_eq_true_iff.mp hc).1
      exact elsewhere_ne helse hgroup ((hp c (by simpa using hpc)).symm.trans hcg)
  | @pruneMembers groupId p hgroup hp =>
      refine fun u => ⟨member_deleteMembers_other fun m hm => ?_, rfl⟩
      by_contra hpm
      exact elsewhere_ne helse hgroup ((hp m (by simpa using hpm)).symm.trans (isOf_eq.mp hm).1)
  | mapRoles hf => exact fun u => ⟨rfl, rfl⟩
  | insertRole hgroup hr => exact fun u => ⟨rfl, rfl⟩
  | @clearRole groupId roleId p hgroup hrid hp =>
      refine rowsKept_of_map (f := id) (List.map_id _).symm (fun _ => rfl)
        (fun m hm hg => ⟨?_, rfl⟩) fun _ => rfl
      rw [Bool.not_eq_true']
      by_contra hpm
      exact hrole groupId roleId hgroup hrid m hm hg (hp m (by simpa using hpm))
  | @upsert m set hgroup hm hset hrid =>
      refine fun u => ⟨member_upsertMember_other (fun m₀ _ => (hset m₀).1) fun hkey => ?_, ?_⟩
      · exact elsewhere_ne helse hgroup (congrArg Prod.fst hkey)
      · refine claimsOf_of_claims ?_ g u
        unfold Db.upsertMember
        split <;> rfl
  | @deleteRoles groupId ids hgroup hids =>
      refine rowsKept_of_map (p := fun _ => true)
        (f := fun m => { m with roleId := m.roleId.filter fun id => !decide (id ∈ ids) })
        (by rw [List.filter_true]; rfl) (fun _ => rfl) (fun m hm hg => ⟨rfl, ?_⟩) fun _ => rfl
      have hfilter : m.roleId.filter (fun id => !decide (id ∈ ids)) = m.roleId := by
        refine filter_eq_self_of_some fun id hid => ?_
        rw [Bool.not_eq_true', decide_eq_false_iff_not]
        intro hmem
        exact hrole groupId id hgroup (hids id hmem) m hm hg hid
      change { m with roleId := m.roleId.filter fun id => !decide (id ∈ ids) } = m
      rw [hfilter]

theorem PlanWrite.rowsKept_chain (h : Linked db) (helse : db.elsewhere g eventId)
    (hwrites : ReflTransGen (PlanWrite eventId) db db') : RowsKept g db db' := by
  have hall : RowsKept g db db' ∧ Linked db' ∧ db'.elsewhere g eventId := by
    induction hwrites with
    | refl => exact ⟨fun u => ⟨rfl, rfl⟩, h, helse⟩
    | tail _ hwrite ih =>
        obtain ⟨hkept, hlinked, helse'⟩ := ih
        have hkept' := hwrite.rowsKept hlinked helse'
        exact ⟨fun u => ⟨(hkept' u).1.trans (hkept u).1, (hkept' u).2.trans (hkept u).2⟩,
          hwrite.linked hlinked, hwrite.elsewhere hlinked.toKeyed helse'⟩
  exact hall.1

/-! ## When a request stays in scope -/

variable {r : Request}

theorem scoped_of_onlyOwn (h : OnlyOwn r.requester db db')
    (hjoins : ∀ orgId eventId, r.checked = some (orgId, eventId) → ∀ groupId, db.member groupId r.requester = none → (db'.member groupId r.requester).isSome = true → db.groupOfEvent groupId eventId = true ∧ db.admits orgId eventId r.requester = true) :
    Scoped db r db' :=
  ⟨fun g _ u hu => h g u hu, hjoins⟩

theorem scoped_of_own (h : OnlyOwn r.requester db db') (hr : r.checked = none) : Scoped db r db' :=
  scoped_of_onlyOwn h fun _ _ hchecked => by rw [hr] at hchecked; cases hchecked

/-- A planner's request on one group is in scope exactly if the group is not foreign, or the rows
of others in it are kept. -/
theorem scoped_planner_iff (groupId : ℕ) (hr : r.checked = none)
    (hother : ∀ g u, g ≠ groupId → db'.member g u = db.member g u)
    (hclaims : db'.claims = db.claims) :
    Scoped db r db' ↔ (db.foreign r.requester groupId = true →
      ∀ u, u ≠ r.requester → db'.member groupId u = db.member groupId u) := by
  constructor
  · exact fun h hforeign u hu => (h.others groupId hforeign u hu).1
  · intro h
    refine ⟨fun g hforeign u hu => ⟨?_, claimsOf_of_claims hclaims g u⟩, fun _ _ hchecked => ?_⟩
    · by_cases hg : g = groupId
      · subst hg
        exact h hforeign u hu
      · exact hother g u hg
    · rw [hr] at hchecked
      cases hchecked

theorem foreign_elsewhere (hforeign : db.foreign requesterId g = true)
    (hmanages : db.canManageThisEvent requesterId orgId eventId = true)
    (hevent : ∃ ev, db.event eventId orgId = some ev) : db.elsewhere g eventId := by
  obtain ⟨hexists, hno⟩ := Bool.and_eq_true_iff.mp hforeign
  obtain ⟨g', hg', hid⟩ := List.any_eq_true.mp hexists
  refine ⟨⟨g', hg', of_decide_eq_true hid⟩, ?_⟩
  by_contra hgroup
  rw [Bool.not_eq_false, groupOfEvent_iff] at hgroup
  obtain ⟨g₀, hg₀, hid₀, hevent₀⟩ := hgroup
  obtain ⟨ev, hev⟩ := hevent
  have hp := List.find?_some hev
  rw [Bool.and_eq_true, decide_eq_true_eq, decide_eq_true_eq] at hp
  have hmanaged : db.managesGroup requesterId g = true := by
    refine List.any_eq_true.mpr ⟨g₀, hg₀, ?_⟩
    rw [Bool.and_eq_true]
    refine ⟨decide_eq_true hid₀, List.any_eq_true.mpr ⟨ev, List.mem_of_find?_eq_some hev, ?_⟩⟩
    rw [hp.1, hp.2, hmanages, hevent₀]
    simp
  rw [hmanaged] at hno
  cases hno

/-- A signup for a group of the URL is in scope exactly if the group is of the event, unless it
adds nobody. -/
theorem scoped_join_iff (hchecked : r.checked = some (orgId, eventId))
    (hown : OnlyOwn r.requester db db')
    (hother : ∀ g, g ≠ groupId → db'.member g r.requester = db.member g r.requester) {adds : Bool}
    (hadds : db.member groupId r.requester = none → (db'.member groupId r.requester).isSome = adds)
    (hadmits : adds = true → db.admits orgId eventId r.requester = true) :
    Scoped db r db' ↔ (db.groupOfEvent groupId eventId ||
      (db.member groupId r.requester).isSome || !adds) = true := by
  constructor
  · intro h
    cases hm : db.member groupId r.requester with
    | some m => simp
    | none =>
        cases adds with
        | false => simp
        | true => simp [(h.joins orgId eventId hchecked groupId hm (hadds hm)).1]
  · intro hcond
    refine scoped_of_onlyOwn hown fun orgId' eventId' hchecked' g hnone hsome => ?_
    rw [hchecked] at hchecked'
    obtain ⟨rfl, rfl⟩ := Prod.mk.inj (Option.some.inj hchecked')
    by_cases hg : g = groupId
    · subst hg
      have hadded : adds = true := by rw [← hadds hnone, hsome]
      rw [hnone, hadded] at hcond
      exact ⟨by simpa using hcond, hadmits hadded⟩
    · rw [hother g hg, hnone] at hsome
      cases hsome

theorem scoped_quickJoinEvent_iff :
    Scoped db (.quickJoinEvent orgId eventId userId)
        ((Request.quickJoinEvent orgId eventId userId).serve db).2 ↔
      (db.isOrgMember orgId userId || !db.quickJoins orgId eventId userId) = true := by
  constructor
  · intro h
    cases hjoins : db.quickJoins orgId eventId userId with
    | false => simp
    | true =>
        obtain ⟨g, hnone, hsome⟩ := quickJoinEvent_adds_some hjoins
        have hadmits := (h.joins orgId eventId rfl g hnone hsome).2
        have hmember : db.isOrgMember orgId userId = true := (Bool.and_eq_true_iff.mp hadmits).2
        simp [hmember]
  · intro hcond
    refine scoped_of_onlyOwn quickJoinEvent_rows fun orgId' eventId' hchecked g hnone hsome => ?_
    obtain ⟨rfl, rfl⟩ := Prod.mk.inj (Option.some.inj hchecked)
    obtain ⟨hgroup, hjoins⟩ := quickJoinEvent_adds hnone hsome
    have hjoins : db.quickJoins orgId eventId userId = true := hjoins
    rw [hjoins] at hcond
    have hmember : db.isOrgMember orgId userId = true := by simpa using hcond
    have hopen : ((db.event eventId orgId).any fun ev => decide (ev.accessMode = .open)) = true := by
      unfold Db.quickJoins at hjoins
      exact (Bool.and_eq_true_iff.mp (Bool.and_eq_true_iff.mp hjoins).1).1
    exact ⟨hgroup, Bool.and_eq_true_iff.mpr ⟨hopen, hmember⟩⟩

/-- An update that accepts the rows meeting `p` changes no row of others exactly if theirs are
accepted. -/
theorem updateMembers_others_iff (h : Keyed db) :
    (∀ u, u ≠ requesterId → (db.updateMembers p fun m => { m with status := .accepted }).member
        groupId u = db.member groupId u) ↔
      ∀ m ∈ db.members, m.groupId = groupId → m.userId ≠ requesterId → p m = true →
        m.status = .accepted := by
  have hmember : ∀ u, (db.updateMembers p fun m => { m with status := .accepted }).member groupId u =
      (db.member groupId u).map fun m => if p m then { m with status := .accepted } else m :=
    fun u => member_updateMembers fun _ => ⟨rfl, rfl⟩
  constructor
  · intro hkept m hm hg hu hp
    have hsome : db.member groupId m.userId = some m :=
      member_eq_some h hm (isOf_eq.mpr ⟨hg, rfl⟩)
    have heq := hkept m.userId hu
    rw [hmember, hsome, Option.map_some, if_pos hp] at heq
    rw [← Option.some.inj heq]
  · intro haccepted u hu
    rw [hmember]
    refine Option.map_eq_self fun m hm => ?_
    have hof : m.isOf groupId u = true := List.find?_some hm
    split
    · rename_i hp
      have hstatus := haccepted m (List.mem_of_find?_eq_some hm) (isOf_eq.mp hof).1
        (by rwa [(isOf_eq.mp hof).2]) hp
      rw [← hstatus]
    · rfl

/-- A planner's request that accepts rows of one group is in scope exactly if the group is not
foreign, or the rows of others among them were accepted. -/
theorem scoped_accept_iff (groupId : ℕ) (h : Keyed db) (hr : r.checked = none)
    (hp : ∀ m, p m = true → m.groupId = groupId) :
    Scoped db r (db.updateMembers p fun m => { m with status := .accepted }) ↔
      (db.foreign r.requester groupId = true → ∀ m ∈ db.members, m.groupId = groupId →
        m.userId ≠ r.requester → p m = true → m.status = .accepted) := by
  rw [scoped_planner_iff groupId hr, updateMembers_others_iff h]
  · intro g u hg
    refine member_updateMembers_other (fun _ _ => rfl) fun m hm => ?_
    by_contra hpm
    rw [Bool.not_eq_false] at hpm
    exact hg ((isOf_eq.mp hm).1.symm.trans (hp m hpm))
  · rfl

theorem scoped_approveGroupMember_iff (h : Keyed db)
    (hmanages : db.canManageThisEvent requesterId orgId eventId = true) :
    Scoped db (.approveGroupMember orgId eventId groupId userId requesterId)
        (db.updateMembers (Member.isOf groupId userId) fun m => { m with status := .accepted }) ↔
      (Request.approveGroupMember orgId eventId groupId userId requesterId).inScope db = true := by
  rw [scoped_accept_iff groupId h rfl fun m hm => (isOf_eq.mp hm).1]
  simp only [Request.inScope, hmanages, Bool.not_true, Bool.false_or, Bool.or_eq_true,
    Bool.not_eq_true', decide_eq_true_eq, Option.all_eq_true]
  change (db.foreign requesterId groupId = true → ∀ m ∈ db.members, m.groupId = groupId →
    m.userId ≠ requesterId → m.isOf groupId userId = true → m.status = .accepted) ↔ _
  cases db.foreign requesterId groupId with
  | false => simp
  | true =>
      simp only [forall_const, Bool.true_eq_false, false_or]
      constructor
      · intro hall
        by_cases huser : userId = requesterId
        · exact .inl huser
        · refine .inr fun m hm => ?_
          have hof : m.isOf groupId userId = true := List.find?_some hm
          exact hall m (List.mem_of_find?_eq_some hm) (isOf_eq.mp hof).1
            (by rwa [(isOf_eq.mp hof).2]) hof
      · rintro (rfl | hall) m hm - huser hof
        · exact absurd (isOf_eq.mp hof).2 huser
        · exact hall m (member_eq_some h hm hof)

theorem scoped_approveAllGroupMembers_iff (h : Keyed db)
    (hmanages : db.canManageThisEvent requesterId orgId eventId = true) :
    Scoped db (.approveAllGroupMembers orgId eventId groupId requesterId)
        (db.updateMembers (fun m => m.groupId = groupId && m.status = .pending)
          fun m => { m with status := .accepted }) ↔
      (Request.approveAllGroupMembers orgId eventId groupId requesterId).inScope db = true := by
  rw [scoped_accept_iff groupId h rfl fun m hm =>
    of_decide_eq_true (Bool.and_eq_true_iff.mp hm).1]
  simp only [Request.inScope, hmanages, Bool.not_true, Bool.false_or, Bool.or_eq_true,
    Bool.not_eq_true', List.all_eq_true, Bool.and_eq_true, Bool.and_eq_false_iff,
    decide_eq_true_eq, decide_eq_false_iff_not, not_not]
  change (db.foreign requesterId groupId = true → ∀ m ∈ db.members, m.groupId = groupId →
    m.userId ≠ requesterId → m.groupId = groupId ∧ m.status = .pending →
      m.status = .accepted) ↔ _
  cases db.foreign requesterId groupId with
  | false => simp
  | true =>
      simp only [forall_const, Bool.true_eq_false, false_or]
      refine forall₂_congr fun m _ => ?_
      cases m.status with
      | pending =>
          simp
          tauto
      | accepted => simp
      | declined => simp

/-- Rows of others than the removed one stay. -/
theorem member_removed_other (hne : (g, u) ≠ (groupId, userId)) :
    ((release (db.member groupId userId) db).deleteMembers (Member.isOf groupId userId)).member g u =
      db.member g u := by
  rw [member_deleteMembers_other, member_of_members (members_release _ _)]
  intro m hm
  by_contra hof
  rw [Bool.not_eq_false] at hof
  exact hne ((isOf_iff_key.mp hm).symm.trans (isOf_iff_key.mp hof))

theorem scoped_removeGroupMember_iff
    (hmanages : db.canManageThisEvent requesterId orgId eventId = true) :
    Scoped db (.removeGroupMember orgId eventId groupId userId requesterId)
        ((release (db.member groupId userId) db).deleteMembers (Member.isOf groupId userId)) ↔
      (Request.removeGroupMember orgId eventId groupId userId requesterId).inScope db = true := by
  rw [scoped_planner_iff groupId rfl
    (fun g u hg => member_removed_other fun hkey => hg (congrArg Prod.fst hkey))
    (claims_release _ _)]
  simp only [Request.inScope, hmanages, Bool.not_true, Bool.false_or, Bool.or_eq_true,
    Bool.not_eq_true', decide_eq_true_eq, Option.isNone_iff_eq_none]
  change (db.foreign requesterId groupId = true → ∀ u, u ≠ requesterId → _) ↔ _
  have hself : ((release (db.member groupId userId) db).deleteMembers
      (Member.isOf groupId userId)).member groupId userId = none :=
    member_deleteMembers_self fun _ hm => hm
  cases db.foreign requesterId groupId with
  | false => simp
  | true =>
      simp only [forall_const, Bool.true_eq_false, false_or]
      constructor
      · intro hkept
        by_cases huser : userId = requesterId
        · exact .inl huser
        · exact .inr ((hkept userId huser).symm.trans hself)
      · rintro hcond u hu
        by_cases huser : u = userId
        · subst huser
          rw [hself, hcond.resolve_left hu]
        · exact member_removed_other fun hkey => huser (congrArg Prod.snd hkey)

theorem scoped_serve_iff (h : Linked db) (r : Request) :
    Scoped db r (r.serve db).2 ↔ r.inScope db = true := by
  cases r with
  | joinEventGroup orgId eventId groupId userId =>
      refine iff_of_true ?_ rfl
      rw [serve_joinEventGroup]
      split
      · rename_i hc
        obtain ⟨hadmits, hgroup⟩ := Bool.and_eq_true_iff.mp hc
        refine scoped_of_onlyOwn .acceptUpsert fun orgId' eventId' hchecked g hnone hsome => ?_
        obtain ⟨rfl, rfl⟩ := Prod.mk.inj (Option.some.inj hchecked)
        refine ⟨?_, hadmits⟩
        by_cases hg : groupId = g
        · rwa [← hg]
        · rw [acceptUpsert, member_upsertMember_other, hnone] at hsome
          · cases hsome
          · exact fun _ _ => rfl
          · exact fun hkey => hg (congrArg Prod.fst hkey)
      · refine scoped_of_onlyOwn (.refl db) fun _ _ _ g hnone hsome => ?_
        rw [hnone] at hsome
        cases hsome
  | leaveEventGroup groupId userId =>
      refine iff_of_true (scoped_of_own ?_ rfl) rfl
      rw [serve_leaveEventGroup]
      exact ((OnlyOwn.release _).trans .deleteClaims).trans
        (.deleteMembers fun m hm => (isOf_eq.mp hm).2)
  | joinEventRole orgId eventId groupId roleId userId claimedShipId seatLabel =>
      refine scoped_join_iff rfl joinEventRole_rows.1 joinEventRole_rows.2 joinEventRole_adds ?_
      intro htakes
      exact (Bool.and_eq_true_iff.mp htakes).1
  | quickJoinEvent orgId eventId userId => exact scoped_quickJoinEvent_iff
  | leaveMyEventSignup eventId userId =>
      refine iff_of_true (scoped_of_own ?_ rfl) rfl
      obtain ⟨db₁, hmembers, hclaims, -, hserve⟩ := serve_leaveMyEventSignup db eventId userId
      rw [hserve]
      exact (OnlyOwn.of_same hmembers hclaims).trans
        (.deleteMembers fun m hm => of_decide_eq_true (Bool.and_eq_true_iff.mp hm).1)
  | leaveEventRole groupId roleId userId =>
      refine iff_of_true (scoped_of_own ?_ rfl) rfl
      rw [serve_leaveEventRole]
      exact ((OnlyOwn.release _).trans .deleteClaims).trans
        (.deleteMembers fun m hm => (isOf_eq.mp (Bool.and_eq_true_iff.mp hm).1).2)
  | claimShipSlot orgId eventId groupId shipSlug userId userShipId slotIndex =>
      refine scoped_join_iff rfl claimShipSlot_rows.1 claimShipSlot_rows.2 claimShipSlot_adds ?_
      intro hadds
      have hclaims := (Bool.and_eq_true_iff.mp hadds).1
      unfold Db.claimsSlot at hclaims
      cases userShipId with
      | none => cases hclaims
      | some shipId =>
          cases slotIndex with
          | none => cases hclaims
          | some slotIndex => exact (Bool.and_eq_true_iff.mp hclaims).1
  | releaseShipSlot groupId userId =>
      exact iff_of_true (scoped_of_own releaseShipSlot_rows rfl) rfl
  | respondEventAssignment eventId userId accept =>
      refine iff_of_true (scoped_of_own ?_ rfl) rfl
      cases accept with
      | true =>
          rw [serve_respond_accept]
          exact .updateMembers (fun m hm => of_decide_eq_true (Bool.and_eq_true_iff.mp hm).1)
            fun _ => rfl
      | false => exact decline_rows
  | approveGroupMember orgId eventId groupId userId requesterId =>
      rw [serve_approveGroupMember]
      cases hmanages : db.canManageThisEvent requesterId orgId eventId with
      | false => exact iff_of_true (scoped_of_own (.refl db) rfl) (by simp [Request.inScope, hmanages])
      | true => exact scoped_approveGroupMember_iff h.toKeyed hmanages
  | approveAllGroupMembers orgId eventId groupId requesterId =>
      rw [serve_approveAllGroupMembers]
      cases hmanages : db.canManageThisEvent requesterId orgId eventId with
      | false => exact iff_of_true (scoped_of_own (.refl db) rfl) (by simp [Request.inScope, hmanages])
      | true => exact scoped_approveAllGroupMembers_iff h.toKeyed hmanages
  | removeGroupMember orgId eventId groupId userId requesterId =>
      rw [serve_removeGroupMember]
      cases hmanages : db.canManageThisEvent requesterId orgId eventId with
      | false => exact iff_of_true (scoped_of_own (.refl db) rfl) (by simp [Request.inScope, hmanages])
      | true => exact scoped_removeGroupMember_iff hmanages
  | saveEventGroups orgId eventId requesterId body =>
      refine iff_of_true ?_ rfl
      rcases serve_saveEventGroups db orgId eventId requesterId body with hsame | hsaved
      · rw [hsame]
        exact scoped_of_own (.refl db) rfl
      · refine ⟨fun g hforeign u _ => ?_, fun _ _ hchecked => by cases hchecked⟩
        exact PlanWrite.rowsKept_chain h
          (foreign_elsewhere hforeign hsaved.manages hsaved.event) hsaved.writes u

/-- On a run of requests, every one stays within the rights of whoever makes it exactly if its ids
belong together wherever that matters. -/
theorem requests_in_scope_iff (h : Linked db) (rs : List Request) :
    (∀ s r s', requests.Passes db rs s r s' → Scoped s r s') ↔
      ∀ s r s', requests.Passes db rs s r s' → r.inScope s = true := by
  refine forall_congr' fun s => forall_congr' fun r => forall_congr' fun s' =>
    forall_congr' fun hpasses => ?_
  obtain rfl : (r.serve s).2 = s' := Option.some.inj hpasses.step
  obtain ⟨rs₁, _, _, hrun, _⟩ := hpasses
  exact scoped_serve_iff (h.run hrun) r

/-- Two events of one organization: member 7 is in a group of the first, member 8 created the
second. -/
def twoEvents : Db :=
  { gatedWing with
    events := [⟨10, 1, .open, 100, none, false, none⟩, ⟨11, 1, .open, 8, none, false, none⟩]
    members := [.plain 20 7 .accepted] }

theorem linked_twoEvents : Linked twoEvents where
  groups := by decide
  roles := by decide
  members := by decide
  groupsFresh := by decide
  rolesFresh := by decide
  memberRole m hm := by
    rw [List.mem_singleton.mp hm]
    nofun
  reservedFresh m hm := by
    rw [List.mem_singleton.mp hm]
    nofun
  reservedRole m hm := by
    rw [List.mem_singleton.mp hm]
    nofun

theorem requests_in_scope_twoEvents :
    (∀ s r s', requests.Passes twoEvents [.joinEventGroup 1 10 20 8] s r s' → Scoped s r s') ↔
      ∀ s r s', requests.Passes twoEvents [.joinEventGroup 1 10 20 8] s r s' →
        r.inScope s = true :=
  requests_in_scope_iff linked_twoEvents _

/-- Whoever manages one event removes the members of another. -/
theorem planner_removes_elsewhere :
    ¬ ∀ (db : Db) (rs : List Request), Linked db →
      ∀ s r s', requests.Passes db rs s r s' → Scoped s r s' := by
  intro hclaim
  have hrun : requests.Passes twoEvents [.removeGroupMember 1 11 20 7 8] twoEvents
      (.removeGroupMember 1 11 20 7 8)
      ((Request.removeGroupMember 1 11 20 7 8).serve twoEvents).2 :=
    ⟨[], [], rfl, .nil _, rfl⟩
  have hscoped := (scoped_serve_iff linked_twoEvents _).mp (hclaim _ _ linked_twoEvents _ _ _ hrun)
  have hforeign : (Request.removeGroupMember 1 11 20 7 8).inScope twoEvents = false := by
    decide +kernel
  rw [hforeign] at hscoped
  cases hscoped

end SpecterComs.Events
