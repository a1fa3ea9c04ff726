import SpecterComs.Model.Events.Plan

/-! # Whoever leaves a group releases the hull

Leaving a group or a role deletes the claim with the member row. Leaving the event, being
removed and declining do not touch the claims.
-/

namespace SpecterComs.Events

open Handler

variable {db db' : Db} {groupId userId : ℕ}

/-- The membership of the user in the group is deleted, or declined. -/
def Lost (db db' : Db) (groupId userId : ℕ) : Prop :=
  ∃ m, db.member groupId userId = some m ∧
    (db'.member groupId userId = none ∨
      m.status ≠ .declined ∧ ∃ m', db'.member groupId userId = some m' ∧ m'.status = .declined)

/-- Nobody who lost the membership of a group has a claim left in it. -/
def ReleasesHulls (db db' : Db) : Prop :=
  ∀ groupId userId, Lost db db' groupId userId → ∀ c ∈ db'.claims, c.isOf groupId userId = false

namespace Request

/-- The requests that end a membership. -/
def isDeparture : Request → Bool
  | leaveEventGroup _ _ | leaveEventRole _ _ _ | leaveMyEventSignup _ _
  | respondEventAssignment _ _ false | removeGroupMember _ _ _ _ _ => true
  | _ => false

/-- The user has no claim in a group of the event that has a membership meeting `p`. -/
def noClaimIn (db : Db) (eventId userId : ℕ) (p : Member → Bool) : Bool :=
  db.claims.all fun c =>
    !(c.userId = userId && db.groupOfEvent c.groupId eventId && (db.member c.groupId userId).any p)

/-- The departure deletes the claims, or there are none. -/
def releasesHull (db : Db) : Request → Bool
  | leaveMyEventSignup eventId userId => noClaimIn db eventId userId fun _ => true
  | respondEventAssignment eventId userId false =>
      noClaimIn db eventId userId fun m => m.status ≠ .declined
  | removeGroupMember orgId eventId groupId userId requesterId =>
      !db.canManageThisEvent requesterId orgId eventId || (db.member groupId userId).isNone ||
        db.claims.all fun c => !c.isOf groupId userId
  | _ => true

end Request

/-! ## Member rows after a write -/

theorem not_lost_of_member_eq (h : db'.member groupId userId = db.member groupId userId) :
    ¬Lost db db' groupId userId := by
  rintro ⟨m, hm, hnone | ⟨hstatus, m', hm', hdeclined⟩⟩
  · simp [h, hm] at hnone
  · rw [h, hm] at hm'
    cases hm'
    exact hstatus hdeclined

@[simp] theorem members_release (m : Option Member) (db : Db) :
    (release m db).members = db.members := by
  unfold release
  split
  · rfl
  · split
    · split <;> rfl
    · rfl

@[simp] theorem claims_release (m : Option Member) (db : Db) :
    (release m db).claims = db.claims := by
  unfold release
  split
  · rfl
  · split
    · split <;> rfl
    · rfl

@[simp] theorem groups_release (m : Option Member) (db : Db) :
    (release m db).groups = db.groups := by
  unfold release
  split
  · rfl
  · split
    · split <;> rfl
    · rfl

variable {p : Member → Bool}

/-- Where the deleted rows are of others. -/
theorem member_deleteMembers_other (h : ∀ m : Member, m.isOf groupId userId = true → p m = false) :
    (db.deleteMembers p).member groupId userId = db.member groupId userId := by
  unfold Db.member Db.deleteMembers
  rw [List.find?_filter]
  congr 1
  funext m
  cases hm : m.isOf groupId userId with
  | true => simp [h m hm]
  | false => simp

/-- Where all rows of the user are deleted. -/
theorem member_deleteMembers_self (h : ∀ m : Member, m.isOf groupId userId = true → p m = true) :
    (db.deleteMembers p).member groupId userId = none := by
  unfold Db.member Db.deleteMembers
  rw [List.find?_filter, List.find?_eq_none]
  intro m _
  cases hm : m.isOf groupId userId with
  | true => simp [h m hm]
  | false => simp

theorem member_updateMembers {set : Member → Member}
    (hset : ∀ m, (set m).groupId = m.groupId ∧ (set m).userId = m.userId) :
    (db.updateMembers p set).member groupId userId =
      (db.member groupId userId).map fun m => if p m then set m else m := by
  unfold Db.member Db.updateMembers
  rw [List.find?_map]
  congr 2
  funext m
  by_cases hp : p m = true <;> simp [Member.isOf, hp, hset]

theorem isOf_eq {m : Member} : m.isOf groupId userId = true ↔ m.groupId = groupId ∧ m.userId = userId := by
  simp [Member.isOf]

/-! ## Departures -/

/-- Where the claims stay, the hulls are released if nobody who lost a membership has one. -/
theorem releasesHulls_iff_of_claims_eq (hclaims : db'.claims = db.claims) :
    ReleasesHulls db db' ↔ ∀ c ∈ db.claims, ¬Lost db db' c.groupId c.userId := by
  constructor
  · intro h c hc hlost
    have hno := h c.groupId c.userId hlost c (by rwa [hclaims])
    simp [ShipClaim.isOf] at hno
  · intro h g u hlost c hc
    by_contra hown
    obtain ⟨rfl, rfl⟩ : c.groupId = g ∧ c.userId = u := by simpa [ShipClaim.isOf] using hown
    exact h c (by rwa [← hclaims]) hlost

theorem releasesHulls_refl (db : Db) : ReleasesHulls db db :=
  fun _ _ hlost => absurd hlost (not_lost_of_member_eq rfl)

/-- The claims of the only user who loses a membership go with it. -/
theorem releasesHulls_of_deleteClaims (hp : ∀ m, p m = true → m.isOf groupId userId = true)
    (m : Option Member) :
    ReleasesHulls db
      (((release m db).deleteClaims (ShipClaim.isOf groupId userId)).deleteMembers p) := by
  intro g u hlost c hc
  have hmem : c ∈ db.claims ∧ c.isOf groupId userId = false := by
    simpa [Db.deleteMembers, Db.deleteClaims, List.mem_filter] using hc
  by_cases hgu : groupId = g ∧ userId = u
  · obtain ⟨rfl, rfl⟩ := hgu
    exact hmem.2
  · refine absurd hlost (not_lost_of_member_eq ?_)
    rw [member_deleteMembers_other, Db.member, Db.deleteClaims, members_release, Db.member]
    intro m' hm'
    by_contra hp'
    obtain ⟨hg, hu⟩ := isOf_eq.mp (hp m' (by simpa using hp'))
    obtain ⟨hg', hu'⟩ := isOf_eq.mp hm'
    exact hgu ⟨hg.symm.trans hg', hu.symm.trans hu'⟩

theorem serve_leaveEventGroup :
    ((Request.leaveEventGroup groupId userId).serve db).2 =
      ((release (db.member groupId userId) db).deleteClaims
        (ShipClaim.isOf groupId userId)).deleteMembers (Member.isOf groupId userId) := rfl

theorem serve_leaveEventRole {roleId : ℕ} :
    ((Request.leaveEventRole groupId roleId userId).serve db).2 =
      ((release (db.members.find? fun m => m.isOf groupId userId && m.roleId = some roleId)
        db).deleteClaims (ShipClaim.isOf groupId userId)).deleteMembers
          fun m => m.isOf groupId userId && m.roleId = some roleId := rfl

@[simp] theorem members_releaseAll (rows : List Member) (db : Db) :
    (releaseAll rows db).members = db.members := by
  induction rows generalizing db with
  | nil => rfl
  | cons m rows ih =>
      rw [releaseAll, List.foldl_cons]
      exact (ih _).trans (members_release _ _)

@[simp] theorem claims_releaseAll (rows : List Member) (db : Db) :
    (releaseAll rows db).claims = db.claims := by
  induction rows generalizing db with
  | nil => rfl
  | cons m rows ih =>
      rw [releaseAll, List.foldl_cons]
      exact (ih _).trans (claims_release _ _)

@[simp] theorem groups_releaseAll (rows : List Member) (db : Db) :
    (releaseAll rows db).groups = db.groups := by
  induction rows generalizing db with
  | nil => rfl
  | cons m rows ih =>
      rw [releaseAll, List.foldl_cons]
      exact (ih _).trans (groups_release _ _)

/-- A row of the event, told by its group. -/
theorem inEvent_of_isOf {eventId : ℕ} {m : Member} (hm : m.isOf groupId userId = true) :
    db.inEvent eventId m = db.groupOfEvent groupId eventId := by
  rw [Db.inEvent, (isOf_eq.mp hm).1]

variable {eventId : ℕ}

theorem serve_leaveMyEventSignup (db : Db) (eventId userId : ℕ) :
    ∃ db₁ : Db, db₁.members = db.members ∧ db₁.claims = db.claims ∧ db₁.groups = db.groups ∧
      ((Request.leaveMyEventSignup eventId userId).serve db).2 =
        db₁.deleteMembers fun m => m.userId = userId && db₁.inEvent eventId m :=
  ⟨releaseAll (db.members.filter fun m => m.userId = userId && db.inEvent eventId m &&
      m.reservedSeatsRoleId.isSome && 0 < m.reservedSeatsCount) db,
    members_releaseAll _ _, claims_releaseAll _ _, groups_releaseAll _ _, rfl⟩

/-- Leaving the event loses the memberships in its groups. -/
theorem lost_leaveMyEventSignup {g u : ℕ} :
    Lost db ((Request.leaveMyEventSignup eventId userId).serve db).2 g u ↔
      u = userId ∧ db.groupOfEvent g eventId = true ∧ (db.member g u).isSome = true := by
  obtain ⟨db₁, hmembers, -, hgroups, hserve⟩ := serve_leaveMyEventSignup db eventId userId
  rw [hserve]
  have hmember : db₁.member g u = db.member g u := by rw [Db.member, Db.member, hmembers]
  have hevent : db₁.groupOfEvent g eventId = db.groupOfEvent g eventId := by
    rw [Db.groupOfEvent, Db.groupOfEvent, hgroups]
  by_cases hmine : u = userId ∧ db.groupOfEvent g eventId = true
  · obtain ⟨rfl, hin⟩ := hmine
    have hnone : (db₁.deleteMembers fun m => m.userId = u && db₁.inEvent eventId m).member g u =
        none := by
      apply member_deleteMembers_self
      intro m hm
      simp [inEvent_of_isOf hm, hevent, hin, (isOf_eq.mp hm).2]
    constructor
    · rintro ⟨m, hm, -⟩
      simp [hin, hm]
    · rintro ⟨-, -, hsome⟩
      obtain ⟨m, hm⟩ := Option.isSome_iff_exists.mp hsome
      exact ⟨m, hm, .inl hnone⟩
  · constructor
    · intro hlost
      refine absurd hlost (not_lost_of_member_eq ?_)
      rw [member_deleteMembers_other, hmember]
      intro m hm
      rw [inEvent_of_isOf hm, hevent, (isOf_eq.mp hm).2]
      simpa using fun hu => by simpa [hu] using hmine
    · rintro ⟨rfl, hin, -⟩
      exact absurd ⟨rfl, hin⟩ hmine

/-- What declining leaves: the rows of the event declined, everything else a release. -/
theorem serve_decline (db : Db) (eventId userId : ℕ) :
    ((Request.respondEventAssignment eventId userId false).serve db).2.claims = db.claims ∧
      ((Request.respondEventAssignment eventId userId false).serve db).2.members =
        (db.updateMembers (fun m => m.userId = userId && db.inEvent eventId m)
          fun m => { m with status := .declined }).members := by
  rw [Request.serve, autocommit_snd, respondEventAssignment]
  simp only [exec_updateReturning_bind, exec_require_bind, exec_update_bind]
  split
  · exact ⟨claims_releaseAll _ _, members_releaseAll _ _⟩
  · exact ⟨rfl, rfl⟩

theorem lost_decline {g u : ℕ} :
    Lost db ((Request.respondEventAssignment eventId userId false).serve db).2 g u ↔
      u = userId ∧ db.groupOfEvent g eventId = true ∧
        (db.member g u).any (fun m => decide (m.status ≠ .declined)) = true := by
  have hmember : ((Request.respondEventAssignment eventId userId false).serve db).2.member g u =
      (db.member g u).map fun m =>
        if (m.userId = userId && db.inEvent eventId m) = true then { m with status := .declined }
        else m := by
    rw [← member_updateMembers (by simp), Db.member, (serve_decline db eventId userId).2, Db.member]
  cases hm : db.member g u with
  | none => simp [Lost, hm]
  | some m =>
      have hof : m.isOf g u = true := List.find?_some hm
      have hin : (m.userId = userId && db.inEvent eventId m) = true ↔
          u = userId ∧ db.groupOfEvent g eventId = true := by
        rw [inEvent_of_isOf hof, (isOf_eq.mp hof).2]
        simp
      rw [hm, Option.map_some] at hmember
      simp only [Lost, hm, Option.any_some, decide_eq_true_eq]
      constructor
      · rintro ⟨_, ⟨⟩, hnone | ⟨hstatus, m', hm', hdeclined⟩⟩
        · simp [hmember] at hnone
        · rw [hmember] at hm'
          by_cases hmine : (m.userId = userId && db.inEvent eventId m) = true
          · obtain ⟨hu, hg⟩ := hin.mp hmine
            exact ⟨hu, hg, hstatus⟩
          · rw [if_neg hmine] at hm'
            cases hm'
            exact absurd hdeclined hstatus
      · rintro ⟨hu, hg, hstatus⟩
        refine ⟨m, rfl, .inr ⟨hstatus, _, hmember, ?_⟩⟩
        rw [if_pos (hin.mpr ⟨hu, hg⟩)]

theorem serve_removeGroupMember (db : Db) (orgId eventId groupId userId requesterId : ℕ) :
    ((Request.removeGroupMember orgId eventId groupId userId requesterId).serve db).2 =
      if db.canManageThisEvent requesterId orgId eventId then
        (release (db.member groupId userId) db).deleteMembers (Member.isOf groupId userId)
      else db := by
  rw [Request.serve, autocommit_snd, removeGroupMember]
  simp only [exec_select_bind, exec_require_bind, exec_update_bind]
  split <;> rfl

theorem lost_removeGroupMember {orgId requesterId g u : ℕ}
    (hmanages : db.canManageThisEvent requesterId orgId eventId = true) :
    Lost db ((Request.removeGroupMember orgId eventId groupId userId requesterId).serve db).2 g u ↔
      groupId = g ∧ userId = u ∧ (db.member g u).isSome = true := by
  rw [serve_removeGroupMember, if_pos hmanages]
  by_cases hgu : groupId = g ∧ userId = u
  · obtain ⟨rfl, rfl⟩ := hgu
    have hnone : ((release (db.member groupId userId) db).deleteMembers
        (Member.isOf groupId userId)).member groupId userId = none :=
      member_deleteMembers_self fun _ hm => hm
    constructor
    · rintro ⟨m, hm, -⟩
      simp [hm]
    · rintro ⟨-, -, hsome⟩
      obtain ⟨m, hm⟩ := Option.isSome_iff_exists.mp hsome
      exact ⟨m, hm, .inl hnone⟩
  · constructor
    · intro hlost
      refine absurd hlost (not_lost_of_member_eq ?_)
      rw [member_deleteMembers_other, Db.member, members_release, Db.member]
      intro m hm
      by_contra hown
      obtain ⟨hg, hu⟩ := isOf_eq.mp (by simpa using hown : m.isOf groupId userId = true)
      obtain ⟨hg', hu'⟩ := isOf_eq.mp hm
      exact hgu ⟨hg.symm.trans hg', hu.symm.trans hu'⟩
    · rintro ⟨hg, hu, -⟩
      exact absurd ⟨hg, hu⟩ hgu

/-! ## When the hulls are released -/

theorem noClaimIn_iff {P : ℕ → ℕ → Prop}
    (hP : ∀ g u, P g u ↔ u = userId ∧ db.groupOfEvent g eventId = true ∧ (db.member g u).any p = true) :
    (∀ c ∈ db.claims, ¬P c.groupId c.userId) ↔ Request.noClaimIn db eventId userId p = true := by
  rw [Request.noClaimIn, List.all_eq_true]
  refine forall₂_congr fun c _ => ?_
  rw [hP, Bool.not_eq_true', ← Bool.not_eq_true, Bool.and_eq_true, Bool.and_eq_true,
    decide_eq_true_eq, and_assoc]
  constructor
  · rintro h ⟨rfl, hg, hany⟩
    exact h ⟨rfl, hg, hany⟩
  · rintro h ⟨rfl, hg, hany⟩
    exact h ⟨rfl, hg, hany⟩

theorem releasesHulls_iff {r : Request} (hr : r.isDeparture = true) :
    ReleasesHulls db (r.serve db).2 ↔ r.releasesHull db = true := by
  cases r with
  | leaveEventGroup groupId userId =>
      rw [serve_leaveEventGroup]
      exact iff_of_true (releasesHulls_of_deleteClaims (fun _ h => h) _) rfl
  | leaveEventRole groupId roleId userId =>
      rw [serve_leaveEventRole]
      refine iff_of_true (releasesHulls_of_deleteClaims (fun m h => ?_) _) rfl
      exact (Bool.and_eq_true_iff.mp h).1
  | leaveMyEventSignup eventId userId =>
      obtain ⟨db₁, -, hclaims, -, hserve⟩ := serve_leaveMyEventSignup db eventId userId
      rw [releasesHulls_iff_of_claims_eq (by rw [hserve]; exact hclaims)]
      apply noClaimIn_iff
      intro g u
      rw [lost_leaveMyEventSignup]
      cases db.member g u <;> simp
  | respondEventAssignment eventId userId accept =>
      cases accept with
      | true => cases hr
      | false =>
          rw [releasesHulls_iff_of_claims_eq (serve_decline db eventId userId).1]
          exact noClaimIn_iff fun g u => lost_decline
  | removeGroupMember orgId eventId groupId userId requesterId =>
      rw [Request.releasesHull]
      cases hmanages : db.canManageThisEvent requesterId orgId eventId with
      | false =>
          rw [serve_removeGroupMember, hmanages]
          exact iff_of_true (releasesHulls_refl db) rfl
      | true =>
          have hclaims : ((Request.removeGroupMember orgId eventId groupId userId
              requesterId).serve db).2.claims = db.claims := by
            rw [serve_removeGroupMember, if_pos hmanages]
            exact claims_release _ _
          rw [releasesHulls_iff_of_claims_eq hclaims]
          simp only [lost_removeGroupMember hmanages, Bool.not_true, Bool.false_or,
            Bool.or_eq_true, Option.isNone_iff_eq_none, List.all_eq_true, Bool.not_eq_true']
          constructor
          · intro h
            cases hm : db.member groupId userId with
            | none => exact .inl rfl
            | some m =>
                right
                intro c hc
                by_contra hown
                obtain ⟨hg, hu⟩ : c.groupId = groupId ∧ c.userId = userId := by
                  simpa [ShipClaim.isOf] using hown
                exact h c hc ⟨hg.symm, hu.symm, by simp [hg, hu, hm]⟩
          · rintro (hnone | hown) c hc ⟨rfl, rfl, hsome⟩
            · simp [hnone] at hsome
            · have hno := hown c hc
              simp [ShipClaim.isOf] at hno
  | _ => cases hr

/-- On a run of requests, every departure releases the hulls exactly if none of those that leave
the claims alone finds one. -/
theorem departures_release_hulls_iff (db : Db) (rs : List Request) :
    (∀ s r s', requests.Passes db rs s r s' → r.isDeparture = true → ReleasesHulls s s') ↔
      ∀ s r s', requests.Passes db rs s r s' → r.isDeparture = true →
        r.releasesHull s = true := by
  refine forall_congr' fun s => forall_congr' fun r => forall_congr' fun s' =>
    forall_congr' fun h => forall_congr' fun hr => ?_
  obtain rfl : (r.serve s).2 = s' := Option.some.inj h.step
  exact releasesHulls_iff hr

/-! ## A wing of one fighter -/

def wingRole (id : ℕ) (name : String) (maxSlots : ℕ) (autoApprove : Bool) : Role where
  id := id
  groupId := 20
  name := name
  priority := 3
  assignmentMode := .open
  maxSlots := maxSlots
  sortOrder := 0
  seatLabels := []
  isCommander := false
  autoApprove := autoApprove
  reservedSlots := 0

/-- An open event with one group, a fighter to claim and two members of the organization. -/
def wing (roles : List Role) (lockedSeats : List String) : Db where
  organizations := [⟨1, 100⟩]
  orgMembers := [⟨1, 7, false, false⟩, ⟨1, 8, false, false⟩]
  events := [⟨10, 1, .open, 100, none, false, none⟩]
  planners := []
  groups := [⟨20, 10, "Alpha", none, none, none, 0⟩]
  roles := roles
  members := []
  ships := [⟨20, "hornet", "Hornet", none, 1, 0⟩]
  claims := []
  userShips := [⟨50, 7, "hornet", lockedSeats⟩]
  gameShips :=
    [⟨"hornet", [⟨"hp_seat", "Helmsman", "Cockpit"⟩, ⟨"hp_turret", "Turret", "Ball Turret"⟩,
      ⟨"hp_bay", "Engineering", "Bay"⟩], some "Medium Fighter"⟩]
  frequencies := []
  frequencyRoles := []
  nextId := 1000

def claimHornet : Request :=
  .claimShipSlot 1 10 20 "hornet" 7 (some 50) (some 0)

def claimed : Db :=
  (claimHornet.serve (wing [wingRole 30 "Pilot" 1 true] [])).2

/-- A pilot who unenrolls from the event keeps the hull. -/
theorem unenrolled_pilot_keeps_hull :
    ¬ ∀ (db : Db) (rs : List Request) (s : Db) (r : Request) (s' : Db),
      requests.Passes db rs s r s' → r.isDeparture = true → ReleasesHulls s s' := by
  intro hclaim
  have hrun : requests.Passes (wing [wingRole 30 "Pilot" 1 true] [])
      [claimHornet, .leaveMyEventSignup 10 7] claimed (.leaveMyEventSignup 10 7)
      ((Request.leaveMyEventSignup 10 7).serve claimed).2 :=
    ⟨[claimHornet], [], rfl, .cons rfl (.nil _), rfl⟩
  have hreleases := (releasesHulls_iff rfl).mp (hclaim _ _ _ _ _ hrun rfl)
  have hkept : (Request.leaveMyEventSignup 10 7).releasesHull claimed = false := by decide +kernel
  rw [hkept] at hreleases
  cases hreleases

end SpecterComs.Events
