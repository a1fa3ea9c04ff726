import SpecterComs.Verification.Events.Rejoins
import SpecterComs.Library.Transactions

/-! # Who holds a seat

The seat check of a join reads the rows that are committed by then. Until the join commits,
another may commit the same seat; a claim of a ship slot and a role of one seat are not checked at
all. Two members hold one seat exactly when a signup commits a seat that is held.
-/

namespace SpecterComs.Events

open Handler

/-! ## Signups -/

/-- A request that signs a user up. -/
inductive Signup
  | joinEventRole (orgId eventId groupId roleId userId : ℕ) (claimedShipId : Option ℕ)
      (seatLabel : Option String)
  | quickJoinEvent (orgId eventId userId : ℕ)
  | claimShipSlot (orgId eventId groupId : ℕ) (shipSlug : String) (userId : ℕ)
      (userShipId slotIndex : Option ℕ)
  deriving DecidableEq, Repr

namespace Signup

def userId : Signup → ℕ
  | joinEventRole _ _ _ _ userId _ _ => userId
  | quickJoinEvent _ _ userId => userId
  | claimShipSlot _ _ _ _ userId _ _ => userId

/-- The one write of `quickJoinEvent` is its last statement: its commit. -/
def handler : Signup → Endpoint
  | joinEventRole orgId eventId groupId roleId userId claimedShipId seatLabel =>
      Events.joinEventRole orgId eventId groupId roleId userId claimedShipId seatLabel
  | quickJoinEvent orgId eventId userId => Events.quickJoinEvent orgId eventId userId
  | claimShipSlot orgId eventId groupId shipSlug userId userShipId slotIndex =>
      Events.claimShipSlot orgId eventId groupId shipSlug userId userShipId slotIndex

end Signup

variable {db : Db} {w w' : Db → Db} {groupId roleId userId : ℕ}

/-! ## Seats -/

def Member.holds (m : Member) (roleId : ℕ) (label : String) : Bool :=
  m.roleId = some roleId && m.seatLabel = some label && m.status.active

def Db.namesSeats (db : Db) (roleId : ℕ) : Bool :=
  db.roles.any fun r => r.id = roleId && r.seatLabels ≠ []

/-- Two members of a role with named seats never hold one seat. -/
def SeatsApart (db : Db) : Prop :=
  ∀ m ∈ db.members, ∀ m' ∈ db.members, m.userId ≠ m'.userId → ∀ roleId label,
    db.namesSeats roleId = true → m.holds roleId label = true → m'.holds roleId label = false

/-- The query of the seat check. -/
def Db.seatTaken (db : Db) (roleId userId : ℕ) (label : String) : Bool :=
  db.members.any fun m => m.holds roleId label && m.userId ≠ userId

/-- The seat of the row, if it has one, is not held by another. -/
def Db.freeFor (db : Db) (m : Member) : Bool :=
  match m.roleId, m.seatLabel with
  | some roleId, some label =>
      !(m.status.active && db.namesSeats roleId && db.seatTaken roleId m.userId label)
  | _, _ => true

variable {m : Member}

theorem freeFor_iff :
    db.freeFor m = true ↔ ∀ roleId label, db.namesSeats roleId = true →
      m.holds roleId label = true → db.seatTaken roleId m.userId label = false := by
  obtain ⟨_, _, role, _, _, seat, _, _, _⟩ := m
  cases role with
  | none => simp [Db.freeFor, Member.holds]
  | some roleId =>
      cases seat with
      | none => simp [Db.freeFor, Member.holds]
      | some label =>
          simp only [Db.freeFor, Member.holds, Bool.not_eq_true', Bool.and_eq_true,
            decide_eq_true_eq, Option.some.injEq]
          constructor
          · rintro hfree _ _ hnames ⟨⟨rfl, rfl⟩, hactive⟩
            simpa [hactive, hnames] using hfree
          · intro h
            by_contra hnot
            rw [Bool.not_eq_false, Bool.and_eq_true, Bool.and_eq_true] at hnot
            obtain ⟨⟨hactive, hnames⟩, htaken⟩ := hnot
            rw [h roleId label hnames ⟨⟨rfl, rfl⟩, hactive⟩] at htaken
            cases htaken

theorem seatTaken_iff {label : String} :
    db.seatTaken roleId userId label = true ↔
      ∃ m ∈ db.members, m.holds roleId label = true ∧ m.userId ≠ userId := by
  simp [Db.seatTaken]

/-! ## What a signup writes -/

/-- The member rows of others stay, and which roles have named seats. -/
structure SignsUp (userId : ℕ) (w : Db → Db) : Prop where
  others : ∀ db (m : Member), m.userId ≠ userId → (m ∈ (w db).members ↔ m ∈ db.members)
  seats : ∀ db roleId, (w db).namesSeats roleId = db.namesSeats roleId

namespace SignsUp

theorem id : SignsUp userId id := ⟨fun _ _ _ => Iff.rfl, fun _ _ => rfl⟩

theorem comp (h : SignsUp userId w) (h' : SignsUp userId w') : SignsUp userId (w ∘ w') where
  others db m hm := (h.others (w' db) m hm).trans (h'.others db m hm)
  seats db roleId := (h.seats (w' db) roleId).trans (h'.seats db roleId)

theorem release (prev : Option Member) : SignsUp userId (release prev) where
  others db m _ := by rw [members_release]
  seats db roleId := by
    cases prev with
    | none => rfl
    | some m => simp [Db.namesSeats, roles_release, List.any_map, Function.comp_def]

theorem reserveAll (counts : List (String × ℕ)) : SignsUp userId (reserveAll groupId counts) where
  others db m _ := by rw [members_reserveAll]
  seats db roleId := by
    induction counts generalizing db with
    | nil => rfl
    | cons c counts ih =>
        change (Events.reserveAll groupId counts (db.reserveSlots c.2 groupId c.1)).namesSeats
          roleId = _
        rw [ih, Db.namesSeats, Db.namesSeats, Db.reserveSlots, List.any_map]
        congr 1
        funext r
        dsimp only [Function.comp_apply]
        split <;> rfl

theorem upsertMember {set : Member → Member} (hm : m.userId = userId)
    (hset : ∀ m, m.userId = userId → (set m).userId = userId) :
    SignsUp userId fun db => db.upsertMember m set where
  others db m' hm' := by
    have hother : m'.isOf m.groupId m.userId = false := by
      simp [Member.isOf, hm, hm']
    unfold Db.upsertMember
    dsimp only
    split
    · rw [List.mem_map]
      constructor
      · rintro ⟨m₀, hm₀, rfl⟩
        split at hm' <;> rename_i hof
        · rw [hm] at hof
          exact absurd (hset m₀ (isOf_eq.mp hof).2) hm'
        · rwa [if_neg hof]
      · intro h
        exact ⟨m', h, by rw [hother]; rfl⟩
    · rw [List.mem_append, List.mem_singleton]
      constructor
      · rintro (h | rfl)
        · exact h
        · exact absurd hm hm'
      · exact .inl
  seats _ _ := rfl

theorem claimWrites (claim : ShipClaim) (prev : Option Member) :
    SignsUp userId (claimWrites claim prev) where
  others db m _ := by rw [members_claimWrites]
  seats db roleId := by
    have hroles : ((db.deleteClaims (ShipClaim.isOf claim.groupId claim.userId)).insertClaim
        claim).roles = db.roles := by
      unfold Db.insertClaim
      split <;> rfl
    refine ((release prev : SignsUp userId _).seats _ roleId).trans ?_
    rw [Db.namesSeats, hroles]
    rfl

variable {orgId eventId : ℕ} {seen : List Db}

theorem joined {claimedShipId : Option ℕ}
    (h : JoinedRole orgId eventId groupId roleId userId claimedShipId seen w) :
    SignsUp userId w := by
  obtain ⟨_, _, d, _, role, _, _, ⟨seat, r, counts, _, rfl, _⟩ | rfl⟩ := h.writes
  · refine comp (upsertMember ?_ ?_) (comp (reserveAll counts) (release _))
    · rfl
    · exact fun _ _ => rfl
  · refine comp (upsertMember ?_ ?_) (release _)
    · rfl
    · exact fun _ _ => rfl

theorem quickJoined (h : QuickJoined orgId eventId userId seen w) : SignsUp userId w := by
  rcases h.writes with rfl | ⟨-, ⟨_, _, role, _, _, _, _, rfl⟩ | ⟨_, _, group, _, _, rfl⟩⟩
  · exact SignsUp.id
  · exact upsertMember rfl fun _ hm => hm
  · exact upsertMember rfl fun _ hm => hm

theorem slotClaimed {shipSlug : String}
    (h : SlotClaimed orgId eventId groupId shipSlug userId seen w) : SignsUp userId w := by
  obtain ⟨claim, d, d', -, -, -, huser, -, ⟨role, -, -, rfl⟩ | ⟨-, rfl⟩⟩ := h.writes
  · refine comp (upsertMember ?_ ?_) (claimWrites claim _)
    · rfl
    · exact fun _ hm => hm
  · exact claimWrites claim _

end SignsUp

theorem Signup.signsUp (r : Signup) :
    SpecAmong (fun _ => True) (fun res w => ∀ a, res = .ok a → SignsUp r.userId w) id
      r.handler := by
  cases r with
  | joinEventRole orgId eventId groupId roleId userId claimedShipId seatLabel =>
      apply spec_joinEventRole.among
      rintro _ seen w h a rfl
      exact .joined h
  | quickJoinEvent orgId eventId userId =>
      apply spec_quickJoinEvent.among
      rintro _ seen w h a rfl
      exact .quickJoined h
  | claimShipSlot orgId eventId groupId shipSlug userId userShipId slotIndex =>
      apply spec_claimShipSlot.among
      rintro _ seen w h a rfl
      exact .slotClaimed h

/-! ## Which signups keep the seats apart -/

/-- Among the rows that were there, a signup writes its own. -/
theorem SignsUp.seatsApart_iff (h : SignsUp userId w) (hdb : SeatsApart db) :
    SeatsApart (w db) ↔
      ∀ m ∈ (w db).members, m.userId = userId → db.freeFor m = true := by
  constructor
  · rintro hw m hm rfl
    rw [freeFor_iff]
    intro roleId label hnames hholds
    by_contra htaken
    rw [Bool.not_eq_false] at htaken
    obtain ⟨m', hm', hholds', huser⟩ := seatTaken_iff.mp htaken
    have hm' := (h.others db m' huser).mpr hm'
    rw [← h.seats] at hnames
    rw [hw m hm m' hm' huser.symm roleId label hnames hholds] at hholds'
    cases hholds'
  · intro hfree m hm m' hm' huser roleId label hnames hholds
    rw [h.seats] at hnames
    by_cases hm₁ : m.userId = userId
    · by_contra hholds'
      rw [Bool.not_eq_false] at hholds'
      have hdb' := (h.others db m' fun hm₂ => huser (hm₁.trans hm₂.symm)).mp hm'
      have htaken := freeFor_iff.mp (hfree m hm hm₁) roleId label hnames hholds
      rw [seatTaken_iff.mpr ⟨m', hdb', hholds', huser.symm⟩] at htaken
      cases htaken
    · have hdb₁ := (h.others db m hm₁).mp hm
      by_cases hm₂ : m'.userId = userId
      · by_contra hholds'
        rw [Bool.not_eq_false] at hholds'
        have htaken := freeFor_iff.mp (hfree m' hm' hm₂) roleId label hnames hholds'
        rw [seatTaken_iff.mpr ⟨m, hdb₁, hholds, huser⟩] at htaken
        cases htaken
      · exact hdb m hdb₁ m' ((h.others db m' hm₂).mp hm') huser roleId label hnames hholds

theorem SeatsApart.freeFor (h : SeatsApart db) (hm : m ∈ db.members) : db.freeFor m = true := by
  rw [freeFor_iff]
  intro roleId label hnames hholds
  by_contra htaken
  rw [Bool.not_eq_false] at htaken
  obtain ⟨m', hm', hholds', huser⟩ := seatTaken_iff.mp htaken
  rw [h m hm m' hm' huser.symm roleId label hnames hholds] at hholds'
  cases hholds'

variable {claimedShipId : Option ℕ} {seatLabel : Option String}

/-- What a role's own check lets through is free. -/
theorem freeFor_joinRow {role : Role} (hmany : 1 < role.seatLabels.length)
    (hfree : db.seatFree role.id userId role.seatLabels seatLabel = true) :
    db.freeFor (joinRow db groupId userId role claimedShipId seatLabel) = true := by
  cases seatLabel with
  | none => simp [Db.seatFree, hmany] at hfree
  | some label =>
      simp only [Db.seatFree, hmany, decide_true, Bool.not_true, Bool.false_or, Option.any_some,
        Bool.and_eq_true, Bool.not_eq_true'] at hfree
      have htaken : db.seatTaken role.id userId label = false := hfree.2
      simp [Db.freeFor, joinRow, roleRow, Role.seat, hmany, htaken]

theorem SignsUp.seatsApart_upsert {row : Member}
    (h : SignsUp row.userId fun db => (w db).upsertMember row fun _ => row)
    (hmembers : (w db).members = db.members) (hapart : SeatsApart db)
    (hfree : db.freeFor row = true) : SeatsApart ((w db).upsertMember row fun _ => row) := by
  refine (h.seatsApart_iff hapart).mpr fun m hm _ => ?_
  rcases mem_upsertMember hm with hm | rfl | ⟨_, _, _, rfl⟩
  · rw [hmembers] at hm
    exact hapart.freeFor hm
  · exact hfree
  · exact hfree

/-- Alone, a join of a role with several seats keeps the seats apart. -/
theorem SeatsApart.joinEventRole (hapart : SeatsApart db) {orgId eventId : ℕ} {role : Role}
    (hrole : db.role roleId groupId = some role) (hmany : 1 < role.seatLabels.length) :
    SeatsApart ((Events.joinEventRole orgId eventId groupId roleId userId claimedShipId
      seatLabel).transaction db).2 := by
  cases htakes : db.takesRole orgId eventId groupId roleId userId seatLabel with
  | false => rwa [transaction_snd_of_not_answers ((answers_joinEventRole _ _ _).trans htakes)]
  | true =>
      obtain ⟨role', hrole', hdb'⟩ := @transaction_joinEventRole db orgId eventId groupId roleId
        userId claimedShipId seatLabel htakes
      obtain rfl := Option.some.inj (hrole.symm.trans hrole')
      rw [hdb']
      split
      · rename_i hfits
        have hfree : db.seatFree role.id userId role.seatLabels (seatLabelOf seatLabel) = true := by
          simp only [Db.takesRole, hrole, Option.any_some, Bool.and_eq_true, if_pos hfits] at htakes
          exact htakes.2.2.2
        let row := joinRow db groupId userId role claimedShipId (seatLabelOf seatLabel)
        have hw : SignsUp row.userId fun d =>
            (reserveAll groupId (seatCounts db groupId userId claimedShipId)
              (release (db.member groupId userId) d)).upsertMember row fun _ => row :=
          (SignsUp.upsertMember rfl fun _ _ => rfl).comp ((SignsUp.reserveAll _).comp (.release _))
        exact hw.seatsApart_upsert (by simp) hapart (freeFor_joinRow hmany hfree)
      · have hw : SignsUp (Member.plain groupId userId .accepted).userId fun d =>
            (release (db.member groupId userId) d).upsertMember (.plain groupId userId .accepted)
              fun _ => .plain groupId userId .accepted :=
          (SignsUp.upsertMember rfl fun _ _ => rfl).comp (.release _)
        exact hw.seatsApart_upsert (by simp) hapart rfl

/-- If the turn is a commit, the seat in the row it commits is free by then. -/
def commitsFreeSeat (requests : ℕ → Signup) (s : Transactions Db Response) : Turn → Bool
  | .next t =>
      match s.opened t with
      | some { write := w, rest := .ret (.ok _) } =>
          (w s.committed).members.all fun m =>
            m.userId ≠ (requests t).userId || s.committed.freeFor m
      | _ => true
  | .fail _ => true

variable {requests : ℕ → Signup}

theorem commitsFreeSeat_of_not_commits {s : Transactions Db Response} {turn : Turn}
    (h : s.commits turn = false) : commitsFreeSeat requests s turn = true := by
  cases turn with
  | fail t => rfl
  | next t =>
      simp only [Transactions.commits] at h
      simp only [commitsFreeSeat]
      split
      · rename_i ho
        simp [ho] at h
      · rfl

/-- The open signups go on to write the rows of their users. -/
abbrev SigningUp (requests : ℕ → Signup) : Transactions Db Response → Prop :=
  Transactions.Follows (fun _ => True) fun t res w => ∀ a, res = .ok a →
    SignsUp (requests t).userId w

theorem seatsApart_step_iff {s s' : Transactions Db Response} {turn : Turn}
    (hs : SigningUp requests s) (hapart : SeatsApart s.committed) (hstep : s.step turn = some s') :
    SeatsApart s'.committed ↔ commitsFreeSeat requests s turn = true := by
  rcases Transactions.step_cases hstep with ⟨t, o, st, k, rfl, ho, hrest, rfl⟩ |
    ⟨t, o, r, rfl, ho, hrest, -, rfl⟩ | ⟨t, hcommits, rfl⟩
  · apply iff_of_true hapart
    apply commitsFreeSeat_of_not_commits
    obtain ⟨write, rest⟩ := o
    subst hrest
    simp [Transactions.commits, ho]
  · have hwrites := hs.opened t o ho
    obtain ⟨write, rest⟩ := o
    subst hrest
    rw [(hwrites r rfl).seatsApart_iff hapart]
    simp [commitsFreeSeat, ho, Decidable.imp_iff_not_or]
  · exact iff_of_true hapart (commitsFreeSeat_of_not_commits hcommits)

/-- A group without ships, with a role of two seats. -/
def gunners : Db :=
  { wing [{ wingRole 31 "Turret Gunner" 2 true with seatLabels := ["Upper", "Lower"] }] [] with
    ships := [] }

/-- Users 7, 8 and so on join for a seat each. -/
def joinSeats (seats : ℕ → String) (t : ℕ) : Signup :=
  .joinEventRole 1 10 20 31 (7 + t) none (some (seats t))

/-- Both join up to their commits, which follow. -/
def joinsAtOnce : List Turn :=
  List.replicate 8 (.next 0) ++ List.replicate 8 (.next 1) ++ [.next 0, .next 1]

theorem seatsApart_gunners : SeatsApart gunners := nofun

end SpecterComs.Events
