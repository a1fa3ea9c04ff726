import SpecterComs.Library.StepSystem
import SpecterComs.Model.IdentityNode.Roles

/-! # The hierarchy of roles

Whoever manages roles stays below their own rank with the roles they write. The present role of the
member who is given another one is not looked at, and neither are the flags of a role.
-/

namespace SpecterComs.Roles

/-- The rank of a user, as the requests see it. -/
def Org.level (org : Org) (userId : ℕ) : ℤ :=
  (getRequesterInfo org userId).level

/-- The requests of some users other than the owner, one after the other. One that is refused writes
nothing, and is no step. -/
def roleRequests (mayDelete : Org → ℕ → Bool) (actors : List ℕ) : StepSystem Org Request where
  step org r :=
    if r.userId ∈ actors ∧ r.userId ≠ org.ownerId then (handle mayDelete org r).toOption else none

/-! ## The property -/

section Hierarchy

variable (start : Org) (actors : List ℕ)

/-- A flag that the user had at the start, or an acting user, or a role ranked below one. -/
def MayHave (userId : ℕ) (flag : String) : Prop :=
  checkModerationPermission start userId flag = true ∨
    ∃ actor ∈ actors, checkModerationPermission start actor flag = true ∨
      ∃ id role, start.roles id = some role ∧ role.rank < start.level actor ∧
        flag ∈ role.permissions

/-- Nobody has risen to the highest acting user, or has gained a flag from elsewhere. -/
structure Contained (org : Org) : Prop where
  level : ∀ userId, start.level userId < org.level userId →
    ∃ actor ∈ actors, org.level userId < start.level actor
  flag : ∀ userId flag, checkModerationPermission org userId flag = true →
    MayHave start actors userId flag

/-- A request changes roles and members ranked below its user only. -/
structure Hierarchy (org : Org) (r : Request) (org' : Org) : Prop where
  roles : ∀ id role, org.roles id = some role → org'.roles id ≠ some role →
    role.rank < org.level r.userId
  members : ∀ userId, userId ≠ r.userId → org'.roleIdOf userId ≠ org.roleIdOf userId →
    org.level userId < org.level r.userId
  contained : Contained start actors org'

/-- Who gets another role, or loses one, is ranked below the user of the request, and who gets a
flag may have it. -/
def Guarded (org : Org) (r : Request) : Prop :=
  match r.action with
  | .createRole _ _ _ _ => True
  | .updateRole roleId _ permissions _ => ∀ flags, permissions = some flags →
      ∀ userId, org.roleIdOf userId = some roleId → ∀ flag ∈ flags,
        MayHave start actors userId flag
  | .deleteRole roleId => ∀ userId, userId ≠ r.userId → org.roleIdOf userId = some roleId →
      org.level userId < org.level r.userId
  | .assignMemberRole target roleId => (org.members target).isSome →
      (target ≠ r.userId → org.roleIdOf target ≠ roleId →
        org.level target < org.level r.userId) ∧
      ∀ role, roleId.bind org.roles = some role → ∀ flag ∈ role.permissions,
        MayHave start actors target flag

end Hierarchy

/-! ## Ranks and flags -/

variable {org org' : Org} {userId : ℕ}

theorem level_owner : org.level org.ownerId = maxSafeInteger := by
  unfold Org.level getRequesterInfo
  rw [if_pos rfl]

theorem level_of_ne (h : userId ≠ org.ownerId) :
    org.level userId = (org.roleOf userId).elim 0 fun role => max role.rank 0 := by
  unfold Org.level getRequesterInfo
  rw [if_neg h]
  cases org.roleOf userId with
  | none => rfl
  | some role =>
      dsimp only [Option.elim]
      split
      · exact (max_eq_left_of_lt ‹_›).symm
      · exact (max_eq_right (not_lt.mp ‹_›)).symm

theorem level_nonneg (userId : ℕ) : 0 ≤ org.level userId := by
  by_cases h : userId = org.ownerId
  · rw [h, level_owner]
    decide
  · rw [level_of_ne h]
    cases org.roleOf userId with
    | none => exact le_refl 0
    | some role => exact le_max_right _ _

theorem not_outranked (h : userId ≠ org.ownerId) {rank : ℤ}
    (hrank : ¬ (getRequesterInfo org userId).outranked rank = true) : rank < org.level userId := by
  have hisOwner : (getRequesterInfo org userId).isOwner = false := by
    unfold getRequesterInfo
    rw [if_neg h]
    cases org.roleOf userId <;> rfl
  unfold RequesterInfo.outranked at hrank
  rw [hisOwner, Bool.not_false, Bool.true_and, decide_eq_true_eq, not_le] at hrank
  exact hrank

theorem checkModerationPermission_iff {flag : String} :
    checkModerationPermission org userId flag = true ↔
      userId = org.ownerId ∨ ∃ role, org.roleOf userId = some role ∧ flag ∈ role.permissions := by
  simp [checkModerationPermission, Option.any_eq_true]

/-! ## Writes -/

@[simp] theorem roleIdOf_putRole (id : ℕ) (role : Role) :
    (org.putRole id role).roleIdOf userId = org.roleIdOf userId :=
  rfl

theorem roleOf_putRole (id : ℕ) (role : Role) :
    (org.putRole id role).roleOf userId =
      if org.roleIdOf userId = some id then some role else org.roleOf userId := by
  unfold Org.roleOf
  rw [roleIdOf_putRole]
  cases org.roleIdOf userId with
  | none => rfl
  | some id' =>
      by_cases h : id' = id
      · subst h
        simp [Org.putRole]
      · simp [Org.putRole, h]

theorem roleIdOf_dropRole (id : ℕ) :
    (org.dropRole id).roleIdOf userId =
      if org.roleIdOf userId = some id then none else org.roleIdOf userId := by
  have hmembers : (org.dropRole id).members userId = (org.members userId).map fun member =>
      if member.roleId = some id then { roleId := none } else member := rfl
  unfold Org.roleIdOf
  rw [hmembers]
  cases org.members userId with
  | none => simp
  | some member =>
      by_cases h : member.roleId = some id
      · simp [h]
      · simp [h]

theorem roleOf_dropRole (id : ℕ) :
    (org.dropRole id).roleOf userId =
      if org.roleIdOf userId = some id then none else org.roleOf userId := by
  unfold Org.roleOf
  rw [roleIdOf_dropRole]
  split
  · rfl
  · cases hid : org.roleIdOf userId with
    | none => rfl
    | some id' =>
        have h : id' ≠ id := by
          rintro rfl
          exact absurd hid ‹_›
        simp [Org.dropRole, h]

variable {target : ℕ} {roleId : Option ℕ}

theorem roleIdOf_setMemberRole (h : ∀ id, roleId = some id → (org.roles id).isSome) :
    (org.setMemberRole target roleId h).roleIdOf userId =
      if userId = target ∧ (org.members target).isSome then roleId else org.roleIdOf userId := by
  have hmembers : (org.setMemberRole target roleId h).members = Function.update org.members target
      ((org.members target).map fun _ => { roleId }) := rfl
  unfold Org.roleIdOf
  rw [hmembers]
  by_cases htarget : userId = target
  · subst htarget
    cases org.members userId with
    | none => simp
    | some member => simp
  · simp [htarget]

theorem roleOf_setMemberRole (h : ∀ id, roleId = some id → (org.roles id).isSome) :
    (org.setMemberRole target roleId h).roleOf userId =
      if userId = target ∧ (org.members target).isSome then roleId.bind org.roles
      else org.roleOf userId := by
  unfold Org.roleOf
  rw [roleIdOf_setMemberRole]
  split <;> rfl

/-- A role that a member has is there. -/
theorem roles_of_roleIdOf {id : ℕ} (h : org.roleIdOf userId = some id) :
    ∃ role, org.roles id = some role := by
  obtain ⟨member, hmember, hid⟩ := Option.bind_eq_some_iff.mp h
  exact Option.isSome_iff_exists.mp (org.exists_role userId member id hmember hid)

/-! ## Requests -/

variable {start : Org} {actors : List ℕ} {r : Request}

/-- Where new ranks are below that of an acting user, and new flags may be had. -/
theorem Contained.write (h : Contained start actors org) (hactor : r.userId ∈ actors)
    (hstart : org.ownerId = start.ownerId) (howner : org'.ownerId = org.ownerId)
    (hrank : ∀ userId, (org'.roleOf userId).map Role.rank = (org.roleOf userId).map Role.rank ∨
      ∀ role, org'.roleOf userId = some role → role.rank < org.level r.userId)
    (hflag : ∀ userId role, org'.roleOf userId = some role → ∀ flag ∈ role.permissions,
      checkModerationPermission org userId flag = true ∨ MayHave start actors userId flag) :
    Contained start actors org' := by
  -- The user of the request has not risen to the highest one either.
  obtain ⟨actor, hin, hle⟩ : ∃ actor ∈ actors, org.level r.userId ≤ start.level actor := by
    rcases lt_or_ge (start.level r.userId) (org.level r.userId) with hlt | hge
    · obtain ⟨actor, hin, hlt⟩ := h.level r.userId hlt
      exact ⟨actor, hin, hlt.le⟩
    · exact ⟨r.userId, hactor, hge⟩
  constructor
  · intro userId hlt
    by_cases hne : userId = org.ownerId
    · have hsame : org'.level userId = org.level userId := by
        rw [hne, level_owner, ← howner, level_owner]
      rw [hsame] at hlt ⊢
      exact h.level userId hlt
    · have hlevel := level_of_ne hne
      have hlevel' := level_of_ne (howner ▸ hne)
      rcases hrank userId with hsame | hbelow
      · have hsame : org'.level userId = org.level userId := by
          rw [hlevel, hlevel']
          cases horg : org.roleOf userId <;> cases horg' : org'.roleOf userId <;>
            simp_all
        rw [hsame] at hlt ⊢
        exact h.level userId hlt
      · refine ⟨actor, hin, lt_of_lt_of_le ?_ hle⟩
        have hpos := lt_of_le_of_lt (level_nonneg userId) hlt
        rw [hlevel'] at hpos ⊢
        cases hrole : org'.roleOf userId with
        | none =>
            rw [hrole] at hpos
            exact absurd hpos (lt_irrefl 0)
        | some role =>
            rw [hrole] at hpos
            dsimp only [Option.elim] at hpos ⊢
            have hrole := hbelow role hrole
            omega
  · intro userId flag hcheck
    rcases checkModerationPermission_iff.mp hcheck with hne | ⟨role, hrole, hin⟩
    · exact .inl (checkModerationPermission_iff.mpr (.inl (by rw [hne, howner, hstart])))
    · rcases hflag userId role hrole flag hin with hold | hmay
      · exact h.flag userId flag hold
      · exact hmay

variable {permissions : Option (List String)} {level : Option ℤ}

theorem createRole_ok {id : ℕ} {name : String}
    (h : createRole org userId id name permissions level = .ok org') :
    org.roles id = none ∧ ∃ role, org' = org.putRole id role := by
  unfold createRole at h
  dsimp only at h
  split at h
  · split at h
    · cases h
    · split at h
      · cases h
      · obtain rfl := Except.ok.inj h
        exact ⟨Option.not_isSome_iff_eq_none.mp ‹_›, _, rfl⟩
  · cases h

theorem updateRole_ok (hne : userId ≠ org.ownerId) {roleId : ℕ} {name : Option String}
    (h : updateRole org userId roleId name permissions level = .ok org') :
    ∃ role, org.roles roleId = some role ∧ role.rank < org.level userId ∧
      (∀ l, level = some l → l < org.level userId) ∧
      org' = org.putRole roleId
        { name := name.getD role.name
          permissions := permissions.getD role.permissions
          level := level.or role.level } := by
  unfold updateRole at h
  dsimp only at h
  split at h
  · split at h
    · cases h
    · rename_i role hrole
      split at h
      · cases h
      · rename_i hrank
        split at h
        · cases h
        · rename_i hlevel
          refine ⟨role, hrole, not_outranked hne hrank, ?_, (Except.ok.inj h).symm⟩
          rintro l rfl
          exact not_outranked hne hlevel
  · cases h

variable {mayDelete : Org → ℕ → Bool}

theorem deleteRole_ok (hne : userId ≠ org.ownerId) {roleId : ℕ}
    (h : deleteRole org userId mayDelete roleId = .ok org') :
    ∃ role, org.roles roleId = some role ∧ role.rank < org.level userId ∧
      org' = org.dropRole roleId := by
  unfold deleteRole at h
  dsimp only at h
  split at h
  · split at h
    · cases h
    · rename_i role hrole
      split at h
      · cases h
      · rename_i hrank
        split at h
        · exact ⟨role, hrole, not_outranked hne hrank, (Except.ok.inj h).symm⟩
        · cases h
  · cases h

theorem assignMemberRole_ok (hne : userId ≠ org.ownerId)
    (h : assignMemberRole org userId target roleId = .ok org') :
    (∀ role, roleId.bind org.roles = some role → role.rank < org.level userId) ∧
      ∃ hexists, org' = org.setMemberRole target roleId hexists := by
  unfold assignMemberRole at h
  dsimp only at h
  split at h
  · split at h
    · exact ⟨(fun _ hrole => by cases hrole), _, (Except.ok.inj h).symm⟩
    · split at h
      · cases h
      · rename_i role hrole
        split at h
        · cases h
        · rename_i hrank
          refine ⟨?_, _, (Except.ok.inj h).symm⟩
          intro role' hrole'
          obtain rfl := Option.some.inj (hrole.symm.trans hrole')
          exact not_outranked hne hrank
  · cases h

/-- The state and the users that a sequence of requests goes on with. -/
structure Going (start : Org) (actors : List ℕ) (org : Org) (r : Request) : Prop where
  contained : Contained start actors org
  owner : org.ownerId = start.ownerId
  actor : r.userId ∈ actors
  other : r.userId ≠ org.ownerId

/-- A new role is nobody's yet. -/
theorem Going.create {id : ℕ} {role : Role} (h : Going start actors org r)
    (hnew : org.roles id = none) : Hierarchy start actors org r (org.putRole id role) := by
  have hunheld : ∀ userId, org.roleIdOf userId ≠ some id := by
    intro userId hid
    obtain ⟨role', hrole'⟩ := roles_of_roleIdOf hid
    rw [hnew] at hrole'
    cases hrole'
  have hsame : ∀ userId, (org.putRole id role).roleOf userId = org.roleOf userId := by
    intro userId
    rw [roleOf_putRole, if_neg (hunheld userId)]
  refine ⟨?_, fun userId _ hmoved => absurd rfl hmoved, ?_⟩
  · intro id' role' hrole' hchanged
    by_cases hid : id' = id
    · rw [hid, hnew] at hrole'
      cases hrole'
    · exact absurd ((Function.update_of_ne hid ..).trans hrole') hchanged
  · refine h.contained.write h.actor h.owner rfl (fun userId => .inl ?_) ?_
    · rw [hsame]
    · intro userId role' hrole' flag hin
      rw [hsame] at hrole'
      exact .inl (checkModerationPermission_iff.mpr (.inr ⟨role', hrole', hin⟩))

/-- What a role becomes, with the flags that the request sends if it sends some. -/
theorem Going.update {id : ℕ} {role role' : Role} (h : Going start actors org r)
    (hrole : org.roles id = some role) (hrank : role.rank < org.level r.userId)
    (hrank' : role'.rank = role.rank ∨ role'.rank < org.level r.userId)
    (hflags : role'.permissions = permissions.getD role.permissions) :
    Hierarchy start actors org r (org.putRole id role') ↔
      ∀ flags, permissions = some flags → ∀ userId, org.roleIdOf userId = some id →
        ∀ flag ∈ flags, MayHave start actors userId flag := by
  have hold : ∀ userId, org.roleIdOf userId = some id → org.roleOf userId = some role := by
    intro userId hid
    unfold Org.roleOf
    rw [hid]
    exact hrole
  constructor
  · rintro hhierarchy flags rfl userId hid flag hin
    refine hhierarchy.contained.flag userId flag (checkModerationPermission_iff.mpr (.inr ?_))
    exact ⟨role', (roleOf_putRole id role').trans (if_pos hid), hflags ▸ hin⟩
  · intro hguarded
    refine ⟨?_, fun userId _ hmoved => absurd rfl hmoved, ?_⟩
    · intro id' role'' hrole'' hchanged
      by_cases hid : id' = id
      · subst hid
        obtain rfl := Option.some.inj (hrole.symm.trans hrole'')
        exact hrank
      · exact absurd ((Function.update_of_ne hid ..).trans hrole'') hchanged
    · refine h.contained.write h.actor h.owner rfl ?_ ?_
      · intro userId
        rw [roleOf_putRole]
        split
        · rename_i hid
          rcases hrank' with hsame | hbelow
          · exact .inl (by rw [hold userId hid, Option.map_some, Option.map_some, hsame])
          · exact .inr fun _ hnew => Option.some.inj hnew ▸ hbelow
        · exact .inl rfl
      · intro userId role'' hrole'' flag hin
        rw [roleOf_putRole] at hrole''
        split at hrole''
        · rename_i hid
          obtain rfl := Option.some.inj hrole''
          rw [hflags] at hin
          cases permissions with
          | none =>
              exact .inl (checkModerationPermission_iff.mpr (.inr ⟨role, hold userId hid, hin⟩))
          | some flags => exact .inr (hguarded flags rfl userId hid flag hin)
        · exact .inl (checkModerationPermission_iff.mpr (.inr ⟨role'', hrole'', hin⟩))

theorem Going.delete {id : ℕ} {role : Role} (h : Going start actors org r)
    (hrole : org.roles id = some role) (hrank : role.rank < org.level r.userId) :
    Hierarchy start actors org r (org.dropRole id) ↔
      ∀ userId, userId ≠ r.userId → org.roleIdOf userId = some id →
        org.level userId < org.level r.userId := by
  constructor
  · intro hhierarchy userId hne hid
    refine hhierarchy.members userId hne ?_
    rw [roleIdOf_dropRole, if_pos hid, hid]
    exact nofun
  · intro hguarded
    refine ⟨?_, ?_, ?_⟩
    · intro id' role' hrole' hchanged
      by_cases hid : id' = id
      · subst hid
        obtain rfl := Option.some.inj (hrole.symm.trans hrole')
        exact hrank
      · exact absurd ((Function.update_of_ne hid ..).trans hrole') hchanged
    · intro userId hne hmoved
      by_cases hid : org.roleIdOf userId = some id
      · exact hguarded userId hne hid
      · rw [roleIdOf_dropRole, if_neg hid] at hmoved
        exact absurd rfl hmoved
    · refine h.contained.write h.actor h.owner rfl ?_ ?_
      · intro userId
        rw [roleOf_dropRole]
        split
        · exact .inr nofun
        · exact .inl rfl
      · intro userId role' hrole' flag hin
        rw [roleOf_dropRole] at hrole'
        split at hrole'
        · cases hrole'
        · exact .inl (checkModerationPermission_iff.mpr (.inr ⟨role', hrole', hin⟩))

theorem Going.assign (h : Going start actors org r)
    (hexists : ∀ id, roleId = some id → (org.roles id).isSome)
    (hrank : ∀ role, roleId.bind org.roles = some role → role.rank < org.level r.userId) :
    Hierarchy start actors org r (org.setMemberRole target roleId hexists) ↔
      ((org.members target).isSome →
        (target ≠ r.userId → org.roleIdOf target ≠ roleId →
          org.level target < org.level r.userId) ∧
        ∀ role, roleId.bind org.roles = some role → ∀ flag ∈ role.permissions,
          MayHave start actors target flag) := by
  constructor
  · intro hhierarchy hmember
    refine ⟨fun hne hmoved => hhierarchy.members target hne ?_, fun role hrole flag hin => ?_⟩
    · rw [roleIdOf_setMemberRole, if_pos ⟨rfl, hmember⟩]
      exact hmoved.symm
    · refine hhierarchy.contained.flag target flag (checkModerationPermission_iff.mpr (.inr ?_))
      exact ⟨role, (roleOf_setMemberRole hexists).trans ((if_pos ⟨rfl, hmember⟩).trans hrole), hin⟩
  · intro hguarded
    refine ⟨fun id role hrole hchanged => absurd hrole hchanged, ?_, ?_⟩
    · intro userId hne hmoved
      rw [roleIdOf_setMemberRole] at hmoved
      split at hmoved
      · rename_i htarget
        obtain ⟨rfl, hmember⟩ := htarget
        exact (hguarded hmember).1 hne (Ne.symm hmoved)
      · exact absurd rfl hmoved
    · refine h.contained.write h.actor h.owner rfl ?_ ?_
      · intro userId
        rw [roleOf_setMemberRole]
        split
        · exact .inr hrank
        · exact .inl rfl
      · intro userId role hrole flag hin
        rw [roleOf_setMemberRole] at hrole
        split at hrole
        · rename_i htarget
          obtain ⟨rfl, hmember⟩ := htarget
          exact .inr ((hguarded hmember).2 role hrole flag hin)
        · exact .inl (checkModerationPermission_iff.mpr (.inr ⟨role, hrole, hin⟩))

/-- A request keeps to the hierarchy exactly if it is guarded. -/
theorem Going.step (h : Going start actors org r) {mayDelete : Org → ℕ → Bool}
    (hstep : handle mayDelete org r = .ok org') :
    Hierarchy start actors org r org' ↔ Guarded start actors org r := by
  obtain ⟨userId, action⟩ := r
  cases action with
  | createRole id name permissions level =>
      obtain ⟨hnew, role, rfl⟩ := createRole_ok hstep
      exact iff_of_true (h.create hnew) trivial
  | updateRole roleId name permissions level =>
      obtain ⟨role, hrole, hrank, hlevel, rfl⟩ := updateRole_ok h.other hstep
      refine h.update hrole hrank ?_ rfl
      cases level with
      | none => exact .inl rfl
      | some l => exact .inr (hlevel l rfl)
  | deleteRole roleId =>
      obtain ⟨role, hrole, hrank, rfl⟩ := deleteRole_ok h.other hstep
      exact h.delete hrole hrank
  | assignMemberRole target roleId =>
      obtain ⟨hrank, hexists, rfl⟩ := assignMemberRole_ok h.other hstep
      exact h.assign hexists hrank

theorem owner_of_handle (h : handle mayDelete org r = .ok org') (hne : r.userId ≠ org.ownerId) :
    org'.ownerId = org.ownerId := by
  obtain ⟨userId, action⟩ := r
  cases action with
  | createRole id name permissions level =>
      obtain ⟨-, role, rfl⟩ := createRole_ok h
      rfl
  | updateRole roleId name permissions level =>
      obtain ⟨role, -, -, -, rfl⟩ := updateRole_ok hne h
      rfl
  | deleteRole roleId =>
      obtain ⟨role, -, -, rfl⟩ := deleteRole_ok hne h
      rfl
  | assignMemberRole target roleId =>
      obtain ⟨-, hexists, rfl⟩ := assignMemberRole_ok hne h
      rfl

theorem contained_start (start : Org) (actors : List ℕ) : Contained start actors start where
  level _ h := absurd h (lt_irrefl _)
  flag _ _ h := .inl h

theorem going_step (mayDelete : Org → ℕ → Bool) (actors : List ℕ) (start org : Org) (r : Request)
    (org' : Org) (h : Contained start actors org ∧ org.ownerId = start.ownerId)
    (hstep : (roleRequests mayDelete actors).step org r = some org') :
    (Hierarchy start actors org r org' ↔ Guarded start actors org r) ∧
      (Guarded start actors org r →
        Contained start actors org' ∧ org'.ownerId = start.ownerId) := by
  obtain ⟨⟨hactor, hother⟩, hstep⟩ := Option.ite_none_right_eq_some.mp hstep
  have hok : handle mayDelete org r = .ok org' := by
    cases hhandle : handle mayDelete org r with
    | error e =>
        rw [hhandle] at hstep
        cases hstep
    | ok t =>
        rw [hhandle] at hstep
        rw [Option.some.inj hstep]
  have hiff := Going.step ⟨h.1, h.2, hactor, hother⟩ hok
  exact ⟨hiff, fun hguarded =>
    ⟨(hiff.mpr hguarded).contained, (owner_of_handle hok hother).trans h.2⟩⟩

/-- Throughout a sequence of requests the hierarchy is kept, exactly if every request is guarded. -/
theorem hierarchy_iff (mayDelete : Org → ℕ → Bool) (actors : List ℕ) (start : Org)
    (rs : List Request) :
    (∀ org r org', (roleRequests mayDelete actors).Passes start rs org r org' →
        Hierarchy start actors org r org') ↔
      ∀ org r org', (roleRequests mayDelete actors).Passes start rs org r org' →
        Guarded start actors org r :=
  StepSystem.passes_iff (P := Hierarchy start actors) (C := Guarded start actors)
    (going_step mayDelete actors start) ⟨contained_start start actors, rfl⟩ rs

/-- An organization where one member manages roles. -/
def managed : Org where
  ownerId := 0
  roles id :=
    if id = 10 then some { name := "Lead", permissions := ["can_manage_roles"], level := some 20 }
    else none
  members userId := if userId = 1 then some { roleId := some 10 } else none
  exists_role userId member id hmember hid := by
    split at hmember
    · obtain rfl := Option.some.inj hmember
      obtain rfl := Option.some.inj hid
      rfl
    · cases hmember

/-- The member writes a role that may ban, below their own, and takes it. -/
theorem manager_mints_can_ban :
    ¬ ∀ (mayDelete : Org → ℕ → Bool) (actors : List ℕ) (start : Org) (rs : List Request) (org : Org)
        (r : Request) (org' : Org), (roleRequests mayDelete actors).Passes start rs org r org' →
      Hierarchy start actors org r org' := by
  intro h
  have hlast : (roleRequests (fun _ _ => true) [1]).Passes managed
      ([⟨1, .createRole 11 "Squad" (some ["can_manage_roles", "can_ban"]) (some 10)⟩] ++
        ⟨1, .assignMemberRole 1 (some 11)⟩ :: []) _ _ _ :=
    ⟨_, _, rfl, StepSystem.exec_eq_some_iff.mp rfl, rfl⟩
  have hflag := (h _ _ _ _ _ _ _ hlast).contained.flag 1 "can_ban" (by decide +kernel)
  rcases hflag with hstart | ⟨actor, hactor, hstart | ⟨id, role, hrole, -, hin⟩⟩
  · revert hstart
    decide +kernel
  · obtain rfl := List.mem_singleton.mp hactor
    revert hstart
    decide +kernel
  · dsimp only [managed] at hrole
    split at hrole
    · obtain rfl := Option.some.inj hrole
      revert hin
      decide
    · cases hrole

end SpecterComs.Roles
