import SpecterComs.Verification.Portal.EventGroups

/-! # Which roles a frequency reaches

A frequency refers to a role by two indices. Of the edits that shift roles only the removal on the
strip's role page shifts the references with them. After any other edit a reference may name a role
that nobody chose.
-/

namespace SpecterComs.EventGroups

variable {p : Plan} {groups : List Group} {f : Frequency} {gi ri i : ℕ}

/-- A role of the plan, by its place. -/
def HasRole (groups : List Group) (place : ℕ × ℕ) : Prop :=
  place.2 < (rolesOf groups place.1).length

instance (groups : List Group) (place : ℕ × ℕ) : Decidable (HasRole groups place) :=
  inferInstanceAs (Decidable (_ < _))

/-- The frequency refers to a role of the plan. -/
def Designates (groups : List Group) (f : Frequency) (place : ℕ × ℕ) : Prop :=
  hasRef f place.1 place.2 = true ∧ HasRole groups place

instance (groups : List Group) (f : Frequency) (place : ℕ × ℕ) :
    Decidable (Designates groups f place) :=
  inferInstanceAs (Decidable (_ ∧ _))

/-- Where a role is after an edit. -/
def PlanEdit.moved : PlanEdit → ℕ × ℕ → Option (ℕ × ℕ)
  | .removeGroup i, (gi, ri) => (shiftIndex i (some gi)).map fun gi => (gi, ri)
  | .removeRole gi ri, (gi', ri') | .onRemove gi ri, (gi', ri') =>
      if gi' = gi then (shiftIndex ri (some ri')).map fun ri' => (gi, ri') else some (gi', ri')
  | .applyPreset _, _ => none
  | _, place => some place

/-- Each frequency designates the roles that it did, where they are now. -/
def FollowsRoles (p : Plan) (e : PlanEdit) (p' : Plan) : Prop :=
  match e with
  | .setFrequencies _ => True
  | e =>
      List.Forall₂ (fun f f' => ∀ place, Designates p'.groups f' place ↔
        ∃ was, Designates p.groups f was ∧ e.moved was = some place) p.frequencies p'.frequencies

/-- No frequency refers to the places of `count` roles at the end of a group. -/
def Plan.free (p : Plan) (gi count : ℕ) : Bool :=
  p.frequencies.all fun f => (List.range count).all fun k =>
    !hasRef f gi ((rolesOf p.groups gi).length + k)

/-- Whether the references survive an edit. Behind a group that is removed, a frequency has to refer
to a role exactly if it refers to the same place of the group before; likewise behind a role that
the full planner removes. New roles have to come to places that no frequency refers to. -/
def Plan.keepsLinks (p : Plan) : PlanEdit → Bool
  | .removeGroup i =>
      p.frequencies.all fun f => (List.range p.groups.length).all fun gi => gi ≤ i ||
        (List.range (rolesOf p.groups gi).length).all fun ri => hasRef f (gi - 1) ri == hasRef f gi ri
  | .removeRole gi ri =>
      p.frequencies.all fun f => (List.range (rolesOf p.groups gi).length).all fun ri' => ri' ≤ ri ||
        hasRef f gi (ri' - 1) == hasRef f gi ri'
  | .addRole gi _ => p.groups.length ≤ gi || p.free gi 1
  | .importShipRoles gi roles => p.groups.length ≤ gi || p.free gi roles.length
  | .autoFill gi roles =>
      p.groups.length ≤ gi || rolesOf p.groups gi ≠ [] || p.free gi roles.length
  | _ => true

/-! ## The roles after an edit -/

theorem rolesOf_eq_nil (h : groups.length ≤ gi) : rolesOf groups gi = [] := by
  simp [rolesOf, List.getElem?_eq_none_iff.mpr h]

variable {place : ℕ × ℕ}

theorem HasRole.lt (h : HasRole groups place) : place.1 < groups.length := by
  by_contra hge
  rw [HasRole, rolesOf_eq_nil (Nat.le_of_not_lt hge)] at h
  cases h

theorem rolesOf_append {g : Group} (hg : g.roles = []) :
    rolesOf (groups ++ [g]) gi = rolesOf groups gi := by
  unfold rolesOf
  rw [List.getElem?_append]
  split_ifs with hlt
  · rfl
  · rw [List.getElem?_eq_none_iff.mpr (Nat.le_of_not_lt hlt), List.getElem?_singleton]
    split_ifs <;> simp [hg]

theorem rolesOf_removeGroupAt :
    rolesOf (removeGroupAt groups i) gi = rolesOf groups (if gi < i then gi else gi + 1) := by
  unfold rolesOf removeGroupAt
  rw [List.getElem?_map, List.getElem?_eraseIdx]
  split_ifs
  · cases groups[gi]? <;> rfl
  · cases groups[gi + 1]? <;> rfl

theorem rolesOf_modify {fn : Group → Group} (idx : ℕ) (hfn : ∀ g, (fn g).roles = g.roles) :
    rolesOf (groups.modify idx fn) gi = rolesOf groups gi := by
  unfold rolesOf
  rw [List.getElem?_modify]
  cases groups[gi]? with
  | none => rfl
  | some g => by_cases h : idx = gi <;> simp [h, hfn]

theorem rolesOf_setParent (idx : ℕ) (target : Option ℕ) :
    rolesOf (setParent groups idx target) gi = rolesOf groups gi :=
  rolesOf_modify idx fun _ => rfl

theorem rolesOf_setLink (idx : ℕ) (target : Option ℕ) :
    rolesOf (groups.modify idx fun g => { g with linkedIndex := target }) gi = rolesOf groups gi :=
  rolesOf_modify idx fun _ => rfl

theorem rolesOf_reparentGroup (idx parentIdx : Option ℕ) :
    rolesOf (reparentGroup groups idx parentIdx) gi = rolesOf groups gi := by
  unfold reparentGroup
  split
  · rfl
  · split
    · rfl
    · split_ifs
      · rfl
      · rfl
      · exact rolesOf_setParent _ _

theorem rolesOf_setRoles {fn : List Role → List Role} {gi' : ℕ} :
    rolesOf (setRoles groups gi fn) gi' =
      if gi' = gi ∧ gi < groups.length then fn (rolesOf groups gi) else rolesOf groups gi' := by
  unfold rolesOf setRoles
  rw [List.getElem?_modify]
  by_cases h : gi = gi'
  · subst h
    by_cases hlt : gi < groups.length
    · simp [hlt]
    · simp [hlt]
  · simp [h, Ne.symm h]

theorem rolesOf_added {added : List Role} (gi' : ℕ) :
    rolesOf (setRoles groups gi fun rs => rs ++ added) gi' =
      if gi' = gi ∧ gi < groups.length then rolesOf groups gi ++ added else rolesOf groups gi' :=
  rolesOf_setRoles

theorem rolesOf_groupsFromPresetLayout (layout : List LayoutGroup) :
    rolesOf (groupsFromPresetLayout layout) gi = [] := by
  unfold rolesOf groupsFromPresetLayout
  rw [List.getElem?_map]
  cases layout.zipIdx[gi]? <;> rfl

/-! ## When the references follow -/

section Frequency

variable {groups' : List Group} {f' : Frequency} {moved : ℕ × ℕ → Option (ℕ × ℕ)}
  {back : ℕ × ℕ → ℕ × ℕ}

/-- Where each role of the new plan was a role before. -/
theorem follows_iff_back (hmoved : ∀ was place, moved was = some place ↔ was = back place)
    (hroles : ∀ place, HasRole groups' place ↔ HasRole groups (back place)) :
    (∀ place, Designates groups' f' place ↔
        ∃ was, Designates groups f was ∧ moved was = some place) ↔
      ∀ place, HasRole groups (back place) →
        hasRef f' place.1 place.2 = hasRef f (back place).1 (back place).2 := by
  apply forall_congr'
  intro place
  have hexists : (∃ was, Designates groups f was ∧ moved was = some place) ↔
      Designates groups f (back place) := by
    simp only [hmoved, exists_eq_right]
  have hrefs : hasRef f' place.1 place.2 = hasRef f (back place).1 (back place).2 ↔
      (hasRef f' place.1 place.2 = true ↔ hasRef f (back place).1 (back place).2 = true) :=
    Bool.eq_iff_iff
  rw [hexists, Designates, Designates, hroles, hrefs]
  tauto

/-- Where there are more roles than before. -/
theorem follows_iff_added (hroles : ∀ place, HasRole groups place → HasRole groups' place) :
    (∀ place, Designates groups' f place ↔
        ∃ was, Designates groups f was ∧ some was = some place) ↔
      ∀ place, HasRole groups' place → ¬ HasRole groups place →
        hasRef f place.1 place.2 = false := by
  apply forall_congr'
  intro place
  have hold := hroles place
  simp only [Option.some.injEq, exists_eq_right, Designates, ← Bool.not_eq_true]
  tauto

end Frequency

variable {groups' : List Group}

theorem follows_refl (hroles : ∀ gi, rolesOf groups' gi = rolesOf groups gi)
    (frequencies : List Frequency) :
    List.Forall₂ (fun f f' => ∀ place, Designates groups' f' place ↔
      ∃ was, Designates groups f was ∧ some was = some place) frequencies frequencies := by
  rw [List.forall₂_same]
  intro f _
  simp [Designates, HasRole, hroles]

theorem shiftIndex_eq_some_iff {x j : ℕ} :
    shiftIndex i (some x) = some j ↔ x = if j < i then j else j + 1 := by
  constructor
  · exact fun h => Option.some.inj (shiftIndex_eq_some h)
  · rintro rfl
    simp only [shiftIndex, Option.bind_some]
    split_ifs <;> first | omega | simp

/-- The place before a group went. -/
def groupBack (i : ℕ) (place : ℕ × ℕ) : ℕ × ℕ :=
  (if place.1 < i then place.1 else place.1 + 1, place.2)

/-- The place before a role went. -/
def roleBack (gi ri : ℕ) (place : ℕ × ℕ) : ℕ × ℕ :=
  if place.1 = gi then (gi, if place.2 < ri then place.2 else place.2 + 1) else place

theorem moved_removeGroup (was place : ℕ × ℕ) :
    (PlanEdit.removeGroup i).moved was = some place ↔ was = groupBack i place := by
  obtain ⟨x, r⟩ := was
  obtain ⟨y, r'⟩ := place
  simp only [PlanEdit.moved, Option.map_eq_some_iff, shiftIndex_eq_some_iff, groupBack,
    Prod.mk.injEq]
  constructor
  · rintro ⟨_, hx, rfl, rfl⟩
    exact ⟨hx, rfl⟩
  · rintro ⟨hx, rfl⟩
    exact ⟨y, hx, rfl, rfl⟩

theorem moved_removeRole (was place : ℕ × ℕ) :
    (PlanEdit.removeRole gi ri).moved was = some place ↔ was = roleBack gi ri place := by
  obtain ⟨x, r⟩ := was
  obtain ⟨y, r'⟩ := place
  by_cases hx : x = gi
  · subst hx
    simp only [PlanEdit.moved, if_true, Option.map_eq_some_iff, shiftIndex_eq_some_iff, roleBack]
    constructor
    · rintro ⟨_, hr, hplace⟩
      obtain ⟨rfl, rfl⟩ := Prod.mk.inj hplace
      simp [hr]
    · intro h
      split_ifs at h with hy hlt
      all_goals simp_all
  · simp only [PlanEdit.moved, hx, if_false, Option.some.injEq, roleBack]
    by_cases hy : y = gi
    · subst hy
      simp [hx]
    · simp [hy]

theorem hasRole_removeGroup (place : ℕ × ℕ) :
    HasRole (removeGroupAt groups i) place ↔ HasRole groups (groupBack i place) := by
  rw [HasRole, rolesOf_removeGroupAt]
  rfl

theorem hasRole_removeRole (place : ℕ × ℕ) :
    HasRole (setRoles groups gi fun rs => rs.eraseIdx ri) place ↔
      HasRole groups (roleBack gi ri place) := by
  obtain ⟨y, r⟩ := place
  unfold HasRole roleBack
  rw [rolesOf_setRoles]
  by_cases hy : y = gi
  · subst hy
    by_cases hlt : y < groups.length
    · simp only [hlt, and_self, if_true, List.length_eraseIdx]
      split_ifs <;> omega
    · rw [if_neg (by simp [hlt])]
      simp [rolesOf_eq_nil (Nat.le_of_not_lt hlt)]
  · simp [hy]

/-- The references come from where they should. -/
theorem hasRef_removeRoleFromFrequency (place : ℕ × ℕ) :
    hasRef (removeRoleFromFrequency gi ri f) place.1 place.2 =
      hasRef f (roleBack gi ri place).1 (roleBack gi ri place).2 := by
  obtain ⟨y, r⟩ := place
  unfold hasRef removeRoleFromFrequency roleBack
  rw [List.any_map, List.any_filter]
  congr 1
  funext ref
  obtain ⟨g, r₀⟩ := ref
  rw [Bool.eq_iff_iff]
  by_cases hg : g = some gi
  · subst hg
    by_cases hy : y = gi
    · subst hy
      by_cases hlt : ri < r₀ <;> by_cases hr : r < ri <;> simp [hlt, hr] <;> omega
    · have hy' : gi ≠ y := Ne.symm hy
      by_cases hlt : ri < r₀ <;> simp [hlt, hy, hy']
  · by_cases hy : y = gi
    · simp [hg, hy]
    · simp [hg, hy]

variable {added : List Role}

theorem role_added
    (hroles : ∀ gi', rolesOf groups' gi' = if gi' = gi ∧ gi < groups.length then rolesOf groups gi ++ added else rolesOf groups gi')
    (h : HasRole groups place) :
    (rolesOf groups' place.1)[place.2]? = (rolesOf groups place.1)[place.2]? := by
  rw [hroles]
  split_ifs with hgi
  · have hlt : place.2 < (rolesOf groups gi).length := hgi.1 ▸ h
    rw [hgi.1]
    exact List.getElem?_append_left hlt
  · rfl

theorem role_removed (place : ℕ × ℕ) :
    (rolesOf (setRoles groups gi fun rs => rs.eraseIdx ri) place.1)[place.2]? =
      (rolesOf groups (roleBack gi ri place).1)[(roleBack gi ri place).2]? := by
  obtain ⟨g, r⟩ := place
  unfold roleBack
  rw [rolesOf_setRoles]
  by_cases hg : g = gi
  · subst hg
    by_cases hlt : g < groups.length
    · simp only [hlt, and_self, if_true, List.getElem?_eraseIdx]
      split_ifs <;> rfl
    · simp [hlt, rolesOf_eq_nil (Nat.le_of_not_lt hlt)]
  · simp [hg]

/-- The role is where `moved` says. -/
theorem role_moved {e : PlanEdit} {was : ℕ × ℕ} (h : HasRole p.groups was)
    (hmoved : e.moved was = some place) :
    (rolesOf (p.edit e).groups place.1)[place.2]? = (rolesOf p.groups was.1)[was.2]? := by
  cases e with
  | addGroup name parentIndex =>
      obtain rfl := Option.some.inj hmoved
      rw [Plan.edit, rolesOf_append rfl]
  | removeGroup i =>
      obtain rfl := (moved_removeGroup was place).mp hmoved
      rw [Plan.edit, rolesOf_removeGroupAt]
      rfl
  | reparentGroup idx parentIdx =>
      obtain rfl := Option.some.inj hmoved
      rw [Plan.edit, rolesOf_reparentGroup]
  | updateParent idx parentIndex =>
      obtain rfl := Option.some.inj hmoved
      rw [Plan.edit, rolesOf_setParent]
  | setLink idx target =>
      obtain rfl := Option.some.inj hmoved
      rw [Plan.edit, rolesOf_setLink]
  | addRole gi name =>
      obtain rfl := Option.some.inj hmoved
      exact role_added rolesOf_added h
  | importShipRoles gi roles =>
      obtain rfl := Option.some.inj hmoved
      exact role_added rolesOf_added h
  | autoFill gi roles =>
      obtain rfl := Option.some.inj hmoved
      rw [Plan.edit]
      split_ifs with hempty
      · have hnil := List.length_eq_zero_iff.mp hempty
        dsimp only
        rw [rolesOf_setRoles]
        split_ifs with hgi
        · rw [HasRole, hgi.1, hnil] at h
          cases h
        · rfl
      · rfl
  | removeRole gi ri =>
      obtain rfl := (moved_removeRole was place).mp hmoved
      exact role_removed place
  | onRemove gi ri =>
      obtain rfl := (moved_removeRole was place).mp hmoved
      exact role_removed place
  | applyPreset layout => cases hmoved
  | setFrequencies frequencies =>
      obtain rfl := Option.some.inj hmoved
      rfl

/-! ## Each edit -/

/-- A group that goes: the later groups move up to the places before them. -/
theorem forall_groupBack :
    (∀ place, HasRole groups (groupBack i place) →
        hasRef f place.1 place.2 = hasRef f (groupBack i place).1 (groupBack i place).2) ↔
      ((List.range groups.length).all fun gi => gi ≤ i ||
        (List.range (rolesOf groups gi).length).all fun ri =>
          hasRef f (gi - 1) ri == hasRef f gi ri) = true := by
  simp only [List.all_eq_true, List.mem_range, Bool.or_eq_true, decide_eq_true_eq, beq_iff_eq]
  constructor
  · intro h gi _
    by_cases hle : gi ≤ i
    · exact .inl hle
    · right
      intro ri hri
      have hback : groupBack i (gi - 1, ri) = (gi, ri) := by
        rw [groupBack, if_neg (by dsimp only; omega)]
        congr 1
        dsimp only
        omega
      have hplace := h (gi - 1, ri)
      rw [hback] at hplace
      exact hplace hri
  · rintro h ⟨g, r⟩ hrole
    by_cases hlt : g < i
    · rw [groupBack, if_pos hlt]
    · rw [groupBack, if_neg hlt] at hrole ⊢
      rcases h (g + 1) hrole.lt with hle | hrefs
      · omega
      · exact hrefs r hrole

theorem forall_roleBack :
    (∀ place, HasRole groups (roleBack gi ri place) →
        hasRef f place.1 place.2 =
          hasRef f (roleBack gi ri place).1 (roleBack gi ri place).2) ↔
      ((List.range (rolesOf groups gi).length).all fun ri' => ri' ≤ ri ||
        hasRef f gi (ri' - 1) == hasRef f gi ri') = true := by
  simp only [List.all_eq_true, List.mem_range, Bool.or_eq_true, decide_eq_true_eq, beq_iff_eq]
  constructor
  · intro h ri' hri'
    by_cases hle : ri' ≤ ri
    · exact .inl hle
    · right
      have hback : roleBack gi ri (gi, ri' - 1) = (gi, ri') := by
        rw [roleBack, if_pos rfl, if_neg (by dsimp only; omega)]
        congr 1
        dsimp only
        omega
      have hplace := h (gi, ri' - 1)
      rw [hback] at hplace
      exact hplace hri'
  · rintro h ⟨g, r⟩ hrole
    by_cases hg : g = gi
    · subst hg
      by_cases hlt : r < ri
      · simp [roleBack, hlt]
      · simp only [roleBack, if_true, hlt, if_false] at hrole ⊢
        rcases h (r + 1) hrole with hle | hrefs
        · omega
        · exact hrefs
    · simp [roleBack, hg]

theorem followsRoles_removeGroup :
    FollowsRoles p (.removeGroup i) (p.edit (.removeGroup i)) ↔
      p.keepsLinks (.removeGroup i) = true := by
  change List.Forall₂ _ p.frequencies p.frequencies ↔ _
  rw [List.forall₂_same, Plan.keepsLinks, List.all_eq_true]
  apply forall₂_congr
  intro f _
  exact (follows_iff_back moved_removeGroup hasRole_removeGroup).trans forall_groupBack

theorem followsRoles_removeRole :
    FollowsRoles p (.removeRole gi ri) (p.edit (.removeRole gi ri)) ↔
      p.keepsLinks (.removeRole gi ri) = true := by
  change List.Forall₂ _ p.frequencies p.frequencies ↔ _
  rw [List.forall₂_same, Plan.keepsLinks, List.all_eq_true]
  apply forall₂_congr
  intro f _
  exact (follows_iff_back moved_removeRole hasRole_removeRole).trans forall_roleBack

/-- On the strip's role page the references shift with the roles. -/
theorem followsRoles_onRemove :
    FollowsRoles p (.onRemove gi ri) (p.edit (.onRemove gi ri)) := by
  change List.Forall₂ _ p.frequencies (p.frequencies.map (removeRoleFromFrequency gi ri))
  rw [List.forall₂_map_right_iff, List.forall₂_same]
  intro f _
  exact (follows_iff_back moved_removeRole hasRole_removeRole).mpr fun place _ =>
    hasRef_removeRoleFromFrequency place

/-- Roles that are added at the end of a group. -/
theorem followsRoles_added
    (hroles : ∀ gi', rolesOf groups' gi' = if gi' = gi ∧ gi < p.groups.length then rolesOf p.groups gi ++ added else rolesOf p.groups gi') :
    List.Forall₂ (fun f f' => ∀ place, Designates groups' f' place ↔
        ∃ was, Designates p.groups f was ∧ some was = some place) p.frequencies p.frequencies ↔
      (p.groups.length ≤ gi || p.free gi added.length) = true := by
  have hmore : ∀ place, HasRole p.groups place → HasRole groups' place := by
    rintro ⟨g, r⟩ hrole
    rw [HasRole, hroles]
    split_ifs with hg
    · rw [List.length_append, ← hg.1]
      exact Nat.lt_add_right _ hrole
    · exact hrole
  rw [List.forall₂_same, Bool.or_eq_true, decide_eq_true_eq, Plan.free, List.all_eq_true]
  by_cases hlt : gi < p.groups.length
  · have hnot : ¬ p.groups.length ≤ gi := Nat.not_le.mpr hlt
    simp only [hnot, false_or]
    apply forall₂_congr
    intro f _
    rw [follows_iff_added hmore]
    simp only [List.all_eq_true, List.mem_range, Bool.not_eq_true']
    constructor
    · intro h k hk
      apply h (gi, (rolesOf p.groups gi).length + k)
      · rw [HasRole, hroles, if_pos ⟨rfl, hlt⟩, List.length_append]
        exact Nat.add_lt_add_left hk _
      · simp [HasRole]
    · rintro h ⟨g, r⟩ hnew hold
      rw [HasRole, hroles] at hnew
      split_ifs at hnew with hg
      · obtain ⟨rfl, -⟩ := hg
        rw [List.length_append] at hnew
        have hnew : r < (rolesOf p.groups g).length + added.length := hnew
        have hold : ¬ r < (rolesOf p.groups g).length := hold
        dsimp only
        have hk := h (r - (rolesOf p.groups g).length) (by omega)
        have hsum : (rolesOf p.groups g).length + (r - (rolesOf p.groups g).length) = r := by omega
        rwa [hsum] at hk
      · exact absurd hnew hold
  · refine iff_of_true (fun f _ => ?_) (.inl (Nat.le_of_not_lt hlt))
    rw [follows_iff_added hmore]
    intro place hnew hold
    rw [HasRole, hroles, if_neg (fun h => hlt h.2)] at hnew
    exact absurd hnew hold

theorem followsRoles_edit (p : Plan) (e : PlanEdit) :
    FollowsRoles p e (p.edit e) ↔ p.keepsLinks e = true := by
  cases e with
  | addGroup name parentIndex =>
      exact iff_of_true (follows_refl (fun _ => rolesOf_append rfl) _) rfl
  | removeGroup i => exact followsRoles_removeGroup
  | reparentGroup idx parentIdx =>
      exact iff_of_true (follows_refl (fun _ => rolesOf_reparentGroup _ _) _) rfl
  | updateParent idx parentIndex =>
      exact iff_of_true (follows_refl (fun _ => rolesOf_setParent _ _) _) rfl
  | setLink idx target =>
      exact iff_of_true (follows_refl (fun _ => rolesOf_setLink _ _) _) rfl
  | addRole gi name =>
      exact followsRoles_added rolesOf_added
  | importShipRoles gi roles =>
      have hadded := followsRoles_added (@rolesOf_added p.groups gi (roles.map shipRoleToGroupRole))
      rwa [List.length_map] at hadded
  | autoFill gi roles =>
      by_cases hempty : rolesOf p.groups gi = []
      · have hroles : ∀ gi', rolesOf (setRoles p.groups gi fun _ => roles.map shipRoleToGroupRole)
            gi' = if gi' = gi ∧ gi < p.groups.length then
              rolesOf p.groups gi ++ roles.map shipRoleToGroupRole else rolesOf p.groups gi' := by
          intro gi'
          rw [rolesOf_setRoles, hempty, List.nil_append]
        have hadded := followsRoles_added hroles
        rw [List.length_map] at hadded
        have hedit : p.edit (.autoFill gi roles) =
            { p with groups := setRoles p.groups gi fun _ => roles.map shipRoleToGroupRole } :=
          if_pos (by rw [hempty]; rfl)
        rw [hedit]
        refine hadded.trans ?_
        simp [Plan.keepsLinks, hempty]
      · have hedit : p.edit (.autoFill gi roles) = p :=
          if_neg fun h => hempty (List.length_eq_zero_iff.mp h)
        rw [hedit]
        refine iff_of_true (follows_refl (fun _ => rfl) _) ?_
        simp [Plan.keepsLinks, hempty]
  | removeRole gi ri => exact followsRoles_removeRole
  | onRemove gi ri => exact iff_of_true followsRoles_onRemove rfl
  | applyPreset layout =>
      refine iff_of_true ?_ rfl
      change List.Forall₂ _ p.frequencies p.frequencies
      rw [List.forall₂_same]
      intro f _ place
      have hnone : ¬ HasRole (groupsFromPresetLayout layout) place := by
        rw [HasRole, rolesOf_groupsFromPresetLayout]
        exact Nat.not_lt_zero _
      constructor
      · exact fun h => absurd h.2 hnone
      · rintro ⟨_, _, hmoved⟩
        cases hmoved
  | setFrequencies frequencies => exact iff_of_true trivial rfl

/-! ## The payload -/

/-- The payload gives the frequency the role. -/
def Payload.Gives (payload : Payload) (f : Frequency) (place : ℕ × ℕ) : Prop :=
  hasRef f place.1 place.2 = true ∧
    ∃ pg, payload.groups[place.1]? = some pg ∧ place.2 < pg.roles.length

theorem hasRef_iff : hasRef f gi ri = true ↔
    ∃ ref ∈ f.roleRefs, ref.groupIndex = some gi ∧ ref.roleIndex = ri := by
  simp [hasRef]

theorem mem_refs {name : ℕ → Option ℕ} :
    (gi, ri) ∈ f.refs name ↔ ∃ gi', hasRef f gi' ri = true ∧ name gi' = some gi := by
  simp only [Frequency.refs, List.mem_filterMap, Option.map_eq_some_iff, Option.bind_eq_some_iff,
    Prod.mk.injEq, hasRef_iff]
  constructor
  · rintro ⟨ref, hmem, _, ⟨gi', hgroup, hname⟩, rfl, hrole⟩
    exact ⟨gi', ⟨ref, hmem, hgroup, hrole⟩, hname⟩
  · rintro ⟨gi', ⟨ref, hmem, hgroup, hrole⟩, hname⟩
    exact ⟨ref, hmem, gi, ⟨gi', hgroup, hname⟩, rfl, hrole⟩

section Order

variable {sorted : List ℕ}

/-- The frequency of the payload refers to the group at its new index. -/
theorem hasRef_payloadFrequency (h : sorted.Perm (List.range groups.length)) {new old : ℕ}
    (hold : sorted[new]? = some old) :
    hasRef (payloadFrequency (oldToNew sorted) f) new ri = hasRef f old ri := by
  have hlt : old < groups.length := List.mem_range.mp (h.mem_iff.mp (List.mem_of_getElem? hold))
  have hrefs := refs_payloadFrequency h f
  rw [Bool.eq_iff_iff]
  constructor
  · intro href
    have hmem : (old, ri) ∈ f.refs (valid groups) := hrefs ▸ mem_refs.mpr ⟨new, href, hold⟩
    obtain ⟨gi, href', hvalid⟩ := mem_refs.mp hmem
    obtain ⟨-, hgi⟩ := Option.ite_none_right_eq_some.mp hvalid
    rwa [← Option.some.inj hgi]
  · intro href
    have hvalid : valid groups old = some old := if_pos hlt
    have hmem : (old, ri) ∈ (payloadFrequency (oldToNew sorted) f).refs fun new => sorted[new]? :=
      hrefs ▸ mem_refs.mpr ⟨old, href, hvalid⟩
    obtain ⟨new', href', hnew'⟩ := mem_refs.mp hmem
    have hnodup := nodup_of_perm h
    have hsame := ((oldToNew_eq_some hnodup).mpr hnew').symm.trans
      ((oldToNew_eq_some hnodup).mpr hold)
    rwa [← Option.some.inj hsame]

theorem getElem?_filterMap {l : List ℕ} (hl : ∀ i ∈ l, i < groups.length) (k : ℕ) :
    (l.filterMap fun oldIdx => groups[oldIdx]?)[k]? = l[k]?.bind fun oldIdx => groups[oldIdx]? := by
  induction l generalizing k with
  | nil => rfl
  | cons i l ih =>
      rw [List.filterMap_cons_some (List.getElem?_eq_getElem (hl i List.mem_cons_self))]
      cases k with
      | zero => simp [List.getElem?_eq_getElem (hl i List.mem_cons_self)]
      | succ k => exact ih (fun j hj => hl j (List.mem_cons_of_mem _ hj)) k

/-- The roles of a frequency of the payload are those that the frequency designates in the plan,
whatever the parents are. -/
theorem gives_iff {frequencies : List Frequency} {depth : ℕ} {payload : Payload}
    (h : buildEventGroupsPayload groups frequencies depth = some payload) :
    ∃ sorted : List ℕ, sorted.Perm (List.range groups.length) ∧
      List.Forall₂ (fun f pf => ∀ new ri, payload.Gives pf (new, ri) ↔
        ∃ old, sorted[new]? = some old ∧ Designates groups f (old, ri))
      frequencies payload.frequencies := by
  obtain ⟨sorted, hsorted, hpayload⟩ := Option.bind_eq_some_iff.mp h
  obtain rfl := Option.some.inj hpayload
  have hperm := sortIndices_perm hsorted
  have hlt : ∀ i ∈ sorted, i < groups.length :=
    fun i hi => List.mem_range.mp (hperm.mem_iff.mp hi)
  refine ⟨sorted, hperm, ?_⟩
  rw [List.forall₂_map_right_iff, List.forall₂_same]
  intro f _ new ri
  simp only [Payload.Gives, List.getElem?_map, getElem?_filterMap hlt]
  cases hold : sorted[new]? with
  | none => simp
  | some old =>
      have hgroup := List.getElem?_eq_getElem (hlt old (List.mem_of_getElem? hold))
      rw [hasRef_payloadFrequency hperm hold]
      simp [Designates, HasRole, rolesOf, hgroup, payloadGroup]

end Order

/-- Along any edits the references follow their roles exactly where each edit finds them so, and a
payload gives a frequency no other roles than those it refers to in the plan. -/
theorem frequencies_follow_roles_iff (plan : Plan) (es : List PlanEdit) :
    ((∀ p e p', planners.Passes plan es p e p' → FollowsRoles p e p') ↔
        ∀ p e p', planners.Passes plan es p e p' → p.keepsLinks e = true) ∧
      ∀ (p : Plan) (depth : ℕ) (payload : Payload),
        buildEventGroupsPayload p.groups p.frequencies depth = some payload →
          ∃ sorted : List ℕ, sorted.Perm (List.range p.groups.length) ∧
            List.Forall₂ (fun f pf => ∀ new ri, payload.Gives pf (new, ri) ↔
              ∃ old, sorted[new]? = some old ∧ Designates p.groups f (old, ri))
            p.frequencies payload.frequencies := by
  refine ⟨?_, fun p depth payload h => gives_iff h⟩
  apply forall_congr'
  intro p
  apply forall_congr'
  intro e
  apply forall_congr'
  intro p'
  apply forall_congr'
  intro hpasses
  obtain rfl : p.edit e = p' := Option.some.inj hpasses.step
  exact followsRoles_edit p e

/-! ## A removed group -/

/-- A wing and a command group whose captain is on the Leadership net. -/
def wingPlan : Plan where
  groups := [{ newGroup "Alpha" none with roles := [newRole "Pilot"] },
    { newGroup "Command" none with roles := [newRole "Captain"] },
    { newGroup "Bravo" none with roles := [newRole "Gunner"] }]
  frequencies := [⟨none, "LEADERSHIP", true, [⟨some 1, 0⟩]⟩]

/-- Without the wing in front of it, the gunner is on the net in the place of the captain. -/
theorem gunner_on_leadership :
    ¬ ∀ (plan : Plan) (es : List PlanEdit) (p : Plan) (e : PlanEdit) (p' : Plan),
      planners.Passes plan es p e p' → FollowsRoles p e p' := by
  intro hclaim
  have hpasses : planners.Passes wingPlan [.removeGroup 0] wingPlan (.removeGroup 0)
      (wingPlan.edit (.removeGroup 0)) := ⟨[], [], rfl, .nil _, rfl⟩
  have hfollows := followsRoles_removeGroup.mp (hclaim _ _ _ _ _ hpasses)
  have hnot : wingPlan.keepsLinks (.removeGroup 0) = false := by decide +kernel
  rw [hnot] at hfollows
  cases hfollows

end SpecterComs.EventGroups
