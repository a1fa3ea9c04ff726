import SpecterComs.Library.ExceptBind
import SpecterComs.Model.MlsCrypto.Members
import SpecterComs.Verification.MlsStore.LossyText

/-! # Removing members by their labels

A label is read back as bytes. A credential that is not UTF-8 has a label with other bytes.
-/

namespace SpecterComs.Members

open MlsSession (GroupId Label)
open MlsStore (Bytes fromUtf8Lossy utf8 fromUtf8Lossy_utf8)

variable {M : OpenMls} {group group' : Group} {m : Member} {label : Label} {labels : List Label}
  {found indices : List ℕ}

/-- What OpenMLS says of a removal: distinct leaves other than the own one go, and no others. -/
structure OpenMls.Removes (M : OpenMls) : Prop where
  removeMembers : ∀ (group : Group) (indices : List ℕ), indices ≠ [] → indices.Nodup →
    (∀ i ∈ indices, ∃ m ∈ group.others, m.index = i) →
    ∃ group', M.removeMembers group indices = .ok group' ∧
      group'.ownLeafIndex = group.ownLeafIndex ∧
      group'.members = group.members.filter (·.index ∉ indices)

/-- What it says of an addition: the leaves stay, and each package gets a leaf. -/
structure OpenMls.Adds (M : OpenMls) : Prop where
  addMembers : ∀ (group : Group) (credentials : List Bytes) (group' : Group),
    M.addMembers group credentials = .ok group' →
      group'.ownLeafIndex = group.ownLeafIndex ∧
        ∃ new : List Member, new.map Member.credential = credentials ∧
          group'.members.Perm (group.members ++ new)

/-- The credential is UTF-8. -/
def Member.IsText (m : Member) : Prop :=
  ∃ s, utf8 s = m.credential

/-! ## Labels and bytes -/

theorem Member.label_of_credential (h : m.credential = utf8 label) : m.label = label := by
  rw [Member.label, h, fromUtf8Lossy_utf8]

theorem Member.isText_iff : m.IsText ↔ m.credential = utf8 m.label := by
  constructor
  · rintro ⟨s, hs⟩
    rw [Member.label_of_credential hs.symm, hs]
  · intro h
    exact ⟨m.label, h.symm⟩

theorem Group.mem_others : m ∈ group.others ↔ m ∈ group.members ∧ m.index ≠ group.ownLeafIndex := by
  simp [Group.others]

theorem Group.member_ext {m' : Member} (hm : m ∈ group.members) (hm' : m' ∈ group.members)
    (h : m.index = m'.index) : m = m' :=
  List.inj_on_of_nodup_map group.distinct hm hm' h

/-! ## The indices -/

variable {i index : ℕ}

theorem mem_matchingLeaves :
    i ∈ matchingLeaves group label ↔ ∃ m ∈ group.others, m.index = i ∧ m.credential = utf8 label := by
  simp only [matchingLeaves, List.mem_map, List.mem_filter, Group.mem_others]
  grind

theorem mem_pushNew : i ∈ pushNew found index ↔ i ∈ found ∨ i = index := by
  unfold pushNew
  split <;> grind

theorem mem_foldl_pushNew : i ∈ indices.foldl pushNew found ↔ i ∈ found ∨ i ∈ indices := by
  induction indices generalizing found with
  | nil => simp
  | cons index indices ih => rw [List.foldl_cons, ih, mem_pushNew, List.mem_cons, or_assoc]

theorem nodup_pushNew (h : found.Nodup) : (pushNew found index).Nodup := by
  unfold pushNew
  split
  · exact h
  · rename_i hindex
    exact h.append (List.nodup_singleton index) (by simpa using hindex)

theorem nodup_foldl_pushNew (h : found.Nodup) : (indices.foldl pushNew found).Nodup := by
  induction indices generalizing found with
  | nil => exact h
  | cons index indices ih => exact ih (nodup_pushNew h)

/-- The leaves that are found carry the bytes of a given label, each once. -/
theorem leafIndices_spec (h : leafIndices group found labels = .ok indices) (hfound : found.Nodup) :
    indices.Nodup ∧ ∀ i, i ∈ indices ↔
      i ∈ found ∨ ∃ m ∈ group.others, m.index = i ∧ ∃ label ∈ labels, m.credential = utf8 label := by
  induction labels generalizing found with
  | nil =>
      obtain rfl := Except.ok.inj h
      simpa using hfound
  | cons label labels ih =>
      rw [leafIndices] at h
      split at h
      · cases h
      · obtain ⟨hindices, hall⟩ := ih h (nodup_foldl_pushNew hfound)
        refine ⟨hindices, fun i => ?_⟩
        rw [hall, mem_foldl_pushNew, mem_matchingLeaves]
        grind

/-- All labels resolve where each has the bytes of another leaf's credential. -/
theorem leafIndices_isOk :
    (∃ indices, leafIndices group found labels = .ok indices) ↔
      ∀ label ∈ labels, ∃ m ∈ group.others, m.credential = utf8 label := by
  induction labels generalizing found with
  | nil => simp [leafIndices]
  | cons label labels ih =>
      have hempty : (matchingLeaves group label).isEmpty ↔
          ¬∃ m ∈ group.others, m.credential = utf8 label := by
        rw [List.isEmpty_iff, List.eq_nil_iff_forall_not_mem]
        simp only [mem_matchingLeaves]
        grind
      rw [leafIndices]
      split
      · rename_i hnone
        simp [hempty.mp hnone]
      · rename_i hsome
        have hlabel := not_not.mp fun hnone => hsome (hempty.mpr hnone)
        rw [ih]
        simp only [List.forall_mem_cons, and_iff_right hlabel]

/-! ## Removals -/

/-- A leaf whose index was found carries one of the labels' bytes. -/
theorem mem_leafIndices (h : leafIndices group [] labels = .ok indices) (hm : m ∈ group.members) :
    m.index ∈ indices ↔ m ∈ group.others ∧ m.credential ∈ labels.map utf8 := by
  rw [(leafIndices_spec h List.nodup_nil).2]
  constructor
  · rintro (hnil | ⟨m', hm', hindex, label, hlabel, hbytes⟩)
    · cases hnil
    · obtain rfl := Group.member_ext (Group.mem_others.mp hm').1 hm hindex
      exact ⟨hm', List.mem_map.mpr ⟨label, hlabel, hbytes.symm⟩⟩
  · rintro ⟨hother, hbytes⟩
    obtain ⟨label, hlabel, hbytes⟩ := List.mem_map.mp hbytes
    exact .inr ⟨m, hother, rfl, label, hlabel, hbytes.symm⟩

/-- Labels that resolve are removed: every other leaf with the bytes of one goes, and no leaf else. -/
theorem removeMember_ok (hM : M.Removes) (h : leafIndices group [] labels = .ok indices)
    (hlabels : labels ≠ []) :
    ∃ group', removeMember M group labels = .ok group' ∧
      group'.ownLeafIndex = group.ownLeafIndex ∧
      group'.members = group.members.filter fun m =>
        m.index = group.ownLeafIndex ∨ m.credential ∉ labels.map utf8 := by
  obtain ⟨hnodup, hmem⟩ := leafIndices_spec h List.nodup_nil
  have hne : indices ≠ [] := by
    rintro rfl
    obtain ⟨label, hlabel⟩ := List.exists_mem_of_ne_nil labels hlabels
    obtain ⟨m, hm, hbytes⟩ := leafIndices_isOk.mp ⟨_, h⟩ label hlabel
    exact List.not_mem_nil ((hmem m.index).mpr (.inr ⟨m, hm, rfl, label, hlabel, hbytes⟩))
  have hothers : ∀ i ∈ indices, ∃ m ∈ group.others, m.index = i := by
    intro i hi
    rcases (hmem i).mp hi with hnil | ⟨m, hm, hindex, -⟩
    · cases hnil
    · exact ⟨m, hm, hindex⟩
  obtain ⟨group', hremoved, hown, hmembers⟩ := hM.removeMembers group indices hne hnodup hothers
  refine ⟨group', ?_, hown, ?_⟩
  · rw [removeMember, h]
    exact hremoved
  · rw [hmembers]
    refine List.filter_congr fun m hm => ?_
    have hindex := mem_leafIndices h hm
    rw [Group.mem_others] at hindex
    grind

/-- `remove_member` resolves the labels and removes exactly the other leaves that carry one, each
once; it keeps the rest of the device state. -/
def RemovesLabelled (M : OpenMls) (state : DeviceState) (groupId : GroupId) (labels : List Label) :
    Prop :=
  ∃ group indices state' group', state.groups groupId = some group ∧
    leafIndices group [] labels = .ok indices ∧ indices.Nodup ∧
    (∀ i, i ∈ indices ↔ ∃ m ∈ group.others, m.index = i ∧ m.label ∈ labels) ∧
    state.removeMemberImpl M groupId labels = .ok state' ∧
    state'.groups = Function.update state.groups groupId (some group') ∧
    group'.ownLeafIndex = group.ownLeafIndex ∧
    group'.members = group.members.filter fun m =>
      m.index = group.ownLeafIndex ∨ m.label ∉ labels

theorem DeviceState.onGroup_ok {state : DeviceState} {groupId : GroupId}
    {f : Group → Except String Group} (hgroup : state.groups groupId = some group)
    (h : f group = .ok group') :
    ∃ state', state.onGroup groupId f = .ok state' ∧
      state'.groups = Function.update state.groups groupId (some group') := by
  obtain ⟨hsigner, hcredential⟩ := state.identified groupId group hgroup
  have hsigner := Option.isSome_iff_ne_none.mp hsigner
  have hcredential := Option.isSome_iff_ne_none.mp hcredential
  unfold DeviceState.onGroup
  rw [if_neg (by simpa using hsigner), if_neg (by simpa using hcredential)]
  split
  · rename_i hnone
    simp [hnone] at hgroup
  · rename_i held hheld
    obtain rfl := Option.some.inj (hheld.symm.trans hgroup)
    rw [h]
    exact ⟨_, rfl, rfl⟩

/-- Labels that were reported for other leaves are removed, wherever these leaves' credentials are
UTF-8, and only there. -/
theorem removes_labelled_iff (hM : M.Removes) {state : DeviceState} {groupId : GroupId}
    (hgroup : state.groups groupId = some group) (hlabels : labels ≠ [])
    (hreported : ∀ label ∈ labels, ∃ m ∈ group.others, m.label = label) :
    RemovesLabelled M state groupId labels ↔
      ∀ m ∈ group.others, m.label ∈ labels → m.IsText := by
  constructor
  · rintro ⟨held, indices, -, -, hheld, hindices, -, hmem, -⟩ m hm hlabel
    obtain rfl := Option.some.inj (hheld.symm.trans hgroup)
    have hfound := (hmem m.index).mpr ⟨m, hm, rfl, hlabel⟩
    obtain ⟨-, hbytes⟩ := (mem_leafIndices hindices (Group.mem_others.mp hm).1).mp hfound
    obtain ⟨s, -, hs⟩ := List.mem_map.mp hbytes
    exact ⟨s, hs⟩
  · intro htext
    have hbytes : ∀ m ∈ group.others, (m.credential ∈ labels.map utf8 ↔ m.label ∈ labels) := by
      intro m hm
      constructor
      · intro hcredential
        obtain ⟨label, hlabel, hutf8⟩ := List.mem_map.mp hcredential
        rwa [Member.label_of_credential hutf8.symm]
      · intro hlabel
        rw [Member.isText_iff.mp (htext m hm hlabel)]
        exact List.mem_map_of_mem hlabel
    have hresolved : ∀ label ∈ labels, ∃ m ∈ group.others, m.credential = utf8 label := by
      intro label hlabel
      obtain ⟨m, hm, rfl⟩ := hreported label hlabel
      exact ⟨m, hm, Member.isText_iff.mp (htext m hm hlabel)⟩
    obtain ⟨indices, hindices⟩ := leafIndices_isOk.mpr hresolved
    obtain ⟨group', hremoved, hown, hmembers⟩ := removeMember_ok hM hindices hlabels
    obtain ⟨state', hstate, hgroups⟩ :=
      DeviceState.onGroup_ok (f := fun group => removeMember M group labels) hgroup hremoved
    obtain ⟨hnodup, hmem⟩ := leafIndices_spec hindices List.nodup_nil
    refine ⟨group, indices, state', group', hgroup, hindices, hnodup, fun i => ?_, hstate, hgroups,
      hown, ?_⟩
    · rw [hmem]
      constructor
      · rintro (hnil | ⟨m, hm, hindex, label, hlabel, hcredential⟩)
        · cases hnil
        · exact ⟨m, hm, hindex, Member.label_of_credential hcredential ▸ hlabel⟩
      · rintro ⟨m, hm, hindex, hlabel⟩
        exact .inr ⟨m, hm, hindex, m.label, hlabel, Member.isText_iff.mp (htext m hm hlabel)⟩
    · rw [hmembers]
      refine List.filter_congr fun m hm => ?_
      by_cases hown : m.index = group.ownLeafIndex
      · simp [hown]
      · have hsame := hbytes m (Group.mem_others.mpr ⟨hm, hown⟩)
        simp only [hown, false_or, hsame]

/-! ## Additions -/

theorem mapM_ok {α β : Type} {f : α → Except String β} {as : List α} {bs : List β}
    (h : as.mapM f = .ok bs) :
    (∀ a ∈ as, ∃ b ∈ bs, f a = .ok b) ∧ ∀ b ∈ bs, ∃ a ∈ as, f a = .ok b := by
  induction as generalizing bs with
  | nil =>
      obtain rfl := Except.ok.inj h
      exact ⟨nofun, nofun⟩
  | cons a as ih =>
      rw [List.mapM_cons] at h
      obtain ⟨b, hb, h⟩ := Except.bind_eq_ok.mp h
      obtain ⟨rest, hrest, h⟩ := Except.bind_eq_ok.mp h
      obtain rfl := Except.ok.inj h
      obtain ⟨hfrom, hto⟩ := ih hrest
      constructor
      · intro x hx
        rcases List.mem_cons.mp hx with rfl | hx
        · exact ⟨b, List.mem_cons_self, hb⟩
        · obtain ⟨y, hy, hxy⟩ := hfrom x hx
          exact ⟨y, List.mem_cons_of_mem _ hy, hxy⟩
      · intro y hy
        rcases List.mem_cons.mp hy with rfl | hy
        · exact ⟨a, List.mem_cons_self, hb⟩
        · obtain ⟨x, hx, hxy⟩ := hto y hy
          exact ⟨x, List.mem_cons_of_mem _ hx, hxy⟩

theorem addMember_ok (hM : M.Adds) {keyPackages : List Bytes}
    (h : addMember M group keyPackages = .ok group') :
    group'.ownLeafIndex = group.ownLeafIndex ∧
      ∃ new : List Member, group'.members.Perm (group.members ++ new) ∧
        (∀ k ∈ keyPackages, ∃ m ∈ new, M.keyPackage k = .ok m.credential) ∧
        ∀ m ∈ new, ∃ k ∈ keyPackages, M.keyPackage k = .ok m.credential := by
  obtain ⟨credentials, hcredentials, h⟩ := Except.bind_eq_ok.mp h
  obtain ⟨hown, new, rfl, hperm⟩ := hM.addMembers group credentials group' h
  obtain ⟨hfrom, hto⟩ := mapM_ok hcredentials
  refine ⟨hown, new, hperm, fun k hk => ?_, fun m hm => hto _ (List.mem_map_of_mem hm)⟩
  obtain ⟨credential, hcredential, hk⟩ := hfrom k hk
  obtain ⟨m, hm, rfl⟩ := List.mem_map.mp hcredential
  exact ⟨m, hm, hk⟩

/-! ## A tree of three leaves -/

def Group.without (group : Group) (indices : List ℕ) (h : group.ownLeafIndex ∉ indices) : Group where
  members := group.members.filter (·.index ∉ indices)
  ownLeafIndex := group.ownLeafIndex
  distinct := group.distinct.sublist (List.filter_sublist.map _)
  own_mem := by
    obtain ⟨m, hm, hown⟩ := List.mem_map.mp group.own_mem
    refine List.mem_map.mpr ⟨m, List.mem_filter.mpr ⟨hm, ?_⟩, hown⟩
    simpa [hown] using h

theorem le_foldr_max (h : i ∈ indices) : i ≤ indices.foldr max 0 := by
  induction indices with
  | nil => cases h
  | cons index indices ih =>
      rw [List.foldr_cons]
      rcases List.mem_cons.mp h with rfl | hrest
      · exact Nat.le_max_left _ _
      · exact (ih hrest).trans (Nat.le_max_right _ _)

/-- A leaf behind all others. -/
def Group.push (group : Group) (credential : Bytes) : Group where
  members := group.members ++ [⟨(group.members.map Member.index).foldr max 0 + 1, credential⟩]
  ownLeafIndex := group.ownLeafIndex
  distinct := by
    rw [List.map_append]
    refine group.distinct.append (List.nodup_singleton _) (List.disjoint_singleton.mpr fun hmem => ?_)
    exact Nat.not_succ_le_self _ (le_foldr_max hmem)
  own_mem := by
    rw [List.map_append]
    exact List.mem_append_left _ group.own_mem

/-- Trees without blank leaves, and key packages that are their credentials. -/
def tree : OpenMls where
  keyPackage := .ok
  addMembers group credentials := .ok (credentials.foldl Group.push group)
  removeMembers group indices :=
    if h : group.ownLeafIndex ∉ indices then
      if indices.isEmpty then .error "An empty list was provided" else .ok (group.without indices h)
    else .error "The own leaf cannot be removed"

theorem tree_removes : tree.Removes where
  removeMembers group indices hne _ hothers := by
    have hown : group.ownLeafIndex ∉ indices := by
      intro hmem
      obtain ⟨m, hm, hindex⟩ := hothers _ hmem
      exact (Group.mem_others.mp hm).2 hindex
    refine ⟨group.without indices hown, ?_, rfl, rfl⟩
    simp [tree, hown, hne]

theorem foldl_push (credentials : List Bytes) (group : Group) :
    (credentials.foldl Group.push group).ownLeafIndex = group.ownLeafIndex ∧
      ∃ new : List Member, new.map Member.credential = credentials ∧
        (credentials.foldl Group.push group).members = group.members ++ new := by
  induction credentials generalizing group with
  | nil => exact ⟨rfl, [], rfl, by simp⟩
  | cons credential credentials ih =>
      obtain ⟨hown, new, hnew, hmembers⟩ := ih (group.push credential)
      rw [List.foldl_cons]
      refine ⟨hown, ⟨(group.members.map Member.index).foldr max 0 + 1, credential⟩ :: new, ?_, ?_⟩
      · rw [List.map_cons, hnew]
      · rw [hmembers, Group.push, List.append_assoc, List.singleton_append]

theorem tree_adds : tree.Adds where
  addMembers group credentials group' h := by
    obtain rfl := Except.ok.inj h
    obtain ⟨hown, new, hnew, hmembers⟩ := foldl_push credentials group
    exact ⟨hown, new, hnew, .of_eq hmembers⟩

/-- This device, a stale device, and a device whose credential is the byte FF. -/
def threeLeaves : Group where
  members := [⟨0, [97, 58, 49]⟩, ⟨1, [98, 58, 49]⟩, ⟨2, [0xFF]⟩]
  ownLeafIndex := 0
  distinct := by decide
  own_mem := by decide

def threeLeavesState : DeviceState where
  signer := some []
  credential := some []
  groups := fun _ => some threeLeaves
  identified _ _ _ := ⟨rfl, rfl⟩

theorem removes_labelled_two :
    RemovesLabelled tree threeLeavesState "g" ["b:1"] ↔
      ∀ m ∈ threeLeaves.others, m.label ∈ ["b:1"] → m.IsText :=
  removes_labelled_iff tree_removes rfl (by decide) (by decide)

/-- The stale device stays, since the other label does not resolve. -/
theorem odd_label_keeps_all :
    threeLeavesState.groupMemberLabelsImpl "g" = .ok ["a:1", "b:1", "\uFFFD"] ∧
      threeLeavesState.removeMemberImpl tree "g" ["b:1", "\uFFFD"] =
        .error "device_label '\uFFFD' not found among current group members" ∧
      ¬RemovesLabelled tree threeLeavesState "g" ["b:1", "\uFFFD"] := by
  have herror : threeLeavesState.removeMemberImpl tree "g" ["b:1", "\uFFFD"] =
      .error "device_label '\uFFFD' not found among current group members" := by
    rfl
  refine ⟨by rfl, herror, ?_⟩
  rintro ⟨_, _, _, _, _, _, _, _, hok, _⟩
  rw [herror] at hok
  cases hok

end SpecterComs.Members
