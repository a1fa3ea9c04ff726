import SpecterComs.Model.MlsSession.Reconcile
import SpecterComs.Verification.MlsCrypto.Members

/-! # What a reconciliation leaves

The removal goes by the bytes of labels, and what is added carries the credential inside the key
package.
-/

namespace SpecterComs.Reconcile

open Members
open MlsSession (UserId Label DeviceId credentialFor userIdOfLabel userIdOfLabel_credentialFor)
open MlsStore (Bytes fromUtf8Lossy utf8)

variable {M : OpenMls} {currentUserId : UserId} {currentMemberIds : List UserId} {devices : Devices}
  {group group' : Group} {m : Member}

/-! ## The two commits -/

theorem mem_staleLabels {label : Label} : label ∈ staleLabels currentMemberIds group ↔
    label ∈ groupMemberLabels group ∧ ¬IsCurrent currentMemberIds label := by
  simp [staleLabels, List.mem_eraseDups]

theorem mem_removed (currentMemberIds : List UserId) (h : m ∈ group.members) :
    m.credential ∈ (staleLabels currentMemberIds group).map utf8 ↔
      ¬IsCurrent currentMemberIds m.label ∧ m.IsText := by
  rw [List.mem_map]
  constructor
  · rintro ⟨label, hlabel, hbytes⟩
    have hsame := Member.label_of_credential hbytes.symm
    exact ⟨hsame ▸ (mem_staleLabels.mp hlabel).2, label, hbytes⟩
  · rintro ⟨hstale, htext⟩
    exact ⟨m.label, mem_staleLabels.mpr ⟨List.mem_map_of_mem h, hstale⟩,
      (Member.isText_iff.mp htext).symm⟩

/-- The stale leaves that are text go, except for the own one. -/
theorem removeStale_ok (hM : M.Removes) (h : removeStale M currentMemberIds group = .ok group') :
    group'.ownLeafIndex = group.ownLeafIndex ∧
      ∀ m, m ∈ group'.members ↔ m ∈ group.members ∧
        (IsCurrent currentMemberIds m.label ∨ m.index = group.ownLeafIndex ∨ ¬m.IsText) := by
  unfold removeStale at h
  split at h
  · rename_i hempty
    obtain rfl := Except.ok.inj h
    refine ⟨rfl, fun m => ⟨fun hm => ⟨hm, .inl ?_⟩, And.left⟩⟩
    by_contra hstale
    have hlabel := mem_staleLabels.mpr ⟨List.mem_map_of_mem hm, hstale⟩
    rw [List.isEmpty_iff.mp hempty] at hlabel
    cases hlabel
  · rename_i hsome
    obtain ⟨indices, hindices, -⟩ := Except.bind_eq_ok.mp h
    obtain ⟨group'', hremoved, hown, hmembers⟩ := removeMember_ok hM hindices
      (mt List.isEmpty_iff.mpr hsome)
    obtain rfl := Except.ok.inj (h.symm.trans hremoved)
    refine ⟨hown, fun m => ?_⟩
    rw [hmembers, List.mem_filter]
    refine and_congr_right fun hm => ?_
    have hgone := mem_removed currentMemberIds hm
    simp only [hgone, decide_eq_true_eq]
    tauto

/-- Every missing device gets a leaf with the credential of its key package. -/
theorem addMissing_ok (hM : M.Adds) {devices : List Device}
    (h : addMissing M devices group = .ok group') :
    group'.ownLeafIndex = group.ownLeafIndex ∧
      ∃ new : List Member, group'.members.Perm (group.members ++ new) ∧
        (∀ d ∈ missing devices group, ∃ m ∈ new, M.keyPackage d.keyPackage = .ok m.credential) ∧
        ∀ m ∈ new, ∃ d ∈ missing devices group, M.keyPackage d.keyPackage = .ok m.credential := by
  unfold addMissing at h
  split at h
  · rename_i hempty
    obtain rfl := Except.ok.inj h
    refine ⟨rfl, [], by simp, ?_, nofun⟩
    rw [List.isEmpty_iff.mp hempty]
    exact nofun
  · obtain ⟨hown, new, hperm, hfrom, hto⟩ := addMember_ok hM h
    refine ⟨hown, new, hperm, fun d hd => hfrom _ (List.mem_map_of_mem hd), fun m hm => ?_⟩
    obtain ⟨keyPackage, hpackage, hcredential⟩ := hto m hm
    obtain ⟨d, hd, rfl⟩ := List.mem_map.mp hpackage
    exact ⟨d, hd, hcredential⟩

/-! ## The property -/

namespace Run

variable (r : Run M currentUserId currentMemberIds devices)

/-- What the reconciliation is to reach. -/
structure Converged : Prop where
  current : ∀ m ∈ r.after.members, IsCurrent currentMemberIds m.label
  represented : ∀ d ∈ fetched currentUserId currentMemberIds devices,
    ∃ m ∈ r.after.members, m.label = d.label
  /-- No leaf of a member goes, in either commit. -/
  kept : (∀ m ∈ r.before.members, IsCurrent currentMemberIds m.label → m ∈ r.reduced.members) ∧
    ∀ m ∈ r.met.members, IsCurrent currentMemberIds m.label → m ∈ r.after.members
  /-- Neither commit adds a leaf but for a fetched device. -/
  added : (∀ m ∈ r.reduced.members, m ∈ r.before.members) ∧
    ∀ m ∈ r.after.members, m ∈ r.met.members ∨
      ∃ d ∈ fetched currentUserId currentMemberIds devices, m.label = d.label
  /-- The own leaf stays, in both commits. -/
  own : (∀ m ∈ r.before.members, m.index = r.before.ownLeafIndex →
      m ∈ r.reduced.members ∧ r.reduced.ownLeafIndex = m.index) ∧
    ∀ m ∈ r.met.members, m.index = r.met.ownLeafIndex →
      m ∈ r.after.members ∧ r.after.ownLeafIndex = m.index

/-- The label in the device's key package. -/
def PackageLabel (M : OpenMls) (d : Device) (label : Label) : Prop :=
  ∃ credential, M.keyPackage d.keyPackage = .ok credential ∧ fromUtf8Lossy credential = label

/-- When it does. -/
structure Condition : Prop where
  /-- A leaf of no member is another's and has a credential in UTF-8, if no other commit removes
  it. -/
  stale : ∀ m ∈ r.before.members, ¬IsCurrent currentMemberIds m.label →
    m.index ∉ r.interim.removed → m ∈ r.before.others ∧ m.IsText
  /-- The other commits add leaves of members only. -/
  interim : ∀ m ∈ r.interim.added, IsCurrent currentMemberIds m.label
  /-- The key packages of the missing devices carry the labels of all of these devices. -/
  packages : ∀ d ∈ missing (fetched currentUserId currentMemberIds devices) r.met,
    ∃ d' ∈ missing (fetched currentUserId currentMemberIds devices) r.met,
      PackageLabel M d' d.label
  /-- And they carry no label but of a fetched device. -/
  honest : ∀ d ∈ missing (fetched currentUserId currentMemberIds devices) r.met,
    ∀ label, PackageLabel M d label →
      ∃ d' ∈ fetched currentUserId currentMemberIds devices, label = d'.label

end Run

theorem isCurrent_of_fetched {d : Device} (h : d ∈ fetched currentUserId currentMemberIds devices) :
    IsCurrent currentMemberIds d.label := by
  obtain ⟨userId, huser, hd⟩ := List.mem_flatMap.mp h
  obtain ⟨entry, -, rfl⟩ := List.mem_map.mp hd
  unfold IsCurrent Device.label
  rw [userIdOfLabel_credentialFor]
  exact (List.mem_filter.mp huser).1

theorem mem_missing {ds : List Device} {d : Device} :
    d ∈ missing ds group ↔ d ∈ ds ∧ ∀ m ∈ group.members, m.label ≠ d.label := by
  simp [missing, groupMemberLabels]

/-- Both commits together do what they should exactly under the condition. -/
theorem reconcile_converges_iff (hR : M.Removes) (hA : M.Adds)
    (r : Run M currentUserId currentMemberIds devices) : r.Converged ↔ r.Condition := by
  obtain ⟨hreducedOwn, hreduced⟩ := removeStale_ok hR r.removal
  obtain ⟨hafterOwn, new, hperm, hnew, hfrom⟩ := addMissing_ok hA r.addition
  have hafter : ∀ m, m ∈ r.after.members ↔ m ∈ r.met.members ∨ m ∈ new := by
    intro m
    rw [hperm.mem_iff, List.mem_append]
  -- A new leaf's index is new.
  have hfresh : ∀ m ∈ new, m ∉ r.met.members := by
    intro m hm hmet
    have hdistinct := (hperm.map Member.index).nodup_iff.mp r.after.distinct
    rw [List.map_append] at hdistinct
    exact (List.disjoint_of_nodup_append hdistinct) (List.mem_map_of_mem hmet)
      (List.mem_map_of_mem hm)
  constructor
  · intro h
    refine ⟨fun m hm hstale hleft => ?_, fun m hm => ?_, fun d hd => ?_, fun d hd label hlabel => ?_⟩
    · have hgone : m ∉ r.reduced.members := by
        intro hmem
        exact hstale (h.current m ((hafter m).mpr (.inl ((r.others m).mpr (.inl ⟨hmem, hleft⟩)))))
      rw [hreduced] at hgone
      rw [Group.mem_others]
      tauto
    · exact h.current m ((hafter m).mpr (.inl ((r.others m).mpr (.inr hm))))
    · obtain ⟨hfetched, habsent⟩ := mem_missing.mp hd
      obtain ⟨m, hm, hlabel⟩ := h.represented d hfetched
      rcases (hafter m).mp hm with hmet | hm
      · exact absurd hlabel (habsent m hmet)
      · obtain ⟨d', hd', hcredential⟩ := hfrom m hm
        exact ⟨d', hd', m.credential, hcredential, hlabel⟩
    · obtain ⟨credential, hcredential, rfl⟩ := hlabel
      obtain ⟨m, hm, hm'⟩ := hnew d hd
      obtain rfl := Except.ok.inj (hcredential.symm.trans hm')
      exact (h.added.2 m ((hafter m).mpr (.inr hm))).resolve_left (hfresh m hm)
  · intro h
    have hlabelled : ∀ m ∈ new, ∃ d ∈ fetched currentUserId currentMemberIds devices,
        m.label = d.label := by
      intro m hm
      obtain ⟨d, hd, hcredential⟩ := hfrom m hm
      exact h.honest d hd m.label ⟨m.credential, hcredential, rfl⟩
    refine ⟨fun m hm => ?_, fun d hd => ?_, ⟨fun m hm hcurrent => ?_, fun m hm _ => ?_⟩,
      ⟨fun m hm => ((hreduced m).mp hm).1, fun m hm => ?_⟩, ⟨fun m hm hown => ?_, fun m hm hown => ?_⟩⟩
    · rcases (hafter m).mp hm with hmet | hm
      · rcases (r.others m).mp hmet with ⟨hmem, hleft⟩ | hadded
        · obtain ⟨hbefore, hkept⟩ := (hreduced m).mp hmem
          by_contra hstale
          obtain ⟨hother, htext⟩ := h.stale m hbefore hstale hleft
          have hown := (Group.mem_others.mp hother).2
          tauto
        · exact h.interim m hadded
      · obtain ⟨d, hd, hlabel⟩ := hlabelled m hm
        exact hlabel ▸ isCurrent_of_fetched hd
    · by_cases hd' : d ∈ missing (fetched currentUserId currentMemberIds devices) r.met
      · obtain ⟨d', hd', credential, hcredential, hlabel⟩ := h.packages d hd'
        obtain ⟨m, hm, hm'⟩ := hnew d' hd'
        obtain rfl := Except.ok.inj (hcredential.symm.trans hm')
        exact ⟨m, (hafter m).mpr (.inr hm), hlabel⟩
      · have hpresent : ∃ m ∈ r.met.members, m.label = d.label := by
          by_contra habsent
          exact hd' (mem_missing.mpr ⟨hd, fun m hm hlabel => habsent ⟨m, hm, hlabel⟩⟩)
        obtain ⟨m, hm, hlabel⟩ := hpresent
        exact ⟨m, (hafter m).mpr (.inl hm), hlabel⟩
    · exact (hreduced m).mpr ⟨hm, .inl hcurrent⟩
    · exact (hafter m).mpr (.inl hm)
    · exact ((hafter m).mp hm).imp_right (hlabelled m)
    · exact ⟨(hreduced m).mpr ⟨hm, .inr (.inl hown)⟩, hreducedOwn.trans hown.symm⟩
    · exact ⟨(hafter m).mpr (.inl hm), hafterOwn.trans hown.symm⟩

/-! ## One stale leaf and one missing device -/

/-- This device is `a:1`, and the user of `b:1` is no member. -/
def twoLeaves : Group where
  members := [⟨0, [97, 58, 49]⟩, ⟨1, [98, 58, 49]⟩]
  ownLeafIndex := 0
  distinct := by decide
  own_mem := by decide

/-- The key package of the one other member's device `2`. -/
def oneDevice (keyPackage : Bytes) : Devices := fun userId =>
  if userId = "c" then [(⟨"2", by decide⟩, keyPackage)] else []

def oneRun (keyPackage : Bytes) : Run tree "a" ["a", "c"] (oneDevice keyPackage) where
  before := twoLeaves
  reduced := twoLeaves.without [1] (by decide)
  interim := ⟨[], []⟩
  met := twoLeaves.without [1] (by decide)
  after := (twoLeaves.without [1] (by decide)).push keyPackage
  removal := by rfl
  others m := by simp
  addition := by rfl

theorem reconcile_converges_one : (oneRun [99, 58, 50]).Converged ↔ (oneRun [99, 58, 50]).Condition :=
  reconcile_converges_iff tree_removes tree_adds _

/-- The key package of `c`'s device carries `m:1`. -/
theorem reconcile_adds_outsider :
    (oneRun [109, 58, 49]).after.members = [⟨0, [97, 58, 49]⟩, ⟨1, [109, 58, 49]⟩] ∧
      ¬(oneRun [109, 58, 49]).Converged := by
  have hmembers : (oneRun [109, 58, 49]).after.members =
      [⟨0, [97, 58, 49]⟩, ⟨1, [109, 58, 49]⟩] := by
    rfl
  refine ⟨hmembers, fun h => ?_⟩
  have hcurrent := h.current ⟨1, [109, 58, 49]⟩ (by rw [hmembers]; simp)
  revert hcurrent
  decide

end SpecterComs.Reconcile
