import SpecterComs.Library.Forest
import SpecterComs.Model.Events.Launch
import SpecterComs.Verification.Events.Approval
import SpecterComs.Verification.Events.Saves

/-! # The group trees of an event

A save stores for each group the parent that its last entry in the payload names. Parents come
before children in the payload, but a group that is named twice can still become its own
ancestor.
-/

namespace SpecterComs.Events

open Handler Relation

/-- The stored parent of a group. -/
def parentOf (groupRows : List Group) (groupId : ℕ) : Option ℕ :=
  (groupRows.find? fun g => g.id = groupId).bind Group.parentGroupId

/-- The recursions of a launch end, and visit every group exactly once. -/
def LaunchEnds (groupRows : List Group) : Prop :=
  ∃ depth, (∃ sorted, sortGroups depth groupRows = some sorted ∧ sorted.Perm groupRows) ∧
    ∀ g ∈ groupRows, ∃ tier, computeTier groupRows depth g.id = some tier

/-- The tree of an event is one, and a launch gets through it. -/
def Db.SoundTree (db : Db) (eventId : ℕ) : Prop :=
  Acyclic (parentOf (db.groupRows eventId)) ∧ LaunchEnds (db.groupRows eventId)

/-! ## The recursions of a launch -/

section Launch

variable {rows sorted : List Group}

theorem visited_iff {groupId : ℕ} :
    visited sorted groupId = true ↔ ∃ g ∈ sorted, g.id = groupId := by
  simp [visited]

theorem parentOf_of_mem (hrows : (rows.map Group.id).Nodup) {g : Group} (hg : g ∈ rows) :
    parentOf rows g.id = g.parentGroupId := by
  unfold parentOf
  cases hfind : rows.find? fun p => p.id = g.id with
  | none =>
      have hno := List.find?_eq_none.mp hfind g hg
      simp at hno
  | some g' =>
      have hid : g'.id = g.id := by simpa using List.find?_some hfind
      rw [eq_of_key_eq hrows (List.mem_of_find?_eq_some hfind) hg hid]
      rfl

theorem parentOf_eq_some {a b : ℕ} (h : parentOf rows a = some b) : a ∈ rows.map Group.id := by
  unfold parentOf at h
  obtain ⟨g, hg, -⟩ := Option.bind_eq_some_iff.mp h
  have hid : g.id = a := by simpa using List.find?_some hg
  exact List.mem_map.mpr ⟨g, List.mem_of_find?_eq_some hg, hid⟩

/-- What a visit adds: the group and ancestors of it, each for the first time. -/
structure Added (rows sorted : List Group) (groupId : ℕ) (added : List Group) : Prop where
  mem : ∀ g ∈ added, g ∈ rows
  ancestors : ∀ g ∈ added, ReflTransGen (fun a b => parentOf rows a = some b) groupId g.id
  fresh : ∀ g ∈ added, visited sorted g.id = false
  nodup : (added.map Group.id).Nodup

theorem Added.nil (rows sorted : List Group) (groupId : ℕ) : Added rows sorted groupId [] :=
  ⟨by simp, by simp, by simp, by simp⟩

/-- From some depth on a visit ends. -/
theorem visit_ends (hrows : (rows.map Group.id).Nodup) (h : Acyclic (parentOf rows)) (groupId : ℕ) :
    ∀ g ∈ rows, g.id = groupId → ∃ n, ∀ depth, n ≤ depth → ∀ sorted, ∃ added,
      visit rows depth g sorted = some (sorted ++ added) ∧ Added rows sorted groupId added ∧
        visited (sorted ++ added) groupId = true := by
  refine h.induction (l := rows.map Group.id) (fun a b hab => parentOf_eq_some hab)
    (P := fun groupId => ∀ g ∈ rows, g.id = groupId → ∃ n, ∀ depth, n ≤ depth → ∀ sorted,
      ∃ added, visit rows depth g sorted = some (sorted ++ added) ∧
        Added rows sorted groupId added ∧ visited (sorted ++ added) groupId = true) ?_ groupId
  rintro a ih g hg rfl
  have hparent := parentOf_of_mem hrows hg
  -- The group alone, once its parent is visited or it has none.
  have halone : ∀ sorted : List Group, visited sorted g.id = false →
      Added rows sorted g.id [g] ∧ visited (sorted ++ [g]) g.id = true := by
    intro sorted hfresh
    refine ⟨⟨by simp [hg], ?_, by simp [hfresh], by simp⟩, by simp [visited]⟩
    intro g' hg'
    rw [List.mem_singleton.mp hg']
  cases hfind : g.parentGroupId.bind fun id => rows.find? fun p => p.id = id with
  | none =>
      refine ⟨1, fun depth hdepth sorted => ?_⟩
      obtain ⟨depth, rfl⟩ := Nat.exists_eq_add_of_le' hdepth
      cases hvisited : visited sorted g.id with
      | true => exact ⟨[], by simp [visit, hvisited], .nil _ _ _, by simpa using hvisited⟩
      | false => exact ⟨[g], by simp [visit, hvisited, hfind], halone sorted hvisited⟩
  | some parent =>
      obtain ⟨id, hid, hfind'⟩ := Option.bind_eq_some_iff.mp hfind
      have hpid : parent.id = id := by simpa using List.find?_some hfind'
      have hp : parent ∈ rows := List.mem_of_find?_eq_some hfind'
      rw [hid, ← hpid] at hparent
      obtain ⟨n, hn⟩ := ih parent.id hparent parent hp rfl
      refine ⟨n + 1, fun depth hdepth sorted => ?_⟩
      obtain ⟨depth, rfl⟩ := Nat.exists_eq_add_of_le' (Nat.le_of_add_left_le hdepth)
      cases hvisited : visited sorted g.id with
      | true => exact ⟨[], by simp [visit, hvisited], .nil _ _ _, by simpa using hvisited⟩
      | false =>
          cases hparented : visited sorted parent.id with
          | true => exact ⟨[g], by simp [visit, hvisited, hfind, hparented], halone sorted hvisited⟩
          | false =>
              obtain ⟨added, hvisit, hadded, -⟩ := hn depth (by omega) sorted
              -- The group is no ancestor of its parent.
              have hfresh : visited (sorted ++ added) g.id = false := by
                by_contra hmem
                rw [Bool.not_eq_false, visited_iff] at hmem
                obtain ⟨g', hg', hgid⟩ := hmem
                rcases List.mem_append.mp hg' with hg' | hg'
                · rw [← Bool.not_eq_true, visited_iff] at hvisited
                  exact hvisited ⟨g', hg', hgid⟩
                · have hancestor := hadded.ancestors g' hg'
                  rw [hgid] at hancestor
                  exact h g.id (TransGen.head' hparent hancestor)
              obtain ⟨halone', hvisited'⟩ := halone _ hfresh
              refine ⟨added ++ [g], ?_, ⟨?_, ?_, ?_, ?_⟩, ?_⟩
              · simp [visit, hvisited, hfind, hparented, hvisit]
              · intro g' hg'
                rcases List.mem_append.mp hg' with hg' | hg'
                · exact hadded.mem g' hg'
                · exact halone'.mem g' hg'
              · intro g' hg'
                rcases List.mem_append.mp hg' with hg' | hg'
                · exact ReflTransGen.head hparent (hadded.ancestors g' hg')
                · exact halone'.ancestors g' hg'
              · intro g' hg'
                rcases List.mem_append.mp hg' with hg' | hg'
                · exact hadded.fresh g' hg'
                · rw [List.mem_singleton.mp hg']
                  exact hvisited
              · refine nodup_map_append hadded.nodup fun g' hg' hgid => ?_
                rw [← Bool.not_eq_true, visited_iff] at hfresh
                exact hfresh ⟨g', List.mem_append_right _ hg', hgid⟩
              · rwa [← List.append_assoc]

/-- Every visit of the groups ends. -/
theorem sortGroups_from (hrows : (rows.map Group.id).Nodup) (h : Acyclic (parentOf rows))
    (l : List Group) (hl : ∀ g ∈ l, g ∈ rows) :
    ∃ n, ∀ depth, n ≤ depth → ∀ sorted, (∀ g ∈ sorted, g ∈ rows) → (sorted.map Group.id).Nodup →
      ∃ added, l.foldlM (fun sorted g => visit rows depth g sorted) sorted =
          some (sorted ++ added) ∧
        (∀ g ∈ sorted ++ added, g ∈ rows) ∧ ((sorted ++ added).map Group.id).Nodup ∧
        ∀ g ∈ l, visited (sorted ++ added) g.id = true := by
  induction l with
  | nil =>
      refine ⟨0, fun depth _ sorted hmem hnodup => ⟨[], by simp, ?_, ?_, by simp⟩⟩
      · rwa [List.append_nil]
      · rwa [List.append_nil]
  | cons g l ih =>
      obtain ⟨n, hn⟩ := ih fun g' hg' => hl g' (List.mem_cons_of_mem _ hg')
      obtain ⟨m, hm⟩ := visit_ends hrows h g.id g (hl g List.mem_cons_self) rfl
      refine ⟨max n m, fun depth hdepth sorted hmem hnodup => ?_⟩
      obtain ⟨added, hvisit, hadded, hvisited⟩ := hm depth (by omega) sorted
      have hmem' : ∀ g' ∈ sorted ++ added, g' ∈ rows := by
        intro g' hg'
        rcases List.mem_append.mp hg' with hg' | hg'
        · exact hmem g' hg'
        · exact hadded.mem g' hg'
      have hnodup' : ((sorted ++ added).map Group.id).Nodup := by
        rw [List.map_append, List.nodup_append]
        refine ⟨hnodup, hadded.nodup, ?_⟩
        intro id hid id' hid' heq
        obtain ⟨g₁, hg₁, rfl⟩ := List.mem_map.mp hid
        obtain ⟨g₂, hg₂, rfl⟩ := List.mem_map.mp hid'
        have hfresh := hadded.fresh g₂ hg₂
        rw [← Bool.not_eq_true, visited_iff] at hfresh
        exact hfresh ⟨g₁, hg₁, heq⟩
      obtain ⟨more, hfold, hmem'', hnodup'', hall⟩ := hn depth (by omega) _ hmem' hnodup'
      refine ⟨added ++ more, ?_, ?_, ?_, ?_⟩
      · rw [List.foldlM_cons, hvisit, Option.bind_eq_bind, Option.bind_some, hfold,
          List.append_assoc]
      · rwa [← List.append_assoc]
      · rwa [← List.append_assoc]
      · intro g' hg'
        rw [← List.append_assoc]
        rcases List.mem_cons.mp hg' with rfl | hg'
        · obtain ⟨g₀, hg₀, hid⟩ := visited_iff.mp hvisited
          exact visited_iff.mpr ⟨g₀, List.mem_append_left _ hg₀, hid⟩
        · exact hall g' hg'

theorem computeTier_ends (h : Acyclic (parentOf rows)) (groupId : ℕ) :
    ∃ n, ∀ depth, n ≤ depth → ∃ tier, computeTier rows depth groupId = some tier := by
  refine h.induction (l := rows.map Group.id) (fun a b hab => parentOf_eq_some hab)
    (P := fun groupId => ∃ n, ∀ depth, n ≤ depth → ∃ tier,
      computeTier rows depth groupId = some tier) ?_ groupId
  intro a ih
  cases hparent : parentOf rows a with
  | none =>
      refine ⟨1, fun depth hdepth => ⟨1, ?_⟩⟩
      obtain ⟨depth, rfl⟩ := Nat.exists_eq_add_of_le' hdepth
      unfold parentOf at hparent
      simp [computeTier, hparent]
  | some b =>
      obtain ⟨n, hn⟩ := ih b hparent
      refine ⟨n + 1, fun depth hdepth => ?_⟩
      obtain ⟨depth, rfl⟩ := Nat.exists_eq_add_of_le' (Nat.le_of_add_left_le hdepth)
      obtain ⟨tier, htier⟩ := hn depth (by omega)
      unfold parentOf at hparent
      exact ⟨tier + 1, by simp [computeTier, hparent, htier]⟩

theorem computeTiers_end (h : Acyclic (parentOf rows)) (l : List Group) :
    ∃ n, ∀ depth, n ≤ depth → ∀ g ∈ l, ∃ tier, computeTier rows depth g.id = some tier := by
  induction l with
  | nil => exact ⟨0, fun _ _ => by simp⟩
  | cons g l ih =>
      obtain ⟨n, hn⟩ := ih
      obtain ⟨m, hm⟩ := computeTier_ends h g.id
      refine ⟨max n m, fun depth hdepth g' hg' => ?_⟩
      rcases List.mem_cons.mp hg' with rfl | hg'
      · exact hm depth (by omega)
      · exact hn depth (by omega) g' hg'

theorem launchEnds_of_acyclic (hrows : (rows.map Group.id).Nodup) (h : Acyclic (parentOf rows)) :
    LaunchEnds rows := by
  obtain ⟨n, hn⟩ := sortGroups_from hrows h rows fun _ hg => hg
  obtain ⟨m, hm⟩ := computeTiers_end h rows
  obtain ⟨sorted, hsorted, hmem, hnodup, hall⟩ := hn (max n m) (by omega) [] (by simp) (by simp)
  rw [List.nil_append] at hsorted hmem hnodup hall
  refine ⟨max n m, ⟨sorted, hsorted, ?_⟩, hm _ (by omega)⟩
  refine (List.perm_ext_iff_of_nodup (List.Nodup.of_map _ hnodup)
    (List.Nodup.of_map _ hrows)).mpr fun g => ⟨hmem g, fun hg => ?_⟩
  obtain ⟨g', hg', hid⟩ := visited_iff.mp (hall g hg)
  rwa [← eq_of_key_eq hrows (hmem g' hg') hg hid]

/-- On a circle no tier is ever found. -/
theorem computeTier_circle {a : ℕ} (h : TransGen (fun a b => parentOf rows a = some b) a a)
    (depth : ℕ) : computeTier rows depth a = none := by
  induction depth generalizing a with
  | zero => rfl
  | succ depth ih =>
      obtain ⟨b, hparent, hb⟩ := parent_of_circle h
      unfold parentOf at hparent
      simp [computeTier, hparent, ih hb]

/-- A launch gets through the groups exactly if their parents make no circle. -/
theorem launchEnds_iff (hrows : (rows.map Group.id).Nodup) :
    LaunchEnds rows ↔ Acyclic (parentOf rows) := by
  constructor
  · rintro ⟨depth, -, htiers⟩ a ha
    obtain ⟨b, hparent, -⟩ := parent_of_circle ha
    obtain ⟨g, hg, rfl⟩ := List.mem_map.mp (parentOf_eq_some hparent)
    obtain ⟨tier, htier⟩ := htiers g hg
    rw [computeTier_circle ha] at htier
    cases htier
  · exact launchEnds_of_acyclic hrows

theorem soundTree_iff {db : Db} {eventId : ℕ} (h : Keyed db) :
    db.SoundTree eventId ↔ Acyclic (parentOf (db.groupRows eventId)) := by
  have hrows : ((db.groupRows eventId).map Group.id).Nodup := nodup_map_filter h.groups
  rw [Db.SoundTree, launchEnds_iff hrows, and_self]

end Launch

/-! ## The parents that a payload names -/

/-- The last parent that is named for a group. -/
def lastParent (entries : List (ℕ × Option ℕ)) (groupId : ℕ) : Option ℕ :=
  (entries.reverse.find? fun e => e.1 = groupId).bind Prod.snd

/-- The entries of a payload with the ids they get and the parents they name, new ids counted
from `nextId` on. -/
def plannedEntries (existing : List ℕ) :
    ℕ → List (ℕ × Option ℕ) → List GroupPayload → List (ℕ × Option ℕ)
  | _, entries, [] => entries
  | nextId, entries, g :: rest =>
      let parent := createdId (entries.map Prod.fst) g.parentIndex
      match g.id.filter fun id => id ∈ existing with
      | some id => plannedEntries existing nextId (entries ++ [(id, parent)]) rest
      | none => plannedEntries existing (nextId + 1) (entries ++ [(nextId, parent)]) rest

/-- The parents that the last entries of a payload name lead round in no circle; a payload without
groups leaves the stored ones. -/
def PlanPayload.soundTree (body : PlanPayload) (db : Db) (eventId : ℕ) : Prop :=
  match body.groups with
  | none => Acyclic (parentOf (db.groupRows eventId))
  | some groups =>
      Acyclic (lastParent (plannedEntries ((db.groupRows eventId).map Group.id) db.nextId [] groups))

variable {db db' db₀ : Db} {orgId eventId groupId userId : ℕ} {entries : List (ℕ × Option ℕ)}
  {a : ℕ} {parent : Option ℕ}

theorem lastParent_snoc {b : ℕ} :
    lastParent (entries ++ [(a, parent)]) b = if a = b then parent else lastParent entries b := by
  unfold lastParent
  rw [List.reverse_append, List.reverse_singleton, List.singleton_append, List.find?_cons]
  by_cases hab : a = b
  · simp [hab]
  · simp [hab]

/-- The tree while the entries of a payload are saved. -/
structure Planting (eventId : ℕ) (existing : List ℕ) (nextId : ℕ) (entries : List (ℕ × Option ℕ))
    (db : Db) : Prop where
  next : db.nextId = nextId
  fresh : ∀ g ∈ db.groups, g.id < db.nextId
  rows : ∀ g ∈ db.groups, g.eventId = eventId → g.id ∈ existing ∨ g.id ∈ entries.map Prod.fst
  owned : ∀ id ∈ existing, db.groupOfEvent id eventId = true
  stored : ∀ id ∈ entries.map Prod.fst, db.groupOfEvent id eventId = true
  parents : ∀ g ∈ db.groups, g.eventId = eventId → g.id ∈ entries.map Prod.fst →
    g.parentGroupId = lastParent entries g.id
  named : ∀ id parent, (id, some parent) ∈ entries → parent ∈ entries.map Prod.fst

namespace Planting

variable {existing : List ℕ} {nextId : ℕ}

/-- A write to neither the groups nor the next id. -/
theorem of_same (h : Planting eventId existing nextId entries db) (hgroups : db'.groups = db.groups)
    (hnextId : db'.nextId = db.nextId) : Planting eventId existing nextId entries db' := by
  refine ⟨hnextId.trans h.next, ?_, ?_, ?_, ?_, ?_, h.named⟩
  · rw [hgroups, hnextId]
    exact h.fresh
  · rw [hgroups]
    exact h.rows
  · simpa only [Db.groupOfEvent, hgroups] using h.owned
  · simpa only [Db.groupOfEvent, hgroups] using h.stored
  · rw [hgroups]
    exact h.parents

theorem named_snoc (h : Planting eventId existing nextId entries db)
    (hparent : ∀ p, parent = some p → p ∈ entries.map Prod.fst) (id p : ℕ)
    (hmem : (id, some p) ∈ entries ++ [(a, parent)]) :
    p ∈ (entries ++ [(a, parent)]).map Prod.fst := by
  rw [List.map_append]
  refine List.mem_append_left _ ?_
  rcases List.mem_append.mp hmem with hmem | hmem
  · exact h.named id p hmem
  · obtain ⟨-, hp⟩ := Prod.mk.inj (List.mem_singleton.mp hmem)
    exact hparent p hp.symm

/-- A group of the event that is named, for the first time or again. -/
theorem updateGroup (h : Planting eventId existing nextId entries db) (ha : a ∈ existing)
    (hparent : ∀ p, parent = some p → p ∈ entries.map Prod.fst) {f : Group → Group}
    (hf : ∀ g, (f g).id = g.id ∧ (f g).eventId = g.eventId ∧ (f g).parentGroupId = if g.id = a ∧ g.eventId = eventId then parent else g.parentGroupId) :
    Planting eventId existing nextId (entries ++ [(a, parent)])
      { db with groups := db.groups.map f } := by
  have hevent : ∀ id, ({ db with groups := db.groups.map f } : Db).groupOfEvent id eventId =
      db.groupOfEvent id eventId :=
    fun id => groupOfEvent_mapGroups fun g => ⟨(hf g).1, (hf g).2.1⟩
  refine ⟨h.next, ?_, ?_, ?_, ?_, ?_, h.named_snoc hparent⟩
  · intro g hg
    obtain ⟨g', hg', rfl⟩ := List.mem_map.mp hg
    rw [(hf g').1]
    exact h.fresh g' hg'
  · intro g hg hge
    obtain ⟨g', hg', rfl⟩ := List.mem_map.mp hg
    rw [(hf g').1]
    rw [(hf g').2.1] at hge
    rcases h.rows g' hg' hge with hid | hid
    · exact .inl hid
    · exact .inr (by simp [List.mem_map.mp hid])
  · intro id hid
    rw [hevent]
    exact h.owned id hid
  · intro id hid
    rw [hevent]
    rw [List.map_append, List.mem_append] at hid
    rcases hid with hid | hid
    · exact h.stored id hid
    · rw [List.mem_singleton.mp hid]
      exact h.owned a ha
  · intro g hg hge hid
    obtain ⟨g', hg', rfl⟩ := List.mem_map.mp hg
    obtain ⟨hfid, hfe, hfp⟩ := hf g'
    rw [hfid, lastParent_snoc]
    rw [hfe] at hge
    rw [hfid, List.map_append, List.mem_append] at hid
    by_cases hga : g'.id = a
    · rw [hfp, if_pos ⟨hga, hge⟩, if_pos hga.symm]
    · rw [hfp, if_neg fun hc => hga hc.1, if_neg (Ne.symm hga)]
      rcases hid with hid | hid
      · exact h.parents g' hg' hge hid
      · exact absurd (List.mem_singleton.mp hid) hga

theorem insertGroup (h : Planting eventId existing nextId entries db) {g : Group}
    (hparent : ∀ p, parent = some p → p ∈ entries.map Prod.fst)
    (hg : g.eventId = eventId ∧ g.parentGroupId = parent) :
    Planting eventId existing (nextId + 1) (entries ++ [(nextId, parent)]) (db.insertGroup g) := by
  have hnew : ∀ g' ∈ db.groups, g'.id ≠ nextId := by
    intro g' hg'
    rw [← h.next]
    exact Nat.ne_of_lt (h.fresh g' hg')
  have hrow : ∀ g' ∈ (db.insertGroup g).groups,
      g' ∈ db.groups ∨ g' = { g with id := nextId } := by
    intro g' hg'
    rw [← h.next]
    rcases List.mem_append.mp hg' with hg' | hg'
    · exact .inl hg'
    · exact .inr (List.mem_singleton.mp hg')
  refine ⟨by rw [← h.next]; rfl, ?_, ?_, ?_, ?_, ?_, h.named_snoc hparent⟩
  · intro g' hg'
    change g'.id < db.nextId + 1
    rcases hrow g' hg' with hg' | rfl
    · exact Nat.lt_succ_of_lt (h.fresh g' hg')
    · rw [h.next]
      exact Nat.lt_succ_self _
  · intro g' hg' hge
    rcases hrow g' hg' with hg' | rfl
    · rcases h.rows g' hg' hge with hid | hid
      · exact .inl hid
      · exact .inr (by simp [List.mem_map.mp hid])
    · exact .inr (by simp)
  · exact fun id hid => groupOfEvent_insertGroup (h.owned id hid)
  · intro id hid
    rw [List.map_append, List.mem_append] at hid
    rcases hid with hid | hid
    · exact groupOfEvent_insertGroup (h.stored id hid)
    · rw [List.mem_singleton.mp hid, ← h.next]
      exact groupOfEvent_inserted hg.1
  · intro g' hg' hge hid
    rw [lastParent_snoc]
    rcases hrow g' hg' with hg' | rfl
    · rw [if_neg (Ne.symm (hnew g' hg'))]
      rw [List.map_append, List.mem_append] at hid
      rcases hid with hid | hid
      · exact h.parents g' hg' hge hid
      · exact absurd (List.mem_singleton.mp hid) (hnew g' hg')
    · rw [if_pos rfl]
      exact hg.2

end Planting

variable {created : List ℕ}

theorem createdId_mem {index : Option ℕ} {id : ℕ} (h : createdId created index = some id) :
    id ∈ created := by
  obtain ⟨i, -, hi⟩ := Option.bind_eq_some_iff.mp h
  exact List.mem_of_getElem? hi

section Save

variable {existing : List ℕ}

/-- Saving an entry that names a group again, or a new one. -/
theorem saveGroup_planting {nextId : ℕ} {g : GroupPayload} :
    Triple (Planting eventId existing nextId entries)
      (saveGroup eventId existing (entries.map Prod.fst) g) fun id db =>
        (g.id.filter (fun id => decide (id ∈ existing)) = some id ∧
          Planting eventId existing nextId
            (entries ++ [(id, createdId (entries.map Prod.fst) g.parentIndex)]) db) ∨
        (g.id.filter (fun id => decide (id ∈ existing)) = none ∧ id = nextId ∧
          Planting eventId existing (nextId + 1)
            (entries ++ [(id, createdId (entries.map Prod.fst) g.parentIndex)]) db) := by
  unfold saveGroup
  split
  · rename_i id hid
    have hmem : id ∈ existing := of_decide_eq_true (Option.filter_eq_some_iff.mp hid).2
    refine Triple.bind (Q := fun _ => Planting eventId existing nextId
        (entries ++ [(id, createdId (entries.map Prod.fst) g.parentIndex)]))
      (Triple.update fun db h => ?_) fun _ => Triple.pure fun db h => .inl ⟨hid, h⟩
    refine h.updateGroup hmem (fun p hp => createdId_mem hp) fun g' => ?_
    split
    · exact ⟨rfl, rfl, rfl⟩
    · exact ⟨rfl, rfl, rfl⟩
  · rename_i hid
    refine Triple.updateReturning fun db h => .inr ⟨hid, h.next, ?_⟩
    rw [h.next]
    exact h.insertGroup (fun p hp => createdId_mem hp) ⟨rfl, rfl⟩

theorem planting_saveShips {nextId : ℕ} {ships : Option (List ShipPayload)} :
    Keeps (Planting eventId existing nextId entries) (saveShips groupId ships) :=
  (Keeps.update fun _ h => h.of_same rfl rfl).bind fun _ =>
    (Keeps.forM fun _ _ => Keeps.update fun _ h => h.of_same rfl rfl).bind fun _ =>
    (Keeps.select _).bind fun _ => (Keeps.update fun _ h => h.of_same rfl rfl).bind fun _ =>
    Keeps.update fun _ h => h.of_same rfl rfl

theorem saveGroups_planting (groups : List GroupPayload) (nextId : ℕ)
    (entries : List (ℕ × Option ℕ)) :
    Triple (Planting eventId existing nextId entries)
      (saveGroups eventId existing (entries.map Prod.fst) groups) fun ids db =>
        ids = (plannedEntries existing nextId entries groups).map Prod.fst ∧
          ∃ nextId', Planting eventId existing nextId'
            (plannedEntries existing nextId entries groups) db := by
  induction groups generalizing nextId entries with
  | nil => exact Triple.pure fun db h => ⟨rfl, nextId, h⟩
  | cons g groups ih =>
      unfold saveGroups plannedEntries
      refine saveGroup_planting.bind fun id => Triple.each fun db₁ hdb₁ => ?_
      have hmap : entries.map Prod.fst ++ [id] =
          (entries ++ [(id, createdId (entries.map Prod.fst) g.parentIndex)]).map Prod.fst := by
        simp
      rw [hmap]
      rcases hdb₁ with ⟨hfilter, hplanting⟩ | ⟨hfilter, rfl, hplanting⟩
      · rw [hfilter]
        refine Triple.weaken (planting_saveShips.triple.bind fun _ => ih _ _) ?_ fun _ _ h => h
        rintro _ rfl
        exact hplanting
      · rw [hfilter]
        refine Triple.weaken (planting_saveShips.triple.bind fun _ => ih _ _) ?_ fun _ _ h => h
        rintro _ rfl
        exact hplanting

/-- The groups of the event are the entries', with the last parents that were named. -/
structure StoredTree (eventId : ℕ) (entries : List (ℕ × Option ℕ)) (db : Db) : Prop where
  rows : ∀ g ∈ db.groups, g.eventId = eventId → g.id ∈ entries.map Prod.fst
  stored : ∀ id ∈ entries.map Prod.fst, db.groupOfEvent id eventId = true
  parents : ∀ g ∈ db.groups, g.eventId = eventId → g.parentGroupId = lastParent entries g.id

theorem StoredTree.of_same (h : StoredTree eventId entries db) (hgroups : db'.groups = db.groups) :
    StoredTree eventId entries db' := by
  refine ⟨?_, ?_, ?_⟩
  · rw [hgroups]
    exact h.rows
  · simpa only [Db.groupOfEvent, hgroups] using h.stored
  · rw [hgroups]
    exact h.parents

theorem StoredTree.mapGroups (h : StoredTree eventId entries db) {f : Group → Group}
    (hf : ∀ g, (f g).id = g.id ∧ (f g).eventId = g.eventId ∧
      (f g).parentGroupId = g.parentGroupId) :
    StoredTree eventId entries { db with groups := db.groups.map f } := by
  refine ⟨?_, fun id hid => ?_, ?_⟩
  · intro g hg hge
    obtain ⟨g', hg', rfl⟩ := List.mem_map.mp hg
    rw [(hf g').1]
    exact h.rows g' hg' ((hf g').2.1.symm.trans hge)
  · rw [groupOfEvent_mapGroups fun g => ⟨(hf g).1, (hf g).2.1⟩]
    exact h.stored id hid
  · intro g hg hge
    obtain ⟨g', hg', rfl⟩ := List.mem_map.mp hg
    rw [(hf g').1, (hf g').2.2]
    exact h.parents g' hg' ((hf g').2.1.symm.trans hge)

theorem lastParent_mem {id p : ℕ} (h : lastParent entries id = some p) :
    (id, some p) ∈ entries := by
  unfold lastParent at h
  obtain ⟨⟨a, parent⟩, he, hparent⟩ := Option.bind_eq_some_iff.mp h
  have ha : a = id := by simpa using List.find?_some he
  obtain rfl : parent = some p := hparent
  rw [← ha]
  exact List.mem_reverse.mp (List.mem_of_find?_eq_some he)

/-- The groups that the payload does not name are deleted, and no parent of another with them. -/
theorem Planting.deleteGroups {nextId : ℕ} (h : Planting eventId existing nextId entries db) :
    StoredTree eventId entries
      (db.deleteGroups (existing.filter fun id => id ∉ entries.map Prod.fst)) := by
  have hkept : ∀ id ∈ entries.map Prod.fst,
      id ∉ existing.filter fun id => id ∉ entries.map Prod.fst := by
    intro id hid hgone
    exact of_decide_eq_true (List.mem_filter.mp hgone).2 hid
  have hnamed : ∀ g ∈ db.groups,
      g.id ∉ (existing.filter fun id => id ∉ entries.map Prod.fst) → g.eventId = eventId →
        g.id ∈ entries.map Prod.fst := by
    intro g hg hstays hge
    rcases h.rows g hg hge with hid | hid
    · by_contra hnot
      exact hstays (List.mem_filter.mpr ⟨hid, decide_eq_true hnot⟩)
    · exact hid
  refine ⟨?_, fun id hid => groupOfEvent_deleteGroups (h.stored id hid) (hkept id hid), ?_⟩
  · intro g hg hge
    obtain ⟨g', hg', rfl⟩ := List.mem_map.mp hg
    obtain ⟨hg', hstays⟩ := List.mem_filter.mp hg'
    exact hnamed g' hg' (by simpa using hstays) hge
  · intro g hg hge
    obtain ⟨g', hg', rfl⟩ := List.mem_map.mp hg
    obtain ⟨hg', hstays⟩ := List.mem_filter.mp hg'
    have hid := hnamed g' hg' (by simpa using hstays) hge
    have hparent := h.parents g' hg' hge hid
    change g'.parentGroupId.filter _ = lastParent entries g'.id
    rw [← hparent]
    cases hp : g'.parentGroupId with
    | none => rfl
    | some p =>
        rw [hparent] at hp
        have hmem := hkept p (h.named _ _ (lastParent_mem hp))
        rw [Option.filter_some, if_pos (by simpa using hmem)]

end Save

theorem groups_upsertMember (m : Member) (set : Member → Member) :
    (db.upsertMember m set).groups = db.groups := by
  unfold Db.upsertMember
  split <;> rfl

section Roles

variable {P : Db → Prop} (hsame : ∀ db db', db'.groups = db.groups → P db → P db')

include hsame

variable {existing : List ℕ}

theorem keeps_saveRole {sortOrder : ℕ} {r : RolePayload} :
    Keeps P (saveRole groupId existing sortOrder r) := by
  unfold saveRole
  split
  · refine Keeps.bind (Keeps.update ?_) fun _ => Keeps.pure _
    exact fun db h => hsame db _ rfl h
  · exact Keeps.updateReturning fun db h => hsame db _ rfl h

theorem keeps_reconcile {roleId : ℕ} {r : RolePayload} : Keeps P (reconcile groupId roleId r) := by
  unfold reconcile
  split
  · exact Keeps.pure _
  · refine Keeps.bind (Keeps.update ?_) fun _ => Keeps.update ?_
    · exact fun db h => hsame db _ rfl h
    · exact fun db h => hsame db _ (groups_upsertMember _ _) h
  · exact Keeps.update fun db h => hsame db _ rfl h

theorem keeps_saveRolesFrom (created : List ℕ) (roles : List RolePayload) :
    Keeps P (saveRolesFrom groupId existing created roles) := by
  induction roles generalizing created with
  | nil => exact Keeps.pure _
  | cons r roles ih =>
      exact (keeps_saveRole hsame).bind fun _ => (keeps_reconcile hsame).bind fun _ => ih _

variable {restricted : Bool}

theorem keeps_saveRoles {g : GroupPayload} : Keeps P (saveRoles restricted groupId g) := by
  refine (Keeps.select _).bind fun existing => ?_
  split
  · refine Keeps.bind (Keeps.forM fun _ _ => Keeps.update ?_) fun _ =>
      Keeps.bind (Keeps.update ?_) fun _ => Keeps.pure _
    · exact fun db h => hsame db _ (groups_upsertMember _ _) h
    · exact fun db h => hsame db _ rfl h
  · refine (keeps_saveRolesFrom hsame _ _).bind fun _ =>
      Keeps.bind (Keeps.update ?_) fun _ => Keeps.pure _
    exact fun db h => hsame db _ rfl h

/-- What the groups alone decide is kept while the roles are saved. -/
theorem keeps_saveAllRoles (groups : List (ℕ × GroupPayload)) :
    Keeps P (saveAllRoles restricted groups) := by
  induction groups with
  | nil => exact Keeps.pure _
  | cons g groups ih => exact (keeps_saveRoles hsame).bind fun _ => ih.bind fun _ => Keeps.pure _

end Roles

theorem storedTree_saveLinks (i : ℕ) (groups : List GroupPayload) :
    Keeps (StoredTree eventId entries) (saveLinks created i groups) := by
  induction groups generalizing i with
  | nil => exact Keeps.pure _
  | cons g groups ih =>
      refine (Keeps.update fun db h => ?_).bind fun _ => ih _
      cases created[i]? with
      | none => exact h
      | some groupId =>
          refine h.mapGroups fun g => ?_
          split <;> exact ⟨rfl, rfl, rfl⟩

/-! ## What a save stores -/

theorem Keyed.planting (h : Keyed db) :
    Planting eventId ((db.groupRows eventId).map Group.id) db.nextId [] db where
  next := rfl
  fresh := h.groupsFresh
  rows g hg hge := .inl (List.mem_map_of_mem (List.mem_filter.mpr ⟨hg, decide_eq_true hge⟩))
  owned id hid := by
    obtain ⟨g, hg, rfl⟩ := List.mem_map.mp hid
    obtain ⟨hg, hge⟩ := List.mem_filter.mp hg
    exact groupOfEvent_iff.mpr ⟨g, hg, rfl, of_decide_eq_true hge⟩
  stored id hid := by cases hid
  parents g _ _ hid := by cases hid
  named _ _ hid := by cases hid

variable {groups : List GroupPayload}

theorem saveRoster_tree {restricted : Bool} (h : Keyed db₀) :
    Triple (fun db => db = db₀) (saveRoster eventId restricted (some groups)) fun _ =>
      StoredTree eventId (plannedEntries ((db₀.groupRows eventId).map Group.id) db₀.nextId []
        groups) := by
  refine Triple.bind (Q := fun existing db => existing = (db₀.groupRows eventId).map Group.id ∧
    db = db₀) (Triple.select fun db hdb => ⟨by rw [hdb]; rfl, hdb⟩) fun existing =>
    Triple.each fun db₁ hdb₁ => ?_
  obtain ⟨rfl, rfl⟩ := hdb₁
  refine Triple.bind ((saveGroups_planting groups db₁.nextId []).weaken ?_ fun _ _ h => h)
    fun created => Triple.each fun db₂ hdb₂ => ?_
  · rintro _ rfl
    exact h.planting
  · obtain ⟨rfl, nextId', hplanting⟩ := hdb₂
    refine Triple.bind (Q := fun _ => StoredTree eventId _) (Triple.update fun db hdb => ?_)
      fun _ => (storedTree_saveLinks 0 groups).triple.seq fun _ =>
        (keeps_saveAllRoles (fun _ _ hgroups h => h.of_same hgroups) _).triple
    rw [hdb]
    exact hplanting.deleteGroups

variable {body : PlanPayload}

/-- A save that answers leaves the groups as the payload's last entries have them. -/
theorem saveEventGroups_tree (h : Keyed db₀) (hgroups : body.groups = some groups) :
    Triple (fun db => db = db₀) (saveEventGroups orgId eventId userId body) fun _ =>
      StoredTree eventId (plannedEntries ((db₀.groupRows eventId).map Group.id) db₀.nextId []
        groups) := by
  have hsame : ∀ entries, ∀ db db', SameRoster db db' → StoredTree eventId entries db →
      StoredTree eventId entries db' := fun _ _ _ hsame h => h.of_same hsame.groups
  refine Triple.seq (Triple.select fun _ h => h) fun _ =>
    Triple.seq (Triple.require fun _ h _ => h) fun _ =>
    Triple.seq (Triple.select fun _ h => h) fun _ =>
    Triple.seq (Triple.found fun _ _ h _ => h) fun ev =>
    Triple.bind (Q := fun _ => StoredTree eventId (plannedEntries
      ((db₀.groupRows eventId).map Group.id) db₀.nextId [] groups)) ?_ fun _ =>
    Triple.seq (keeps_update (hsame _) fun _ => ?_).triple fun _ =>
    Triple.seq (Triple.select fun _ h => h) fun _ =>
    Triple.seq (keeps_saveFrequencies (hsame _) _ _).triple fun _ =>
    Triple.seq (keeps_update (hsame _) fun _ => ?_).triple fun _ => Triple.pure fun _ h => h
  · rw [hgroups]
    exact saveRoster_tree h
  all_goals exact ⟨rfl, rfl, rfl, rfl, rfl, le_rfl⟩

theorem parentOf_storedTree (hkeyed : Keyed db) (h : StoredTree eventId entries db) (groupId : ℕ) :
    parentOf (db.groupRows eventId) groupId = lastParent entries groupId := by
  have hrows : ((db.groupRows eventId).map Group.id).Nodup := nodup_map_filter hkeyed.groups
  by_cases hid : groupId ∈ entries.map Prod.fst
  · obtain ⟨g, hg, rfl, hge⟩ := groupOfEvent_iff.mp (h.stored groupId hid)
    rw [parentOf_of_mem hrows (List.mem_filter.mpr ⟨hg, decide_eq_true hge⟩)]
    exact h.parents g hg hge
  · have hnone : lastParent entries groupId = none := by
      cases hlast : lastParent entries groupId with
      | none => rfl
      | some p => exact absurd (List.mem_map.mpr ⟨_, lastParent_mem hlast, rfl⟩) hid
    rw [hnone]
    cases hparent : parentOf (db.groupRows eventId) groupId with
    | none => rfl
    | some p =>
        obtain ⟨g, hg, rfl⟩ := List.mem_map.mp (parentOf_eq_some hparent)
        obtain ⟨hg, hge⟩ := List.mem_filter.mp hg
        exact absurd (h.rows g hg (of_decide_eq_true hge)) hid

theorem groups_saveEventGroups (hgroups : body.groups = none) :
    Keeps (fun db => db.groups = db₀.groups) (saveEventGroups orgId eventId userId body) := by
  refine keeps_saveEventGroups (fun _ _ hsame h => hsame.groups.trans h) fun restricted => ?_
  rw [hgroups]
  exact Keeps.pure _

/-- The trees that a save stores are sound exactly if the parents its payload names are. -/
theorem saved_tree_sound_iff (h : Keyed db) (orgId eventId requesterId : ℕ) (body : PlanPayload)
    (hanswers : (saveEventGroups orgId eventId requesterId body).answers db = true) :
    ((Request.saveEventGroups orgId eventId requesterId body).serve db).2.SoundTree eventId ↔
      body.soundTree db eventId := by
  rw [soundTree_iff (h.serve _)]
  cases hgroups : body.groups with
  | none =>
      have hkept : ((Request.saveEventGroups orgId eventId requesterId body).serve db).2.groups =
          db.groups := (groups_saveEventGroups hgroups).transaction rfl
      rw [PlanPayload.soundTree, hgroups, Db.groupRows, hkept]
      rfl
  | some groups =>
      have htree : StoredTree eventId (plannedEntries ((db.groupRows eventId).map Group.id)
          db.nextId [] groups)
          ((Request.saveEventGroups orgId eventId requesterId body).serve db).2 :=
        (saveEventGroups_tree h hgroups).answered rfl hanswers
      rw [PlanPayload.soundTree, hgroups, funext (parentOf_storedTree (h.serve _) htree)]

/-! ## Payloads that name no group twice -/

/-- Every parent is named before its children. -/
structure Ordered (entries : List (ℕ × Option ℕ)) : Prop where
  nodup : (entries.map Prod.fst).Nodup
  before : ∀ id p, (id, some p) ∈ entries →
    (entries.map Prod.fst).idxOf p < (entries.map Prod.fst).idxOf id

theorem Ordered.acyclic (h : Ordered entries) : Acyclic (lastParent entries) :=
  .of_rank (fun id => (entries.map Prod.fst).idxOf id) fun id p hp => h.before id p (lastParent_mem hp)

theorem Ordered.snoc (h : Ordered entries) (ha : a ∉ entries.map Prod.fst)
    (hparent : ∀ p, parent = some p → p ∈ entries.map Prod.fst) :
    Ordered (entries ++ [(a, parent)]) := by
  have hidx : ∀ id ∈ entries.map Prod.fst, ((entries ++ [(a, parent)]).map Prod.fst).idxOf id =
      (entries.map Prod.fst).idxOf id := by
    intro id hid
    rw [List.map_append, List.idxOf_append_of_mem hid]
  refine ⟨?_, fun id p hmem => ?_⟩
  · rw [List.map_append]
    exact List.nodup_append.mpr ⟨h.nodup, by simp, fun x hx y hy => by
      rw [List.mem_singleton.mp hy]
      rintro rfl
      exact ha hx⟩
  · rcases List.mem_append.mp hmem with hmem | hmem
    · have hlt := h.before id p hmem
      have hid : id ∈ entries.map Prod.fst := List.mem_map.mpr ⟨_, hmem, rfl⟩
      have hp : p ∈ entries.map Prod.fst :=
        List.idxOf_lt_length_iff.mp (hlt.trans (List.idxOf_lt_length_iff.mpr hid))
      rwa [hidx id hid, hidx p hp]
    · obtain ⟨rfl, hp⟩ := Prod.mk.inj (List.mem_singleton.mp hmem)
      have hp := hparent p hp.symm
      rw [hidx p hp, List.map_append, List.idxOf_append_of_notMem ha]
      have hlt := List.idxOf_lt_length_iff.mpr hp
      simpa using hlt

theorem ordered_plannedEntries {existing : List ℕ} {nextId : ℕ} (groups : List GroupPayload)
    (h : Ordered entries) (hids : (groups.filterMap GroupPayload.id).Nodup)
    (hnamed : ∀ id ∈ groups.filterMap GroupPayload.id, id ∈ existing → id ∉ entries.map Prod.fst)
    (hold : ∀ id ∈ existing, id < nextId) (hcreated : ∀ id ∈ entries.map Prod.fst, id < nextId) :
    Ordered (plannedEntries existing nextId entries groups) := by
  induction groups generalizing nextId entries with
  | nil => exact h
  | cons g groups ih =>
      unfold plannedEntries
      have hparent : ∀ p, createdId (entries.map Prod.fst) g.parentIndex = some p →
          p ∈ entries.map Prod.fst := fun p hp => createdId_mem hp
      have hsub : (groups.filterMap GroupPayload.id).Sublist
          ((g :: groups).filterMap GroupPayload.id) :=
        (List.sublist_cons_self g groups).filterMap _
      have hmem : ∀ id parent id', id' ∈ (entries ++ [(id, parent)]).map Prod.fst →
          id' ∈ entries.map Prod.fst ∨ id' = id := by
        intro id parent id' hid'
        rw [List.map_append, List.mem_append] at hid'
        exact hid'.imp_right fun hid' => List.mem_singleton.mp hid'
      split
      · rename_i id hid
        obtain ⟨hgid, hid⟩ := Option.filter_eq_some_iff.mp hid
        have hexists : id ∈ existing := of_decide_eq_true hid
        have hfirst : id ∈ (g :: groups).filterMap GroupPayload.id :=
          List.mem_filterMap.mpr ⟨g, List.mem_cons_self, hgid⟩
        have hnot : id ∉ groups.filterMap GroupPayload.id := by
          rw [List.filterMap_cons_some hgid] at hids
          exact (List.nodup_cons.mp hids).1
        refine ih (h.snoc (hnamed id hfirst hexists) hparent) (hids.sublist hsub) ?_ hold ?_
        · intro id' hid' hexists' hnow
          rcases hmem _ _ _ hnow with hnow | rfl
          · exact hnamed id' (hsub.subset hid') hexists' hnow
          · exact hnot hid'
        · intro id' hnow
          rcases hmem _ _ _ hnow with hnow | rfl
          · exact hcreated id' hnow
          · exact hold id' hexists
      · have hnew : nextId ∉ entries.map Prod.fst :=
          fun hnow => Nat.lt_irrefl _ (hcreated nextId hnow)
        refine ih (h.snoc hnew hparent) (hids.sublist hsub) ?_
          (fun id' hid' => Nat.lt_succ_of_lt (hold id' hid')) ?_
        · intro id' hid' hexists' hnow
          rcases hmem _ _ _ hnow with hnow | rfl
          · exact hnamed id' (hsub.subset hid') hexists' hnow
          · exact Nat.lt_irrefl _ (hold id' hexists')
        · intro id' hnow
          rcases hmem _ _ _ hnow with hnow | rfl
          · exact Nat.lt_succ_of_lt (hcreated id' hnow)
          · exact Nat.lt_succ_self _

/-- A payload that names no group twice names no circle. -/
theorem soundTree_of_nodup (h : Keyed db) (hgroups : body.groups = some groups)
    (hids : (groups.filterMap GroupPayload.id).Nodup) : body.soundTree db eventId := by
  rw [PlanPayload.soundTree, hgroups]
  have hnil : Ordered [] := ⟨.nil, by simp⟩
  refine (ordered_plannedEntries groups hnil hids (by simp) ?_ (by simp)).acyclic
  intro id hid
  obtain ⟨g, hg, rfl⟩ := List.mem_map.mp hid
  exact h.groupsFresh g (List.mem_filter.mp hg).1

/-! ## A group that is named twice -/

def entryOf (id parentIndex : Option ℕ) : GroupPayload where
  id := id
  name := "Alpha"
  leaderUserId := none
  parentIndex := parentIndex
  linkedIndex := none
  maxMembers := 0
  ships := none
  roles := none
  memberUserIds := none
  memberRoles := []

/-- A group, and again the same under itself. -/
def namedTwice : PlanPayload where
  groups := some [entryOf (some 20) none, entryOf (some 20) (some 0)]
  frequencies := none

theorem saved_tree_sound_gatedWing :
    ((Request.saveEventGroups 1 10 100 namedTwice).serve gatedWing).2.SoundTree 10 ↔
      namedTwice.soundTree gatedWing 10 :=
  saved_tree_sound_iff keyed_gatedWing 1 10 100 namedTwice (by decide +kernel)

/-- A group that is named twice can become its own parent. -/
theorem saved_circle :
    ¬ ∀ (db : Db) (orgId eventId requesterId : ℕ) (body : PlanPayload), Keyed db →
      (saveEventGroups orgId eventId requesterId body).answers db = true →
        ((Request.saveEventGroups orgId eventId requesterId body).serve db).2.SoundTree
          eventId := by
  intro hclaim
  have hsound := hclaim gatedWing 1 10 100 namedTwice keyed_gatedWing (by decide +kernel)
  rw [soundTree_iff (keyed_gatedWing.serve _)] at hsound
  have hparent : parentOf
      (((Request.saveEventGroups 1 10 100 namedTwice).serve gatedWing).2.groupRows 10) 20 =
        some 20 := by
    decide +kernel
  exact hsound 20 (.single hparent)

end SpecterComs.Events
