import SpecterComs.Library.Rows
import SpecterComs.Library.Transactions
import SpecterComs.Verification.Events.Trees

/-! # Launches at once

A launch reads the flag of its event before its transaction begins. A transaction that commits
while the event is not launched leaves one channel for each row that points to one; a second one
adds its channels to those of the first.
-/

namespace SpecterComs.Events

open Handler

/-! ## The groups that a launch visits -/

section Visit

variable {rows sorted : List Group} {g : Group} {depth more : ℕ} {sorted' : List Group}

/-- Depth that is not needed changes nothing. -/
theorem visit_mono (h : visit rows depth g sorted = some sorted') (hmore : depth ≤ more) :
    visit rows more g sorted = some sorted' := by
  induction depth generalizing g sorted sorted' more with
  | zero => cases h
  | succ depth ih =>
      obtain ⟨more, rfl⟩ := Nat.exists_eq_add_of_le' (Nat.le_of_add_left_le hmore)
      have hle : depth ≤ more := Nat.le_of_succ_le_succ hmore
      cases hvisited : visited sorted g.id with
      | true => simpa [visit, hvisited] using h
      | false =>
          cases hparent : g.parentGroupId.bind fun id => rows.find? fun p => p.id = id with
          | none => simpa [visit, hvisited, hparent] using h
          | some parent =>
              cases hparented : visited sorted parent.id with
              | true => simpa [visit, hvisited, hparent, hparented] using h
              | false =>
                  simp only [visit, hvisited, hparent, hparented, Bool.false_eq_true, if_false,
                    Option.bind_eq_bind, Option.bind_eq_some_iff] at h ⊢
                  obtain ⟨found, hfound, hlast⟩ := h
                  exact ⟨found, ih hfound hle, hlast⟩

/-- What a visit that ends adds: groups of the event, each of them once. -/
structure Visits (rows : List Group) (depth : ℕ) (sorted added : List Group) : Prop where
  mem : ∀ g ∈ added, g ∈ rows
  fresh : ∀ g ∈ added, visited sorted g.id = false
  nodup : (added.map Group.id).Nodup
  /-- Each of them could have been visited first. -/
  ends : ∀ g ∈ added, ∃ sorted', visit rows depth g sorted = some sorted'

theorem Visits.mono {added : List Group} (h : Visits rows depth sorted added)
    (hmore : depth ≤ more) : Visits rows more sorted added where
  mem := h.mem
  fresh := h.fresh
  nodup := h.nodup
  ends g hg := by
    obtain ⟨sorted', hsorted⟩ := h.ends g hg
    exact ⟨sorted', visit_mono hsorted hmore⟩

theorem visits_of_visit (hrows : (rows.map Group.id).Nodup) (hg : g ∈ rows)
    (h : visit rows depth g sorted = some sorted') :
    ∃ added, sorted' = sorted ++ added ∧ Visits rows depth sorted added ∧
      visited sorted' g.id = true := by
  induction depth using Nat.strong_induction_on generalizing g sorted' with
  | _ depth ih =>
      -- A smaller depth that is enough visits the same.
      by_cases hless : ∃ less < depth, ∃ found, visit rows less g sorted = some found
      · obtain ⟨less, hlt, found, hfound⟩ := hless
        have hsame := visit_mono hfound hlt.le
        rw [h] at hsame
        obtain rfl := Option.some.inj hsame
        obtain ⟨added, rfl, hvisits, hvisited⟩ := ih less hlt hg hfound
        exact ⟨added, rfl, hvisits.mono hlt.le, hvisited⟩
      · have hends : ∃ sorted', visit rows depth g sorted = some sorted' := ⟨_, h⟩
        cases depth with
        | zero => cases h
        | succ depth =>
            cases hvisited : visited sorted g.id with
            | true =>
                obtain rfl : sorted = sorted' := by simpa [visit, hvisited] using h
                exact ⟨[], by simp, ⟨by simp, by simp, by simp, by simp⟩, hvisited⟩
            | false =>
                -- The group alone.
                have halone : Visits rows (depth + 1) sorted [g] := by
                  refine ⟨?_, ?_, by simp, ?_⟩
                  · simpa using hg
                  · simpa using hvisited
                  · simpa using hends
                cases hparent : g.parentGroupId.bind fun id => rows.find? fun p => p.id = id with
                | none =>
                    obtain rfl : sorted ++ [g] = sorted' := by
                      simpa [visit, hvisited, hparent] using h
                    exact ⟨[g], rfl, halone, by simp [visited]⟩
                | some parent =>
                    cases hparented : visited sorted parent.id with
                    | true =>
                        obtain rfl : sorted ++ [g] = sorted' := by
                          simpa [visit, hvisited, hparent, hparented] using h
                        exact ⟨[g], rfl, halone, by simp [visited]⟩
                    | false =>
                        simp only [visit, hvisited, hparent, hparented, Bool.false_eq_true,
                          if_false, Option.bind_eq_bind, Option.bind_eq_some_iff] at h
                        obtain ⟨found, hfound, hlast⟩ := h
                        obtain rfl := Option.some.inj hlast
                        obtain ⟨_, _, hfind⟩ := Option.bind_eq_some_iff.mp hparent
                        obtain ⟨added, rfl, hvisits, -⟩ := ih depth (Nat.lt_succ_self _)
                          (List.mem_of_find?_eq_some hfind) hfound
                        have hnew : ∀ g' ∈ added, g'.id ≠ g.id := by
                          intro g' hg' hid
                          obtain rfl := eq_of_key_eq hrows (hvisits.mem g' hg') hg hid
                          obtain ⟨found', hfound'⟩ := hvisits.ends g' hg'
                          exact hless ⟨depth, Nat.lt_succ_self _, found', hfound'⟩
                        refine ⟨added ++ [g], by simp, ⟨?_, ?_, ?_, ?_⟩, by simp [visited]⟩
                        · intro g' hg'
                          rcases List.mem_append.mp hg' with hg' | hg'
                          · exact hvisits.mem g' hg'
                          · exact halone.mem g' hg'
                        · intro g' hg'
                          rcases List.mem_append.mp hg' with hg' | hg'
                          · exact hvisits.fresh g' hg'
                          · exact halone.fresh g' hg'
                        · exact nodup_map_append hvisits.nodup hnew
                        · intro g' hg'
                          rcases List.mem_append.mp hg' with hg' | hg'
                          · exact (hvisits.mono (Nat.le_succ _)).ends g' hg'
                          · exact halone.ends g' hg'

/-- A launch visits no group twice. -/
theorem sortGroups_nodup (hrows : (rows.map Group.id).Nodup)
    (h : sortGroups depth rows = some sorted) :
    (∀ g ∈ sorted, g ∈ rows) ∧ (sorted.map Group.id).Nodup := by
  have hfold : ∀ l : List Group, (∀ g ∈ l, g ∈ rows) → ∀ first : List Group,
      (∀ g ∈ first, g ∈ rows) → (first.map Group.id).Nodup →
      l.foldlM (fun sorted g => visit rows depth g sorted) first = some sorted →
      (∀ g ∈ sorted, g ∈ rows) ∧ (sorted.map Group.id).Nodup := by
    intro l
    induction l with
    | nil =>
        intro _ first hmem hnodup hlast
        obtain rfl : first = sorted := by simpa using hlast
        exact ⟨hmem, hnodup⟩
    | cons g l ih =>
        intro hl first hmem hnodup hlast
        rw [List.foldlM_cons, Option.bind_eq_bind, Option.bind_eq_some_iff] at hlast
        obtain ⟨next, hnext, hlast⟩ := hlast
        obtain ⟨added, rfl, hvisits, -⟩ := visits_of_visit hrows (hl g List.mem_cons_self) hnext
        refine ih (fun g' hg' => hl g' (List.mem_cons_of_mem _ hg')) _ ?_ ?_ hlast
        · intro g' hg'
          rcases List.mem_append.mp hg' with hg' | hg'
          · exact hmem g' hg'
          · exact hvisits.mem g' hg'
        · rw [List.map_append, List.nodup_append]
          refine ⟨hnodup, hvisits.nodup, ?_⟩
          intro id hid id' hid' heq
          obtain ⟨g₁, hg₁, rfl⟩ := List.mem_map.mp hid
          obtain ⟨g₂, hg₂, rfl⟩ := List.mem_map.mp hid'
          have hfresh := hvisits.fresh g₂ hg₂
          rw [← Bool.not_eq_true, visited_iff] at hfresh
          exact hfresh ⟨g₁, hg₁, heq⟩
  exact hfold rows (fun _ hg => hg) [] (by simp) (by simp) h

end Visit

/-! ## The channels of an event -/

namespace LaunchDb

/-- The channels that were created for an event. -/
def created (db : LaunchDb) (eventId : ℕ) : List ℕ :=
  (db.channels.filter fun c => c.eventId = eventId).map Channel.id

/-- The channels that the event, its groups and its frequencies point to. -/
def pointers (db : LaunchDb) (eventId : ℕ) : List ℕ :=
  (db.events.filter fun e => e.id = eventId).filterMap Event.commandChannelId ++
    ((db.groupRows eventId).filterMap fun g => db.groupChannel g.id) ++
    (db.frequencies.filter fun f => f.eventId = eventId).filterMap Frequency.channelId

/-- What was created is what is pointed to: one channel for the event and for each group and each
frequency, and no other. -/
def LaunchedOnce (db : LaunchDb) (eventId : ℕ) : Prop :=
  (db.created eventId).Perm (db.pointers eventId)

def launched (db : LaunchDb) (eventId : ℕ) : Bool :=
  db.events.any fun e => e.id = eventId && e.launched

/-- The plan of the event stays while it is launched. -/
structure SamePlan (db₀ db : LaunchDb) : Prop where
  groups : db.groups = db₀.groups
  frequencies : db.frequencies.map (fun f => (f.id, f.eventId)) =
    db₀.frequencies.map fun f => (f.id, f.eventId)
  events : db.events.map Event.id = db₀.events.map Event.id

/-- The rows that a launch updates are found by their ids, and before a launch none of them points
to a channel. -/
structure Launchable (db : LaunchDb) (eventId : ℕ) : Prop where
  groups : (db.groups.map Group.id).Nodup
  frequencies : (db.frequencies.map Frequency.id).Nodup
  events : (db.events.map Event.id).Nodup
  once : db.LaunchedOnce eventId
  blank : db.launched eventId = false → db.pointers eventId = []

end LaunchDb

open LaunchDb

/-! ## What a launch has written -/

/-- A launch under way: each channel so far but that of the command is pointed to. -/
structure Launching (db₀ : LaunchDb) (eventId commandChannelId : ℕ) (groupsLeft frequenciesLeft :
    List ℕ) (db : LaunchDb) : Prop where
  plan : SamePlan db₀ db
  command : ∀ e ∈ db.events, e.id = eventId → e.commandChannelId = none
  groups : ∀ id ∈ groupsLeft, db.groupChannel id = none
  frequencies : ∀ f ∈ db.frequencies, f.id ∈ frequenciesLeft → f.channelId = none
  created : (db.created eventId).Perm (commandChannelId :: db.pointers eventId)

variable {c : Channel}

theorem created_insertChannel (db : LaunchDb) {eventId : ℕ} (hc : c.eventId = eventId) :
    (db.insertChannel c).created eventId = db.created eventId ++ [c.id] := by
  simp [LaunchDb.created, LaunchDb.insertChannel, hc]

/-- One more channel, and one more pointer to it. -/
theorem created_snoc {created a b b' c : List ℕ} {id x : ℕ} (h : created.Perm (x :: (a ++ b ++ c)))
    (hb : b'.Perm (id :: b)) : (created ++ [id]).Perm (x :: (a ++ b' ++ c)) := by
  have hpointed : (a ++ b' ++ c).Perm (id :: (a ++ b ++ c)) := by
    refine ((hb.append_left a).append_right c).trans ?_
    rw [List.append_assoc, List.append_assoc, List.cons_append]
    exact List.perm_middle
  calc (created ++ [id]).Perm (id :: created) := List.perm_append_singleton _ _
    List.Perm _ (id :: x :: (a ++ b ++ c)) := h.cons id
    List.Perm _ (x :: id :: (a ++ b ++ c)) := .swap _ _ _
    List.Perm _ (x :: (a ++ b' ++ c)) := (hpointed.symm).cons x

variable {db₀ db : LaunchDb} {eventId commandChannelId : ℕ} {groupsLeft frequenciesLeft : List ℕ}

theorem Launching.insertGroupChannel {g : Group}
    (h : Launching db₀ eventId commandChannelId (g.id :: groupsLeft) frequenciesLeft db)
    (hrows : (db₀.groups.map Group.id).Nodup) (hg : g ∈ db₀.groupRows eventId)
    (hnew : g.id ∉ groupsLeft) (hc : c.eventId = eventId) :
    Launching db₀ eventId commandChannelId groupsLeft frequenciesLeft
      ((db.insertChannel c).setGroupChannel g.id c.id) := by
  refine ⟨⟨h.plan.groups, h.plan.frequencies, h.plan.events⟩, h.command, ?_, h.frequencies, ?_⟩
  · intro id hid
    have hne : id ≠ g.id := fun heq => hnew (heq ▸ hid)
    exact (Function.update_of_ne hne _ _).trans (h.groups id (List.mem_cons_of_mem _ hid))
  · have hgroups : db.groupRows eventId = db₀.groupRows eventId := by
      rw [Db.groupRows, h.plan.groups]
      rfl
    have hnodup : (db.groupRows eventId).Nodup := by
      rw [hgroups]
      exact (List.Nodup.of_map _ hrows).filter _
    have hpointed : ((db.groupRows eventId).filterMap fun g' =>
        Function.update db.groupChannel g.id (some c.id) g'.id).Perm
          (c.id :: (db.groupRows eventId).filterMap fun g' => db.groupChannel g'.id) := by
      refine perm_filterMap_cons hnodup (hgroups ▸ hg) (h.groups g.id List.mem_cons_self)
        (Function.update_self _ _ _) fun g' hg' hne => Function.update_of_ne ?_ _ _
      rintro hid
      rw [hgroups] at hg'
      exact hne (eq_of_key_eq (nodup_map_filter hrows) hg' hg hid)
    have hcreated : ((db.insertChannel c).setGroupChannel g.id c.id).created eventId =
        db.created eventId ++ [c.id] := created_insertChannel db hc
    rw [hcreated]
    exact created_snoc h.created hpointed

theorem Launching.insertFrequencyChannel {f : Frequency}
    (h : Launching db₀ eventId commandChannelId groupsLeft (f.id :: frequenciesLeft) db)
    (hrows : (db₀.frequencies.map Frequency.id).Nodup)
    (hf : (f.id, eventId) ∈ db₀.frequencies.map fun f => (f.id, f.eventId))
    (hnew : f.id ∉ frequenciesLeft) (hc : c.eventId = eventId) :
    Launching db₀ eventId commandChannelId groupsLeft frequenciesLeft
      ((db.insertChannel c).setFrequencyChannel f.id c.id) := by
  have hids : (db.frequencies.map Frequency.id).Nodup := by
    have hsame := congrArg (List.map Prod.fst) h.plan.frequencies
    rw [List.map_map, List.map_map] at hsame
    exact (congrArg List.Nodup hsame).mpr hrows
  set point : Frequency → Frequency := fun f' =>
    if f'.id = f.id then { f' with channelId := some c.id } else f' with hpoint
  have hkeys : ∀ f', (point f').id = f'.id ∧ (point f').eventId = f'.eventId := by
    intro f'
    rw [hpoint]
    dsimp only
    split <;> exact ⟨rfl, rfl⟩
  refine ⟨⟨h.plan.groups, ?_, h.plan.events⟩, h.command, h.groups, ?_, ?_⟩
  · rw [← h.plan.frequencies]
    change (db.frequencies.map point).map _ = _
    rw [List.map_map]
    exact List.map_congr_left fun f' _ => Prod.ext (hkeys f').1 (hkeys f').2
  · intro f' hf' hleft
    obtain ⟨f'', hf'', rfl⟩ := List.mem_map.mp hf'
    change (point f'').id ∈ _ at hleft
    rw [(hkeys f'').1] at hleft
    have hne : f''.id ≠ f.id := fun heq => hnew (heq ▸ hleft)
    rw [if_neg hne]
    exact h.frequencies f'' hf'' (List.mem_cons_of_mem _ hleft)
  · rw [← h.plan.frequencies] at hf
    obtain ⟨row, hrow, hkey⟩ := List.mem_map.mp hf
    obtain ⟨hid, hevent⟩ := Prod.mk.inj hkey
    have hmem : row ∈ db.frequencies.filter fun f' => f'.eventId = eventId :=
      List.mem_filter.mpr ⟨hrow, decide_eq_true hevent⟩
    have hpointed : ((db.frequencies.filter fun f' => f'.eventId = eventId).filterMap
        (Frequency.channelId ∘ point)).Perm
          (c.id :: (db.frequencies.filter fun f' => f'.eventId = eventId).filterMap
            Frequency.channelId) := by
      refine perm_filterMap_cons ((List.Nodup.of_map _ hids).filter _) hmem
        (h.frequencies row hrow (by rw [hid]; exact List.mem_cons_self)) ?_ fun f' hf' hne => ?_
      · simp [hpoint, hid]
      · have hother : f'.id ≠ f.id := fun heq =>
          hne (eq_of_key_eq hids (List.mem_filter.mp hf').1 hrow (heq.trans hid.symm))
        simp [hpoint, hother]
    have hcreated : ((db.insertChannel c).setFrequencyChannel f.id c.id).created eventId =
        db.created eventId ++ [c.id] := created_insertChannel db hc
    have hfrequencies : ((db.frequencies.map point).filter fun f' => f'.eventId = eventId) =
        (db.frequencies.filter fun f' => f'.eventId = eventId).map point := by
      rw [List.filter_map]
      congr 2
      funext f'
      simp [(hkeys f').2]
    have hpointers : ((db.insertChannel c).setFrequencyChannel f.id c.id).pointers eventId =
        (db.events.filter fun e => e.id = eventId).filterMap Event.commandChannelId ++
          ((db.groupRows eventId).filterMap fun g => db.groupChannel g.id) ++
          (db.frequencies.filter fun f' => f'.eventId = eventId).filterMap
            (Frequency.channelId ∘ point) := by
      rw [← List.filterMap_map, ← hfrequencies]
      rfl
    rw [hcreated, hpointers, ← List.append_nil (_ ++ List.filterMap (_ ∘ point) _)]
    refine created_snoc ?_ hpointed
    rw [List.append_nil]
    exact h.created

/-- The rows stay what they are, and a launch that begins while the event is not launched is under
way. -/
structure Writes (db₀ : LaunchDb) (eventId commandChannelId : ℕ)
    (groupsLeft frequenciesLeft : List ℕ) (w : LaunchDb → LaunchDb) : Prop where
  plan : ∀ db, SamePlan db₀ db → SamePlan db₀ (w db)
  launching : ∀ db, SamePlan db₀ db → db.Launchable eventId → db.launched eventId = false →
    Launching db₀ eventId commandChannelId groupsLeft frequenciesLeft (w db)

theorem LaunchDb.SamePlan.setFrequencyChannel (h : SamePlan db₀ db) (frequencyId channelId : ℕ) :
    SamePlan db₀ (db.setFrequencyChannel frequencyId channelId) := by
  refine ⟨h.groups, ?_, h.events⟩
  rw [← h.frequencies]
  change (db.frequencies.map _).map _ = _
  rw [List.map_map]
  refine List.map_congr_left fun f _ => ?_
  simp only [Function.comp_apply]
  split <;> rfl

theorem LaunchDb.SamePlan.setLaunched (h : SamePlan db₀ db) (eventId channelId : ℕ) :
    SamePlan db₀ (db.setLaunched eventId channelId) := by
  refine ⟨h.groups, h.frequencies, ?_⟩
  rw [← h.events]
  change (db.events.map _).map _ = _
  rw [List.map_map]
  refine List.map_congr_left fun e _ => ?_
  simp only [Function.comp_apply]
  split <;> rfl

theorem LaunchDb.Launchable.launching_insertChannel (h : db.Launchable eventId)
    (hplan : SamePlan db₀ db) (hlaunched : db.launched eventId = false) (hc : c.eventId = eventId)
    (hgroups : ∀ id ∈ groupsLeft, ∃ g ∈ db.groupRows eventId, g.id = id)
    (hfrequencies : ∀ f ∈ db.frequencies, f.id ∈ frequenciesLeft → f.eventId = eventId) :
    Launching db₀ eventId c.id groupsLeft frequenciesLeft (db.insertChannel c) := by
  have hblank := h.blank hlaunched
  obtain ⟨hothers, hf⟩ := List.append_eq_nil_iff.mp hblank
  obtain ⟨he, hg⟩ := List.append_eq_nil_iff.mp hothers
  refine ⟨⟨hplan.groups, hplan.frequencies, hplan.events⟩, ?_, ?_, ?_, ?_⟩
  · intro e hmem hid
    exact List.filterMap_eq_nil_iff.mp he e (List.mem_filter.mpr ⟨hmem, decide_eq_true hid⟩)
  · intro id hid
    obtain ⟨g, hmem, rfl⟩ := hgroups id hid
    exact List.filterMap_eq_nil_iff.mp hg g hmem
  · intro f hmem hid
    exact List.filterMap_eq_nil_iff.mp hf f
      (List.mem_filter.mpr ⟨hmem, decide_eq_true (hfrequencies f hmem hid)⟩)
  · have hcreated : db.created eventId = [] := by
      have honce := h.once
      rw [LaunchedOnce, hblank] at honce
      exact honce.eq_nil
    have hpointers : (db.insertChannel c).pointers eventId = [] := hblank
    rw [created_insertChannel db hc, hcreated, hpointers]
    exact .refl _

theorem Launching.setLaunched (h : Launching db₀ eventId commandChannelId [] [] db)
    (hevents : (db₀.events.map Event.id).Nodup) (hmem : eventId ∈ db₀.events.map Event.id) :
    (db.setLaunched eventId commandChannelId).LaunchedOnce eventId ∧
      (db.setLaunched eventId commandChannelId).launched eventId = true := by
  rw [← h.plan.events] at hevents hmem
  obtain ⟨ev, hev, hid⟩ := List.mem_map.mp hmem
  set launch : Event → Event := fun e =>
    if e.id = eventId then { e with launched := true, commandChannelId := some commandChannelId }
    else e with hlaunch
  have hids : ∀ e, (launch e).id = e.id := by
    intro e
    rw [hlaunch]
    dsimp only
    split <;> rfl
  have hevent : launch ev = { ev with launched := true, commandChannelId := some commandChannelId } :=
    if_pos hid
  constructor
  · have hfilter : ((db.events.map launch).filter fun e => e.id = eventId) =
        (db.events.filter fun e => e.id = eventId).map launch := by
      rw [List.filter_map]
      congr 2
      funext e
      simp [hids e]
    have hpointed : ((db.events.filter fun e => e.id = eventId).filterMap
        (Event.commandChannelId ∘ launch)).Perm
          (commandChannelId :: (db.events.filter fun e => e.id = eventId).filterMap
            Event.commandChannelId) := by
      refine perm_filterMap_cons ((List.Nodup.of_map _ hevents).filter _)
        (List.mem_filter.mpr ⟨hev, decide_eq_true hid⟩) (h.command ev hev hid) ?_ ?_
      · rw [Function.comp_apply, hevent]
      · intro e he hne
        obtain ⟨he, heid⟩ := List.mem_filter.mp he
        exact absurd (eq_of_key_eq hevents he hev ((of_decide_eq_true heid).trans hid.symm)) hne
    have hpointers : (db.setLaunched eventId commandChannelId).pointers eventId =
        (db.events.filter fun e => e.id = eventId).filterMap (Event.commandChannelId ∘ launch) ++
          ((db.groupRows eventId).filterMap fun g => db.groupChannel g.id) ++
          (db.frequencies.filter fun f => f.eventId = eventId).filterMap Frequency.channelId := by
      rw [← List.filterMap_map, ← hfilter]
      rfl
    rw [LaunchedOnce, hpointers]
    refine h.created.trans ?_
    exact ((hpointed.append_right _).append_right _).symm
  · refine List.any_eq_true.mpr ⟨launch ev, List.mem_map_of_mem hev, ?_⟩
    rw [hevent]
    simp [hid]

theorem LaunchDb.SamePlan.launchable_rows (h : SamePlan db₀ db) (h₀ : db₀.Launchable eventId) :
    (db.groups.map Group.id).Nodup ∧ (db.frequencies.map Frequency.id).Nodup := by
  have hids := congrArg (List.map Prod.fst) h.frequencies
  rw [List.map_map, List.map_map] at hids
  exact ⟨h.groups ▸ h₀.groups, (congrArg List.Nodup hids).mpr h₀.frequencies⟩

theorem LaunchDb.SamePlan.groupRows_eq (h : SamePlan db₀ db) :
    db.groupRows eventId = db₀.groupRows eventId := by
  rw [Db.groupRows, h.groups]
  rfl

/-- The frequencies that a launch reads. -/
theorem LaunchDb.SamePlan.frequencyRows (h : SamePlan db₀ db) (h₀ : db₀.Launchable eventId) :
    (∀ f ∈ db.frequencyRows eventId, (f.id, eventId) ∈ db₀.frequencies.map fun f =>
      (f.id, f.eventId)) ∧ ((db.frequencyRows eventId).map Frequency.id).Nodup := by
  have hperm : (db.frequencyRows eventId).Perm (db.frequencies.filter fun f => f.eventId = eventId) :=
    List.perm_insertionSort _ _
  constructor
  · intro f hf
    obtain ⟨hmem, hevent⟩ := List.mem_filter.mp (hperm.mem_iff.mp hf)
    rw [← h.frequencies]
    exact List.mem_map.mpr ⟨f, hmem, by rw [of_decide_eq_true hevent]⟩
  · refine (hperm.map Frequency.id).nodup_iff.mpr ?_
    exact nodup_map_filter (h.launchable_rows h₀).2

section Launch

variable {w : LaunchDb → LaunchDb} {I : LaunchDb → Prop} {r : LaunchRequest}

theorem Writes.of_subset {left : List ℕ} (h : Writes db₀ eventId commandChannelId [] left w)
    (hsub : frequenciesLeft ⊆ left) : Writes db₀ eventId commandChannelId [] frequenciesLeft w where
  plan := h.plan
  launching db hplan hdb hlaunched :=
    { h.launching db hplan hdb hlaunched with
      frequencies := fun f hf hid =>
        (h.launching db hplan hdb hlaunched).frequencies f hf (hsub hid) }

theorem launchGroups_spec (hrows : (db₀.groups.map Group.id).Nodup) (sorted : List Group)
    (hsorted : ∀ g ∈ sorted, g ∈ db₀.groupRows eventId) (hnodup : (sorted.map Group.id).Nodup)
    (n : ℕ) (groupToChannel : List (ℕ × ℕ))
    (hw : Writes db₀ eventId commandChannelId (sorted.map Group.id) frequenciesLeft w) :
    SpecAmong I (fun _ => Writes db₀ eventId commandChannelId [] frequenciesLeft) w
      (r.launchGroups eventId commandChannelId n groupToChannel sorted) := by
  induction sorted generalizing w n groupToChannel with
  | nil => exact hw
  | cons g sorted ih =>
      rw [List.map_cons] at hnodup hw
      obtain ⟨hnew, hnodup⟩ := List.nodup_cons.mp hnodup
      refine .update_bind (.update_bind (ih (fun g' hg' => hsorted g' (List.mem_cons_of_mem _ hg'))
        hnodup _ _ ⟨?_, ?_⟩))
      · intro db hplan
        obtain ⟨hgroups, hfrequencies, hevents⟩ := hw.plan db hplan
        exact ⟨hgroups, hfrequencies, hevents⟩
      · intro db hplan hdb hlaunched
        exact (hw.launching db hplan hdb hlaunched).insertGroupChannel hrows
          (hsorted g List.mem_cons_self) hnew rfl

theorem launchFrequencies_spec (hrows : (db₀.frequencies.map Frequency.id).Nodup)
    (freqRows : List Frequency)
    (hfreqRows : ∀ f ∈ freqRows, (f.id, eventId) ∈ db₀.frequencies.map fun f => (f.id, f.eventId))
    (hnodup : (freqRows.map Frequency.id).Nodup) (n : ℕ)
    (hw : Writes db₀ eventId commandChannelId [] (freqRows.map Frequency.id) w) :
    SpecAmong I (fun _ => Writes db₀ eventId commandChannelId [] []) w
      (r.launchFrequencies eventId commandChannelId n freqRows) := by
  induction freqRows generalizing w n with
  | nil => exact hw
  | cons f freqRows ih =>
      rw [List.map_cons] at hnodup hw
      obtain ⟨hnew, hnodup⟩ := List.nodup_cons.mp hnodup
      refine .update_bind (.update_bind (ih (fun f' hf' =>
        hfreqRows f' (List.mem_cons_of_mem _ hf')) hnodup _ ⟨?_, ?_⟩))
      · intro db hplan
        obtain ⟨hgroups, hfrequencies, hevents⟩ := hw.plan db hplan
        have hinserted : ∀ c, SamePlan db₀ ((w db).insertChannel c) :=
          fun _ => ⟨hgroups, hfrequencies, hevents⟩
        exact (hinserted _).setFrequencyChannel _ _
      · intro db hplan hdb hlaunched
        exact (hw.launching db hplan hdb hlaunched).insertFrequencyChannel hrows
          (hfreqRows f List.mem_cons_self) hnew rfl

/-- What the writes of a launch that answers do. -/
structure Launches (db₀ : LaunchDb) (eventId : ℕ) (w : LaunchDb → LaunchDb) : Prop where
  plan : ∀ db, SamePlan db₀ db → SamePlan db₀ (w db)
  once : ∀ db, SamePlan db₀ db → db.Launchable eventId → db.launched eventId = false →
    (w db).LaunchedOnce eventId ∧ (w db).launched eventId = true

theorem launchEvent_spec (h₀ : db₀.Launchable eventId) (r : LaunchRequest) :
    SpecAmong (SamePlan db₀) (fun res w => ∀ a, res = .ok a → Launches db₀ eventId w) id
      (launchEvent eventId r) := by
  refine specAmong_select_bind.mpr fun _ _ => specAmong_require_bind.mpr ⟨fun _ => ?_, nofun⟩
  refine specAmong_select_bind.mpr fun db₁ hdb₁ => specAmong_found_bind.mpr ⟨fun ev hev => ?_, nofun⟩
  refine specAmong_require_bind.mpr ⟨fun _ => ?_, nofun⟩
  refine specAmong_select_bind.mpr fun db₂ hdb₂ =>
    specAmong_found_bind.mpr ⟨fun sorted hsorted => ?_, nofun⟩
  obtain ⟨row, hrow, -⟩ := Option.map_eq_some_iff.mp hev
  have hevent : eventId ∈ db₀.events.map Event.id := by
    rw [← hdb₁.events]
    have hfound := List.find?_some hrow
    rw [Bool.and_eq_true, decide_eq_true_eq] at hfound
    exact List.mem_map.mpr ⟨row, List.mem_of_find?_eq_some hrow, hfound.1⟩
  obtain ⟨hgroups, hnodup⟩ := sortGroups_nodup
    (nodup_map_filter (hdb₂.launchable_rows h₀).1) hsorted
  have hgroups : ∀ g ∈ sorted, g ∈ db₀.groupRows eventId := hdb₂.groupRows_eq ▸ hgroups
  refine .update_bind ?_
  set left := (db₀.frequencies.filter fun f => f.eventId = eventId).map Frequency.id with hleft
  have hbegun : ∀ c : Channel, c.eventId = eventId → Writes db₀ eventId c.id
      (sorted.map Group.id) left ((fun db => db.insertChannel c) ∘ id) := by
    intro c hc
    refine ⟨fun db hplan => ⟨hplan.groups, hplan.frequencies, hplan.events⟩, ?_⟩
    intro db hplan hdb hlaunched
    refine hdb.launching_insertChannel hplan hlaunched hc ?_ ?_
    · intro id hid
      obtain ⟨g, hg, rfl⟩ := List.mem_map.mp hid
      exact ⟨g, hplan.groupRows_eq ▸ hgroups g hg, rfl⟩
    · intro f hf hid
      obtain ⟨f₀, hf₀, hf₀id⟩ := List.mem_map.mp hid
      obtain ⟨hf₀, hf₀event⟩ := List.mem_filter.mp hf₀
      have hpair : (f.id, f.eventId) ∈ db₀.frequencies.map fun f => (f.id, f.eventId) := by
        rw [← hplan.frequencies]
        exact List.mem_map_of_mem hf
      obtain ⟨f₁, hf₁, hf₁pair⟩ := List.mem_map.mp hpair
      obtain ⟨hf₁id, hf₁event⟩ := Prod.mk.inj hf₁pair
      have hsame := eq_of_key_eq h₀.frequencies hf₁ hf₀ (hf₁id.trans hf₀id.symm)
      rw [← hf₁event, hsame]
      exact of_decide_eq_true hf₀event
  refine (launchGroups_spec h₀.groups sorted hgroups hnodup 1 [] (hbegun _ rfl)).bind ?_
    (fun e w _ a ha => by cases ha)
  intro n w hw
  refine specAmong_select_bind.mpr fun db₃ hdb₃ => ?_
  obtain ⟨hfreqRows, hfreqNodup⟩ := (hw.plan db₃ hdb₃).frequencyRows h₀
  have hsub : ((w db₃).frequencyRows eventId).map Frequency.id ⊆ left := by
    intro id hid
    obtain ⟨f, hf, rfl⟩ := List.mem_map.mp hid
    obtain ⟨f₀, hf₀, hpair⟩ := List.mem_map.mp (hfreqRows f hf)
    obtain ⟨hid₀, hevent₀⟩ := Prod.mk.inj hpair
    exact List.mem_map.mpr ⟨f₀, List.mem_filter.mpr ⟨hf₀, decide_eq_true hevent₀⟩, hid₀⟩
  refine (launchFrequencies_spec h₀.frequencies _ hfreqRows hfreqNodup n
    (hw.of_subset hsub)).bind ?_ (fun e w _ a ha => by cases ha)
  intro _ w' hw'
  refine .update_bind fun a ha => ⟨?_, ?_⟩
  · exact fun db hplan => (hw'.plan db hplan).setLaunched _ _
  · exact fun db hplan hdb hlaunched =>
      (hw'.launching db hplan hdb hlaunched).setLaunched h₀.events hevent

end Launch

/-! ## Launches at once -/

theorem LaunchDb.Launchable.of_launched (h : db₀.Launchable eventId) (hplan : SamePlan db₀ db)
    (honce : db.LaunchedOnce eventId) (hlaunched : db.launched eventId = true) :
    db.Launchable eventId where
  groups := (hplan.launchable_rows h).1
  frequencies := (hplan.launchable_rows h).2
  events := hplan.events ▸ h.events
  once := honce
  blank hnot := by
    rw [hlaunched] at hnot
    cases hnot

/-- If the turn is a commit, no launch has committed before. -/
def commitsFirst (eventId : ℕ) (s : Transactions LaunchDb LaunchResponse) (turn : Turn) : Bool :=
  !s.commits turn || !s.committed.launched eventId

instance (db : LaunchDb) (eventId : ℕ) : Decidable (db.LaunchedOnce eventId) :=
  inferInstanceAs (Decidable (List.Perm _ _))

def launchableWing : LaunchDb :=
  { gatedWing with
    eventName := fun _ => "Patrol"
    groupChannel := fun _ => none
    channels := [] }

/-- The ids of the channels of a request start at a thousand times its number. -/
def launchRequest (t : ℕ) : LaunchRequest where
  orgId := 1
  userId := 100
  newId n := 1000 * (t + 1) + n
  depth := 10

theorem launchable_wing : launchableWing.Launchable 10 where
  groups := by decide
  frequencies := by decide
  events := by decide
  once := by decide
  blank _ := by decide

def oneLaunch : List Turn :=
  List.replicate 9 (.next 0)

/-- Both read the flag, then one launches, then the other. -/
def twoLaunches : List Turn :=
  List.replicate 3 (.next 0) ++ List.replicate 3 (.next 1) ++ List.replicate 6 (.next 0) ++
    List.replicate 6 (.next 1)

end SpecterComs.Events
