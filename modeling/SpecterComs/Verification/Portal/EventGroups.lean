import SpecterComs.Library.Forest
import SpecterComs.Model.Portal.EventGroups

/-! # The plan stays a forest

The search before a group moves finds exactly the groups below it, so that no edit makes a circle.
The recursions over the parents end, and the payload lists every group once, after its parent.
-/

namespace SpecterComs.EventGroups

open Relation

variable {groups : List Group} {i p idx : ℕ}

/-- The parents and links are groups, and following the parents leads to the top. -/
structure Forest (groups : List Group) : Prop where
  parents : ∀ i p, parentOf groups i = some p → p < groups.length
  links : ∀ g ∈ groups, ∀ l, g.linkedIndex = some l → l < groups.length
  acyclic : Acyclic (parentOf groups)

abbrev Up (groups : List Group) (a b : ℕ) : Prop :=
  parentOf groups a = some b

theorem lt_of_parentOf (h : parentOf groups i = some p) : i < groups.length := by
  obtain ⟨g, hg, -⟩ := Option.bind_eq_some_iff.mp h
  exact (List.getElem?_eq_some_iff.mp hg).1

theorem mem_childrenOf : i ∈ childrenOf groups p ↔ parentOf groups i = some p := by
  simp only [childrenOf, List.mem_filter, List.mem_range, decide_eq_true_eq, and_iff_right_iff_imp]
  exact lt_of_parentOf

/-! ## The search below a group -/

section Search

variable {target cur : ℕ} {queue visited : List ℕ}

/-- The target is not visited, and what is below a visited group is visited or queued. -/
def Searched (groups : List Group) (target : ℕ) (queue visited : List ℕ) : Prop :=
  ∀ v ∈ visited, v ≠ target ∧ ∀ c, parentOf groups c = some v → c ∈ visited ∨ c ∈ queue

/-- Whatever is above the target and visited leads to the queue. -/
theorem Searched.queued (h : Searched groups target queue visited) {v : ℕ}
    (hpath : ReflTransGen (Up groups) target v) (hv : v ∈ visited) :
    ∃ q ∈ queue, ReflTransGen (Up groups) target q := by
  induction hpath with
  | refl => exact absurd rfl (h _ hv).1
  | @tail c v hpath hcv ih =>
      rcases (h v hv).2 c hcv with hc | hc
      · exact ih hc
      · exact ⟨c, hc, hpath⟩

theorem searchBelow_eq_some {rounds : ℕ} {found : Bool} (h : Searched groups target queue visited)
    (hsearch : searchBelow groups target rounds queue visited = some found) :
    found = true ↔ ∃ q ∈ queue, ReflTransGen (Up groups) target q := by
  induction rounds generalizing queue visited with
  | zero => cases hsearch
  | succ rounds ih =>
      cases queue with
      | nil =>
          obtain rfl : false = found := Option.some.inj hsearch
          simp
      | cons cur queue =>
          rw [searchBelow] at hsearch
          by_cases hcur : cur = target
          · rw [if_pos hcur] at hsearch
            obtain rfl : true = found := Option.some.inj hsearch
            simp [hcur, ReflTransGen.refl]
          · rw [if_neg hcur] at hsearch
            by_cases hmem : cur ∈ visited
            · rw [if_pos hmem] at hsearch
              have h' : Searched groups target queue visited := by
                intro v hv
                refine ⟨(h v hv).1, fun c hc => ?_⟩
                rcases (h v hv).2 c hc with hc | hc
                · exact .inl hc
                · rcases List.mem_cons.mp hc with rfl | hc
                  · exact .inl hmem
                  · exact .inr hc
              rw [ih h' hsearch]
              constructor
              · rintro ⟨q, hq, hpath⟩
                exact ⟨q, List.mem_cons_of_mem _ hq, hpath⟩
              · rintro ⟨q, hq, hpath⟩
                rcases List.mem_cons.mp hq with rfl | hq
                · exact h'.queued hpath hmem
                · exact ⟨q, hq, hpath⟩
            · rw [if_neg hmem] at hsearch
              have h' : Searched groups target (queue ++ childrenOf groups cur) (cur :: visited) := by
                intro v hv
                rcases List.mem_cons.mp hv with rfl | hv
                · refine ⟨hcur, fun c hc => .inr ?_⟩
                  exact List.mem_append_right _ (mem_childrenOf.mpr hc)
                · refine ⟨(h v hv).1, fun c hc => ?_⟩
                  rcases (h v hv).2 c hc with hc | hc
                  · exact .inl (List.mem_cons_of_mem _ hc)
                  · rcases List.mem_cons.mp hc with rfl | hc
                    · exact .inl List.mem_cons_self
                    · exact .inr (List.mem_append_left _ hc)
              rw [ih h' hsearch]
              constructor
              · rintro ⟨q, hq, hpath⟩
                rcases List.mem_append.mp hq with hq | hq
                · exact ⟨q, List.mem_cons_of_mem _ hq, hpath⟩
                · exact ⟨cur, List.mem_cons_self, hpath.tail (mem_childrenOf.mp hq)⟩
              · rintro ⟨q, hq, hpath⟩
                rcases List.mem_cons.mp hq with rfl | hq
                · cases hpath with
                  | refl => exact absurd rfl hcur
                  | tail hpath hlast =>
                      exact ⟨_, List.mem_append_right _ (mem_childrenOf.mpr hlast), hpath⟩
                · exact ⟨q, List.mem_append_left _ hq, hpath⟩

/-- The groups that are not queued yet. -/
def waiting (groups : List Group) (visited : List ℕ) : List ℕ :=
  (List.range groups.length).filter fun i => (parentOf groups i).any fun p => p ∉ visited

theorem length_waiting (hcur : cur ∉ visited) :
    (waiting groups visited).length =
      (childrenOf groups cur).length + (waiting groups (cur :: visited)).length := by
  unfold waiting childrenOf
  induction List.range groups.length with
  | nil => rfl
  | cons i l ih =>
      cases hparent : parentOf groups i with
      | none => simpa [hparent] using ih
      | some p =>
          by_cases hp : p = cur
          · subst hp
            simp [hparent, hcur] at ih ⊢
            omega
          · by_cases hmem : p ∈ visited
            · simpa [hparent, hp, hmem] using ih
            · simp [hparent, hp, hmem] at ih ⊢
              omega

theorem searchBelow_isSome {rounds : ℕ}
    (h : queue.length + (waiting groups visited).length < rounds) :
    (searchBelow groups target rounds queue visited).isSome = true := by
  induction rounds generalizing queue visited with
  | zero => omega
  | succ rounds ih =>
      cases queue with
      | nil => rfl
      | cons cur queue =>
          rw [List.length_cons] at h
          rw [searchBelow]
          split
          · rfl
          · split
            · exact ih (by omega)
            · rename_i hmem
              have hwaiting := @length_waiting groups cur visited hmem
              apply ih
              rw [List.length_append]
              omega

theorem wouldCreateCycle_iff :
    wouldCreateCycle target cur groups = true ↔ ReflTransGen (Up groups) target cur := by
  have hrounds : [cur].length + (waiting groups []).length < groups.length + 2 := by
    have hle : (waiting groups []).length ≤ (List.range groups.length).length :=
      List.length_filter_le _ _
    rw [List.length_range] at hle
    rw [List.length_singleton]
    omega
  obtain ⟨found, hfound⟩ := Option.isSome_iff_exists.mp
    (@searchBelow_isSome groups target [cur] [] _ hrounds)
  have hiff := searchBelow_eq_some (by simp [Searched]) hfound
  simp only [wouldCreateCycle, hfound, Option.getD_some, Bool.or_eq_true, decide_eq_true_eq, hiff,
    List.mem_singleton, exists_eq_left]
  constructor
  · rintro (rfl | hpath)
    · exact .refl
    · exact hpath
  · exact .inr

end Search

/-! ## Edits keep the forest -/

section Edits

variable {groups' : List Group} {g : Group} {target : Option ℕ}

theorem isParent_iff : isParent groups target = true ↔ ∀ p, target = some p → p < groups.length := by
  cases target <;> simp [isParent]

theorem parentOf_append (i : ℕ) :
    parentOf (groups ++ [g]) i =
      if i = groups.length then g.parentIndex else parentOf groups i := by
  unfold parentOf
  rw [List.getElem?_append]
  split_ifs with hlt heq heq
  · omega
  · rfl
  · simp [heq]
  · have hnone : [g][i - groups.length]? = none := by
      rw [List.getElem?_eq_none_iff]
      simp
      omega
    rw [hnone, List.getElem?_eq_none_iff.mpr (by omega)]

theorem Forest.append (h : Forest groups) (hlink : g.linkedIndex = none)
    (hparent : ∀ p, g.parentIndex = some p → p < groups.length) : Forest (groups ++ [g]) where
  parents i p hp := by
    rw [parentOf_append] at hp
    rw [List.length_append]
    split_ifs at hp with hi
    · exact Nat.lt_succ_of_lt (hparent p hp)
    · exact Nat.lt_succ_of_lt (h.parents i p hp)
  links g' hg' l hl := by
    rw [List.length_append]
    rcases List.mem_append.mp hg' with hg' | hg'
    · exact Nat.lt_succ_of_lt (h.links g' hg' l hl)
    · rw [List.mem_singleton.mp hg', hlink] at hl
      cases hl
  acyclic := by
    cases hp : g.parentIndex with
    | none =>
        refine h.acyclic.of_map id fun a b hab => ?_
        rw [parentOf_append, hp] at hab
        split_ifs at hab
        exact hab
    | some p =>
        -- Nothing points to the new group yet.
        have hnot : ¬ ReflTransGen (Up groups) p groups.length := by
          intro hpath
          cases hpath with
          | refl => exact Nat.lt_irrefl _ (hparent _ hp)
          | tail _ hlast => exact Nat.lt_irrefl _ (h.parents _ _ hlast)
        refine h.acyclic.link hnot fun a b hab => ?_
        rw [parentOf_append, hp] at hab
        split_ifs at hab with ha
        · exact .inr ⟨ha, (Option.some.inj hab).symm⟩
        · exact .inl hab

theorem shiftIndex_eq_some {j : ℕ} {x : Option ℕ} (h : shiftIndex i x = some j) :
    x = some (if j < i then j else j + 1) := by
  cases x with
  | none => cases h
  | some p =>
      simp only [shiftIndex, Option.bind_some] at h
      split_ifs at h with hp hlt
      · obtain rfl := Option.some.inj h
        rw [if_neg (by omega)]
        congr 1
        omega
      · obtain rfl := Option.some.inj h
        rw [if_pos (by omega)]

theorem parentOf_removeGroupAt (j : ℕ) :
    parentOf (removeGroupAt groups i) j =
      shiftIndex i (parentOf groups (if j < i then j else j + 1)) := by
  unfold parentOf removeGroupAt
  rw [List.getElem?_map, List.getElem?_eraseIdx]
  split_ifs with hj
  · cases groups[j]? <;> rfl
  · cases groups[j + 1]? <;> rfl

theorem Forest.removeGroupAt (h : Forest groups) (i : ℕ) : Forest (removeGroupAt groups i) where
  parents j p hp := by
    rw [parentOf_removeGroupAt] at hp
    have hold := h.parents _ _ (shiftIndex_eq_some hp)
    have hj := lt_of_parentOf (shiftIndex_eq_some hp)
    rw [EventGroups.removeGroupAt, List.length_map, List.length_eraseIdx]
    split_ifs at hold hj ⊢ <;> omega
  links g' hg' l hl := by
    obtain ⟨g, hg, rfl⟩ := List.mem_map.mp hg'
    have hold := h.links g (List.mem_of_mem_eraseIdx hg) _ (shiftIndex_eq_some hl)
    rw [EventGroups.removeGroupAt, List.length_map, List.length_eraseIdx]
    have hi : i < groups.length → groups ≠ [] := by
      rintro hi rfl
      simp at hi
    split_ifs at hold ⊢ <;> omega
  acyclic := by
    refine h.acyclic.of_map (fun j => if j < i then j else j + 1) fun a b hab => ?_
    rw [parentOf_removeGroupAt] at hab
    exact shiftIndex_eq_some hab

theorem parentOf_setParent (i : ℕ) :
    parentOf (setParent groups idx target) i =
      if i = idx ∧ idx < groups.length then target else parentOf groups i := by
  unfold parentOf setParent
  rw [List.getElem?_modify]
  by_cases hi : idx = i
  · subst hi
    by_cases hlt : idx < groups.length
    · simp [hlt]
    · simp [hlt]
  · simp [hi, Ne.symm hi]

theorem Forest.setParent (h : Forest groups)
    (htarget : ∀ t, target = some t → t < groups.length ∧ ¬ ReflTransGen (Up groups) t idx) :
    Forest (setParent groups idx target) where
  parents i p hp := by
    rw [EventGroups.setParent, List.length_modify]
    rw [parentOf_setParent] at hp
    split_ifs at hp
    · exact (htarget p hp).1
    · exact h.parents i p hp
  links g' hg' l hl := by
    rw [EventGroups.setParent, List.length_modify]
    obtain ⟨j, hj⟩ := List.mem_iff_getElem?.mp hg'
    rw [EventGroups.setParent, List.getElem?_modify, Option.map_eq_map,
      Option.map_eq_some_iff] at hj
    obtain ⟨g, hg, rfl⟩ := hj
    refine h.links g (List.mem_of_getElem? hg) l ?_
    split_ifs at hl <;> exact hl
  acyclic := by
    cases target with
    | none =>
        refine h.acyclic.of_map id fun a b hab => ?_
        rw [parentOf_setParent] at hab
        split_ifs at hab
        exact hab
    | some t =>
        refine h.acyclic.link (htarget t rfl).2 fun a b hab => ?_
        rw [parentOf_setParent] at hab
        split_ifs at hab with ha
        · exact .inr ⟨ha.1, (Option.some.inj hab).symm⟩
        · exact .inl hab

theorem Forest.reparentGroup (h : Forest groups) {idx : Option ℕ}
    (htarget : ∀ t, target = some t → t < groups.length) :
    Forest (reparentGroup groups idx target) := by
  unfold EventGroups.reparentGroup
  split
  · exact h
  · rename_i idx
    split
    · exact h
    · split_ifs with hcycle hsame
      · exact h
      · exact h
      · refine h.setParent fun t ht => ⟨htarget t ht, fun hpath => hcycle ?_⟩
        rw [ht, Option.any_some, Bool.or_eq_true]
        exact .inr (wouldCreateCycle_iff.mpr hpath)

theorem Forest.step (h : Forest groups) {e : Edit} (hstep : edits.step groups e = some groups') :
    Forest groups' := by
  cases e with
  | newGroup name parentIndex =>
      obtain ⟨hparent, hgroups⟩ := Option.ite_none_right_eq_some.mp hstep
      obtain rfl := Option.some.inj hgroups
      exact h.append rfl (isParent_iff.mp hparent)
  | removeGroupAt i =>
      obtain rfl := Option.some.inj hstep
      exact h.removeGroupAt i
  | reparentGroup idx parentIdx =>
      obtain ⟨hparent, hgroups⟩ := Option.ite_none_right_eq_some.mp hstep
      obtain rfl := Option.some.inj hgroups
      exact h.reparentGroup (isParent_iff.mp hparent)

theorem Forest.run {es : List Edit} (h : Forest groups) (hrun : edits.Run groups es groups') :
    Forest groups' :=
  hrun.invariant (fun _ _ _ h hstep => h.step hstep) h

end Edits

/-! ## The recursions end -/

/-- The depth of a group: 1 at the top, and one more than its parent's below. -/
inductive Depth (groups : List Group) : ℕ → ℕ → Prop
  | root {idx : ℕ} : parentOf groups idx = none → Depth groups idx 1
  | child {idx p d : ℕ} : parentOf groups idx = some p → Depth groups p d →
      Depth groups idx (d + 1)

theorem computeDepth_ends (h : Forest groups) (idx : ℕ) :
    ∃ n, ∀ depth, n ≤ depth → ∀ memo : List (ℕ × ℕ), (∀ i d, memo.lookup i = some d → Depth groups i d) →
      ∃ d memo', computeDepth groups depth idx memo = some (d, memo') ∧ Depth groups idx d ∧
        ∀ i d, memo'.lookup i = some d → Depth groups i d := by
  have hfinite : ∀ a b, parentOf groups a = some b → a ∈ List.range groups.length :=
    fun a b hab => List.mem_range.mpr (lt_of_parentOf hab)
  refine h.acyclic.induction hfinite (P := fun idx => ∃ n, ∀ depth, n ≤ depth →
    ∀ memo : List (ℕ × ℕ), (∀ i d, memo.lookup i = some d → Depth groups i d) →
      ∃ d memo', computeDepth groups depth idx memo = some (d, memo') ∧ Depth groups idx d ∧
        ∀ i d, memo'.lookup i = some d → Depth groups i d) ?_ idx
  intro idx ih
  have hcons : ∀ {memo : List (ℕ × ℕ)} {d : ℕ}, Depth groups idx d →
      (∀ i d, memo.lookup i = some d → Depth groups i d) →
      ∀ i d', ((idx, d) :: memo).lookup i = some d' → Depth groups i d' := by
    intro memo d hd hmemo i d' hi
    by_cases heq : i = idx
    · subst heq
      obtain rfl : d = d' := by simpa using hi
      exact hd
    · have hne : (i == idx) = false := by simpa using heq
      rw [List.lookup_cons, hne] at hi
      exact hmemo i d' hi
  cases hparent : parentOf groups idx with
  | none =>
      refine ⟨1, fun depth hdepth memo hmemo => ?_⟩
      obtain ⟨depth, rfl⟩ := Nat.exists_eq_add_of_le' hdepth
      cases hlookup : memo.lookup idx with
      | some d => exact ⟨d, memo, by simp [computeDepth, hlookup], hmemo idx d hlookup, hmemo⟩
      | none =>
          have htop : Depth groups idx 1 := .root hparent
          exact ⟨1, _, by simp [computeDepth, hlookup, hparent], htop, hcons htop hmemo⟩
  | some p =>
      obtain ⟨n, hn⟩ := ih p hparent
      refine ⟨n + 1, fun depth hdepth memo hmemo => ?_⟩
      obtain ⟨depth, rfl⟩ := Nat.exists_eq_add_of_le' (Nat.le_of_add_left_le hdepth)
      cases hlookup : memo.lookup idx with
      | some d => exact ⟨d, memo, by simp [computeDepth, hlookup], hmemo idx d hlookup, hmemo⟩
      | none =>
          obtain ⟨d, memo', hd, hdepth', hmemo'⟩ := hn depth (by omega) memo hmemo
          have hbelow : Depth groups idx (d + 1) := .child hparent hdepth'
          exact ⟨d + 1, _, by simp [computeDepth, hlookup, hparent, hd], hbelow,
            hcons hbelow hmemo'⟩

/-- What is sorted is visited, and sorted once. -/
structure Sorting.Good (groups : List Group) (s : Sorting) : Prop where
  nodup : s.sortedIndices.Nodup
  valid : ∀ i ∈ s.sortedIndices, i < groups.length
  visited : ∀ i ∈ s.sortedIndices, i ∈ s.visited

/-- What a visit keeps, whatever the parents are. -/
structure Visited (groups : List Group) (s s' : Sorting) : Prop where
  good : s'.Good groups
  kept : s.sortedIndices ⊆ s'.sortedIndices
  visited : s.visited ⊆ s'.visited
  /-- What it sorts was not visited. -/
  fresh : ∀ i ∈ s'.sortedIndices, i ∈ s.sortedIndices ∨ i ∉ s.visited
  /-- What is visited and not sorted was so before. -/
  pending : ∀ i ∈ s'.visited, i ∉ s'.sortedIndices → i ∈ s.visited ∧ i ∉ s.sortedIndices

variable {s s' : Sorting}

theorem Visited.refl (h : s.Good groups) : Visited groups s s :=
  ⟨h, fun _ h => h, fun _ h => h, fun _ h => .inl h, fun _ h hnot => ⟨h, hnot⟩⟩

theorem Visited.trans {s'' : Sorting} (h : Visited groups s s') (h' : Visited groups s' s'') :
    Visited groups s s'' where
  good := h'.good
  kept i hi := h'.kept (h.kept hi)
  visited i hi := h'.visited (h.visited hi)
  fresh i hi := by
    rcases h'.fresh i hi with hi | hnot
    · exact h.fresh i hi
    · exact .inr fun hmem => hnot (h.visited hmem)
  pending i hi hnot := by
    obtain ⟨hvisited, hsorted⟩ := h'.pending i hi hnot
    exact h.pending i hvisited hsorted

theorem Sorting.Good.mark (h : s.Good groups) (idx : ℕ) :
    Sorting.Good groups { s with visited := idx :: s.visited } :=
  ⟨h.nodup, h.valid, fun i hi => List.mem_cons_of_mem _ (h.visited i hi)⟩

/-- A group is sorted after what was visited since it was marked. -/
theorem Visited.sort (hidx : idx < groups.length) (hvisited : idx ∉ s.visited)
    (hs : s.Good groups) (h : Visited groups { s with visited := idx :: s.visited } s') :
    Visited groups s { s' with sortedIndices := s'.sortedIndices ++ [idx] } := by
  have hnew : idx ∉ s'.sortedIndices := by
    intro hmem
    rcases h.fresh idx hmem with hold | hnot
    · exact hvisited (hs.visited idx hold)
    · exact hnot List.mem_cons_self
  refine ⟨⟨?_, ?_, ?_⟩, ?_, ?_, ?_, ?_⟩
  · exact List.nodup_append.mpr ⟨h.good.nodup, List.nodup_singleton idx, by grind⟩
  · intro i hi
    rcases List.mem_append.mp hi with hi | hi
    · exact h.good.valid i hi
    · rwa [List.mem_singleton.mp hi]
  · intro i hi
    rcases List.mem_append.mp hi with hi | hi
    · exact h.good.visited i hi
    · rw [List.mem_singleton.mp hi]
      exact h.visited List.mem_cons_self
  · exact fun i hi => List.mem_append_left _ (h.kept hi)
  · exact fun i hi => h.visited (List.mem_cons_of_mem _ hi)
  · intro i hi
    rcases List.mem_append.mp hi with hi | hi
    · exact (h.fresh i hi).imp_right fun hnot hmem => hnot (List.mem_cons_of_mem _ hmem)
    · rw [List.mem_singleton.mp hi]
      exact .inr hvisited
  · intro i hi hnot
    rw [List.mem_append, List.mem_singleton, not_or] at hnot
    obtain ⟨hmem, hsorted⟩ := h.pending i hi hnot.1
    exact ⟨(List.mem_cons.mp hmem).resolve_left hnot.2, hsorted⟩

variable {depth old new : ℕ}

theorem visited_of_visit (hs : s.Good groups) (h : visit groups depth idx s = some s') :
    Visited groups s s' ∧ idx ∈ s'.visited := by
  induction depth generalizing idx s s' with
  | zero => cases h
  | succ depth ih =>
      rw [visit] at h
      by_cases hvisited : idx ∈ s.visited
      · rw [if_pos hvisited] at h
        obtain rfl := Option.some.inj h
        exact ⟨.refl hs, hvisited⟩
      · rw [if_neg hvisited] at h
        obtain ⟨g, hg, h⟩ := Option.bind_eq_some_iff.mp h
        have hidx := (List.getElem?_eq_some_iff.mp hg).1
        have hend : ∀ s₁, Visited groups { s with visited := idx :: s.visited } s₁ →
            { s₁ with sortedIndices := s₁.sortedIndices ++ [idx] } = s' →
            Visited groups s s' ∧ idx ∈ s'.visited := by
          rintro s₁ hvisit rfl
          exact ⟨hvisit.sort hidx hvisited hs, hvisit.visited List.mem_cons_self⟩
        dsimp only at h
        cases hp : g.parentIndex with
        | none =>
            rw [hp] at h
            exact hend _ (.refl (hs.mark idx)) (Option.some.inj h)
        | some p =>
            rw [hp] at h
            obtain ⟨s₁, hs₁, h⟩ := Option.bind_eq_some_iff.mp h
            exact hend s₁ (ih (hs.mark idx) hs₁).1 (Option.some.inj h)

variable {l sorted : List ℕ}

theorem visited_of_foldlM (hs : s.Good groups)
    (h : l.foldlM (fun s i => visit groups depth i s) s = some s') :
    Visited groups s s' ∧ l ⊆ s'.visited := by
  induction l generalizing s with
  | nil =>
      obtain rfl : s = s' := Option.some.inj h
      exact ⟨.refl hs, by simp⟩
  | cons i l ih =>
      rw [List.foldlM_cons] at h
      obtain ⟨s₁, hs₁, h⟩ := Option.bind_eq_some_iff.mp h
      obtain ⟨hfirst, hi⟩ := visited_of_visit hs hs₁
      obtain ⟨hrest, hl⟩ := ih hfirst.good h
      refine ⟨hfirst.trans hrest, fun j hj => ?_⟩
      rcases List.mem_cons.mp hj with rfl | hj
      · exact hrest.visited hi
      · exact hl hj

/-- Every group is sorted once. -/
theorem sortIndices_perm (h : sortIndices groups depth = some sorted) :
    sorted.Perm (List.range groups.length) := by
  obtain ⟨s, hs, rfl⟩ := Option.map_eq_some_iff.mp h
  obtain ⟨hvisit, hall⟩ := visited_of_foldlM ⟨List.nodup_nil, by simp, by simp⟩ hs
  rw [List.perm_ext_iff_of_nodup hvisit.good.nodup List.nodup_range]
  intro i
  constructor
  · exact fun hi => List.mem_range.mpr (hvisit.good.valid i hi)
  · intro hi
    by_contra hnot
    obtain ⟨hvisited, -⟩ := hvisit.pending i (hall hi) hnot
    cases hvisited

/-- Every group of a list comes after its parent. -/
def ParentsFirst (groups : List Group) (sorted : List ℕ) : Prop :=
  ∀ before i after, sorted = before ++ i :: after → ∀ p, parentOf groups i = some p → p ∈ before

theorem ParentsFirst.snoc (h : ParentsFirst groups sorted)
    (hidx : ∀ p, parentOf groups idx = some p → p ∈ sorted) :
    ParentsFirst groups (sorted ++ [idx]) := by
  intro before i after hsplit p hp
  rcases List.eq_nil_or_concat after with rfl | ⟨after', last, rfl⟩
  · obtain ⟨rfl, hi⟩ := List.append_inj' hsplit rfl
    rw [← List.singleton_inj.mp hi] at hp
    exact hidx p hp
  · rw [List.concat_eq_append, ← List.cons_append, ← List.append_assoc] at hsplit
    obtain ⟨hsorted, -⟩ := List.append_inj' hsplit rfl
    exact h before i after' hsorted p hp

theorem visit_ends (h : Forest groups) (idx : ℕ) :
    idx < groups.length → ∃ n, ∀ depth, n ≤ depth → ∀ s : Sorting,
      ParentsFirst groups s.sortedIndices →
      (∀ a, ReflTransGen (Up groups) idx a → a ∈ s.visited → a ∈ s.sortedIndices) →
      ∃ s', visit groups depth idx s = some s' ∧ ParentsFirst groups s'.sortedIndices ∧
        idx ∈ s'.sortedIndices := by
  have hfinite : ∀ a b, parentOf groups a = some b → a ∈ List.range groups.length :=
    fun a b hab => List.mem_range.mpr (lt_of_parentOf hab)
  refine h.acyclic.induction hfinite (P := fun idx => idx < groups.length → ∃ n, ∀ depth,
    n ≤ depth → ∀ s : Sorting, ParentsFirst groups s.sortedIndices →
      (∀ a, ReflTransGen (Up groups) idx a → a ∈ s.visited → a ∈ s.sortedIndices) →
      ∃ s', visit groups depth idx s = some s' ∧ ParentsFirst groups s'.sortedIndices ∧
        idx ∈ s'.sortedIndices) ?_ idx
  intro idx ih hidx
  obtain ⟨g, hg⟩ : ∃ g, groups[idx]? = some g := ⟨_, List.getElem?_eq_getElem hidx⟩
  have hparent : parentOf groups idx = g.parentIndex := by rw [parentOf, hg]; rfl
  cases hp : g.parentIndex with
  | none =>
      refine ⟨1, fun depth hdepth s hfirst hclear => ?_⟩
      obtain ⟨depth, rfl⟩ := Nat.exists_eq_add_of_le' hdepth
      by_cases hvisited : idx ∈ s.visited
      · exact ⟨s, by simp [visit, hvisited], hfirst, hclear idx .refl hvisited⟩
      · refine ⟨⟨idx :: s.visited, s.sortedIndices ++ [idx]⟩, by simp [visit, hvisited, hg, hp],
          hfirst.snoc fun p hp' => ?_, by simp⟩
        rw [hparent, hp] at hp'
        cases hp'
  | some p =>
      rw [hp] at hparent
      obtain ⟨n, hn⟩ := ih p hparent (h.parents idx p hparent)
      refine ⟨n + 1, fun depth hdepth s hfirst hclear => ?_⟩
      obtain ⟨depth, rfl⟩ := Nat.exists_eq_add_of_le' (Nat.le_of_add_left_le hdepth)
      by_cases hvisited : idx ∈ s.visited
      · exact ⟨s, by simp [visit, hvisited], hfirst, hclear idx .refl hvisited⟩
      · -- The group is no ancestor of its parent.
        have hclear' : ∀ a, ReflTransGen (Up groups) p a → a ∈ idx :: s.visited →
            a ∈ s.sortedIndices := by
          intro a hpath ha
          rcases List.mem_cons.mp ha with rfl | ha
          · have hup : Up groups a p := hparent
            exact absurd (TransGen.head' hup hpath) (h.acyclic a)
          · exact hclear a (.head hparent hpath) ha
        obtain ⟨s', hs', hfirst', hsorted⟩ := hn depth (by omega)
          { s with visited := idx :: s.visited } hfirst hclear'
        refine ⟨{ s' with sortedIndices := s'.sortedIndices ++ [idx] },
          by simp [visit, hvisited, hg, hp, hs'], hfirst'.snoc fun p' hp' => ?_, by simp⟩
        obtain rfl := Option.some.inj (hparent.symm.trans hp')
        exact hsorted

/-- Every visit of the groups ends. -/
theorem foldlM_visit_ends (h : Forest groups) (l : List ℕ) (hl : ∀ i ∈ l, i < groups.length) :
    ∃ n, ∀ depth, n ≤ depth → ∀ s : Sorting, s.Good groups →
      ParentsFirst groups s.sortedIndices → (∀ a ∈ s.visited, a ∈ s.sortedIndices) →
      ∃ s', l.foldlM (fun s i => visit groups depth i s) s = some s' ∧
        ParentsFirst groups s'.sortedIndices := by
  induction l with
  | nil => exact ⟨0, fun depth _ s _ hfirst _ => ⟨s, rfl, hfirst⟩⟩
  | cons i l ih =>
      obtain ⟨n, hn⟩ := ih fun j hj => hl j (List.mem_cons_of_mem _ hj)
      obtain ⟨m, hm⟩ := visit_ends h i (hl i List.mem_cons_self)
      refine ⟨max n m, fun depth hdepth s hs hfirst hclear => ?_⟩
      obtain ⟨s₁, hs₁, hfirst₁, -⟩ := hm depth (by omega) s hfirst fun a _ ha => hclear a ha
      obtain ⟨hvisit, -⟩ := visited_of_visit hs hs₁
      have hclear₁ : ∀ a ∈ s₁.visited, a ∈ s₁.sortedIndices := by
        intro a ha
        by_contra hnot
        obtain ⟨hvisited, hunsorted⟩ := hvisit.pending a ha hnot
        exact hunsorted (hclear a hvisited)
      obtain ⟨s₂, hs₂, hfirst₂⟩ := hn depth (by omega) s₁ hvisit.good hfirst₁ hclear₁
      exact ⟨s₂, by rw [List.foldlM_cons, hs₁]; exact hs₂, hfirst₂⟩

/-- Every group once, each after its parent. -/
structure Sorted (groups : List Group) (sorted : List ℕ) : Prop where
  once : sorted.Perm (List.range groups.length)
  first : ParentsFirst groups sorted

theorem sortIndices_ends (h : Forest groups) :
    ∃ n, ∀ depth, n ≤ depth → ∃ sorted, sortIndices groups depth = some sorted ∧
      Sorted groups sorted := by
  obtain ⟨n, hn⟩ := foldlM_visit_ends h (List.range groups.length) fun i hi => List.mem_range.mp hi
  refine ⟨n, fun depth hdepth => ?_⟩
  obtain ⟨s, hs, hfirst⟩ := hn depth hdepth ⟨[], []⟩ ⟨List.nodup_nil, by simp, by simp⟩
    (fun _ _ _ hsplit => by simp at hsplit) (by simp)
  have hsorted : sortIndices groups depth = some s.sortedIndices := by rw [sortIndices, hs]; rfl
  exact ⟨s.sortedIndices, hsorted, sortIndices_perm hsorted, hfirst⟩

/-! ## The payload -/

theorem oldToNew_eq_some (hnodup : sorted.Nodup) :
    oldToNew sorted old = some new ↔ sorted[new]? = some old := by
  unfold oldToNew
  induction sorted using List.reverseRecOn with
  | nil => simp
  | append_singleton sorted last ih =>
      obtain ⟨hsorted, -, hlast⟩ := List.nodup_append.mp hnodup
      have hsnoc : (sorted ++ [last])[new]? = some old ↔
          sorted[new]? = some old ∨ new = sorted.length ∧ last = old := by
        rw [List.getElem?_append]
        split_ifs with hlt
        · constructor
          · exact .inl
          · rintro (h | ⟨rfl, -⟩)
            · exact h
            · exact absurd hlt (Nat.lt_irrefl _)
        · rw [List.getElem?_eq_none_iff.mpr (Nat.le_of_not_lt hlt), List.getElem?_singleton]
          by_cases hnew : new = sorted.length
          · simp [hnew]
          · simp [hnew]
            omega
      rw [hsnoc, List.zipIdx_append, List.foldl_append, List.zipIdx_singleton, List.foldl_cons,
        List.foldl_nil, Nat.zero_add]
      by_cases hold : old = last
      · subst hold
        have hnone : sorted[new]? ≠ some old := fun h =>
          hlast old (List.mem_of_getElem? h) old List.mem_cons_self rfl
        simp [hnone, eq_comm]
      · rw [Function.update_of_ne hold, ih hsorted]
        simp [Ne.symm hold]

section Payload

variable {sorted : List ℕ}

theorem nodup_of_perm (h : sorted.Perm (List.range groups.length)) : sorted.Nodup :=
  h.nodup_iff.mpr List.nodup_range

theorem oldToNew_of_lt (h : sorted.Perm (List.range groups.length)) (hold : old < groups.length) :
    ∃ new, oldToNew sorted old = some new ∧ sorted[new]? = some old := by
  obtain ⟨new, hnew⟩ := List.mem_iff_getElem?.mp (h.mem_iff.mpr (List.mem_range.mpr hold))
  exact ⟨new, (oldToNew_eq_some (nodup_of_perm h)).mpr hnew, hnew⟩

theorem oldToNew_of_le (h : sorted.Perm (List.range groups.length)) (hold : groups.length ≤ old) :
    oldToNew sorted old = none := by
  cases hnew : oldToNew sorted old with
  | none => rfl
  | some new =>
      have hmem := List.mem_of_getElem? ((oldToNew_eq_some (nodup_of_perm h)).mp hnew)
      exact absurd (List.mem_range.mp (h.mem_iff.mp hmem)) (Nat.not_lt.mpr hold)

/-- The group of the payload is the group of the plan. Its indices lead through the renumbering to
the same groups. -/
structure SameGroup (sorted : List ℕ) (g : Group) (pg : PayloadGroup) : Prop where
  parent : (pg.parentIndex.map fun new => sorted[new]?) = g.parentIndex.map some
  link : (pg.linkedIndex.map fun new => sorted[new]?) = g.linkedIndex.map some
  data : { pg with parentIndex := none, linkedIndex := none } =
    payloadGroup (fun _ => none) { g with parentIndex := none, linkedIndex := none }

/-- The roles that a frequency refers to, where `name` tells which group an index is of. -/
def Frequency.refs (name : ℕ → Option ℕ) (f : Frequency) : List (ℕ × ℕ) :=
  f.roleRefs.filterMap fun ref => (ref.groupIndex.bind name).map fun gi => (gi, ref.roleIndex)

/-- An index, if it is one of the plan. -/
def valid (groups : List Group) (gi : ℕ) : Option ℕ :=
  if gi < groups.length then some gi else none

/-- The payload lists the plan in the order of `sorted`. -/
structure Lists (groups : List Group) (frequencies : List Frequency) (sorted : List ℕ)
    (payload : Payload) : Prop where
  once : sorted.Perm (List.range groups.length)
  same : List.Forall₂ (fun old pg => ∃ g, groups[old]? = some g ∧ SameGroup sorted g pg) sorted
    payload.groups
  first : ∀ (new : ℕ) pg p, payload.groups[new]? = some pg → pg.parentIndex = some p → p < new
  refs : List.Forall₂ (fun f pf =>
      { pf with roleRefs := [] } = payloadFrequency (fun _ => none) { f with roleRefs := [] } ∧
        pf.refs (fun new => sorted[new]?) = f.refs (valid groups))
    frequencies payload.frequencies

theorem Sorted.index (h : Sorted groups sorted) {x : Option ℕ}
    (hx : ∀ i, x = some i → i < groups.length) :
    ((x.bind (oldToNew sorted)).map fun new => sorted[new]?) = x.map some := by
  cases x with
  | none => rfl
  | some i =>
      obtain ⟨new, hnew, hold⟩ := oldToNew_of_lt h.once (hx i rfl)
      simp [hnew, hold]

theorem Sorted.sameGroup (hforest : Forest groups) (h : Sorted groups sorted) {g : Group}
    (hg : groups[i]? = some g) : SameGroup sorted g (payloadGroup (oldToNew sorted) g) where
  parent := h.index fun p hp => hforest.parents i p (by rw [parentOf, hg]; exact hp)
  link := h.index fun l hl => hforest.links g (List.mem_of_getElem? hg) l hl
  data := rfl

theorem Sorted.forall₂_sameGroup (hforest : Forest groups) (h : Sorted groups sorted)
    (hl : ∀ i ∈ l, i < groups.length) :
    List.Forall₂ (fun old pg => ∃ g, groups[old]? = some g ∧ SameGroup sorted g pg ∧
        pg = payloadGroup (oldToNew sorted) g) l
      ((l.filterMap fun oldIdx => groups[oldIdx]?).map (payloadGroup (oldToNew sorted))) := by
  induction l with
  | nil => exact .nil
  | cons i l ih =>
      have hg := List.getElem?_eq_getElem (hl i List.mem_cons_self)
      rw [List.filterMap_cons_some hg, List.map_cons]
      exact .cons ⟨_, hg, h.sameGroup hforest hg, rfl⟩ (ih fun j hj => hl j (by simp [hj]))

theorem Sorted.before (h : Sorted groups sorted) {new' : ℕ} (hnew : sorted[new]? = some old)
    (hp : parentOf groups old = some p) (hnew' : sorted[new']? = some p) : new' < new := by
  obtain ⟨hlt, hget⟩ := List.getElem?_eq_some_iff.mp hnew
  have hsplit : sorted = sorted.take new ++ old :: sorted.drop (new + 1) := by
    rw [← hget, ← List.drop_eq_getElem_cons hlt, List.take_append_drop]
  obtain ⟨k, hk⟩ := List.mem_iff_getElem?.mp (h.first _ _ _ hsplit p hp)
  rw [List.getElem?_take] at hk
  split_ifs at hk with hkn
  have hsame := ((oldToNew_eq_some (nodup_of_perm h.once)).mpr hk).symm.trans
    ((oldToNew_eq_some (nodup_of_perm h.once)).mpr hnew')
  rwa [← Option.some.inj hsame]

theorem refs_payloadFrequency (h : sorted.Perm (List.range groups.length)) (f : Frequency) :
    (payloadFrequency (oldToNew sorted) f).refs (fun new => sorted[new]?) =
      f.refs (valid groups) := by
  unfold payloadFrequency Frequency.refs
  rw [List.filterMap_filter, List.filterMap_map]
  congr 1
  funext ref
  cases hgroup : ref.groupIndex with
  | none => simp [payloadRef, hgroup]
  | some gi =>
      by_cases hlt : gi < groups.length
      · obtain ⟨new, hnew, hold⟩ := oldToNew_of_lt h hlt
        simp [payloadRef, hgroup, hnew, hold, valid, hlt]
      · have hle := Nat.le_of_not_lt hlt
        have hlength : sorted.length ≤ gi := by
          rw [h.length_eq, List.length_range]
          exact hle
        simp [payloadRef, hgroup, oldToNew_of_le h hle, valid, hlt, hlength]

theorem exists_of_forall₂ {β γ : Type*} {R : β → γ → Prop} {l : List β} {l' : List γ}
    (h : List.Forall₂ R l l') {n : ℕ} {c : γ} (hc : l'[n]? = some c) :
    ∃ b, l[n]? = some b ∧ R b c := by
  induction h generalizing n with
  | nil => cases hc
  | @cons b c' l l' hR _ ih =>
      cases n with
      | zero => exact ⟨b, rfl, (Option.some.inj hc) ▸ hR⟩
      | succ n => exact ih hc

theorem Sorted.lists (hforest : Forest groups) (h : Sorted groups sorted)
    (frequencies : List Frequency) :
    Lists groups frequencies sorted
      { groups := (sorted.filterMap fun oldIdx => groups[oldIdx]?).map
          (payloadGroup (oldToNew sorted))
        frequencies := frequencies.map (payloadFrequency (oldToNew sorted)) } := by
  have hall := h.forall₂_sameGroup hforest
    fun i hi => List.mem_range.mp (h.once.mem_iff.mp hi)
  refine ⟨h.once, hall.imp fun _ _ ⟨g, hg, hsame, _⟩ => ⟨g, hg, hsame⟩, ?_, ?_⟩
  · intro new pg p hpg hp
    obtain ⟨old, hold, g, hg, -, rfl⟩ := exists_of_forall₂ hall hpg
    obtain ⟨pold, hparent, hnew⟩ := Option.bind_eq_some_iff.mp hp
    have hup : parentOf groups old = some pold := by rw [parentOf, hg]; exact hparent
    exact h.before hold hup ((oldToNew_eq_some (nodup_of_perm h.once)).mp hnew)
  · rw [List.forall₂_map_right_iff, List.forall₂_same]
    exact fun f _ => ⟨rfl, refs_payloadFrequency h.once f⟩

/-- After any edits the plan is a forest, so that the recursions end, and the payload lists it. -/
theorem plan_stays_forest {plan plan' : List Group} {es : List Edit} (h : Forest plan)
    (hrun : edits.Run plan es plan') (frequencies : List Frequency) :
    Forest plan' ∧
      (∀ idx, ∃ n, ∀ depth, n ≤ depth → ∃ d memo, computeDepth plan' depth idx [] = some (d, memo) ∧
        Depth plan' idx d) ∧
      ∃ n, ∀ depth, n ≤ depth → ∃ sorted payload,
        buildEventGroupsPayload plan' frequencies depth = some payload ∧
          Lists plan' frequencies sorted payload := by
  have h' := h.run hrun
  refine ⟨h', fun idx => ?_, ?_⟩
  · obtain ⟨n, hn⟩ := computeDepth_ends h' idx
    refine ⟨n, fun depth hdepth => ?_⟩
    obtain ⟨d, memo, hd, hdepth', -⟩ := hn depth hdepth [] (by simp)
    exact ⟨d, memo, hd, hdepth'⟩
  · obtain ⟨n, hn⟩ := sortIndices_ends h'
    refine ⟨n, fun depth hdepth => ?_⟩
    obtain ⟨sorted, hsorted, hall⟩ := hn depth hdepth
    exact ⟨sorted, _, by rw [buildEventGroupsPayload, hsorted]; rfl, hall.lists h' frequencies⟩

end Payload

/-! ## A wing that moves -/

/-- A command group with a wing, and a flight under the wing that is linked with it. -/
def fleet : List Group :=
  [newGroup "Alpha" (some 1), newGroup "Command" none,
    { newGroup "Flight" (some 0) with linkedIndex := some 0 }]

theorem forest_fleet : Forest fleet where
  parents i p hp := by
    have hall : ∀ i < 3, (parentOf fleet i).all (fun p => p < 3) = true := by decide
    have hlt : p < 3 := by simpa [hp] using hall i (lt_of_parentOf hp)
    exact hlt
  links g hg l hl := by
    have hall : fleet.all fun g => g.linkedIndex.all fun l => l < 3 := by decide
    have hlt : l < 3 := by simpa [hl] using List.all_eq_true.mp hall g hg
    exact hlt
  acyclic := by
    refine .of_rank (fun i => if i = 1 then 0 else i + 1) fun a b hab => ?_
    have hall : ∀ i < 3, (parentOf fleet i).all (fun p =>
        (if p = 1 then 0 else p + 1) < if i = 1 then 0 else i + 1) = true := by decide
    simpa [hab] using hall a (lt_of_parentOf hab)

/-- The flight moves to the top, the command group under it, and the wing goes. -/
theorem plan_stays_forest_fleet :
    ∃ plan, edits.Run fleet [.reparentGroup (some 2) none, .reparentGroup (some 1) (some 2),
        .removeGroupAt 0] plan ∧ parentOf plan 0 = some 1 ∧ Forest plan := by
  let es : List Edit := [.reparentGroup (some 2) none, .reparentGroup (some 1) (some 2),
    .removeGroupAt 0]
  let plan := (edits.exec fleet es).get (by decide +kernel)
  have hrun : edits.Run fleet es plan := StepSystem.exec_eq_some_iff.mp (Option.some_get _).symm
  exact ⟨plan, hrun, by decide +kernel, (plan_stays_forest forest_fleet hrun []).1⟩

end SpecterComs.EventGroups
