import SpecterComs.Library.Worklist
import SpecterComs.Model.MediaServer.Rooms

/-! # The search for descendants ends with all of them

The search is a worklist search over the child edges, whatever the parents are: circles
and channels that are their own parents included.
-/

namespace SpecterComs.MediaServer

open Relation

variable {tree : ChannelTree} {d : Descent} {root current id : ChannelId}

namespace ChannelTree

/-- The tree has `id` as a channel with this parent. -/
def Child (tree : ChannelTree) (parent id : ChannelId) : Prop :=
  (id, some parent) ∈ tree

/-- The children of a channel, in the order of the tree. -/
def childrenOf (tree : ChannelTree) (parent : ChannelId) : List ChannelId :=
  (tree.filter fun node => node.2 = some parent).map Prod.fst

theorem mem_childrenOf {parent : ChannelId} : id ∈ tree.childrenOf parent ↔ tree.Child parent id := by
  simp [childrenOf, Child]

end ChannelTree

/-! ## The loops -/

/-- The worklist of a descent whose visited channels are its result. -/
def Descent.worklist (d : Descent) : Worklist ChannelId :=
  ⟨d.result, d.frontier⟩

def Descent.Matches (d : Descent) : Prop :=
  ∀ id, id ∈ d.visited ↔ id ∈ d.result

/-- The inner loop offers the children of the channel. -/
theorem Descent.Matches.scan (h : d.Matches) (tree : ChannelTree) (current : ChannelId) :
    (tree.foldl (Descent.visit current) d).Matches ∧
      (tree.foldl (Descent.visit current) d).worklist =
        (tree.childrenOf current).foldl Worklist.offer d.worklist := by
  induction tree generalizing d with
  | nil => exact ⟨h, rfl⟩
  | cons node tree ih =>
      rw [List.foldl_cons]
      by_cases hparent : node.2 = some current
      · have hchildren : ChannelTree.childrenOf (node :: tree) current =
            node.1 :: ChannelTree.childrenOf tree current := by
          simp [ChannelTree.childrenOf, hparent]
        rw [hchildren, List.foldl_cons]
        by_cases hvisited : node.1 ∈ d.visited
        · have hsame : d.visit current node = d := by
            simp [Descent.visit, hvisited]
          have hoffer : d.worklist.offer node.1 = d.worklist :=
            if_pos ((h node.1).mp hvisited)
          rw [hsame, hoffer]
          exact ih h
        · have hnew : d.visit current node =
              ⟨d.result ++ [node.1], insert node.1 d.visited, node.1 :: d.frontier⟩ := by
            simp [Descent.visit, hparent, hvisited]
          have hoffer : d.worklist.offer node.1 =
              Descent.worklist ⟨d.result ++ [node.1], insert node.1 d.visited,
                node.1 :: d.frontier⟩ :=
            if_neg (mt (h node.1).mpr hvisited)
          rw [hnew, hoffer]
          refine ih fun id => ?_
          simp [h id, or_comm]
      · have hsame : d.visit current node = d := by
          simp [Descent.visit, hparent]
        have hchildren : ChannelTree.childrenOf (node :: tree) current =
            ChannelTree.childrenOf tree current := by
          simp [ChannelTree.childrenOf, hparent]
        rw [hsame, hchildren]
        exact ih h

theorem Descent.Matches.descend (h : d.Matches) (rounds : ℕ) :
    tree.descend rounds d = Worklist.search tree.childrenOf rounds d.worklist := by
  induction rounds generalizing d with
  | zero => rfl
  | succ rounds ih =>
      obtain ⟨result, visited, frontier⟩ := d
      cases frontier with
      | nil => rfl
      | cons current frontier =>
          obtain ⟨hmatches, hworklist⟩ :=
            Descent.Matches.scan (d := ⟨result, visited, frontier⟩) h tree current
          have hrest := ih hmatches
          rw [hworklist] at hrest
          exact hrest

/-! ## The result -/

/-- For every tree and every start the search ends, after at most one round for each channel
and one for the start, with exactly the channels below the start, each of them once. -/
theorem descendants_reachable (tree : ChannelTree) (root : ChannelId) :
    ∃ result, (∀ rounds, tree.length + 1 < rounds →
        tree.descend rounds (.start root) = some result) ∧
      result.Nodup ∧ ∀ id, id ∈ result ↔ TransGen tree.Child root id := by
  have hstart : (Descent.start root).Matches := fun id => by simp [Descent.start]
  have hnodes : ∀ a, ∀ b ∈ tree.childrenOf a, b ∈ tree.map Prod.fst := by
    intro a b hb
    exact List.mem_map.mpr ⟨_, ChannelTree.mem_childrenOf.mp hb, rfl⟩
  have hleft : (Descent.start root).worklist.left (tree.map Prod.fst) < tree.length + 2 := by
    have hle := List.countP_le_length (l := tree.map Prod.fst)
      (p := fun a => decide (a ∉ (Descent.start root).worklist.found))
    rw [List.length_map] at hle
    have hone : (Descent.start root).worklist.frontier.length = 1 := rfl
    rw [Worklist.left, hone]
    omega
  obtain ⟨result, hresult⟩ := Worklist.search_isSome hnodes hleft
  obtain ⟨hnodup, hmem⟩ :=
    Worklist.search_spec (Worklist.inv_start tree.childrenOf root) hresult
  refine ⟨result, fun rounds hrounds => ?_, hnodup, fun id => ?_⟩
  · rw [hstart.descend]
    exact Worklist.search_mono hresult (by omega)
  · rw [hmem id]
    have hedges : (fun a b => b ∈ tree.childrenOf a) = tree.Child := by
      funext a b
      exact propext ChannelTree.mem_childrenOf
    rw [hedges]

/-- On a circle the start is found too, and a channel that is its own parent only if it can be
reached. -/
example : ChannelTree.descend [("a", some "b"), ("b", some "a"), ("c", some "c")] 5 (.start "a") =
    some ["b", "a"] := by
  decide

/-! ## A tree with one entry for each channel -/

end SpecterComs.MediaServer
