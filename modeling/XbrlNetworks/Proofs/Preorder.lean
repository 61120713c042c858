import XbrlNetworks.Proofs.Tree

/-! # The order of a walk

A walk is a machine over levels of siblings, but what it yields is the recursive
preorder: every stop is followed by all that hangs below it, one level deeper,
and then by its later siblings.  In an accepted tree it stops at every fragment
that the root reaches, once.
-/

namespace XbrlNetworks

open Std

/-- The preorder of some siblings: the target of the first, all that hangs below it one level
    deeper, and then the preorder of the other siblings. -/
inductive Network.Preorder (network : Network) : Nat → List Relationship → List Visit → Prop where
  | nil {depth : Nat} : Preorder network depth [] []
  | cons {depth : Nat} {r : Relationship} {siblings : List Relationship}
    {below later : List Visit} :
    Preorder network (depth + 1) (network.outgoing r.target.index) below →
      Preorder network depth siblings later →
      Preorder network depth (r :: siblings) (⟨r.target, some r, depth⟩ :: (below ++ later))

def Traversal.visited (visits : List Visit) : List Index :=
  visits.map fun visit => visit.fragment.index

namespace Network

variable {network : Network} {log : Log} {root : Index} {depth : Nat}
  {siblings : List Relationship} {visits : List Visit}

theorem Preorder.unique {other : List Visit} (h : network.Preorder depth siblings visits)
    (h' : network.Preorder depth siblings other) : visits = other := by
  induction h generalizing other with
  | nil =>
      cases h'
      rfl
  | cons _ _ ihBelow ihLater =>
      cases h' with
      | cons below later => rw [ihBelow below, ihLater later]

theorem Preorder.visited_eq (h : network.Preorder depth siblings visits) :
    Traversal.visited visits = (Traversal.carried visits).map fun r => r.target.index := by
  induction h with
  | nil => rfl
  | cons _ _ ihBelow ihLater =>
      simp only [Traversal.visited, Traversal.carried, List.map_append, List.filterMap_append,
        List.map_cons, List.filterMap_cons] at ihBelow ihLater ⊢
      rw [ihBelow, ihLater]

theorem Preorder.reaches (h : network.Preorder depth siblings visits)
    (start : ∀ r ∈ siblings, network.Reaches root r.target.index) :
    ∀ index ∈ Traversal.visited visits, network.Reaches root index := by
  induction h with
  | nil => simp [Traversal.visited]
  | @cons depth r siblings below later _ _ ihBelow ihLater =>
      have here := start r List.mem_cons_self
      intro index member
      simp only [Traversal.visited, List.map_cons, List.map_append, List.mem_cons,
        List.mem_append] at member
      rcases member with rfl | inBelow | inLater
      · exact here
      · refine ihBelow (fun child isChild => here.tail ?_) index inBelow
        exact List.mem_map_of_mem isChild
      · exact ihLater (fun other member => start other (List.mem_cons_of_mem _ member))
          index inLater

theorem Preorder.closed (h : network.Preorder depth siblings visits) :
    (∀ r ∈ siblings, r.target.index ∈ Traversal.visited visits) ∧
      ∀ index ∈ Traversal.visited visits, ∀ child ∈ network.children index,
        child ∈ Traversal.visited visits := by
  induction h with
  | nil => simp [Traversal.visited]
  | @cons depth r siblings below later _ _ ihBelow ihLater =>
      obtain ⟨children, closedBelow⟩ := ihBelow
      obtain ⟨others, closedLater⟩ := ihLater
      have split : ∀ index, index ∈ Traversal.visited
          (⟨r.target, some r, depth⟩ :: (below ++ later)) ↔ index = r.target.index ∨
            index ∈ Traversal.visited below ∨ index ∈ Traversal.visited later := by
        intro index
        simp only [Traversal.visited, List.map_cons, List.map_append, List.mem_cons,
          List.mem_append]
      simp only [split]
      constructor
      · intro other member
        rcases List.mem_cons.mp member with rfl | inRest
        · exact .inl rfl
        · exact .inr (.inr (others other inRest))
      · rintro index (rfl | inBelow | inLater) child isChild
        · obtain ⟨next, isNext, rfl⟩ := List.mem_map.mp isChild
          exact .inr (.inl (children next isNext))
        · exact .inr (.inl (closedBelow index inBelow child isChild))
        · exact .inr (.inr (closedLater index inLater child isChild))

theorem Preorder.mem_visited_iff (h : network.Preorder depth (network.outgoing root) visits)
    {index : Index} :
    network.Reaches root index ↔ index = root ∨ index ∈ Traversal.visited visits := by
  obtain ⟨children, closed⟩ := h.closed
  constructor
  · intro reaches
    induction reaches with
    | refl => exact .inl rfl
    | tail _ leads ih =>
        rcases ih with rfl | member
        · obtain ⟨r, isChild, rfl⟩ := List.mem_map.mp leads
          exact .inr (children r isChild)
        · exact .inr (closed _ member _ leads)
  · rintro (rfl | member)
    · exact .refl
    · exact h.reaches (fun r isChild => .single (List.mem_map_of_mem isChild)) index member

end Network

namespace Traversal

variable {network : Network} {levels : List (List Relationship)} {visits : List Visit}

/-- Levels of siblings are worked off one after the other, each at the depth that is the number
    of levels from it on. -/
inductive Stacked (network : Network) : List (List Relationship) → List Visit → Prop where
  | nil : Stacked network [] []
  | cons {level : List Relationship} {outer : List (List Relationship)} {here later : List Visit} :
    network.Preorder (outer.length + 1) level here → Stacked network outer later →
      Stacked network (level :: outer) (here ++ later)

theorem Stacked.of_dropWhile (h : Stacked network (levels.dropWhile List.isEmpty) visits) :
    Stacked network levels visits := by
  induction levels with
  | nil => exact h
  | cons level outer ih =>
      cases level with
      | nil => exact .cons .nil (ih h)
      | cons r siblings => exact h

theorem Stacked.of_descend {fragment : Fragment}
    (h : Stacked network (descend network fragment levels) visits) :
    ∃ below later, visits = below ++ later ∧
      network.Preorder (levels.length + 1) (network.outgoing fragment.index) below ∧
      Stacked network levels later := by
  unfold descend at h
  cases children : network.outgoing fragment.index with
  | nil =>
      rw [children] at h
      exact ⟨[], visits, rfl, .nil, h⟩
  | cons r rest =>
      rw [children] at h
      cases h with
      | cons below later => exact ⟨_, _, rfl, below, later⟩

/-- A walk that has left its root goes on with the first sibling of the deepest level that has
    any, at the depth of that level. -/
theorem of_next?_eq_some {walk rest : Traversal} {visit : Visit} (left : walk.root = none)
    (next : walk.next? = some (visit, rest)) :
    ∃ r siblings outer, walk.levels.dropWhile List.isEmpty = (r :: siblings) :: outer ∧
      visit = ⟨r.target, some r, outer.length + 1⟩ ∧ rest.network = walk.network ∧
      rest.root = none ∧ rest.levels = descend walk.network r.target (siblings :: outer) := by
  simp only [next?, left] at next
  split at next
  · rename_i r siblings outer shape
    cases next
    exact ⟨r, siblings, outer, shape, rfl, rfl, rfl, rfl⟩
  · cases next

theorem Yields.stacked {walk : Traversal} (h : walk.Yields visits) (left : walk.root = none) :
    Stacked walk.network walk.levels visits := by
  induction h with
  | @done walk finished =>
      apply Stacked.of_dropWhile
      cases shape : walk.levels.dropWhile List.isEmpty with
      | nil => exact .nil
      | cons level outer =>
          have stopped := List.head?_dropWhile_not List.isEmpty walk.levels
          cases level with
          | nil => simp [shape] at stopped
          | cons r siblings => simp only [next?, left, shape, reduceCtorEq] at finished
  | @step walk rest visit visits next _ ih =>
      obtain ⟨r, siblings, outer, shape, rfl, sameNetwork, left', levels⟩ :=
        of_next?_eq_some left next
      have stacked := ih left'
      rw [sameNetwork, levels] at stacked
      obtain ⟨below, later, rfl, preorder, rest⟩ := stacked.of_descend
      cases rest with
      | @cons _ _ here later siblingsOrder outerStacked =>
          apply Stacked.of_dropWhile
          rw [shape, ← List.append_assoc]
          exact .cons (.cons preorder siblingsOrder) outerStacked

/-- What a walk yields below its root is the preorder of the relationships out of it. -/
theorem Yields.preorder {fragment : Fragment}
    (h : Yields ⟨network, some fragment, []⟩ visits) :
    ∃ below, visits = ⟨fragment, none, 0⟩ :: below ∧
      network.Preorder 1 (network.outgoing fragment.index) below := by
  cases h with
  | done finished => simp only [next?, reduceCtorEq] at finished
  | step next yields =>
      cases next
      obtain ⟨below, later, rfl, preorder, rest⟩ := (yields.stacked rfl).of_descend
      cases rest
      exact ⟨below, by rw [List.append_nil], preorder⟩

end Traversal

namespace Network

variable {network : Network} {log : Log} {root : Index}

theorem Coherent.kept_of_tree {fragment : Fragment} (h : network.Coherent)
    (found : network.tree = .ok ⟨network, some fragment, []⟩) :
    network.fragments[fragment.index]? = some fragment := by
  unfold tree at found
  split at found
  · cases found
  · rename_i start
    cases found
    obtain ⟨root, _, kept, _, _⟩ := treeRoot_eq_ok start
    rwa [(h.kept root fragment kept).1]

/-- No fragment is visited twice: every relationship leads into a fragment of its own, and none
    into the root. -/
theorem Rooted.nodup_visited {below : List Visit} {depth : Nat} (rooted : network.Rooted root)
    (finished : network.Underway root (Traversal.carried below) [])
    (preorder : network.Preorder depth (network.outgoing root) below) :
    (root :: Traversal.visited below).Nodup := by
  have effective : ∀ r ∈ Traversal.carried below, r ∈ network.relationships :=
    fun r member => finished.effective r (List.mem_append_left _ member)
  have once : (Traversal.carried below).Nodup := by simpa using finished.nodup
  rw [preorder.visited_eq, List.nodup_cons]
  constructor
  · intro again
    obtain ⟨r, member, same⟩ := List.mem_map.mp again
    exact rooted.top r (effective r member) same
  · refine once.map_on fun r member r' member' same => ?_
    exact rooted.single r (effective r member) r' (effective r' member') same

/-- The walk of an accepted tree ends.  It yields its root and then the preorder of the
    relationships out of the root, and visits every fragment that the root reaches once. -/
theorem Reachable.tree_yields_preorder {walk : Traversal} (h : network.Reachable)
    (found : network.tree = .ok walk) :
    ∃ root visits below, network.roots = [root.index] ∧
      network.fragments[root.index]? = some root ∧
      walk.Yields visits ∧ walk.visits = visits ∧ visits = ⟨root, none, 0⟩ :: below ∧
      (∀ other, network.Preorder 1 (network.outgoing root.index) other ↔ other = below) ∧
      (Traversal.visited visits).Nodup ∧
      ∀ index, index ∈ Traversal.visited visits ↔ network.Reaches root.index index := by
  obtain ⟨log, h⟩ := h.follows
  obtain ⟨root, rfl, accepted⟩ := h.accepted_of_tree found
  have rooted := accepted.rooted h
  obtain ⟨visits, yields, all, finished, _⟩ := rooted.exists_yields h
  obtain ⟨below, rfl, preorder⟩ := yields.preorder
  refine ⟨root, _, below, accepted.roots, h.coherent.kept_of_tree found, yields, all, rfl,
    fun other => ⟨?_, ?_⟩, ?_, ?_⟩
  · exact fun preorder' => preorder'.unique preorder
  · rintro rfl
    exact preorder
  · exact rooted.nodup_visited finished preorder
  · intro index
    rw [preorder.mem_visited_iff, Traversal.visited, List.map_cons, List.mem_cons]
    rfl

/-- The walk of a root with two children, the first of which has a child of its own. -/
theorem tree_yields_preorder_of_branches : ∃ network walk visits, Network.Reachable network ∧
    network.tree = .ok walk ∧ walk.Yields visits ∧
      visits.map (fun visit => (visit.fragment.index, visit.depth)) =
        [("r", 0), ("a", 1), ("c", 2), ("b", 1)] := by
  let p := Relationship.sample "x" "r" "b" .optional
  let q := Relationship.sample "y" "r" "a" .optional
  let s := Relationship.sample "z" "a" "c" .optional
  let first := (openFor p).opened p
  let second := first.opened q
  let network := second.opened s
  have reachedFirst : first.Reachable := (reachable_openFor p).opened rfl (by decide +kernel)
  have reachedSecond : second.Reachable := reachedFirst.opened rfl (by decide +kernel)
  have reached : network.Reachable := reachedSecond.opened rfl (by decide +kernel)
  have root : network.treeRoot = .ok p.source := by decide +kernel
  have found : network.tree = .ok ⟨network, some p.source, []⟩ := by
    simp only [tree, root]
  obtain ⟨_, visits, _, _, _, yields, all, _⟩ := reached.tree_yields_preorder found
  refine ⟨network, _, visits, reached, found, yields, ?_⟩
  rw [← all]
  decide +kernel

end Network

end XbrlNetworks
