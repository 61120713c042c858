import XbrlNetworks.Network.Traversal
import XbrlNetworks.Proofs.Reach
import XbrlNetworks.Proofs.Representation

/-! # What a walk visits

A walk keeps levels of siblings, but what it yields depends on the row of all
pending relationships only: it takes the first and puts the children of its
target in its place.  In a rooted network no relationship gets into the row
twice, so the walk ends, and it ends with all that the root reaches.
-/

namespace XbrlNetworks

open Std

namespace Traversal

/-- What a walk yields, stop by stop, until it has nothing more to yield. -/
inductive Yields : Traversal → List Visit → Prop where
  | done {walk : Traversal} : walk.next? = none → Yields walk []
  | step {walk rest : Traversal} {visit : Visit} {visits : List Visit} :
    walk.next? = some (visit, rest) → Yields rest visits → Yields walk (visit :: visits)

def carried (visits : List Visit) : List Relationship :=
  visits.filterMap Visit.relationship

/-- The relationships that are still to be visited, in the order of the visits if none of them
    had children. -/
def pending (walk : Traversal) : List Relationship :=
  walk.levels.flatten

theorem Yields.take_eq {walk : Traversal} {visits : List Visit} {count : Nat}
    (h : walk.Yields visits) (enough : visits.length ≤ count) : walk.take count = visits := by
  induction h generalizing count with
  | done finished =>
      cases count with
      | zero => rfl
      | succ count => rw [take, finished]
  | step next _ ih =>
      cases count with
      | zero => simp at enough
      | succ count =>
          rw [take, next]
          exact congrArg _ (ih (Nat.le_of_succ_le_succ enough))

theorem flatten_descend (network : Network) (fragment : Fragment)
    (levels : List (List Relationship)) :
    (descend network fragment levels).flatten =
      network.outgoing fragment.index ++ levels.flatten := by
  unfold descend
  cases children : network.outgoing fragment.index with
  | nil => rfl
  | cons r rest => rfl

theorem flatten_dropWhile_isEmpty (levels : List (List Relationship)) :
    (levels.dropWhile List.isEmpty).flatten = levels.flatten := by
  induction levels with
  | nil => rfl
  | cons level levels ih =>
      cases level with
      | nil => simpa using ih
      | cons r rest => rfl

theorem next?_of_pending_nil {walk : Traversal} (left : walk.root = none)
    (nothing : walk.pending = []) : walk.next? = none := by
  have finished : walk.levels.dropWhile List.isEmpty = [] := by
    rw [List.dropWhile_eq_nil_iff]
    intro level member
    exact List.isEmpty_iff.mpr (List.flatten_eq_nil_iff.mp nothing level member)
  simp only [next?, left, finished]

theorem next?_of_pending_cons {walk : Traversal} {r : Relationship} {rest : List Relationship}
    (left : walk.root = none) (first : walk.pending = r :: rest) :
    ∃ depth next, walk.next? = some (⟨r.target, some r, depth⟩, next) ∧
      next.network = walk.network ∧ next.root = none ∧
      next.pending = walk.network.outgoing r.target.index ++ rest := by
  rw [pending, ← flatten_dropWhile_isEmpty] at first
  cases shape : walk.levels.dropWhile List.isEmpty with
  | nil => simp [shape] at first
  | cons level outer =>
      cases level with
      | nil =>
          have stopped := List.head?_dropWhile_not List.isEmpty walk.levels
          simp [shape] at stopped
      | cons r' siblings =>
          rw [shape, List.flatten_cons, List.cons_append, List.cons.injEq] at first
          obtain ⟨rfl, row⟩ := first
          let next : Traversal :=
            ⟨walk.network, none, descend walk.network r'.target (siblings :: outer)⟩
          refine ⟨outer.length + 1, next, by simp only [next?, left, shape]; rfl, rfl, rfl, ?_⟩
          rw [pending, flatten_descend, ← row, List.flatten_cons]

end Traversal

namespace Network

/-- No effective relationship leads into the root, and no two into the same fragment. -/
structure Rooted (network : Network) (root : Index) : Prop where
  top : ∀ r ∈ network.relationships, r.target.index ≠ root
  single : ∀ r ∈ network.relationships, ∀ r' ∈ network.relationships,
    r.target.index = r'.target.index → r = r'

/-- A walk in between: what it has visited and what is pending are different effective
    relationships, and nothing that leads on from the visited ones has been forgotten. -/
structure Underway (network : Network) (root : Index) (visited pending : List Relationship) :
    Prop where
  nodup : (visited ++ pending).Nodup
  effective : ∀ r ∈ visited ++ pending, r ∈ network.relationships
  anchored : ∀ r ∈ visited ++ pending,
    r.source.index = root ∨ ∃ v ∈ visited, v.target.index = r.source.index
  started : ∀ r ∈ network.outgoing root, r ∈ visited ++ pending
  followed : ∀ v ∈ visited, ∀ r ∈ network.outgoing v.target.index, r ∈ visited ++ pending

variable {network : Network} {log : Log} {root : Index}

theorem Follows.underway_start (h : network.Follows log) (root : Index) :
    network.Underway root [] (network.outgoing root) where
  nodup := h.nodup_outgoing root
  effective := fun _ member => (h.mem_relationships_of_outgoing member).1
  anchored := fun _ member => .inl (h.mem_relationships_of_outgoing member).2
  started := fun _ member => member
  followed := by simp

/-- The children of a pending relationship are new to the walk. -/
theorem Underway.disjoint {visited rest : List Relationship} {r child : Relationship}
    (h : network.Follows log) (rooted : network.Rooted root)
    (under : network.Underway root visited (r :: rest))
    (isChild : child ∈ network.outgoing r.target.index) : child ∉ visited ++ r :: rest := by
  have effective : r ∈ network.relationships := under.effective r (by simp)
  obtain ⟨_, atTarget⟩ := h.mem_relationships_of_outgoing isChild
  intro old
  rcases under.anchored child old with atRoot | ⟨v, member, same⟩
  · exact rooted.top r effective (atTarget.symm.trans atRoot)
  · have visitedToo : r ∈ visited := by
      have sameRelationship := rooted.single r effective v
        (under.effective v (List.mem_append_left _ member)) (atTarget.symm.trans same.symm)
      exact sameRelationship ▸ member
    have apart := (List.nodup_append.mp under.nodup).2.2
    exact apart r visitedToo r List.mem_cons_self rfl

theorem Underway.step {visited rest : List Relationship} {r : Relationship}
    (h : network.Follows log) (rooted : network.Rooted root)
    (under : network.Underway root visited (r :: rest)) :
    network.Underway root (visited ++ [r]) (network.outgoing r.target.index ++ rest) := by
  have row : ((visited ++ [r]) ++ (network.outgoing r.target.index ++ rest)).Perm
      (network.outgoing r.target.index ++ (visited ++ r :: rest)) := by
    have swap : ((visited ++ [r]) ++ network.outgoing r.target.index).Perm
        (network.outgoing r.target.index ++ (visited ++ [r])) := List.perm_append_comm
    simpa using swap.append_right rest
  have kept : ∀ other ∈ visited ++ r :: rest,
      other ∈ (visited ++ [r]) ++ (network.outgoing r.target.index ++ rest) := by
    intro other member
    exact row.mem_iff.mpr (List.mem_append_right _ member)
  constructor
  · rw [row.nodup_iff, List.nodup_append]
    refine ⟨h.nodup_outgoing _, under.nodup, ?_⟩
    rintro child isChild other old rfl
    exact under.disjoint h rooted isChild old
  · intro other member
    rcases List.mem_append.mp (row.mem_iff.mp member) with isChild | old
    · exact (h.mem_relationships_of_outgoing isChild).1
    · exact under.effective other old
  · intro other member
    rcases List.mem_append.mp (row.mem_iff.mp member) with isChild | old
    · obtain ⟨_, atTarget⟩ := h.mem_relationships_of_outgoing isChild
      exact .inr ⟨r, by simp, atTarget.symm⟩
    · rcases under.anchored other old with atRoot | ⟨v, visitedBefore, same⟩
      · exact .inl atRoot
      · exact .inr ⟨v, List.mem_append_left _ visitedBefore, same⟩
  · exact fun other member => kept other (under.started other member)
  · intro v member other isChild
    rcases List.mem_append.mp member with old | new
    · exact kept other (under.followed v old other isChild)
    · rw [List.mem_singleton.mp new] at isChild
      exact row.mem_iff.mpr (List.mem_append_left _ isChild)

theorem Underway.complete {visited : List Relationship} {r : Relationship}
    (h : network.Follows log) (under : network.Underway root visited [])
    (effective : r ∈ network.relationships) (reaches : network.Reaches root r.source.index) :
    r ∈ visited := by
  have arrived : ∀ index, network.Reaches root index →
      index = root ∨ ∃ v ∈ visited, v.target.index = index := by
    intro index reaches
    induction reaches with
    | refl => exact .inl rfl
    | tail _ leads ih =>
        obtain ⟨r, effective, atSource, atTarget⟩ := h.leads_iff.mp leads
        have leaving := (h.mem_ends effective).1
        rw [atSource] at leaving
        rcases ih with rfl | ⟨v, member, rfl⟩
        · exact .inr ⟨r, by simpa using under.started r leaving, atTarget⟩
        · exact .inr ⟨r, by simpa using under.followed v member r leaving, atTarget⟩
  have leaving := (h.mem_ends effective).1
  rcases arrived _ reaches with atRoot | ⟨v, member, same⟩
  · rw [atRoot] at leaving
    simpa using under.started r leaving
  · rw [← same] at leaving
    simpa using under.followed v member r leaving

/-- A walk that has left its root ends, having visited what was pending and what that leads to. -/
theorem Underway.yields (h : network.Follows log) (rooted : network.Rooted root)
    (count : Nat) {walk : Traversal} {visited : List Relationship}
    (enough : network.relationships.length ≤ visited.length + count)
    (here : walk.network = network) (left : walk.root = none)
    (under : network.Underway root visited walk.pending) :
    ∃ visits, walk.Yields visits ∧ visits.length ≤ count ∧
      network.Underway root (visited ++ Traversal.carried visits) [] := by
  -- The count bounds what is left to visit: the visited ones are different effective relationships.
  induction count generalizing walk visited with
  | zero =>
      have nothing : walk.pending = [] := by
        have bound := List.Subperm.length_le (List.subperm_of_subset under.nodup under.effective)
        rw [List.length_append] at bound
        apply List.length_eq_zero_iff.mp
        omega
      rw [nothing] at under
      refine ⟨[], .done (Traversal.next?_of_pending_nil left nothing), Nat.le_refl _, ?_⟩
      simpa [Traversal.carried] using under
  | succ count ih =>
      cases first : walk.pending with
      | nil =>
          rw [first] at under
          refine ⟨[], .done (Traversal.next?_of_pending_nil left first), Nat.zero_le _, ?_⟩
          simpa [Traversal.carried] using under
      | cons r rest =>
          obtain ⟨depth, next, moved, sameNetwork, left', row⟩ :=
            Traversal.next?_of_pending_cons left first
          rw [first] at under
          rw [here] at row sameNetwork
          have more : network.relationships.length ≤ (visited ++ [r]).length + count := by
            simp only [List.length_append, List.length_singleton]
            omega
          obtain ⟨visits, yields, bound, finished⟩ :=
            ih more sameNetwork left' (row ▸ under.step h rooted)
          refine ⟨⟨r.target, some r, depth⟩ :: visits, .step moved yields, ?_, ?_⟩
          · simpa using bound
          · simpa [Traversal.carried] using finished

theorem Underway.perm_relationships {visited : List Relationship} (h : network.Follows log)
    (under : network.Underway root visited [])
    (reaches : ∀ r ∈ network.relationships, network.Reaches root r.source.index) :
    visited.Perm network.relationships := by
  have nodup : visited.Nodup := by simpa using under.nodup
  apply (List.perm_ext_iff_of_nodup nodup h.nodup_relationships).mpr
  intro r
  constructor
  · exact fun member => under.effective r (by simpa using member)
  · exact fun effective => under.complete h effective (reaches r effective)

theorem Rooted.exists_yields {fragment : Fragment} (h : network.Follows log)
    (rooted : network.Rooted fragment.index) :
    ∃ visits, Traversal.Yields ⟨network, some fragment, []⟩ visits ∧
      Traversal.visits ⟨network, some fragment, []⟩ = visits ∧
      network.Underway fragment.index (Traversal.carried visits) [] ∧
      (network.outgoing fragment.index = [] → Traversal.carried visits = []) := by
  let below : Traversal := ⟨network, none, Traversal.descend network fragment []⟩
  have row : below.pending = network.outgoing fragment.index := by
    simp [below, Traversal.pending, Traversal.flatten_descend]
  have start : network.Underway fragment.index [] below.pending :=
    row ▸ h.underway_start fragment.index
  obtain ⟨visits, yields, bound, finished⟩ :=
    start.yields h rooted network.relationships.length (Nat.le_add_left _ _) rfl rfl
  rw [List.nil_append] at finished
  have whole : Traversal.Yields ⟨network, some fragment, []⟩ (⟨fragment, none, 0⟩ :: visits) :=
    .step rfl yields
  refine ⟨_, whole, whole.take_eq ?_, finished, ?_⟩
  · exact Nat.succ_le_succ (bound.trans h.length_relationships_le)
  · intro alone
    cases yields with
    | done _ => rfl
    | step next _ =>
        rw [Traversal.next?_of_pending_nil rfl (row.trans alone)] at next
        cases next

end Network

end XbrlNetworks
