import XbrlNetworks.Proofs.Identities
import XbrlNetworks.Proofs.Tree

/-! # Why a network is rejected as a tree

A network is no tree if it does not have one root, if some fragment has two
parents, or if the root does not reach the end of some effective relationship.
Counting what is reached and what is connected finds nothing else, with one
exception: where nothing is effective, a single root is still counted as
reached, and so it is held against the network that it is connected to nothing.
-/

namespace XbrlNetworks.Network

open Std

variable {network : Network} {log : Log} {obstacle : Obstacle} {root index : Index}

/-- The obstacle that a network meets. -/
inductive Meets (network : Network) : Obstacle → Prop where
  | rootCount : network.roots.length ≠ 1 → Meets network (.rootCount network.roots.length)
  | sharedChild {child : Index} :
    1 < (network.incoming child).length → Meets network (.sharedChild child)
  | unknownRoot {root : Index} :
    network.roots = [root] → network.fragments[root]? = none → Meets network (.unknownRoot root)
  | outOfReach {root : Index} :
    network.roots = [root] →
      (network.reachableFrom root).length ≠ network.connected.length →
      Meets network
        (.outOfReach (network.reachableFrom root).length network.connected.length root)

/-- A reason for which a network is no tree. -/
inductive Impeded (network : Network) : Prop where
  /-- There is not just one root. -/
  | roots : network.roots.length ≠ 1 → Impeded network
  /-- A fragment has more than one parent. -/
  | shared {child : Index} : 1 < (network.incoming child).length → Impeded network
  /-- The root does not reach an end of an effective relationship. -/
  | apart {root index : Index} {r : Relationship} :
    network.roots = [root] → r ∈ network.relationships →
      (r.source.index = index ∨ r.target.index = index) → ¬ network.Reaches root index →
      Impeded network

theorem meets_of_treeRoot (failed : network.treeRoot = .error obstacle) :
    network.Meets obstacle := by
  unfold treeRoot at failed
  split at failed
  · rename_i root only
    cases shared : network.targets.find? fun index => 1 < (network.incoming index).length with
    | some child =>
        rw [shared] at failed
        cases failed
        exact .sharedChild (by simpa using List.find?_some shared)
    | none =>
        rw [shared] at failed
        cases kept : network.fragments[root]? with
        | none =>
            rw [kept] at failed
            cases failed
            exact .unknownRoot only kept
        | some fragment =>
            rw [kept] at failed
            by_cases counted : (network.reachableFrom root).length = network.connected.length
            · simp only [counted, ne_eq, not_true_eq_false, if_false] at failed
              cases failed
            · simp only [counted, ne_eq, not_false_eq_true, if_true] at failed
              cases failed
              exact .outOfReach only counted
  · rename_i several
    cases failed
    refine .rootCount fun single => ?_
    obtain ⟨root, only⟩ := List.length_eq_one_iff.mp single
    exact several root only

theorem mem_connected_of_reaches_mem (h : network.Follows log) (member : index ∈ network.connected)
    (reaches : network.Reaches root index) : root ∈ network.connected := by
  rcases reaches.cases_head with rfl | ⟨child, leads, _⟩
  · exact member
  · obtain ⟨r, effective, atSource, _⟩ := h.leads_iff.mp leads
    exact mem_connected.mpr ⟨r, effective, .inl atSource⟩

/-- A root that reaches all that is connected reaches nothing else. -/
theorem Follows.length_reachableFrom (h : network.Follows log)
    (effective : network.relationships ≠ [])
    (all : ∀ index ∈ network.connected, network.Reaches root index) :
    (network.reachableFrom root).length = network.connected.length := by
  obtain ⟨r, member⟩ := List.exists_mem_of_ne_nil _ effective
  have start : r.source.index ∈ network.connected := mem_connected.mpr ⟨r, member, .inl rfl⟩
  have atEnd := mem_connected_of_reaches_mem h start (all _ start)
  have same : ∀ index, index ∈ network.reachableFrom root ↔ index ∈ network.connected := by
    intro index
    rw [h.mem_reachableFrom]
    exact ⟨mem_connected_of_reaches h atEnd, all index⟩
  have nodup : network.connected.Nodup := (ascending_distinct _).nodup
  exact ((List.perm_ext_iff_of_nodup (network.nodup_reachableFrom root) nodup).mpr same).length_eq

/-- Without effective relationships only the number of roots can stand in the way. -/
theorem Follows.of_impeded (h : network.Follows log) (impeded : network.Impeded) :
    network.roots.length ≠ 1 ∨ network.relationships ≠ [] := by
  cases impeded with
  | roots several => exact .inl several
  | @shared child several =>
      obtain ⟨r, entering⟩ := List.exists_mem_of_length_pos (Nat.zero_lt_of_lt several)
      have effective := h.mem_relationships.mpr (h.mem_incoming.mp entering).1
      exact .inr (List.ne_nil_of_mem effective)
  | apart _ effective _ _ => exact .inr (List.ne_nil_of_mem effective)

theorem Meets.impeded (h : network.Follows log) (meets : network.Meets obstacle)
    (effective : network.relationships ≠ []) : network.Impeded := by
  cases meets with
  | rootCount several => exact .roots several
  | sharedChild several => exact .shared several
  | @unknownRoot root only unknown =>
      have listed : root ∈ network.roots := only ▸ List.mem_singleton_self _
      have kept := h.coherent.mem_fragments_of_sources (List.mem_of_mem_filter listed)
      exact absurd unknown (ExtTreeMap.getElem?_eq_some_getElem kept ▸ Option.some_ne_none _)
  | @outOfReach root only different =>
      by_contra unimpeded
      refine different (h.length_reachableFrom effective fun index member => ?_)
      obtain ⟨r, inside, atEnd⟩ := mem_connected.mp member
      by_contra unreached
      exact unimpeded (.apart only inside atEnd unreached)

/-- A network that is rejected as a tree is so for a reason, unless it has just one root and
    nothing in it is effective; then there is none. -/
theorem Reachable.impeded_iff_of_rejected {failure : Failure} (h : network.Reachable)
    (rejected : network.tree = .error failure) :
    ∃ obstacle, failure = .notATree network.baseSet obstacle ∧
      (network.Impeded ↔ network.roots.length ≠ 1 ∨ network.relationships ≠ []) := by
  obtain ⟨log, h⟩ := h.follows
  unfold tree at rejected
  cases met : network.treeRoot with
  | ok root =>
      rw [met] at rejected
      cases rejected
  | error obstacle =>
      rw [met] at rejected
      cases rejected
      refine ⟨obstacle, rfl, h.of_impeded, fun either => ?_⟩
      rcases either with several | effective
      · exact .roots several
      · exact (meets_of_treeRoot met).impeded h effective

/-- A network whose one relationship is prohibited has one root and is rejected all the same. -/
theorem not_impeded_of_prohibited : ∃ network obstacle, Network.Reachable network ∧
    network.tree = .error (.notATree network.baseSet obstacle) ∧
      obstacle.message = "1 of 0 fragments reachable from root s" ∧ ¬ network.Impeded := by
  let p := Relationship.sample "x" "s" "t" .prohibited
  let network := (openFor p).opened p
  have reached : network.Reachable := (reachable_openFor p).opened rfl (by decide +kernel)
  obtain ⟨log, follows⟩ := reached.follows
  have met : network.treeRoot = .error (.outOfReach 1 0 "s") := by decide +kernel
  refine ⟨network, .outOfReach 1 0 "s", reached, by simp only [tree, met], by decide +kernel, ?_⟩
  intro impeded
  have roots : network.roots = ["s"] := by decide +kernel
  have idle : network.relationships = [] := by decide +kernel
  rcases follows.of_impeded impeded with several | effective
  · exact several (by rw [roots]; rfl)
  · exact effective idle

/-- Beside its root a network has a cycle that the root does not reach. -/
theorem impeded_of_detached_cycle : ∃ network obstacle, Network.Reachable network ∧
    network.tree = .error (.notATree network.baseSet obstacle) ∧ network.roots = ["r"] ∧
      network.relationships.length = 3 ∧ network.Impeded := by
  let p := Relationship.sample "x" "r" "a" .optional
  let q := Relationship.sample "y" "b" "c" .optional
  let z := Relationship.sample "z" "c" "b" .optional
  let chain := ((openFor p).opened p).opened q
  let network := chain.opened z
  have before : chain.Reachable :=
    ((reachable_openFor p).opened rfl (by decide +kernel)).opened rfl (by decide +kernel)
  have reached : network.Reachable := before.opened rfl (by decide +kernel)
  have met : network.treeRoot = .error (.outOfReach 2 4 "r") := by decide +kernel
  have rejected : network.tree = .error (.notATree network.baseSet (.outOfReach 2 4 "r")) := by
    simp only [tree, met]
  have all : network.relationships.length = 3 := by decide +kernel
  have effective : network.relationships ≠ [] := List.ne_nil_of_length_eq_add_one all
  obtain ⟨_, _, reasoned⟩ := Reachable.impeded_iff_of_rejected reached rejected
  exact ⟨network, _, reached, rejected, by decide +kernel, all, reasoned.mpr (.inr effective)⟩

end XbrlNetworks.Network
