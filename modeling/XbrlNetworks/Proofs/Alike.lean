import XbrlNetworks.Proofs.Roots
import XbrlNetworks.Proofs.Snapshots
import XbrlNetworks.Proofs.Tree

/-! # Networks that answer alike

Two networks with the same candidates for every identity answer every question
alike, in whatever order their buckets were opened.  That goes for walks too,
except that a root may be kept in another form where the other network has seen
its fragment first.
-/

namespace XbrlNetworks

open Std

/-- A stop of a walk, told by its fragment, its depth and its arc. -/
def Visit.outline (visit : Visit) : Index × Nat × Option Index :=
  ⟨visit.fragment.index, visit.depth, visit.relationship.map fun r => r.arc.index⟩

namespace Network

/-- Two networks have buckets of the same identities and answer alike. -/
structure Alike (network other : Network) : Prop where
  baseSet : network.baseSet = other.baseSet
  identities : network.identities.Perm other.identities
  size : network.size = other.size
  sources : network.sources = other.sources
  targets : network.targets = other.targets
  roots : network.roots = other.roots
  fragments : ∀ index, index ∈ network.fragments ↔ index ∈ other.fragments
  outgoing : ∀ source, network.outgoing source = other.outgoing source
  incoming : ∀ target, network.incoming target = other.incoming target
  relationships : network.relationships = other.relationships

variable {network other : Network} {identity : Bucket.Identity} {slot : Nat} {index : Index}

theorem Alike.symm (alike : network.Alike other) : other.Alike network where
  baseSet := alike.baseSet.symm
  identities := alike.identities.symm
  size := alike.size.symm
  sources := alike.sources.symm
  targets := alike.targets.symm
  roots := alike.roots.symm
  fragments := fun index => (alike.fragments index).symm
  outgoing := fun source => (alike.outgoing source).symm
  incoming := fun target => (alike.incoming target).symm
  relationships := alike.relationships.symm

/-- Networks with the same candidates answer alike. -/
theorem Coherent.alike (h : network.Coherent) (h' : other.Coherent)
    (base : network.baseSet = other.baseSet)
    (same : ∀ identity, (network.bucketAt? identity).map Bucket.candidates =
      (other.bucketAt? identity).map Bucket.candidates) : network.Alike other := by
  have members : ∀ identity, identity ∈ network.identities ↔ identity ∈ other.identities := by
    intro identity
    rw [h.mem_identities, h'.mem_identities, ne_eq, ne_eq,
      ← Option.map_eq_none_iff (f := Bucket.candidates), same, Option.map_eq_none_iff]
  have identities : network.identities.Perm other.identities :=
    (List.perm_ext_iff_of_nodup h.nodup_identities h'.nodup_identities).mpr members
  have sources : network.sources = other.sources := h.keys_congr h' h.bySource h'.bySource members
  have targets : network.targets = other.targets := h.keys_congr h' h.byTarget h'.byTarget members
  have effective := fun identity => effectiveAt_congr (same identity)
  have outgoing := h.outgoing_congr h' effective
  have incoming := h.incoming_congr h' effective
  refine ⟨base, identities, ?_, sources, targets, ?_, ?_, outgoing, incoming, ?_⟩
  · rw [← h.length_identities, ← h'.length_identities, identities.length_eq]
  · apply network.ascending_roots.eq_of_mem_iff other.ascending_roots
    intro index
    rw [mem_roots, mem_roots, sources, targets]
  · intro index
    rw [h.mem_fragments, h'.mem_fragments]
    simp only [members]
  · rw [relationships, relationships, sources]
    exact List.flatMap_congr fun source _ => outgoing source

end Network

namespace Traversal

variable {walk other : Traversal}

/-- Walks that go on alike. -/
structure Abreast (walk other : Traversal) : Prop where
  network : walk.network.Alike other.network
  root : walk.root.map Fragment.index = other.root.map Fragment.index
  levels : walk.levels = other.levels

theorem descend_congr {network network' : Network} {fragment fragment' : Fragment}
    (alike : network.Alike network') (same : fragment.index = fragment'.index)
    (levels : List (List Relationship)) :
    descend network fragment levels = descend network' fragment' levels := by
  rw [descend, descend, same, alike.outgoing]

theorem Abreast.next? (h : walk.Abreast other) :
    walk.next? = none ∧ other.next? = none ∨
      ∃ visit visit' rest rest', walk.next? = some (visit, rest) ∧
        other.next? = some (visit', rest') ∧ visit.outline = visit'.outline ∧
          rest.Abreast rest' := by
  obtain ⟨network, root, levels⟩ := walk
  obtain ⟨network', root', levels'⟩ := other
  obtain ⟨alike, sameRoot, sameLevels⟩ := h
  dsimp only at alike sameRoot sameLevels
  subst sameLevels
  cases root with
  | some fragment =>
      obtain ⟨fragment', rfl, same⟩ := Option.map_eq_some_iff.mp sameRoot.symm
      refine .inr ⟨_, _, _, _, rfl, rfl, ?_, alike, rfl, descend_congr alike same.symm levels⟩
      simp [Visit.outline, same]
  | none =>
      have left : root' = none := Option.map_eq_none_iff.mp sameRoot.symm
      subst left
      cases shape : levels.dropWhile List.isEmpty with
      | nil => exact .inl (by simp only [Traversal.next?, shape, and_self])
      | cons level outer =>
          cases level with
          | nil => exact .inl (by simp only [Traversal.next?, shape, and_self])
          | cons r siblings =>
              have next : ∀ network, Traversal.next? ⟨network, none, levels⟩ =
                  some (⟨r.target, some r, outer.length + 1⟩,
                    ⟨network, none, descend network r.target (siblings :: outer)⟩) := by
                intro network
                simp only [Traversal.next?, shape]
              refine .inr ⟨_, _, _, _, next network, next network', rfl, alike, rfl, ?_⟩
              exact descend_congr alike rfl (siblings :: outer)

/-- Walks abreast of each other yield stops of the same outlines. -/
theorem Abreast.yields (h : walk.Abreast other) {visits : List Visit}
    (yields : walk.Yields visits) :
    ∃ visits', other.Yields visits' ∧ visits'.map Visit.outline = visits.map Visit.outline := by
  induction yields generalizing other with
  | done finished =>
      rcases h.next? with ⟨_, finished'⟩ | ⟨visit, visit', rest, rest', next, _⟩
      · exact ⟨[], .done finished', rfl⟩
      · rw [finished] at next
        cases next
  | step first _ ih =>
      rcases h.next? with ⟨finished, _⟩ | ⟨visit, visit', rest, rest', next, next', same, abreast⟩
      · rw [first] at finished
        cases finished
      · rw [first] at next
        cases next
        obtain ⟨visits', yields', outlines⟩ := ih abreast
        refine ⟨visit' :: visits', .step next' yields', ?_⟩
        rw [List.map_cons, List.map_cons, outlines, same]

theorem Yields.eq {visits visits' : List Visit} (h : walk.Yields visits)
    (h' : walk.Yields visits') : visits = visits' := by
  induction h generalizing visits' with
  | done finished =>
      cases h' with
      | done _ => rfl
      | step next _ =>
          rw [finished] at next
          cases next
  | step next _ ih =>
      cases h' with
      | done finished =>
          rw [next] at finished
          cases finished
      | step next' rest =>
          rw [next] at next'
          cases next'
          rw [ih rest]

end Traversal

namespace Network

variable {network other : Network} {log : Log}

theorem Alike.explore (alike : network.Alike other) (count : Nat) (unseen pending : List Index) :
    network.explore count unseen pending = other.explore count unseen pending := by
  induction count generalizing unseen pending with
  | zero => rfl
  | succ count ih => simp only [Network.explore, ih, children, alike.outgoing]

theorem Alike.reachableFrom (alike : network.Alike other) (index : Index) :
    network.reachableFrom index = other.reachableFrom index := by
  simp only [Network.reachableFrom, alike.targets, alike.explore]

theorem Alike.connected (alike : network.Alike other) : network.connected = other.connected := by
  rw [Network.connected, Network.connected, alike.relationships]

theorem Coherent.map_index_fragments (h : network.Coherent) (index : Index) :
    (network.fragments[index]?).map Fragment.index =
      if index ∈ network.fragments then some index else none := by
  split
  · rename_i member
    have found := ExtTreeMap.getElem?_eq_some_getElem member
    rw [found, Option.map_some, (h.kept index _ found).1]
  · rename_i absent
    rw [ExtTreeMap.getElem?_eq_none absent, Option.map_none]

theorem Alike.kept (alike : network.Alike other) (h : network.Coherent) (h' : other.Coherent)
    (index : Index) : (network.fragments[index]?).map Fragment.index =
      (other.fragments[index]?).map Fragment.index := by
  simp only [h.map_index_fragments, h'.map_index_fragments, alike.fragments]

theorem Alike.treeRoot (alike : network.Alike other) (h : network.Coherent) (h' : other.Coherent) :
    network.treeRoot.map Fragment.index = other.treeRoot.map Fragment.index := by
  unfold Network.treeRoot
  simp only [alike.roots, alike.targets, alike.incoming, alike.reachableFrom, alike.connected]
  split
  · rename_i root _
    have same := alike.kept h h' root
    cases other.targets.find? fun index => 1 < (other.incoming index).length with
    | some child => rfl
    | none =>
        cases found : network.fragments[root]? with
        | none =>
            rw [found, Option.map_none] at same
            rw [Option.map_eq_none_iff.mp same.symm]
        | some fragment =>
            rw [found] at same
            obtain ⟨fragment', found', same⟩ := Option.map_eq_some_iff.mp same.symm
            rw [found']
            by_cases counted : (other.reachableFrom root).length = other.connected.length
            · simp only [counted, ne_eq, not_true_eq_false, if_false]
              exact congrArg Except.ok same.symm
            · simp only [counted, ne_eq, not_false_eq_true, if_true]
              rfl
  · rfl

/-- What a walk through a network comes to: the outlines of its stops, or why there is none. -/
inductive Walks (network : Network) :
    Except Failure (List (Index × Nat × Option Index)) → Prop where
  | done {walk : Traversal} {visits : List Visit} : network.tree = .ok walk →
    walk.Yields visits → Walks network (.ok (visits.map Visit.outline))
  | refused {failure : Failure} : network.tree = .error failure → Walks network (.error failure)

variable {outcome outcome' : Except Failure (List (Index × Nat × Option Index))}

theorem Walks.eq (h : network.Walks outcome) (h' : network.Walks outcome') :
    outcome = outcome' := by
  cases h with
  | done found yields =>
      cases h' with
      | done found' yields' =>
          rw [found] at found'
          cases found'
          rw [yields.eq yields']
      | refused failed =>
          rw [found] at failed
          cases failed
  | refused failed =>
      cases h' with
      | done found _ =>
          rw [failed] at found
          cases found
      | refused failed' =>
          rw [failed] at failed'
          cases failed'
          rfl

theorem Follows.exists_walks (h : network.Follows log) : ∃ outcome, network.Walks outcome := by
  cases found : network.tree with
  | error failure => exact ⟨_, .refused found⟩
  | ok walk =>
      obtain ⟨fragment, rfl, accepted⟩ := h.accepted_of_tree found
      obtain ⟨visits, yields, _⟩ := (accepted.rooted h).exists_yields h
      exact ⟨_, .done found yields⟩

theorem tree_of_treeRoot {root : Fragment} (found : network.treeRoot = .ok root) :
    network.tree = .ok ⟨network, some root, []⟩ := by
  rw [tree, found]

theorem tree_of_obstacle {obstacle : Obstacle} (found : network.treeRoot = .error obstacle) :
    network.tree = .error (.notATree network.baseSet obstacle) := by
  rw [tree, found]

/-- Networks that answer alike are walked alike. -/
theorem Alike.walks (alike : network.Alike other) (h : network.Coherent) (h' : other.Coherent)
    (walks : network.Walks outcome) : other.Walks outcome := by
  have same := alike.treeRoot h h'
  cases found : network.treeRoot with
  | error obstacle =>
      cases found' : other.treeRoot with
      | ok root' => simp [found, found', Except.map] at same
      | error obstacle' =>
          rw [found, found'] at same
          cases same
          have refused : other.tree = .error (.notATree network.baseSet obstacle) := by
            rw [tree_of_obstacle found', alike.baseSet]
          exact walks.eq (.refused (tree_of_obstacle found)) ▸ .refused refused
  | ok root =>
      cases found' : other.treeRoot with
      | error obstacle' => simp [found, found', Except.map] at same
      | ok root' =>
          rw [found, found'] at same
          cases walks with
          | refused failed =>
              rw [tree_of_treeRoot found] at failed
              cases failed
          | done started yields =>
              rw [tree_of_treeRoot found] at started
              cases started
              have abreast : Traversal.Abreast ⟨network, some root, []⟩ ⟨other, some root', []⟩ :=
                ⟨alike, congrArg some (Except.ok.inj same), rfl⟩
              obtain ⟨visits', yields', outlines⟩ := abreast.yields yields
              exact outlines ▸ .done (tree_of_treeRoot found') yields'

end Network

end XbrlNetworks
