import XbrlNetworks.Proofs.Roots
import XbrlNetworks.Proofs.Settling

/-! # Roots, leaves and single parents

Which fragments a network lists as its roots, sources and targets is read off the
perspectives, and prohibited buckets count.  Whether a fragment is a root, is a leaf
or has a single parent is asked of the effective relationships.  A listed root always
passes the question, and where no bucket is prohibited both say the same of every
fragment, on cycles and with parallel relationships too.
-/

namespace XbrlNetworks

open Std

theorem Perspective.slots_eq_nil {perspective : Perspective} {near : Index}
    (absent : near ∉ perspective) : perspective.slots near = [] := by
  simp [slots, edges, ExtTreeMap.getElem?_eq_none absent]

namespace Network

/-- No bucket of the network has an active relationship that prohibits. -/
def Unprohibited (network : Network) : Prop :=
  ∀ bucket ∈ network.buckets.toList, bucket.isProhibited = false

instance (network : Network) : Decidable network.Unprohibited :=
  inferInstanceAs (Decidable (∀ bucket ∈ network.buckets.toList, bucket.isProhibited = false))

variable {network : Network} {log : Log} {identity : Bucket.Identity} {index near : Index}
  {edge : Edge} {perspective : Perspective} {identify : Index → Edge → Bucket.Identity}

theorem isRoot_of_mem_roots (listed : index ∈ network.roots) : network.isRoot index = true := by
  have absent : index ∉ network.byTarget := fun entered =>
    (mem_roots.mp listed).2 (ExtTreeMap.mem_keys.mpr entered)
  rw [isRoot, incoming, Perspective.slots_eq_nil absent]
  rfl

theorem Coherent.mem_edges (h : network.Coherent)
    (leads : perspective.LeadsTo identify network.Holds) :
    edge ∈ (perspective.edges near).keys ↔ identify near edge ∈ network.identities := by
  rw [ExtTreeMap.mem_keys, ExtTreeMap.mem_iff_isSome_getElem?, Option.isSome_iff_exists,
    List.mem_iff_getElem?]
  simp only [h.getElem?_identities, ← leads.finds, Perspective.slot?]

theorem Follows.exists_effectiveAt (h : network.Follows log) (clear : network.Unprohibited)
    (listed : identity ∈ network.identities) : ∃ r, network.effectiveAt identity = some r := by
  obtain ⟨bucket, there⟩ := Option.ne_none_iff_exists'.mp (h.coherent.mem_identities.mp listed)
  have member := h.coherent.mem_buckets.mpr ⟨identity, there⟩
  obtain ⟨r, active, _⟩ := h.exists_active member
  have asserts := clear bucket member
  rw [Bucket.isProhibited, active, Option.any_some] at asserts
  exact ⟨r, by simp [effectiveAt, there, Bucket.effective?, active, asserts]⟩

/-- Where nothing is prohibited there is one effective relationship for each edge. -/
theorem Follows.map_identity_effective (h : network.Follows log) (clear : network.Unprohibited)
    (leads : perspective.LeadsTo identify network.Holds) (near : Index) :
    (network.effective (perspective.slots near)).map Relationship.identity =
      (perspective.edges near).keys.map (identify near) := by
  rw [h.coherent.effective_slots leads (ascending_keys (perspective.edges near))
    fun _ _ found => h.coherent.mem_keys leads _ found, List.map_filterMap, ← List.filterMap_eq_map]
  apply List.filterMap_congr
  intro edge member
  obtain ⟨r, found⟩ := h.exists_effectiveAt clear ((h.coherent.mem_edges leads).mp member)
  rw [found, Option.map_some, h.identity_eq found]
  rfl

theorem Follows.effective_eq_nil_iff (h : network.Follows log) (clear : network.Unprohibited)
    (leads : perspective.LeadsTo identify network.Holds) :
    network.effective (perspective.slots near) = [] ↔ near ∉ perspective := by
  constructor
  · intro nothing listed
    obtain ⟨edge, slot, found⟩ := leads.used near listed
    have member := ExtTreeMap.mem_keys.mpr (ExtTreeMap.getElem?_eq_some_iff.mp found).1
    have same := h.map_identity_effective clear leads near
    rw [nothing, List.map_nil, eq_comm, List.map_eq_nil_iff] at same
    rw [same] at member
    cases member
  · intro absent
    rw [Perspective.slots_eq_nil absent]
    rfl

theorem Follows.isRoot_iff (h : network.Follows log) (clear : network.Unprohibited) :
    network.isRoot index = true ↔ index ∉ network.targets := by
  rw [isRoot, List.isEmpty_iff, incoming, h.effective_eq_nil_iff clear h.coherent.byTarget,
    targets, ExtTreeMap.mem_keys]

theorem Follows.isLeaf_iff (h : network.Follows log) (clear : network.Unprohibited) :
    network.isLeaf index = true ↔ index ∉ network.sources := by
  have unsorted : network.outgoing index = [] ↔
      network.effective (network.bySource.slots index) = [] := by
    simp only [outgoing, List.eq_nil_iff_forall_not_mem, mem_sortByOrder]
  rw [isLeaf, List.isEmpty_iff, unsorted, h.effective_eq_nil_iff clear h.coherent.bySource,
    sources, ExtTreeMap.mem_keys]

theorem Follows.length_incoming (h : network.Follows log) (clear : network.Unprohibited) :
    (network.incoming index).length = (network.byTarget.edges index).keys.length := by
  have same := congrArg List.length (h.map_identity_effective clear h.coherent.byTarget index)
  rwa [List.length_map, List.length_map] at same

theorem Follows.hasSingleParent_iff (h : network.Follows log) (clear : network.Unprohibited) :
    network.hasSingleParent index = true ↔
      ∃! edge : Edge, edge.entering index ∈ network.identities := by
  have nodup : (network.byTarget.edges index).keys.Nodup := ExtTreeMap.nodup_keys
  rw [hasSingleParent, beq_iff_eq, h.length_incoming clear, ← List.toFinset_card_of_nodup nodup,
    Finset.card_eq_one_iff_existsUnique]
  simp only [List.mem_toFinset, h.coherent.mem_edges h.coherent.byTarget]

theorem Follows.roots_eq (h : network.Follows log) (clear : network.Unprohibited) :
    network.roots = network.fragments.keys.filter fun index =>
      network.isRoot index && !network.isLeaf index := by
  refine network.ascending_roots.eq_of_mem_iff ((ascending_keys _).filter _) fun index => ?_
  rw [mem_roots, List.mem_filter, ExtTreeMap.mem_keys, Bool.and_eq_true, h.isRoot_iff clear,
    Bool.not_eq_true', ← Bool.not_eq_true, h.isLeaf_iff clear, not_not]
  constructor
  · exact fun ⟨source, apart⟩ => ⟨h.coherent.mem_fragments_of_sources source, apart, source⟩
  · exact fun ⟨_, apart, source⟩ => ⟨source, apart⟩

/-- Nothing effective leads into a listed root.  Where no bucket is prohibited, nothing effective
    leads into a fragment just when it is no target, and out of it just when it is no source; the
    roots are the kept fragments of which the first holds and the second does not; and one
    effective relationship leads into a fragment just when one key and source do. -/
theorem Reachable.roots_and_leaves (h : network.Reachable) :
    (∀ index ∈ network.roots, network.isRoot index = true) ∧
    (network.Unprohibited →
      (network.roots = network.fragments.keys.filter fun index =>
        network.isRoot index && !network.isLeaf index) ∧
      ∀ index,
        (network.isRoot index = true ↔ index ∉ network.targets) ∧
        (network.isLeaf index = true ↔ index ∉ network.sources) ∧
        (network.hasSingleParent index = true ↔
          ∃! edge : Edge, edge.entering index ∈ network.identities)) := by
  obtain ⟨log, follows⟩ := h.follows
  refine ⟨fun index listed => isRoot_of_mem_roots listed, fun clear => ⟨?_, fun index => ?_⟩⟩
  · exact follows.roots_eq clear
  · exact ⟨follows.isRoot_iff clear, follows.isLeaf_iff clear, follows.hasSingleParent_iff clear⟩

/-- Two parallel relationships lead from the root into one fragment, one into another, and a third
    fragment has a loop; only the second has a single parent. -/
theorem roots_and_leaves_of_parallels : ∃ network, Network.Reachable network ∧
    network.Unprohibited ∧ network.isRoot "r" = true ∧
    (network.fragments.keys.filter fun index =>
      network.isRoot index && !network.isLeaf index) = ["r"] ∧
    "r" ∉ network.targets ∧ "c" ∉ network.sources ∧ network.isLeaf "b" = false ∧
    (∃! edge : Edge, edge.entering "c" ∈ network.identities) ∧
      ¬ ∃! edge : Edge, edge.entering "a" ∈ network.identities := by
  let first := Relationship.sample "v" "r" "a" .optional
  let parallel : Relationship := { Relationship.sample "w" "r" "a" .optional with
    arc := Arc.plain "w" "A" "k"
    hasArcRole := by simp [Arc.plain] }
  let single := Relationship.sample "x" "r" "c" .optional
  let down := Relationship.sample "y" "a" "b" .optional
  let loop := Relationship.sample "z" "b" "b" .optional
  let pair := ((openFor first).opened first).opened parallel
  let fan := pair.opened single
  let chain := fan.opened down
  let network := chain.opened loop
  have paired : pair.Reachable :=
    ((reachable_openFor first).opened rfl (by decide +kernel)).opened rfl (by decide +kernel)
  have fanned : fan.Reachable := paired.opened rfl (by decide +kernel)
  have chained : chain.Reachable := fanned.opened rfl (by decide +kernel)
  have reached : network.Reachable := chained.opened rfl (by decide +kernel)
  have clear : network.Unprohibited := by decide +kernel
  have roots : network.roots = ["r"] := by decide +kernel
  obtain ⟨listed, agree⟩ := Reachable.roots_and_leaves reached
  obtain ⟨same, each⟩ := agree clear
  have isRoot := listed "r" (roots ▸ List.mem_singleton_self "r")
  exact ⟨network, reached, clear, isRoot, same ▸ roots, (each "r").1.mp isRoot,
    (each "c").2.1.mp (by decide +kernel), by decide +kernel,
    (each "c").2.2.mp (by decide +kernel),
    fun only => absurd ((each "a").2.2.mpr only) (by decide +kernel)⟩

end Network

end XbrlNetworks
