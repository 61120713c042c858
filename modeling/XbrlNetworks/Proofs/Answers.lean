import XbrlNetworks.Proofs.Insertion
import XbrlNetworks.Proofs.Sorting

/-! # What a network answers

The effective relationships at a fragment depend on the effective relationship
of each identity only.  Where these come from a log, so do the answers.
-/

namespace XbrlNetworks

open Std

namespace Log

theorem mem_ascendingEdges {edges : List Edge} {edge : Edge} :
    edge ∈ ascendingEdges edges ↔ edge ∈ edges := by
  rw [ascendingEdges, List.mem_mergeSort, List.mem_dedup]

theorem ascending_ascendingEdges (edges : List Edge) :
    Ascending Edge.compare (ascendingEdges edges) := by
  have sorted : (ascendingEdges edges).Pairwise fun first second =>
      (Edge.compare first second).isLE = true :=
    List.pairwise_mergeSort (fun _ _ _ => TransCmp.isLE_trans) (fun _ _ => isLE_total) _
  exact .of_isLE sorted ((List.mergeSort_perm _ _).nodup_iff.mpr edges.nodup_dedup)

end Log

namespace Network

/-- The effective relationship of an identity. -/
def effectiveAt (network : Network) (identity : Bucket.Identity) : Option Relationship :=
  (network.bucketAt? identity).bind Bucket.effective?

variable {network other : Network} {r : Relationship} {identity : Bucket.Identity}

section Perspectives

variable {perspective perspective' : Perspective} {identify : Index → Edge → Bucket.Identity}
  {near : Index} {keys : List Edge}

theorem Coherent.bind_slot? (h : network.Coherent)
    (leads : perspective.LeadsTo identify network.Holds) (near : Index) (edge : Edge) :
    ((perspective.slot? near edge).bind fun slot => (network.bucket slot).effective?) =
      network.effectiveAt (identify near edge) := by
  rw [effectiveAt]
  cases found : perspective.slot? near edge with
  | none =>
      have absent : ∀ slot, ¬ network.Holds slot (identify near edge) := by
        intro slot holds
        simp [(leads.finds near edge slot).mpr holds] at found
      rw [h.bucketAt?_eq_none_iff.mpr absent]
      rfl
  | some slot =>
      rw [h.bucketAt?_eq ((leads.finds near edge slot).mp found)]
      rfl

theorem Coherent.mem_keys (h : network.Coherent)
    (leads : perspective.LeadsTo identify network.Holds) (edge : Edge)
    (found : network.effectiveAt (identify near edge) = some r) :
    edge ∈ (perspective.edges near).keys := by
  rw [← h.bind_slot? leads] at found
  obtain ⟨slot, there, _⟩ := Option.bind_eq_some_iff.mp found
  rw [ExtTreeMap.mem_keys]
  exact (ExtTreeMap.getElem?_eq_some_iff.mp there).1

/-- The effective relationships at a fragment can be collected from any ascending edges that
    leave none of them out. -/
theorem Coherent.effective_slots (h : network.Coherent)
    (leads : perspective.LeadsTo identify network.Holds) (ascending : Ascending Edge.compare keys)
    (covers : ∀ edge r, network.effectiveAt (identify near edge) = some r → edge ∈ keys) :
    network.effective (perspective.slots near) =
      keys.filterMap fun edge => network.effectiveAt (identify near edge) := by
  have own : network.effective (perspective.slots near) =
      (perspective.edges near).keys.filterMap fun edge =>
        network.effectiveAt (identify near edge) := by
    simp only [effective, Perspective.slots, List.filterMap_eq_flatMap_toList, List.flatMap_map]
    rw [flatMap_toList (perspective.edges near) fun entry =>
      (network.bucket entry.2).effective?.toList]
    apply List.flatMap_congr
    intro edge _
    rw [← h.bind_slot? leads, Perspective.slot?]
    cases (perspective.edges near)[edge]? with
    | none => rfl
    | some slot => simp
  rw [own]
  apply Ascending.filterMap_eq (ascending_keys _) ascending
  intro edge r found
  exact iff_of_true (h.mem_keys leads edge found) (covers edge r found)

/-- Networks in which the same is effective answer alike. -/
theorem Coherent.effective_slots_congr (h : network.Coherent) (h' : other.Coherent)
    (leads : perspective.LeadsTo identify network.Holds)
    (leads' : perspective'.LeadsTo identify other.Holds)
    (same : ∀ identity, network.effectiveAt identity = other.effectiveAt identity) :
    network.effective (perspective.slots near) = other.effective (perspective'.slots near) := by
  rw [h.effective_slots leads (ascending_keys (perspective'.edges near)),
    h'.effective_slots leads' (ascending_keys (perspective'.edges near))]
  · simp only [same]
  · exact fun edge r found => h'.mem_keys leads' edge found
  · exact fun edge r found => h'.mem_keys leads' edge (same _ ▸ found)

theorem Coherent.effective_slots_eq_nil (h : network.Coherent)
    (leads : perspective.LeadsTo identify network.Holds)
    (nothing : ∀ identity, network.effectiveAt identity = none) :
    network.effective (perspective.slots near) = [] := by
  rw [h.effective_slots leads List.Pairwise.nil]
  · rfl
  · intro edge r found
    rw [nothing] at found
    cases found

end Perspectives

theorem Coherent.outgoing_congr (h : network.Coherent) (h' : other.Coherent)
    (same : ∀ identity, network.effectiveAt identity = other.effectiveAt identity)
    (source : Index) : network.outgoing source = other.outgoing source :=
  congrArg sortByOrder (h.effective_slots_congr h' h.bySource h'.bySource same)

theorem Coherent.incoming_congr (h : network.Coherent) (h' : other.Coherent)
    (same : ∀ identity, network.effectiveAt identity = other.effectiveAt identity)
    (target : Index) : network.incoming target = other.incoming target :=
  h.effective_slots_congr h' h.byTarget h'.byTarget same

theorem Coherent.outgoing_eq_nil (h : network.Coherent)
    (nothing : ∀ identity, network.effectiveAt identity = none) (source : Index) :
    network.outgoing source = [] := by
  rw [outgoing, h.effective_slots_eq_nil h.bySource nothing]
  rfl

theorem Coherent.incoming_eq_nil (h : network.Coherent)
    (nothing : ∀ identity, network.effectiveAt identity = none) (target : Index) :
    network.incoming target = [] :=
  h.effective_slots_eq_nil h.byTarget nothing

section Log

variable {log : Log} {perspective : Perspective} {identify : Index → Edge → Bucket.Identity}
  {near : Index} {keys : List Edge}

theorem Follows.effectiveAt_eq (h : network.Follows log) (identity : Bucket.Identity) :
    network.effectiveAt identity = log.effective? identity := by
  rw [effectiveAt, h.view, Log.effective?]
  split
  · rename_i nothing
    simp [nothing, Log.winner?]
  · rw [Option.bind_some, Bucket.effective?, Bucket.active?_ofLog]

theorem Follows.effective_slots (h : network.Follows log)
    (leads : perspective.LeadsTo identify network.Holds) (ascending : Ascending Edge.compare keys)
    (covers : ∀ r ∈ log, ∀ edge, r.identity = identify near edge → edge ∈ keys) :
    network.effective (perspective.slots near) =
      keys.filterMap fun edge => log.effective? (identify near edge) := by
  rw [h.coherent.effective_slots leads ascending]
  · simp only [h.effectiveAt_eq]
  · intro edge r found
    rw [h.effectiveAt_eq] at found
    obtain ⟨member, same⟩ := Log.mem_of_effective? found
    exact covers r member edge same

theorem Follows.outgoing_eq (h : network.Follows log) (source : Index) :
    network.outgoing source = (log.leaving source).mergeSort Relationship.le := by
  rw [outgoing, sortByOrder_eq_mergeSort,
    h.effective_slots h.coherent.bySource (Log.ascending_ascendingEdges _)]
  · rfl
  · intro r member edge same
    simp only [Relationship.identity, Edge.leaving, Bucket.Identity.mk.injEq] at same
    rw [Log.mem_ascendingEdges, List.mem_map]
    exact ⟨r, by simpa using ⟨member, same.2.1⟩, by rw [same.1, same.2.2]⟩

theorem Follows.incoming_eq (h : network.Follows log) (target : Index) :
    network.incoming target = log.entering target := by
  rw [incoming, h.effective_slots h.coherent.byTarget (Log.ascending_ascendingEdges _)]
  · rfl
  · intro r member edge same
    simp only [Relationship.identity, Edge.entering, Bucket.Identity.mk.injEq] at same
    rw [Log.mem_ascendingEdges, List.mem_map]
    exact ⟨r, by simpa using ⟨member, same.2.2⟩, by rw [same.1, same.2.1]⟩

theorem Follows.identity_eq (h : network.Follows log)
    (found : network.effectiveAt identity = some r) : r.identity = identity := by
  rw [h.effectiveAt_eq] at found
  exact (Log.mem_of_effective? found).2

theorem Follows.mem_effective_slots (h : network.Follows log)
    (leads : perspective.LeadsTo identify network.Holds) :
    r ∈ network.effective (perspective.slots near) ↔
      network.effectiveAt r.identity = some r ∧ ∃ edge, r.identity = identify near edge := by
  rw [h.coherent.effective_slots leads (ascending_keys (perspective.edges near)),
    List.mem_filterMap]
  · constructor
    · rintro ⟨edge, _, found⟩
      have same := h.identity_eq found
      exact ⟨same ▸ found, edge, same⟩
    · rintro ⟨found, edge, same⟩
      rw [same] at found
      exact ⟨edge, h.coherent.mem_keys leads edge found, found⟩
  · exact fun edge r found => h.coherent.mem_keys leads edge found

theorem Follows.mem_outgoing (h : network.Follows log) {source : Index} :
    r ∈ network.outgoing source ↔
      network.effectiveAt r.identity = some r ∧ r.source.index = source := by
  rw [outgoing, mem_sortByOrder, h.mem_effective_slots h.coherent.bySource]
  refine and_congr_right fun _ => ⟨?_, ?_⟩
  · exact fun ⟨_, same⟩ => congrArg Bucket.Identity.source same
  · exact fun same => ⟨⟨r.key, r.target.index⟩, by rw [← same]; rfl⟩

theorem Follows.mem_incoming (h : network.Follows log) {target : Index} :
    r ∈ network.incoming target ↔
      network.effectiveAt r.identity = some r ∧ r.target.index = target := by
  rw [incoming, h.mem_effective_slots h.coherent.byTarget]
  refine and_congr_right fun _ => ⟨?_, ?_⟩
  · exact fun ⟨_, same⟩ => congrArg Bucket.Identity.target same
  · exact fun same => ⟨⟨r.key, r.source.index⟩, by rw [← same]; rfl⟩

theorem Follows.mem_relationships (h : network.Follows log) :
    r ∈ network.relationships ↔ network.effectiveAt r.identity = some r := by
  rw [relationships, List.mem_flatMap]
  constructor
  · rintro ⟨source, _, member⟩
    exact (h.mem_outgoing.mp member).1
  · intro found
    refine ⟨r.source.index, ?_, h.mem_outgoing.mpr ⟨found, rfl⟩⟩
    have key := h.coherent.mem_keys h.coherent.bySource ⟨r.key, r.target.index⟩ found
    rw [sources, ExtTreeMap.mem_keys]
    exact Perspective.mem_of_edge (ExtTreeMap.mem_keys.mp key)

theorem Follows.mem_ends (h : network.Follows log) (member : r ∈ network.relationships) :
    r ∈ network.outgoing r.source.index ∧ r ∈ network.incoming r.target.index := by
  have found := h.mem_relationships.mp member
  exact ⟨h.mem_outgoing.mpr ⟨found, rfl⟩, h.mem_incoming.mpr ⟨found, rfl⟩⟩

theorem Follows.mem_relationships_of_outgoing (h : network.Follows log) {source : Index}
    (member : r ∈ network.outgoing source) :
    r ∈ network.relationships ∧ r.source.index = source := by
  obtain ⟨found, same⟩ := h.mem_outgoing.mp member
  exact ⟨h.mem_relationships.mpr found, same⟩

theorem Follows.mem_targets (h : network.Follows log) (member : r ∈ network.relationships) :
    r.target.index ∈ network.targets := by
  have key := h.coherent.mem_keys h.coherent.byTarget ⟨r.key, r.source.index⟩
    (h.mem_relationships.mp member)
  rw [targets, ExtTreeMap.mem_keys]
  exact Perspective.mem_of_edge (ExtTreeMap.mem_keys.mp key)

theorem Follows.nodup_effective_slots (h : network.Follows log)
    (leads : perspective.LeadsTo identify network.Holds)
    (injective : ∀ {edge edge' : Edge}, identify near edge = identify near edge' → edge = edge') :
    (network.effective (perspective.slots near)).Nodup := by
  rw [h.coherent.effective_slots leads (ascending_keys _)
    fun edge _ found => h.coherent.mem_keys leads edge found]
  refine List.Nodup.filterMap ?_ ExtTreeMap.nodup_keys
  intro edge edge' r found found'
  exact injective ((h.identity_eq found).symm.trans (h.identity_eq found'))

theorem Follows.nodup_outgoing (h : network.Follows log) (source : Index) :
    (network.outgoing source).Nodup := by
  rw [outgoing, (sortByOrder_perm _).nodup_iff]
  exact h.nodup_effective_slots h.coherent.bySource fun same => (Edge.leaving_injective same).2

theorem Follows.nodup_incoming (h : network.Follows log) (target : Index) :
    (network.incoming target).Nodup :=
  h.nodup_effective_slots h.coherent.byTarget fun same => (Edge.entering_injective same).2

theorem Follows.nodup_relationships (h : network.Follows log) : network.relationships.Nodup := by
  rw [relationships, List.nodup_flatMap]
  refine ⟨fun source _ => h.nodup_outgoing source, ?_⟩
  refine List.Pairwise.imp ?_ (ExtTreeMap.nodup_keys (t := network.bySource))
  intro source source' different r member member'
  obtain ⟨_, same⟩ := h.mem_outgoing.mp member
  obtain ⟨_, same'⟩ := h.mem_outgoing.mp member'
  exact different (same.symm.trans same')

theorem Follows.length_relationships_le (h : network.Follows log) :
    network.relationships.length ≤ network.size := by
  rw [h.size, ← List.length_map (f := Relationship.identity)]
  refine List.Subperm.length_le (List.subperm_of_subset ?_ ?_)
  · refine List.Nodup.map_on ?_ h.nodup_relationships
    intro r member r' member' same
    have found := h.mem_relationships.mp member
    rw [same, h.mem_relationships.mp member'] at found
    exact (Option.some.inj found).symm
  · intro identity member
    obtain ⟨r, effective, rfl⟩ := List.mem_map.mp member
    have found := h.mem_relationships.mp effective
    rw [h.effectiveAt_eq] at found
    exact List.mem_dedup.mpr (List.mem_map_of_mem (Log.mem_of_effective? found).1)

end Log

end Network

end XbrlNetworks
