import Mathlib.Data.List.Nodup
import XbrlNetworks.Proofs.Insertion

/-! # The identities of a network

Slot by slot a network has a bucket of another identity.  The list of these
identities is the order in which the buckets were opened, and it decides which
fragments the perspectives list and which are kept.
-/

namespace XbrlNetworks

open Std

namespace Network

def identities (network : Network) : List Bucket.Identity :=
  network.buckets.toList.filterMap Bucket.identity

variable {network other : Network} {log : Log} {identity : Bucket.Identity} {slot : Nat}
  {index : Index}

theorem Coherent.map_some_identities (h : network.Coherent) :
    network.identities.map some = network.buckets.toList.map Bucket.identity := by
  rw [identities, List.map_filterMap, ← List.filterMap_eq_map]
  apply List.filterMap_congr
  intro bucket member
  obtain ⟨slot, found⟩ := Array.mem_iff_getElem?.mp (Array.mem_toList_iff.mp member)
  obtain ⟨identity, sound⟩ := h.sound slot bucket found
  simp [sound.seeded]

theorem Coherent.getElem?_identities (h : network.Coherent) :
    network.identities[slot]? = some identity ↔ network.Holds slot identity := by
  have same := congrArg (fun identities => identities[slot]?) h.map_some_identities
  simp only [List.getElem?_map, Array.getElem?_toList] at same
  rw [Holds, ← Option.map_eq_some_iff, ← same, Option.map_eq_some_iff]
  simp

theorem Coherent.length_identities (h : network.Coherent) :
    network.identities.length = network.size := by
  have same := congrArg List.length h.map_some_identities
  simpa [Network.size] using same

theorem Coherent.mem_identities (h : network.Coherent) :
    identity ∈ network.identities ↔ network.bucketAt? identity ≠ none := by
  rw [List.mem_iff_getElem?, ne_eq, h.bucketAt?_eq_none_iff, not_forall_not]
  simp only [h.getElem?_identities]

theorem Coherent.nodup_identities (h : network.Coherent) : network.identities.Nodup := by
  rw [List.nodup_iff_getElem?_ne_getElem?]
  intro slot slot' less inside same
  have there := List.getElem?_eq_getElem inside
  have here := h.slot?_eq (h.getElem?_identities.mp (same.trans there))
  rw [h.slot?_eq (h.getElem?_identities.mp there), Option.some.injEq] at here
  omega

theorem Coherent.map_bucketAt? (h : network.Coherent) :
    network.identities.map network.bucketAt? = network.buckets.toList.map some := by
  apply List.ext_getElem?
  intro slot
  simp only [List.getElem?_map, Array.getElem?_toList]
  cases found : network.buckets[slot]? with
  | none =>
      have past : network.identities[slot]? = none := by
        rw [Option.eq_none_iff_forall_ne_some]
        intro identity there
        obtain ⟨bucket, found', _⟩ := h.getElem?_identities.mp there
        rw [found] at found'
        cases found'
      rw [past]
      rfl
  | some bucket =>
      obtain ⟨identity, sound⟩ := h.sound slot bucket found
      have holds : network.Holds slot identity := ⟨bucket, found, sound.seeded⟩
      rw [h.getElem?_identities.mpr holds, Option.map_some, h.bucketAt?_eq holds, bucket_eq found]
      rfl

theorem Follows.mem_identities (h : network.Follows log) :
    identity ∈ network.identities ↔ ∃ r ∈ log, r.identity = identity := by
  rw [h.coherent.mem_identities, ne_eq, h.bucketAt?_eq_none_iff]
  push Not
  rfl

theorem Coherent.mem_perspective (h : network.Coherent) {perspective : Perspective}
    {identify : Index → Edge → Bucket.Identity}
    (leads : perspective.LeadsTo identify network.Holds) :
    index ∈ perspective ↔ ∃ edge, identify index edge ∈ network.identities := by
  simp only [List.mem_iff_getElem?, h.getElem?_identities, ← leads.finds]
  constructor
  · exact leads.used index
  · exact fun ⟨edge, slot, found⟩ => Perspective.mem_of_slot? found

theorem Coherent.keys_congr (h : network.Coherent) (h' : other.Coherent)
    {perspective perspective' : Perspective} {identify : Index → Edge → Bucket.Identity}
    (leads : perspective.LeadsTo identify network.Holds)
    (leads' : perspective'.LeadsTo identify other.Holds)
    (same : ∀ identity, identity ∈ network.identities ↔ identity ∈ other.identities) :
    perspective.keys = perspective'.keys := by
  apply (ascending_keys _).eq_of_mem_iff (ascending_keys _)
  intro index
  rw [ExtTreeMap.mem_keys, ExtTreeMap.mem_keys, h.mem_perspective leads, h'.mem_perspective leads']
  exact exists_congr fun edge => same _

theorem Coherent.mem_fragments (h : network.Coherent) : index ∈ network.fragments ↔
    ∃ identity ∈ network.identities, identity.source = index ∨ identity.target = index := by
  rw [h.cached, exists_comm]
  simp only [List.mem_iff_getElem?, h.getElem?_identities, exists_and_right]

theorem Coherent.mem_fragments_of_sources (h : network.Coherent)
    (listed : index ∈ network.sources) : index ∈ network.fragments := by
  obtain ⟨edge, member⟩ := (h.mem_perspective h.bySource).mp (ExtTreeMap.mem_keys.mp listed)
  exact h.mem_fragments.mpr ⟨_, member, .inl rfl⟩

end Network

end XbrlNetworks
