import XbrlNetworks.Proofs.Representation
import XbrlNetworks.Proofs.Snapshots
import XbrlNetworks.Proofs.Storing

/-! # Both ends of a relationship

A relationship is found from its source and from its target.  The two questions go
through different perspectives and are answered in different orders, but what they
say of a pair of fragments is the same: one fragment is a target of the other just
when that is a source of the first, and both come down to one bucket between them.
-/

namespace XbrlNetworks

open Std

namespace Network

variable {network : Network} {log : Log} {source target : Index}

/-- A relationship leads from one fragment to another: it is the active one of a bucket between
    them, and it does not prohibit. -/
def Connects (network : Network) (source target : Index) : Prop :=
  ∃ bucket ∈ network.buckets.toList, ∃ key r,
    bucket.identity = some ⟨key, source, target⟩ ∧ bucket.active? = some r ∧
      r.isProhibited = false

theorem Follows.connects_iff (h : network.Follows log) :
    network.Connects source target ↔ ∃ r, network.effectiveAt r.identity = some r ∧
      r.source.index = source ∧ r.target.index = target := by
  constructor
  · rintro ⟨bucket, member, key, r, identity, active, asserts⟩
    obtain ⟨own, there⟩ := h.coherent.mem_buckets.mp member
    obtain rfl : own = ⟨key, source, target⟩ :=
      Option.some.inj ((h.coherent.sound_of_bucketAt? there).seeded.symm.trans identity)
    have effective : network.effectiveAt ⟨key, source, target⟩ = some r := by
      simp [effectiveAt, there, Bucket.effective?, active, asserts]
    have same := h.identity_eq effective
    exact ⟨r, same ▸ effective, congrArg Bucket.Identity.source same,
      congrArg Bucket.Identity.target same⟩
  · rintro ⟨r, effective, rfl, rfl⟩
    obtain ⟨bucket, there, effective⟩ := Option.bind_eq_some_iff.mp effective
    obtain ⟨active, asserts⟩ := Option.filter_eq_some_iff.mp effective
    exact ⟨bucket, h.coherent.mem_buckets.mpr ⟨_, there⟩, r.key, r,
      (h.coherent.sound_of_bucketAt? there).seeded, active, by simpa using asserts⟩

theorem Follows.mem_map_outgoing (h : network.Follows log) :
    target ∈ (network.outgoing source).map (·.target.index) ↔ network.Connects source target := by
  simp only [List.mem_map, h.mem_outgoing, h.connects_iff, and_assoc]

theorem Follows.mem_map_incoming (h : network.Follows log) :
    source ∈ (network.incoming target).map (·.source.index) ↔ network.Connects source target := by
  simp only [List.mem_map, h.mem_incoming, h.connects_iff, and_assoc, and_comm]

/-- The relationships between two fragments are the same seen from either of them. -/
theorem Follows.filter_outgoing_perm (h : network.Follows log) (source target : Index) :
    ((network.outgoing source).filter (·.target.index == target)).Perm
      ((network.incoming target).filter (·.source.index == source)) := by
  refine (List.perm_ext_iff_of_nodup ((h.nodup_outgoing source).filter _)
    ((h.nodup_incoming target).filter _)).mpr fun r => ?_
  simp only [List.mem_filter, h.mem_outgoing, h.mem_incoming, beq_iff_eq, and_assoc]
  exact and_congr_right fun _ => and_comm

end Network

namespace Collection

variable {collection : Collection} {network : Network} {arcRole : String}
  {linkRole : Option String} {source target index : Index}

theorem Sound.mem_selected (h : collection.Sound) :
    network ∈ collection.selected arcRole linkRole ↔ network ∈ collection.networks ∧
      network.baseSet.arcRole = arcRole ∧ ∀ role, linkRole = some role →
        network.baseSet.linkRole = role := by
  have wanted : ∀ role, linkRole.all (· == role) = true ↔ ∀ other, linkRole = some other →
      role = other := by
    intro role
    cases linkRole with
    | none => simp
    | some asked => simpa using eq_comm
  simp only [selected, List.mem_map, List.mem_filter, Prod.exists, exists_eq_right, wanted,
    ExtTreeMap.mem_toList_iff_getElem?_eq_some, mem_networks]
  constructor
  · rintro ⟨role, found, fits⟩
    obtain ⟨_, base⟩ := h ⟨arcRole, role⟩ network found
    rw [base]
    exact ⟨⟨⟨arcRole, role⟩, found⟩, rfl, fits⟩
  · rintro ⟨⟨baseSet, found⟩, rfl, fits⟩
    obtain ⟨_, rfl⟩ := h baseSet network found
    exact ⟨_, found, fits⟩

section Fragments

variable {byIndex : ExtTreeMap Index Fragment} {fragments : List Fragment}

theorem index_of_getElem?_foldl_insert {fragment : Fragment}
    (own : ∀ (index : Index) (fragment : Fragment), byIndex[index]? = some fragment →
      fragment.index = index)
    (found : (fragments.foldl (fun byIndex fragment => byIndex.insert fragment.index fragment)
      byIndex)[index]? = some fragment) : fragment.index = index := by
  induction fragments generalizing byIndex with
  | nil => exact own index fragment found
  | cons first rest ih =>
      refine ih (fun index fragment found => ?_) found
      rw [ExtTreeMap.getElem?_insert] at found
      split at found
      · rename_i here
        cases found
        exact LawfulEqOrd.compare_eq_iff_eq.mp here
      · exact own index fragment found

theorem mem_foldl_insert : index ∈ fragments.foldl
      (fun byIndex fragment => byIndex.insert fragment.index fragment) byIndex ↔
    index ∈ byIndex ∨ index ∈ fragments.map Fragment.index := by
  induction fragments generalizing byIndex with
  | nil => simp
  | cons first rest ih =>
      simp only [List.foldl_cons, ih, ExtTreeMap.mem_insert, LawfulEqOrd.compare_eq_iff_eq,
        List.map_cons, List.mem_cons, eq_comm (a := index)]
      tauto

theorem map_index_distinctFragments (fragments : List Fragment) :
    (distinctFragments fragments).map Fragment.index = distinct (fragments.map Fragment.index) := by
  let byIndex : ExtTreeMap Index Fragment :=
    fragments.foldl (fun byIndex fragment => byIndex.insert fragment.index fragment) ∅
  have own : ∀ entry ∈ byIndex.toList, entry.2.index = entry.1 := by
    intro entry member
    refine index_of_getElem?_foldl_insert (fun _ _ found => ?_)
      (ExtTreeMap.mem_toList_iff_getElem?_eq_some.mp member)
    simp at found
  have keys : (distinctFragments fragments).map Fragment.index = byIndex.keys := by
    rw [distinctFragments, List.map_map, ← ExtTreeMap.map_fst_toList_eq_keys]
    exact List.map_congr_left own
  rw [keys]
  refine (ascending_keys _).eq_of_mem_iff (ascending_distinct _) fun index => ?_
  rw [ExtTreeMap.mem_keys, mem_distinct, mem_foldl_insert]
  simp

end Fragments

/-- A relationship leads from one fragment to another in a network of an arc role, and of a link
    role if one is given. -/
def Connects (collection : Collection) (arcRole : String) (linkRole : Option String)
    (source target : Index) : Prop :=
  ∃ network ∈ collection.networks, network.baseSet.arcRole = arcRole ∧
    (∀ role, linkRole = some role → network.baseSet.linkRole = role) ∧
    network.Connects source target

theorem Sound.follows_of_mem_selected (h : collection.Sound)
    (member : network ∈ collection.selected arcRole linkRole) : ∃ log, network.Follows log :=
  (h.of_mem_networks (h.mem_selected.mp member).1).2

theorem Sound.mem_map_index_distinctFragments (h : collection.Sound)
    {answer : Network → List Relationship} {far : Relationship → Fragment}
    (connects : ∀ network log, network.Follows log →
      (index ∈ (answer network).map (fun r => (far r).index) ↔ network.Connects source target)) :
    index ∈ (distinctFragments (((collection.selected arcRole linkRole).flatMap answer).map
      far)).map Fragment.index ↔ collection.Connects arcRole linkRole source target := by
  rw [map_index_distinctFragments, mem_distinct, List.map_map, List.map_flatMap, List.mem_flatMap]
  constructor
  · rintro ⟨network, member, there⟩
    obtain ⟨log, follows⟩ := h.follows_of_mem_selected member
    obtain ⟨isNetwork, ofArcRole, ofLinkRole⟩ := h.mem_selected.mp member
    exact ⟨network, isNetwork, ofArcRole, ofLinkRole, (connects network log follows).mp there⟩
  · rintro ⟨network, isNetwork, ofArcRole, ofLinkRole, there⟩
    have member := h.mem_selected.mpr ⟨isNetwork, ofArcRole, ofLinkRole⟩
    obtain ⟨log, follows⟩ := h.follows_of_mem_selected member
    exact ⟨network, member, (connects network log follows).mpr there⟩

/-- Targets and sources are listed by their indexes, each once.  One fragment is a target of the
    other just when that is a source of it, and that is when a relationship leads from one to the
    other in a network that is asked.  The relationships between them are the same, in whatever
    order, seen from either end. -/
theorem Reachable.targets_dual_sources (h : collection.Reachable) (arcRole : String)
    (linkRole : Option String) (source target : Index) :
    Ascending compare ((collection.targetsOf source arcRole linkRole).map Fragment.index) ∧
    Ascending compare ((collection.sourcesOf target arcRole linkRole).map Fragment.index) ∧
    (target ∈ (collection.targetsOf source arcRole linkRole).map Fragment.index ↔
      collection.Connects arcRole linkRole source target) ∧
    (source ∈ (collection.sourcesOf target arcRole linkRole).map Fragment.index ↔
      collection.Connects arcRole linkRole source target) ∧
    ((collection.outgoing source arcRole linkRole).filter (·.target.index == target)).Perm
      ((collection.incoming target arcRole linkRole).filter (·.source.index == source)) := by
  have sound := h.sound
  refine ⟨?_, ?_, ?_, ?_, ?_⟩
  · rw [targetsOf, map_index_distinctFragments]
    exact ascending_distinct _
  · rw [sourcesOf, map_index_distinctFragments]
    exact ascending_distinct _
  · exact sound.mem_map_index_distinctFragments fun _ _ follows => follows.mem_map_outgoing
  · exact sound.mem_map_index_distinctFragments fun _ _ follows => follows.mem_map_incoming
  · rw [outgoing, incoming, List.filter_flatMap, List.filter_flatMap]
    refine List.Perm.flatMap_left _ fun network member => ?_
    obtain ⟨log, follows⟩ := sound.follows_of_mem_selected member
    exact follows.filter_outgoing_perm source target

/-- Of three arcs between two fragments one prohibits itself, and a second network has a fourth
    arc between them: the ends are listed once, and three relationships are found from either. -/
theorem targets_dual_sources_of_parallels : ∃ collection : Collection, collection.Reachable ∧
    (collection.targetsOf "s" "A" none).map Fragment.index = ["t"] ∧
    (collection.sourcesOf "t" "A" none).map Fragment.index = ["s"] ∧
    collection.Connects "A" none "s" "t" ∧ ¬ collection.Connects "A" none "t" "s" ∧
    ((collection.outgoing "s" "A" none).filter (·.target.index == "t")).length = 3 ∧
    ((collection.outgoing "s" "A" none).filter (·.target.index == "t")).Perm
      ((collection.incoming "t" "A" none).filter (·.source.index == "s")) := by
  let documents := Documents.empty.load (DocumentEntry.sample
    [.plain "x" "A" "k", .plain "y" "A" "j", { Arc.plain "z" "A" "i" with use := .prohibited }])
  let other : Relationship := { Relationship.sample "x" "s" "t" .optional with
    link := ⟨"other", "M"⟩
    hasLinkRole := by simp }
  let filled := (Network.openFor (.sample "x" "s" "t" .optional)).fill
    ⟨documents.catalogue, .never⟩ none 0
  let collection := (Collection.empty.put filled.network).put ((Network.openFor other).opened other)
  have reached : collection.Reachable :=
    .put (.put .empty (.fill _ _ _ (Network.reachable_openFor _)))
      ((Network.reachable_openFor other).opened rfl (by decide +kernel))
  obtain ⟨_, _, listed, _, same⟩ := reached.targets_dual_sources "A" none "s" "t"
  obtain ⟨_, _, listed', _, _⟩ := reached.targets_dual_sources "A" none "t" "s"
  exact ⟨collection, reached, by decide +kernel, by decide +kernel,
    listed.mp (by decide +kernel), fun back => absurd (listed'.mpr back) (by decide +kernel),
    by decide +kernel, same⟩

end Collection

end XbrlNetworks
