import XbrlNetworks.Collection.Completion
import XbrlNetworks.Proofs.Answers
import XbrlNetworks.Proofs.Reachable

/-! # Collections of reachable networks

Whatever is done to a collection, the network that it keeps under a base set
is a reachable one of that base set.  Two collections in which the same is
effective answer alike, even if one of them has more networks.
-/

namespace XbrlNetworks

open Std

instance : TransCmp BaseSet.compare :=
  inferInstanceAs (TransCmp (compareLex (compareOn BaseSet.arcRole) (compareOn BaseSet.linkRole)))

namespace Collection

variable {collection other next : Collection} {network : Network} {baseSet : BaseSet}
  {r : Relationship} {isNew : Bool}

theorem network?_empty (baseSet : BaseSet) : empty.network? baseSet = none := by
  simp [network?, ofArcRole, empty]

theorem network?_put (collection : Collection) (network : Network) (baseSet : BaseSet) :
    (collection.put network).network? baseSet =
      if network.baseSet = baseSet then some network else collection.network? baseSet := by
  obtain ⟨arcRole, linkRole⟩ := baseSet
  simp only [network?, ofArcRole, put, ExtTreeMap.getElem?_insert,
    LawfulEqOrd.compare_eq_iff_eq]
  by_cases sameArc : network.baseSet.arcRole = arcRole
  · subst sameArc
    by_cases sameLink : network.baseSet.linkRole = linkRole
    · subst sameLink
      simp
    · have different : network.baseSet ≠ ⟨network.baseSet.arcRole, linkRole⟩ :=
        fun same => sameLink (congrArg BaseSet.linkRole same)
      simp [ExtTreeMap.getElem?_insert, sameLink, different]
  · have different : network.baseSet ≠ ⟨arcRole, linkRole⟩ :=
      fun same => sameArc (congrArg BaseSet.arcRole same)
    simp [sameArc, different]

theorem network?_takeOut (collection : Collection) (taken baseSet : BaseSet) :
    (collection.takeOut taken).network? baseSet =
      if taken = baseSet then none else collection.network? baseSet := by
  obtain ⟨arcRole, linkRole⟩ := baseSet
  simp only [network?, ofArcRole, takeOut, ExtTreeMap.getElem?_modify,
    LawfulEqOrd.compare_eq_iff_eq]
  by_cases sameArc : taken.arcRole = arcRole
  · subst sameArc
    by_cases sameLink : taken.linkRole = linkRole
    · subst sameLink
      cases collection.byArcRole[taken.arcRole]? <;> simp
    · have different : taken ≠ ⟨taken.arcRole, linkRole⟩ :=
        fun same => sameLink (congrArg BaseSet.linkRole same)
      cases collection.byArcRole[taken.arcRole]? <;>
        simp [ExtTreeMap.getElem?_erase, sameLink, different]
  · have different : taken ≠ ⟨arcRole, linkRole⟩ :=
      fun same => sameArc (congrArg BaseSet.arcRole same)
    simp [sameArc, different]

theorem mem_networks : network ∈ collection.networks ↔
    ∃ baseSet, collection.network? baseSet = some network := by
  simp only [networks, List.mem_flatMap, Prod.exists, ExtTreeMap.mem_toList_iff_getElem?_eq_some,
    mem_map_snd_toList, network?, ofArcRole]
  constructor
  · rintro ⟨arcRole, networks, found, linkRole, there⟩
    exact ⟨⟨arcRole, linkRole⟩, by simpa [found] using there⟩
  · rintro ⟨⟨arcRole, linkRole⟩, found⟩
    cases listed : collection.byArcRole[arcRole]? with
    | none => simp [listed] at found
    | some networks => exact ⟨arcRole, networks, listed, linkRole, by simpa [listed] using found⟩

theorem network?_of_mem_toList {arcRole linkRole : String} {networks : NetworksByLinkRole}
    (member : (arcRole, networks) ∈ collection.byArcRole.toList)
    (inside : (linkRole, network) ∈ networks.toList) :
    collection.network? ⟨arcRole, linkRole⟩ = some network := by
  rw [ExtTreeMap.mem_toList_iff_getElem?_eq_some] at member inside
  simpa [network?, ofArcRole, member] using inside

/-- Collections that can come about.  As with networks, a refused insertion leaves the collection
    as it is. -/
inductive Reachable : Collection → Prop where
  | empty : Reachable empty
  | insert {collection next : Collection} {r : Relationship} {isNew : Bool} :
    Reachable collection → collection.insert r = .ok (next, isNew) → Reachable next
  | put {collection : Collection} {network : Network} :
    Reachable collection → network.Reachable → Reachable (collection.put network)
  | fill {collection : Collection} (connection : Connection) (limit : TimeLimit)
    (baseSet : BaseSet) (calls : Nat) : Reachable collection →
      Reachable (collection.fill connection limit baseSet calls).collection
  | fillArcRole {collection : Collection} (connection : Connection) (limit : TimeLimit)
    (arcRole : String) (calls : Nat) : Reachable collection →
      Reachable (collection.fillArcRole connection limit arcRole calls).collection

/-- Every network is a reachable one of the base set that it is kept under. -/
def Sound (collection : Collection) : Prop :=
  ∀ baseSet network, collection.network? baseSet = some network →
    network.Reachable ∧ network.baseSet = baseSet

theorem Sound.of_mem_networks (h : collection.Sound) (member : network ∈ collection.networks) :
    collection.network? network.baseSet = some network ∧ ∃ log, network.Follows log := by
  obtain ⟨baseSet, found⟩ := mem_networks.mp member
  obtain ⟨reached, rfl⟩ := h baseSet network found
  exact ⟨found, reached.follows⟩

theorem Sound.ascending_networks (h : collection.Sound) :
    Ascending BaseSet.compare (collection.networks.map Network.baseSet) := by
  have own : ∀ entry ∈ collection.byArcRole.toList, ∀ inner ∈ entry.2.toList,
      inner.2.baseSet = ⟨entry.1, inner.1⟩ := by
    rintro ⟨arcRole, networks⟩ member ⟨linkRole, network⟩ inside
    exact (h _ network (network?_of_mem_toList member inside)).2
  have byArcRole : Ascending (compareOn Prod.fst) collection.byArcRole.toList :=
    ExtTreeMap.ordered_keys_toList
  rw [networks, List.map_flatMap]
  simp only [List.map_map]
  refine byArcRole.flatMap (fun entry member => ?_) fun entry member baseSet inside => ?_
  · refine List.pairwise_map.mpr (List.Pairwise.imp_of_mem ?_ ExtTreeMap.ordered_keys_toList)
    intro inner inner' inside inside' less
    simpa only [Function.comp_apply, compareOn, own entry member inner inside,
      own entry member inner' inside'] using less
  · obtain ⟨inner, isInner, rfl⟩ := List.mem_map.mp inside
    exact congrArg BaseSet.arcRole (own entry member inner isInner)

theorem sound_empty : empty.Sound := by
  intro baseSet network found
  rw [network?_empty] at found
  cases found

theorem Sound.put (h : collection.Sound) (reached : network.Reachable) :
    (collection.put network).Sound := by
  intro baseSet other found
  rw [network?_put] at found
  split at found
  · rename_i same
    cases found
    exact ⟨reached, same⟩
  · exact h baseSet other found

theorem Sound.takeOut (h : collection.Sound) (taken : BaseSet) :
    (collection.takeOut taken).Sound := by
  intro baseSet network found
  rw [network?_takeOut] at found
  split at found
  · cases found
  · exact h baseSet network found

theorem Sound.reachable_getD (h : collection.Sound) (r : Relationship) :
    ((collection.network? r.baseSet).getD (.openFor r)).Reachable := by
  cases found : collection.network? r.baseSet with
  | none => exact Network.reachable_openFor r
  | some network => exact (h r.baseSet network found).1

theorem insert_eq_ok (h : collection.insert r = .ok (next, isNew)) :
    ∃ network, ((collection.network? r.baseSet).getD (.openFor r)).insert r = .ok (network, isNew) ∧
      next = collection.put network := by
  obtain ⟨answer, inserted, same⟩ := exists_of_map_eq_ok h
  cases same
  exact ⟨answer.1, inserted, rfl⟩

theorem Sound.insert (h : collection.Sound) (inserted : collection.insert r = .ok (next, isNew)) :
    next.Sound := by
  obtain ⟨network, accepted, rfl⟩ := insert_eq_ok inserted
  exact h.put ((h.reachable_getD r).insert accepted)

theorem networkOrNew_eq_ok (opened : collection.networkOrNew baseSet = .ok network) :
    collection.network? baseSet = some network ∨
      collection.network? baseSet = none ∧ Network.new baseSet = .ok network := by
  unfold networkOrNew at opened
  split at opened
  · rename_i there
    cases opened
    exact .inl there
  · rename_i absent
    exact .inr ⟨absent, opened⟩

theorem Sound.of_networkOrNew (h : collection.Sound)
    (opened : collection.networkOrNew baseSet = .ok network) :
    network.Reachable ∧ network.baseSet = baseSet := by
  rcases networkOrNew_eq_ok opened with there | ⟨_, new⟩
  · exact h baseSet network there
  · exact ⟨.new new, (Network.follows_new new).2⟩

theorem Sound.fill (h : collection.Sound) (connection : Connection) (limit : TimeLimit)
    (baseSet : BaseSet) (calls : Nat) :
    (collection.fill connection limit baseSet calls).collection.Sound := by
  unfold Collection.fill
  cases found : collection.networkOrNew baseSet with
  | error flaw => exact h
  | ok network =>
      have reached := (h.of_networkOrNew found).1
      change ((collection.takeOut baseSet).putUnlessEmpty _).Sound
      unfold putUnlessEmpty
      split
      · exact h.takeOut baseSet
      · exact (h.takeOut baseSet).put (reached.fill connection limit calls)

section Filling

variable {connection : Connection} {limit : TimeLimit} {calls : Nat} {flaw : Flaw}
  {asked : BaseSet}

theorem fill_of_flaw (opened : collection.networkOrNew baseSet = .error flaw) :
    collection.fill connection limit baseSet calls =
      ⟨.error (.validation flaw), collection, calls⟩ := by
  simp only [Collection.fill, opened]

theorem result_fill (opened : collection.networkOrNew baseSet = .ok network) :
    (collection.fill connection limit baseSet calls).result =
      (network.fill connection limit calls).result := by
  simp only [Collection.fill, opened]

/-- A network is looked up after it has been filled, unless it has no relationships even then; and
    every other network as before. -/
theorem Sound.network?_fill (h : collection.Sound)
    (opened : collection.networkOrNew baseSet = .ok network) (asked : BaseSet) :
    (collection.fill connection limit baseSet calls).collection.network? asked =
      if baseSet = asked then
        (some (network.fill connection limit calls).network).filter fun network => !network.isEmpty
      else
        collection.network? asked := by
  obtain ⟨reached, rfl⟩ := h.of_networkOrNew opened
  obtain ⟨log, follows⟩ := reached.follows
  obtain ⟨_, own⟩ := follows.grows (network.fill_grows connection limit calls)
  simp only [Collection.fill, opened, putUnlessEmpty]
  cases vacant : (network.fill connection limit calls).network.isEmpty with
  | true =>
      rw [if_pos rfl, network?_takeOut, Option.filter_some, vacant]
      rfl
  | false =>
      rw [if_neg Bool.false_ne_true, network?_put, own, network?_takeOut, Option.filter_some, vacant]
      split
      · rfl
      · rfl

theorem Sound.network?_fill_of_ne (h : collection.Sound) (apart : baseSet ≠ asked) :
    (collection.fill connection limit baseSet calls).collection.network? asked =
      collection.network? asked := by
  cases opened : collection.networkOrNew baseSet with
  | error flaw => rw [fill_of_flaw opened]
  | ok network => rw [h.network?_fill opened, if_neg apart]

end Filling

theorem Sound.fillLinkRoles (connection : Connection) (limit : TimeLimit) (arcRole : String)
    (linkRoles : List String) {added calls : Nat} (h : collection.Sound) :
    (Collection.fillLinkRoles connection limit arcRole linkRoles collection added
      calls).collection.Sound := by
  induction linkRoles generalizing collection added calls with
  | nil => exact h
  | cons linkRole linkRoles ih =>
      have filled := h.fill connection limit ⟨arcRole, linkRole⟩ calls
      simp only [Collection.fillLinkRoles]
      split
      · exact filled
      · exact ih filled

theorem Sound.fillArcRole (h : collection.Sound) (connection : Connection) (limit : TimeLimit)
    (arcRole : String) (calls : Nat) :
    (collection.fillArcRole connection limit arcRole calls).collection.Sound := by
  unfold Collection.fillArcRole
  split
  · exact h
  · exact h.fillLinkRoles connection limit arcRole _

theorem Reachable.sound (h : collection.Reachable) : collection.Sound := by
  induction h with
  | empty => exact sound_empty
  | insert _ inserted ih => exact ih.insert inserted
  | put _ reached ih => exact ih.put reached
  | fill connection limit baseSet calls _ ih => exact ih.fill connection limit baseSet calls
  | fillArcRole connection limit arcRole calls _ ih =>
      exact ih.fillArcRole connection limit arcRole calls

def effectiveAt (collection : Collection) (baseSet : BaseSet) (identity : Bucket.Identity) :
    Option Relationship :=
  (collection.network? baseSet).bind fun network => network.effectiveAt identity

theorem flatMap_selected (collection : Collection) (arcRole : String) (linkRole : Option String)
    (answer : Network → List Relationship) :
    (collection.selected arcRole linkRole).flatMap answer =
      (collection.ofArcRole arcRole).keys.flatMap fun role =>
        if linkRole.all (· == role) then
          (collection.network? ⟨arcRole, role⟩).toList.flatMap answer
        else [] := by
  have split : ∀ entries : List (String × Network),
      ((entries.filter fun entry => linkRole.all (· == entry.1)).map (·.2)).flatMap answer =
        entries.flatMap fun entry =>
          if linkRole.all (· == entry.1) then answer entry.2 else [] := by
    intro entries
    induction entries with
    | nil => rfl
    | cons entry entries ih =>
        by_cases wanted : linkRole.all (· == entry.1) = true
        · simp [wanted, ih]
        · simp [wanted, ih]
  rw [selected, split, flatMap_toList]
  apply List.flatMap_congr
  intro role _
  simp only [network?]
  split
  · rfl
  · simp

theorem flatMap_selected_congr {arcRole : String} {linkRole : Option String}
    {answer : Network → List Relationship}
    (same : ∀ baseSet, (collection.network? baseSet).toList.flatMap answer =
      (other.network? baseSet).toList.flatMap answer) :
    (collection.selected arcRole linkRole).flatMap answer =
      (other.selected arcRole linkRole).flatMap answer := by
  simp only [flatMap_selected, same]
  apply Ascending.flatMap_eq (ascending_keys _) (ascending_keys _)
  intro role visible
  have listed : ∀ collection : Collection,
      (collection.network? ⟨arcRole, role⟩).toList.flatMap answer ≠ [] →
      role ∈ (collection.ofArcRole arcRole).keys := by
    intro collection visible
    rw [ExtTreeMap.mem_keys]
    by_contra absent
    simp [network?, ExtTreeMap.getElem?_eq_none absent] at visible
  have shown : (other.network? ⟨arcRole, role⟩).toList.flatMap answer ≠ [] := by
    intro nothing
    simp [nothing] at visible
  exact iff_of_true (listed collection (same _ ▸ shown)) (listed other shown)

def Coherent (collection : Collection) : Prop :=
  ∀ baseSet network, collection.network? baseSet = some network → network.Coherent

theorem Sound.coherent (h : collection.Sound) : collection.Coherent :=
  fun baseSet network found => (h baseSet network found).1.coherent

/-- Networks in which the same is effective answer alike, and a network in which nothing is
    effective answers like one that is missing. -/
theorem Coherent.flatMap_congr (h : collection.Coherent) (h' : other.Coherent)
    {answer : Network → List Relationship}
    (congr : ∀ network network' : Network, network.Coherent → network'.Coherent →
      (∀ identity, network.effectiveAt identity = network'.effectiveAt identity) →
      answer network = answer network')
    (nothing : ∀ network : Network, network.Coherent →
      (∀ identity, network.effectiveAt identity = none) → answer network = [])
    (same : ∀ identity,
      collection.effectiveAt baseSet identity = other.effectiveAt baseSet identity) :
    (collection.network? baseSet).toList.flatMap answer =
      (other.network? baseSet).toList.flatMap answer := by
  simp only [effectiveAt] at same
  cases found : collection.network? baseSet with
  | none =>
      cases found' : other.network? baseSet with
      | none => rfl
      | some network' =>
          simp only [found, found', Option.bind_none, Option.bind_some] at same
          simp [nothing network' (h' _ _ found') fun identity => (same identity).symm]
  | some network =>
      cases found' : other.network? baseSet with
      | none =>
          simp only [found, found', Option.bind_none, Option.bind_some] at same
          simp [nothing network (h _ _ found) same]
      | some network' =>
          simp only [found, found', Option.bind_some] at same
          simp [congr network network' (h _ _ found) (h' _ _ found') same]

theorem Coherent.outgoing_congr (h : collection.Coherent) (h' : other.Coherent)
    (same : ∀ baseSet identity,
      collection.effectiveAt baseSet identity = other.effectiveAt baseSet identity)
    (source : Index) (arcRole : String) (linkRole : Option String) :
    collection.outgoing source arcRole linkRole = other.outgoing source arcRole linkRole := by
  apply flatMap_selected_congr
  intro baseSet
  exact h.flatMap_congr h' (fun _ _ coherent coherent' same =>
    coherent.outgoing_congr coherent' same source)
    (fun _ coherent nothing => coherent.outgoing_eq_nil nothing source) (same baseSet)

theorem Coherent.incoming_congr (h : collection.Coherent) (h' : other.Coherent)
    (same : ∀ baseSet identity,
      collection.effectiveAt baseSet identity = other.effectiveAt baseSet identity)
    (target : Index) (arcRole : String) (linkRole : Option String) :
    collection.incoming target arcRole linkRole = other.incoming target arcRole linkRole := by
  apply flatMap_selected_congr
  intro baseSet
  exact h.flatMap_congr h' (fun _ _ coherent coherent' same =>
    coherent.incoming_congr coherent' same target)
    (fun _ coherent nothing => coherent.incoming_eq_nil nothing target) (same baseSet)

end Collection

end XbrlNetworks
