import XbrlNetworks.Network.Basic
import XbrlNetworks.Proofs.Bucket
import XbrlNetworks.Proofs.Perspective

/-! # Coherent networks

The slots, the two perspectives and the kept fragments of a network all tell
the same story, and it is told by the identities of the buckets.  Adding a
relationship keeps it so, whether it opens a slot, joins one or changes nothing.
-/

namespace XbrlNetworks

open Std

/-- A bucket of a network: it has its identity from the start, and what it keeps belongs
    there. -/
structure Bucket.Sound (baseSet : BaseSet) (identity : Identity) (bucket : Bucket) : Prop where
  seeded : bucket.identity = some identity
  occupied : bucket.isEmpty = false
  own : ∀ (priority : Int32) (r : Relationship), bucket.candidates[priority]? = some r →
    r.baseSet = baseSet ∧ r.identity = identity ∧ r.arc.priority = priority ∧
      bucket.containsArc r.arc.index = true
  counted : bucket.added = bucket.arcs.size

theorem Bucket.Sound.join {bucket : Bucket} {r : Relationship}
    (h : bucket = .empty ∨ bucket.Sound r.baseSet r.identity)
    (fresh : bucket.containsArc r.arc.index = false) :
    (bucket.join r).Sound r.baseSet r.identity := by
  have notYet : r.arc.index ∉ bucket.arcs := by
    rwa [containsArc, ← Bool.not_eq_true, ExtTreeSet.contains_iff_mem] at fresh
  refine ⟨rfl, ?_, ?_, ?_⟩
  · simp [isEmpty, Bucket.join]
  · intro priority other found
    simp only [Bucket.join, ExtTreeMap.getElem?_insert, LawfulEqOrd.compare_eq_iff_eq] at found
    simp only [containsArc, Bucket.join, ExtTreeSet.contains_iff_mem, ExtTreeSet.mem_insert,
      LawfulEqOrd.compare_eq_iff_eq]
    split at found
    · cases found
      exact ⟨rfl, rfl, ‹_›, .inl rfl⟩
    · rcases h with rfl | sound
      · simp [empty] at found
      · obtain ⟨base, same, place, seen⟩ := sound.own priority other found
        exact ⟨base, same, place, .inr (by simpa [containsArc] using seen)⟩
  · have before : bucket.added = bucket.arcs.size := by
      rcases h with rfl | sound
      · simp [empty]
      · exact sound.counted
    simp [Bucket.join, ExtTreeSet.size_insert, notYet, before]

/-- A perspective finds the slots that hold the identities of its edges, and lists no fragment
    without an edge. -/
structure Perspective.LeadsTo (identify : Index → Edge → Bucket.Identity)
    (holds : Nat → Bucket.Identity → Prop) (perspective : Perspective) : Prop where
  finds : ∀ near edge slot, perspective.slot? near edge = some slot ↔
    holds slot (identify near edge)
  used : ∀ near ∈ perspective, ∃ edge slot, perspective.slot? near edge = some slot

theorem Perspective.LeadsTo.record {identify : Index → Edge → Bucket.Identity}
    {holds holds' : Nat → Bucket.Identity → Prop} {perspective : Perspective} {near : Index}
    {edge : Edge} {slot : Nat} (h : perspective.LeadsTo identify holds)
    (injective : ∀ {near near' : Index} {edge edge' : Edge},
      identify near edge = identify near' edge' → near = near' ∧ edge = edge')
    (absent : ∀ slot, ¬ holds slot (identify near edge))
    (grown : ∀ slot' identity, holds' slot' identity ↔
      holds slot' identity ∨ slot' = slot ∧ identity = identify near edge) :
    (perspective.record near edge slot).LeadsTo identify holds' := by
  constructor
  · intro near' edge' slot'
    rw [slot?_record, grown]
    split
    · rename_i here
      obtain ⟨rfl, rfl⟩ := here
      constructor
      · exact fun same => .inr ⟨(Option.some.inj same).symm, rfl⟩
      · rintro (old | ⟨rfl, _⟩)
        · exact absurd old (absent slot')
        · rfl
    · rename_i elsewhere
      rw [h.finds]
      refine ⟨.inl, ?_⟩
      rintro (old | ⟨_, same⟩)
      · exact old
      · exact absurd (injective same.symm) elsewhere
  · intro near' member
    simp only [slot?_record]
    rcases mem_record.mp member with rfl | old
    · exact ⟨edge, slot, if_pos ⟨rfl, rfl⟩⟩
    · obtain ⟨edge', slot', found⟩ := h.used near' old
      refine ⟨edge', slot', ?_⟩
      rw [if_neg, found]
      rintro ⟨rfl, rfl⟩
      exact absent slot' ((h.finds near edge slot').mp found)

namespace Network

def Holds (network : Network) (slot : Nat) (identity : Bucket.Identity) : Prop :=
  ∃ bucket, network.buckets[slot]? = some bucket ∧ bucket.identity = some identity

/-- What the parts of a network have to do with each other. -/
structure Coherent (network : Network) : Prop where
  bySource : network.bySource.LeadsTo (fun source edge => edge.leaving source) network.Holds
  byTarget : network.byTarget.LeadsTo (fun target edge => edge.entering target) network.Holds
  sound : ∀ (slot : Nat) (bucket : Bucket), network.buckets[slot]? = some bucket →
    ∃ identity, bucket.Sound network.baseSet identity
  kept : ∀ (index : Index) (fragment : Fragment), network.fragments[index]? = some fragment →
    fragment.index = index ∧ fragment.isLocator = false
  cached : ∀ index, index ∈ network.fragments ↔ ∃ slot identity, network.Holds slot identity ∧
    (identity.source = index ∨ identity.target = index)

/-- The network with a new slot for a relationship. -/
def opened (network : Network) (r : Relationship) : Network :=
  { network with
    fragments := keep (keep network.fragments r.source) r.target
    buckets := network.buckets.push (Bucket.empty.join r)
    bySource := network.bySource.record r.source.index ⟨r.key, r.target.index⟩
      network.buckets.size
    byTarget := network.byTarget.record r.target.index ⟨r.key, r.source.index⟩
      network.buckets.size }

def joined (network : Network) (slot : Nat) (r : Relationship) : Network :=
  { network with
    buckets := network.buckets.setIfInBounds slot ((network.bucket slot).join r) }

variable {network : Network} {r : Relationship} {slot : Nat} {identity : Bucket.Identity}

theorem Holds.lt_size (h : network.Holds slot identity) : slot < network.buckets.size := by
  obtain ⟨bucket, found, _⟩ := h
  exact (Array.getElem?_eq_some_iff.mp found).1

theorem Holds.identity_eq {other : Bucket.Identity} (h : network.Holds slot identity)
    (h' : network.Holds slot other) : identity = other := by
  obtain ⟨bucket, found, seeded⟩ := h
  obtain ⟨bucket', found', seeded'⟩ := h'
  rw [found] at found'
  cases found'
  rw [seeded] at seeded'
  exact Option.some.inj seeded'

theorem bucket_eq {bucket : Bucket} (found : network.buckets[slot]? = some bucket) :
    network.bucket slot = bucket := by
  simp [Network.bucket, Array.getD_eq_getD_getElem?, found]

theorem Coherent.bucket_sound (h : network.Coherent) (holds : network.Holds slot identity) :
    (network.bucket slot).Sound network.baseSet identity := by
  obtain ⟨bucket, found, seeded⟩ := holds
  obtain ⟨other, sound⟩ := h.sound slot bucket found
  have same : other = identity := Option.some.inj (sound.seeded.symm.trans seeded)
  rwa [bucket_eq found, ← same]

theorem holds_opened : (network.opened r).Holds slot identity ↔
    network.Holds slot identity ∨ slot = network.buckets.size ∧ identity = r.identity := by
  simp only [Holds, opened, Array.getElem?_push]
  by_cases last : slot = network.buckets.size
  · subst last
    simp [Bucket.join, eq_comm]
  · simp [last]

theorem Coherent.holds_joined {slot' : Nat} {identity' : Bucket.Identity} (h : network.Coherent)
    (holds : network.Holds slot r.identity) :
    (network.joined slot r).Holds slot' identity' ↔ network.Holds slot' identity' := by
  simp only [Holds, joined, Array.getElem?_setIfInBounds]
  by_cases here : slot = slot'
  · subst here
    have inside := holds.lt_size
    have seeded := (h.bucket_sound holds).seeded
    simp only [inside, if_true, Option.some.injEq, exists_eq_left', Bucket.join]
    constructor
    · rintro rfl
      exact holds
    · exact fun there => by rw [Holds.identity_eq holds there]
  · simp [here]

theorem mem_keep {fragments : ExtTreeMap Index Fragment} {fragment : Fragment} {index : Index} :
    index ∈ keep fragments fragment ↔ fragment.index = index ∨ index ∈ fragments := by
  simp only [keep, ExtTreeMap.mem_insertIfNew, LawfulEqOrd.compare_eq_iff_eq]

theorem kept_keep {fragments : ExtTreeMap Index Fragment} {added : Fragment}
    (h : ∀ (index : Index) (fragment : Fragment), fragments[index]? = some fragment →
      fragment.index = index ∧ fragment.isLocator = false) (resolved : added.isLocator = false)
    (index : Index) (fragment : Fragment)
    (found : (keep fragments added)[index]? = some fragment) :
    fragment.index = index ∧ fragment.isLocator = false := by
  simp only [keep, ExtTreeMap.getElem?_insertIfNew, LawfulEqOrd.compare_eq_iff_eq] at found
  split at found
  · rename_i new
    cases found
    exact ⟨new.1, resolved⟩
  · exact h index fragment found

theorem Coherent.opened (h : network.Coherent) (own : r.baseSet = network.baseSet)
    (absent : ∀ slot, ¬ network.Holds slot r.identity) : (network.opened r).Coherent := by
  refine ⟨?_, ?_, ?_, ?_, ?_⟩
  · exact h.bySource.record Edge.leaving_injective absent fun _ _ => holds_opened
  · exact h.byTarget.record Edge.entering_injective absent fun _ _ => holds_opened
  · intro slot bucket found
    simp only [Network.opened, Array.getElem?_push] at found
    split at found
    · cases found
      refine ⟨r.identity, ?_⟩
      rw [Network.opened, ← own]
      exact Bucket.Sound.join (.inl rfl) rfl
    · exact h.sound slot bucket found
  · exact kept_keep (kept_keep h.kept r.sourceResolved) r.targetResolved
  · intro index
    change index ∈ keep (keep network.fragments r.source) r.target ↔ _
    rw [mem_keep, mem_keep, h.cached]
    simp only [holds_opened]
    constructor
    · rintro (atTarget | atSource | ⟨slot, identity, holds, atEnd⟩)
      · exact ⟨_, _, .inr ⟨rfl, rfl⟩, .inr atTarget⟩
      · exact ⟨_, _, .inr ⟨rfl, rfl⟩, .inl atSource⟩
      · exact ⟨slot, identity, .inl holds, atEnd⟩
    · rintro ⟨slot, identity, holds | ⟨_, rfl⟩, atSource | atTarget⟩
      · exact .inr (.inr ⟨slot, identity, holds, .inl atSource⟩)
      · exact .inr (.inr ⟨slot, identity, holds, .inr atTarget⟩)
      · exact .inr (.inl atSource)
      · exact .inl atTarget

theorem Coherent.joined (h : network.Coherent) (own : r.baseSet = network.baseSet)
    (holds : network.Holds slot r.identity)
    (fresh : (network.bucket slot).containsArc r.arc.index = false) :
    (network.joined slot r).Coherent := by
  have unchanged : (network.joined slot r).Holds = network.Holds := by
    funext slot' identity
    exact propext (h.holds_joined holds)
  refine ⟨?_, ?_, ?_, h.kept, ?_⟩
  · rw [unchanged]
    exact h.bySource
  · rw [unchanged]
    exact h.byTarget
  · intro slot' bucket found
    simp only [Network.joined, Array.getElem?_setIfInBounds, holds.lt_size, if_true] at found
    split at found
    · cases found
      refine ⟨r.identity, ?_⟩
      rw [Network.joined, ← own]
      exact Bucket.Sound.join (.inr (own ▸ h.bucket_sound holds)) fresh
    · exact h.sound slot' bucket found
  · rw [unchanged]
    exact h.cached

end Network

end XbrlNetworks
