import XbrlNetworks.Proofs.Reachable

/-! # The representation of a network

What a reachable network looks like inside: the perspectives mirror each
other, every slot stands exactly once in each of them, and what a bucket keeps
belongs at the edge that leads to it.  So no look-up misses its slot, and no
bucket ever refuses a relationship that the network has passed on to it.
-/

namespace XbrlNetworks

/-- An arc of role `A` in a link of role `L`, between two concepts; the smallest networks are
    made of these. -/
def Relationship.sample (arc source target : Index) (use : Arc.Use) : Relationship where
  arc := { Arc.plain arc "A" "A|order=1" with use }
  source := ⟨source, .concept, none⟩
  target := ⟨target, .concept, none⟩
  link := ⟨"link", "L"⟩
  hasArcRole := by simp [Arc.plain]
  hasLinkRole := by simp
  sourceResolved := rfl
  targetResolved := rfl

namespace Network

/-- The parts of a network fit together. -/
structure Intact (network : Network) : Prop where
  mirrored : ∀ (key : String) (source target : Index) (slot : Nat),
    network.bySource.slot? source ⟨key, target⟩ = some slot ↔
      network.byTarget.slot? target ⟨key, source⟩ = some slot
  sourceSlots : network.bySource.named.Perm (List.range network.buckets.size)
  targetSlots : network.byTarget.named.Perm (List.range network.buckets.size)
  sound : ∀ (key : String) (source target : Index) (slot : Nat),
    network.bySource.slot? source ⟨key, target⟩ = some slot →
      (network.bucket slot).Sound network.baseSet ⟨key, source, target⟩
  kept : ∀ (index : Index) (fragment : Fragment), network.fragments[index]? = some fragment →
    fragment.index = index ∧ fragment.isLocator = false
  cached : ∀ index : Index, index ∈ network.fragments ↔
    ∃ slot < network.buckets.size, ∃ identity, (network.bucket slot).identity = some identity ∧
      (identity.source = index ∨ identity.target = index)

variable {network : Network} {slot : Nat} {identity : Bucket.Identity}

theorem holds_iff : network.Holds slot identity ↔
    slot < network.buckets.size ∧ (network.bucket slot).identity = some identity := by
  constructor
  · intro holds
    refine ⟨holds.lt_size, ?_⟩
    obtain ⟨bucket, found, seeded⟩ := holds
    rw [bucket_eq found, seeded]
  · rintro ⟨inside, seeded⟩
    have found := Array.getElem?_eq_getElem inside
    rw [bucket_eq found] at seeded
    exact ⟨_, found, seeded⟩

theorem Coherent.exists_holds (h : network.Coherent) (inside : slot < network.buckets.size) :
    ∃ identity, network.Holds slot identity := by
  have found := Array.getElem?_eq_getElem inside
  obtain ⟨identity, sound⟩ := h.sound slot _ found
  exact ⟨identity, _, found, sound.seeded⟩

/-- A perspective that leads to the slots of a network lists each of them once. -/
theorem Coherent.named_perm (h : network.Coherent) {identify : Index → Edge → Bucket.Identity}
    {perspective : Perspective} (leads : perspective.LeadsTo identify network.Holds)
    (injective : ∀ {near near' : Index} {edge edge' : Edge},
      identify near edge = identify near' edge' → near = near' ∧ edge = edge')
    (covers : ∀ identity, ∃ near edge, identify near edge = identity) :
    perspective.named.Perm (List.range network.buckets.size) := by
  have nodup : perspective.named.Nodup := by
    apply Perspective.nodup_named
    intro near near' edge edge' slot found found'
    have holds := (leads.finds near edge slot).mp found
    have holds' := (leads.finds near' edge' slot).mp found'
    exact injective (holds.identity_eq holds')
  apply (List.perm_ext_iff_of_nodup nodup List.nodup_range).mpr
  intro slot
  rw [Perspective.mem_named, List.mem_range]
  constructor
  · rintro ⟨near, edge, found⟩
    exact ((leads.finds near edge slot).mp found).lt_size
  · intro inside
    obtain ⟨identity, holds⟩ := h.exists_holds inside
    obtain ⟨near, edge, rfl⟩ := covers identity
    exact ⟨near, edge, (leads.finds near edge slot).mpr holds⟩

theorem intact_of_coherent (h : network.Coherent) : network.Intact := by
  refine ⟨?_, ?_, ?_, ?_, h.kept, ?_⟩
  · intro key source target slot
    rw [h.bySource.finds, h.byTarget.finds]
    rfl
  · exact h.named_perm h.bySource Edge.leaving_injective fun identity =>
      ⟨identity.source, ⟨identity.key, identity.target⟩, rfl⟩
  · exact h.named_perm h.byTarget Edge.entering_injective fun identity =>
      ⟨identity.target, ⟨identity.key, identity.source⟩, rfl⟩
  · intro key source target slot found
    exact h.bucket_sound ((h.bySource.finds _ _ slot).mp found)
  · intro index
    rw [h.cached]
    simp only [holds_iff]
    constructor
    · rintro ⟨slot, identity, ⟨inside, seeded⟩, atEnd⟩
      exact ⟨slot, inside, identity, seeded, atEnd⟩
    · rintro ⟨slot, inside, identity, seeded, atEnd⟩
      exact ⟨slot, identity, ⟨inside, seeded⟩, atEnd⟩

theorem Follows.insert_error {log : Log} {r : Relationship} {failure : Failure}
    (h : network.Follows log) (refused : network.insert r = .error failure) :
    failure = .mismatched network.baseSet r.baseSet := by
  by_cases own : r.baseSet = network.baseSet
  · obtain ⟨next, inserted, _⟩ := h.insert own
    rw [inserted] at refused
    cases refused
  · simp only [Network.insert, own, ne_eq, not_false_eq_true, if_true,
      Except.error.injEq] at refused
    exact refused.symm

/-- Every reachable network is intact, so its perspectives only name slots that exist and its
    buckets never refuse what it gives them. -/
theorem Reachable.intact (h : network.Reachable) :
    network.Intact ∧
      (∀ (near : Index) (edge : Edge) (slot : Nat),
        network.bySource.slot? near edge = some slot ∨
          network.byTarget.slot? near edge = some slot → slot < network.buckets.size) ∧
      (∀ (r : Relationship) (failure : Failure), network.insert r = .error failure →
        failure = .mismatched network.baseSet r.baseSet) := by
  obtain ⟨log, follows⟩ := h.follows
  have coherent := follows.coherent
  refine ⟨intact_of_coherent coherent, ?_, fun r failure refused => follows.insert_error refused⟩
  rintro near edge slot (found | found)
  · exact ((coherent.bySource.finds near edge slot).mp found).lt_size
  · exact ((coherent.byTarget.finds near edge slot).mp found).lt_size

/-- Of two arcs between the same fragments the second overrides the first, another one is
    prohibited, and two effective ones have the same order.  Only what belongs elsewhere is
    refused. -/
theorem intact_of_override : ∃ network, Network.Reachable network ∧
    network.buckets.toList.map (·.candidates.size) = [2, 2, 1, 1] ∧
    (network.outgoing "s").map (·.arc.index) = ["u", "y"] ∧
    (network.incoming "b").map (·.arc.index) = ["u", "v"] ∧ network.Intact ∧
    ∃ r, network.insert r = .error (.mismatched network.baseSet r.baseSet) := by
  let asserted := Relationship.sample "x" "s" "t" .optional
  let overriding : Relationship := { asserted with
    arc := { Arc.plain "y" "A" "A|order=1" with priority := 1 }
    hasArcRole := by simp [Arc.plain] }
  let prohibiting : Relationship := { Relationship.sample "w" "s" "a" .prohibited with
    arc := { Arc.plain "w" "A" "A|order=1" with use := .prohibited, priority := 1 }
    hasArcRole := by simp [Arc.plain] }
  let stray : Relationship := { asserted with
    link := ⟨"other", "M"⟩
    hasLinkRole := by simp }
  have shown : ((openFor asserted).insertAll [asserted, overriding,
      .sample "z" "s" "a" .optional, prohibiting, .sample "u" "s" "b" .optional,
      .sample "v" "t" "b" .optional]).map (fun network =>
        (network.baseSet, network.buckets.toList.map (·.candidates.size),
          (network.outgoing "s").map (·.arc.index), (network.incoming "b").map (·.arc.index))) =
      .ok (⟨"A", "L"⟩, [2, 2, 1, 1], ["u", "y"], ["u", "v"]) := by
    decide +kernel
  obtain ⟨network, run, shown⟩ := exists_of_map_eq_ok shown
  obtain ⟨base, candidates, outgoing, incoming⟩ := by simpa only [Prod.mk.injEq] using shown
  have reached : network.Reachable := (reachable_openFor asserted).insertAll run
  obtain ⟨intact, _, refuses⟩ := Reachable.intact reached
  refine ⟨network, reached, candidates, outgoing, incoming, intact, stray, ?_⟩
  cases refused : network.insert stray with
  | error failure => rw [refuses stray failure refused]
  | ok answer =>
      have own := baseSet_eq_of_insert refused
      rw [base] at own
      exact absurd own (by decide +kernel)

end Network

end XbrlNetworks
