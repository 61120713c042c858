import XbrlNetworks.Proofs.Alike

/-! # What a written network is read back as

A snapshot lists the candidates bucket by bucket in the order of the slots, so
reading opens the buckets in the order in which they stood.  Slots, candidates
and perspectives are the same again, and so is every answer.
-/

namespace XbrlNetworks

open Std

theorem eraseDups_of_forall_eq {α : Type} [BEq α] [LawfulBEq α] {items : List α} {item : α}
    (occupied : items ≠ []) (same : ∀ other ∈ items, other = item) : items.eraseDups = [item] := by
  obtain ⟨first, rest, rfl⟩ := List.exists_cons_of_ne_nil occupied
  obtain rfl := same first List.mem_cons_self
  have nothing : rest.filter (fun other => !other == first) = [] := by
    simpa using fun other member => same other (List.mem_cons_of_mem _ member)
  rw [List.eraseDups_cons, nothing, List.eraseDups_nil]

theorem eraseDups_flatMap {α : Type} [BEq α] [LawfulBEq α] {items : List α} {run : α → List α}
    (distinct : items.Nodup) (occupied : ∀ item ∈ items, run item ≠ [])
    (same : ∀ item ∈ items, ∀ other ∈ run item, other = item) :
    (items.flatMap run).eraseDups = items := by
  induction items with
  | nil => rfl
  | cons item items ih =>
      obtain ⟨fresh, distinct⟩ := List.nodup_cons.mp distinct
      have here := eraseDups_of_forall_eq (occupied item List.mem_cons_self)
        (same item List.mem_cons_self)
      have rest := ih distinct (fun other member => occupied other (List.mem_cons_of_mem _ member))
        (fun other member => same other (List.mem_cons_of_mem _ member))
      have apart : (items.flatMap run).removeAll (run item) = items.flatMap run := by
        rw [List.removeAll, List.filter_eq_self]
        intro other member
        obtain ⟨later, inItems, inRun⟩ := List.mem_flatMap.mp member
        obtain rfl := same later (List.mem_cons_of_mem _ inItems) other inRun
        have outside : other ∉ run item := by
          intro again
          exact fresh (same item List.mem_cons_self other again ▸ inItems)
        simpa using outside
      rw [List.flatMap_cons, List.eraseDups_append, here, apart, rest]
      rfl

theorem Perspective.LeadsTo.eq {identify : Index → Edge → Bucket.Identity}
    {holds : Nat → Bucket.Identity → Prop} {perspective other : Perspective}
    (h : perspective.LeadsTo identify holds) (h' : other.LeadsTo identify holds) :
    perspective = other := by
  have found : ∀ near edge, perspective.slot? near edge = other.slot? near edge := by
    intro near edge
    apply Option.ext
    intro slot
    rw [h.finds, h'.finds]
  have listed : ∀ near, near ∈ perspective ↔ near ∈ other := by
    intro near
    constructor
    · intro member
      obtain ⟨edge, slot, there⟩ := h.used near member
      exact Perspective.mem_of_slot? (found near edge ▸ there)
    · intro member
      obtain ⟨edge, slot, there⟩ := h'.used near member
      exact Perspective.mem_of_slot? (found near edge ▸ there)
  have edges : ∀ near, perspective.edges near = other.edges near := fun near =>
    ExtTreeMap.ext_getElem? fun edge => found near edge
  exact ExtTreeMap.ext_getElem? fun near => getElem?_eq_of_getD_eq (listed near) (edges near)

namespace Network

variable {network other next restored : Network} {log relationships : Log} {r : Relationship}
  {isNew : Bool}

theorem Coherent.identities_eq (h : network.Coherent) (h' : other.Coherent)
    (same : ∀ slot identity, network.Holds slot identity ↔ other.Holds slot identity) :
    network.identities = other.identities := by
  apply List.ext_getElem?
  intro slot
  apply Option.ext
  intro identity
  rw [h.getElem?_identities, h'.getElem?_identities, same]

theorem identities_opened :
    (network.opened r).identities = network.identities ++ [r.identity] := by
  simp [identities, opened, Bucket.join]

theorem Coherent.identities_insert (h : network.Coherent)
    (inserted : network.insert r = .ok (next, isNew)) :
    next.identities =
      if r.identity ∈ network.identities then network.identities
      else network.identities ++ [r.identity] := by
  have own := baseSet_eq_of_insert inserted
  by_cases known : r.identity ∈ network.identities
  · rw [if_pos known]
    obtain ⟨slot, found⟩ := List.mem_iff_getElem?.mp known
    have holds := h.getElem?_identities.mp found
    cases repeated : (network.bucket slot).containsArc r.arc.index with
    | true =>
        rw [insert_of_repeated h own holds repeated] at inserted
        cases inserted
        rfl
    | false =>
        rw [insert_of_fresh h own holds repeated] at inserted
        cases inserted
        exact (h.joined own holds repeated).identities_eq h fun _ _ => h.holds_joined holds
  · rw [if_neg known]
    have absent : ∀ slot, ¬ network.Holds slot r.identity := by
      intro slot holds
      exact known (List.mem_of_getElem? (h.getElem?_identities.mpr holds))
    rw [insert_of_absent h own absent] at inserted
    cases inserted
    exact identities_opened

theorem insertAll_concat_eq_ok (inserted : network.insertAll (relationships ++ [r]) = .ok next) :
    ∃ before isNew, network.insertAll relationships = .ok before ∧
      before.insert r = .ok (next, isNew) := by
  rw [insertAll_append] at inserted
  obtain ⟨before, run, last⟩ := exists_of_bind_eq_ok inserted
  obtain ⟨_, isNew, accepted, done⟩ := exists_of_insertAll_cons last
  cases done
  exact ⟨before, isNew, run, accepted⟩

theorem Follows.identities_insertAll (h : network.Follows [])
    (inserted : network.insertAll relationships = .ok next) :
    next.identities = (relationships.map Relationship.identity).eraseDups := by
  induction relationships using List.reverseRecOn generalizing next with
  | nil =>
      cases inserted
      simp [List.eq_nil_iff_forall_not_mem, h.mem_identities]
  | append_singleton earlier r ih =>
      obtain ⟨before, isNew, run, last⟩ := insertAll_concat_eq_ok inserted
      rw [(h.insertAll_ok run).coherent.identities_insert last, ih run, List.map_append,
        List.eraseDups_append, List.map_singleton]
      generalize earlier.map Relationship.identity = identities
      by_cases known : r.identity ∈ identities
      · simp [known, List.removeAll]
      · simp [known, List.removeAll, List.eraseDups_cons]

theorem Coherent.map_buckets {α : Type} (h : network.Coherent) (f : Bucket → α) :
    network.buckets.toList.map f =
      network.identities.filterMap fun identity => (network.bucketAt? identity).map f := by
  have same := congrArg (List.filterMap (Option.map f)) h.map_bucketAt?
  simpa [List.filterMap_map, Function.comp_def] using same.symm

theorem Coherent.flatMap_buckets {α : Type} (h : network.Coherent) (f : Bucket → List α) :
    network.buckets.toList.flatMap f =
      network.identities.flatMap fun identity => (network.bucketAt? identity).toList.flatMap f := by
  have same := congrArg (fun buckets => buckets.flatMap fun bucket? => bucket?.toList.flatMap f)
    h.map_bucketAt?
  simpa only [List.flatMap_map, Option.toList_some, List.flatMap_singleton] using same.symm

/-- The relationships in a snapshot name the identities in the order of the slots. -/
theorem Coherent.eraseDups_snapshot (h : network.Coherent) :
    (network.snapshot.relationships.map Relationship.identity).eraseDups = network.identities := by
  rw [snapshot, List.map_flatMap, h.flatMap_buckets]
  apply eraseDups_flatMap h.nodup_identities
  · intro identity member
    obtain ⟨bucket, there⟩ := Option.ne_none_iff_exists'.mp (h.mem_identities.mp member)
    simpa [there] using Bucket.relationships_ne_nil (h.sound_of_bucketAt? there).occupied
  · intro identity _ other member
    obtain ⟨bucket, there, r, kept, rfl⟩ : ∃ bucket, network.bucketAt? identity = some bucket ∧
      ∃ r ∈ bucket.relationships, r.identity = other := by
      simpa using member
    obtain ⟨priority, kept⟩ := Bucket.mem_relationships.mp kept
    exact ((h.sound_of_bucketAt? there).own priority r kept).2.1

/-- A network that cannot be told from another, but for the arcs that have lost their places. -/
structure Reproduces (restored network : Network) : Prop where
  alike : restored.Alike network
  identities : restored.identities = network.identities
  candidates : restored.buckets.toList.map Bucket.candidates =
    network.buckets.toList.map Bucket.candidates
  bySource : restored.bySource = network.bySource
  byTarget : restored.byTarget = network.byTarget
  walks : ∀ outcome, restored.Walks outcome ↔ network.Walks outcome
  written : restored.toJson = network.toJson

/-- Networks with the same candidates in the same slots cannot be told from each other. -/
theorem Coherent.reproduces (h : network.Coherent) (h' : restored.Coherent)
    (base : restored.baseSet = network.baseSet)
    (order : restored.identities = network.identities)
    (same : ∀ identity, (restored.bucketAt? identity).map Bucket.candidates =
      (network.bucketAt? identity).map Bucket.candidates) : restored.Reproduces network := by
  have alike := h'.alike h base same
  have holds : restored.Holds = network.Holds := by
    funext slot identity
    rw [← h'.getElem?_identities, ← h.getElem?_identities, order]
  have candidates : restored.buckets.toList.map Bucket.candidates =
      network.buckets.toList.map Bucket.candidates := by
    simp only [h'.map_buckets, h.map_buckets, order, same]
  refine ⟨alike, order, candidates, ?_, ?_, ?_, ?_⟩
  · exact (holds ▸ h'.bySource).eq h.bySource
  · exact (holds ▸ h'.byTarget).eq h.byTarget
  · exact fun outcome => ⟨alike.walks h' h, alike.symm.walks h h'⟩
  · have relationships : ∀ buckets : List Bucket, buckets.flatMap Bucket.relationships =
        (buckets.map Bucket.candidates).flatMap fun candidates =>
          (candidates.toList.map (·.2)).reverse := by
      intro buckets
      rw [List.flatMap_map]
      rfl
    simp only [toJson, snapshot, relationships, candidates, base]

theorem Coherent.identities_ofJson (h : network.Coherent)
    (read : Network.ofJson network.toJson = .ok restored) :
    restored.identities = network.identities := by
  rw [ofJson_toJson] at read
  obtain ⟨empty, opened, inserted⟩ := exists_of_restore_eq_ok (Json.of_obey read)
  rw [(follows_new opened).1.identities_insertAll inserted, h.eraseDups_snapshot]

/-- Every network can be written and read back, and cannot be told from what is read. -/
theorem exists_reproduction (h : network.Reachable) :
    ∃ restored, ofJson network.toJson = .ok restored ∧ restored.Reproduces network ∧
      ∃! outcome, network.Walks outcome := by
  obtain ⟨log, follows⟩ := h.follows
  obtain ⟨restored, read, base, follows'⟩ := follows.coherent.exists_ofJson
  have reproduces := follows.coherent.reproduces follows'.coherent base
    (follows.coherent.identities_ofJson read) (follows.candidates_eq follows')
  obtain ⟨outcome, walks⟩ := follows.exists_walks
  exact ⟨restored, read, reproduces, outcome, walks, fun _ others => others.eq walks⟩

/-- The slots of a network with two buckets, one of which has lost an arc, come back in the order
    in which they were opened. -/
theorem exists_reproduction_of_collision : ∃ network restored, Reachable network ∧
    network.identities = [⟨"A|order=1", "s", "t"⟩, ⟨"A|order=1", "a", "b"⟩] ∧
    network.snapshot.relationships =
      [.sample "y" "s" "t" .prohibited, .sample "z" "a" "b" .optional] ∧
    ofJson network.toJson = .ok restored ∧ restored.Reproduces network := by
  let lost := Relationship.sample "x" "s" "t" .optional
  let kept := Relationship.sample "y" "s" "t" .prohibited
  let other := Relationship.sample "z" "a" "b" .optional
  let network := ((openFor lost).opened lost).opened other
  have reached : network.Reachable :=
    ((reachable_openFor lost).opened rfl (by decide +kernel)).opened rfl (by decide +kernel)
  have holds : network.Holds 0 kept.identity := ⟨Bucket.empty.join lost, rfl, rfl⟩
  have inserted := insert_of_fresh (r := kept) reached.coherent rfl holds (by decide +kernel)
  have joined := reached.insert inserted
  obtain ⟨restored, read, reproduces, _⟩ := exists_reproduction joined
  exact ⟨network.joined 0 kept, restored, joined, by decide +kernel, by decide +kernel, read,
    reproduces⟩

end Network

end XbrlNetworks
