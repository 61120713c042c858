import XbrlNetworks.Proofs.Fetched
import XbrlNetworks.Proofs.Freshness
import XbrlNetworks.Proofs.Identities

/-! # Which roots are recorded

Whether its source is a root is written into a record when it is stored, and is
decided by all buckets of the network, prohibited ones too.  Networks that are
rebuilt from records know nothing of prohibited buckets and may have more roots.
These are the only ones by which the two answers differ.
-/

namespace XbrlNetworks

open Std

def Collection.roots (collection : Collection) (baseSet : BaseSet) : List Index :=
  ((collection.network? baseSet).map Network.roots).getD []

/-- The fragments that some bucket of the network of a base set leads into. -/
def Collection.entered (collection : Collection) (baseSet : BaseSet) : List Index :=
  ((collection.network? baseSet).map Network.targets).getD []

namespace Network

variable {network : Network} {log : Log} {index : Index}

theorem Follows.mem_perspective (h : network.Follows log) {perspective : Perspective}
    {identify : Index → Edge → Bucket.Identity}
    (leads : perspective.LeadsTo identify network.Holds) :
    index ∈ perspective ↔ ∃ r ∈ log, ∃ edge, r.identity = identify index edge := by
  rw [h.coherent.mem_perspective leads]
  simp only [h.mem_identities]
  constructor
  · exact fun ⟨edge, r, member, same⟩ => ⟨r, member, edge, same⟩
  · exact fun ⟨r, member, edge, same⟩ => ⟨edge, r, member, same⟩

theorem Follows.mem_sources_iff (h : network.Follows log) :
    index ∈ network.sources ↔ ∃ r ∈ log, r.source.index = index := by
  rw [sources, ExtTreeMap.mem_keys, h.mem_perspective h.coherent.bySource]
  refine exists_congr fun r => and_congr_right fun _ => ⟨?_, ?_⟩
  · rintro ⟨edge, same⟩
    exact congrArg Bucket.Identity.source same
  · rintro rfl
    exact ⟨⟨r.key, r.target.index⟩, rfl⟩

theorem Follows.mem_targets_iff (h : network.Follows log) :
    index ∈ network.targets ↔ ∃ r ∈ log, r.target.index = index := by
  rw [targets, ExtTreeMap.mem_keys, h.mem_perspective h.coherent.byTarget]
  refine exists_congr fun r => and_congr_right fun _ => ⟨?_, ?_⟩
  · rintro ⟨edge, same⟩
    exact congrArg Bucket.Identity.target same
  · rintro rfl
    exact ⟨⟨r.key, r.source.index⟩, rfl⟩

theorem mem_roots : index ∈ network.roots ↔ index ∈ network.sources ∧ index ∉ network.targets := by
  simp [roots, targets, ← ExtTreeMap.contains_iff_mem]

theorem ascending_roots (network : Network) : Ascending compare network.roots :=
  (ascending_keys _).filter _

end Network

namespace Collection

variable {collection rebuilt : Collection} {log : Log} {query : Query} {r : Relationship}
  {catalogue : Catalogue} {baseSet : BaseSet} {index : Index}

/-- A relationship is effective and a query wants the record of it. -/
def Wants (collection : Collection) (query : Query) (r : Relationship) : Prop :=
  ∃ network, collection.network? r.baseSet = some network ∧ r ∈ network.relationships ∧
    query.selects (.ofRelationship r (network.roots.contains r.source.index)) = true

theorem Sound.effectiveAt_of_mem (h : collection.Sound) {network : Network}
    (found : collection.network? r.baseSet = some network) (member : r ∈ network.relationships) :
    collection.effectiveAt r.baseSet r.identity = some r := by
  obtain ⟨log, follows⟩ := (h _ network found).1.follows
  exact Option.bind_eq_some_iff.mpr ⟨network, found, follows.mem_relationships.mp member⟩

theorem Sound.effectiveAt_of_wants (h : collection.Sound) (wants : collection.Wants query r) :
    collection.effectiveAt r.baseSet r.identity = some r := by
  obtain ⟨network, found, member, _⟩ := wants
  exact h.effectiveAt_of_mem found member

theorem Sound.mem_entries_iff (h : collection.Sound) {record : Record} :
    record ∈ collection.entries ↔ ∃ network r, collection.network? r.baseSet = some network ∧
      r ∈ network.relationships ∧
      record = .ofRelationship r (network.roots.contains r.source.index) := by
  rw [entries, List.mem_flatMap]
  constructor
  · rintro ⟨network, member, entered⟩
    obtain ⟨r, effective, rfl⟩ := List.mem_map.mp entered
    obtain ⟨found, log, follows⟩ := h.of_mem_networks member
    exact ⟨network, r, by rw [follows.baseSet_eq effective, found], effective, rfl⟩
  · rintro ⟨network, r, found, effective, rfl⟩
    exact ⟨network, mem_networks.mpr ⟨_, found⟩, List.mem_map_of_mem effective⟩

theorem Follows.mem_effective_iff (h : rebuilt.Follows log)
    (apart : ∀ r ∈ log, ∀ r' ∈ log, r.address = r'.address → r = r') :
    r ∈ rebuilt.networks.flatMap Network.relationships ↔ r ∈ log ∧ r.isProhibited = false := by
  rw [List.mem_flatMap]
  constructor
  · rintro ⟨network, member, effective⟩
    obtain ⟨baseSet, found⟩ := mem_networks.mp member
    have follows := (h.networks baseSet network found).2
    have effective := follows.mem_relationships.mp effective
    rw [follows.effectiveAt_eq] at effective
    have asserts := (Option.filter_eq_some_iff.mp effective).2
    exact ⟨List.mem_of_mem_filter (Log.mem_of_effective? effective).1, by simpa using asserts⟩
  · rintro ⟨member, asserts⟩
    have own : r ∈ log.ofBaseSet r.baseSet := List.mem_filter.mpr ⟨member, by simp⟩
    cases found : rebuilt.network? r.baseSet with
    | none =>
        rw [h.missing r.baseSet found] at own
        cases own
    | some network =>
        have follows := (h.networks r.baseSet network found).2
        refine ⟨network, mem_networks.mpr ⟨_, found⟩, follows.mem_relationships.mpr ?_⟩
        rw [follows.effectiveAt_eq]
        refine Log.effective?_eq_of_unique own rfl asserts fun other competes same => ?_
        obtain ⟨inLog, base⟩ := List.mem_filter.mp competes
        exact apart other inLog r member
          (Relationship.address_eq_iff.mpr ⟨of_decide_eq_true base, same⟩)

theorem Follows.mem_relationships_iff (h : rebuilt.Follows log)
    (asserts : ∀ r ∈ log, r.isProhibited = false)
    (apart : ∀ r ∈ log, ∀ r' ∈ log, r.address = r'.address → r = r') :
    r ∈ rebuilt.networks.flatMap Network.relationships ↔ r ∈ log := by
  rw [h.mem_effective_iff apart]
  exact and_iff_left_of_imp (asserts r)

end Collection

section Stored

variable {store : Store} {collection : Collection} {baseSet : BaseSet} {index : Index}

/-- A store right after its documents have been posted for the first time. -/
structure Store.Holds (store : Store) (collection : Collection) : Prop where
  sound : collection.Sound
  fetched : collection.Fetched store.documents.catalogue
  records : ∀ record, record ∈ store.ledger.records ↔ record ∈ collection.entries

theorem Store.holds_of_storeAll {next : Store} {outage : Outage} {clock : Clock}
    {limit : Option Duration} {tally : Ledger.Tally} (vacant : store.ledger = ∅)
    (passed : store.storeAll outage clock limit = (.ok tally, next)) :
    ∃ collection calls, next.networks .never none = .ok (collection, calls) ∧
      next.Holds collection := by
  obtain ⟨collection, calls, defined, rfl⟩ := storeAll_eq_ok passed
  have sound := (reachable_networks defined).sound
  have fetched := fetched_networks defined
  refine ⟨collection, calls, defined, sound, fetched, fun record => ?_⟩
  rw [vacant, sound.mem_records_posted, sound.mem_entries]

theorem Store.Holds.loaded (h : store.Holds collection) {query : Query} {r : Relationship}
    (wants : collection.Wants query r) : Analysis.Loaded store.documents.catalogue r := by
  obtain ⟨network, found, member, _⟩ := wants
  obtain ⟨log, follows, allLoaded⟩ := (h.fetched _ network found).log
  have effective := follows.mem_relationships.mp member
  rw [follows.effectiveAt_eq] at effective
  exact allLoaded r (Log.mem_of_effective? effective).1

theorem Store.Holds.plain (h : store.Holds collection) :
    ∀ record ∈ store.ledger.records, record.prohibited = false := by
  intro record member
  obtain ⟨network, r, found, effective, rfl⟩ :=
    h.sound.mem_entries_iff.mp ((h.records record).mp member)
  exact (h.sound.of_effectiveAt (h.sound.effectiveAt_of_mem found effective)).2.2

theorem Store.Holds.exists_recorded (h : store.Holds collection) (mode : Analysis.Mode)
    (query : Query) :
    ∃ relationships, (store.analysis .never mode).recorded query = .ok relationships ∧
      ∀ r, r ∈ relationships ↔ collection.Wants query r := by
  have made : ∀ record ∈ store.ledger.select query, ∃ r root,
      collection.Wants query r ∧ record = .ofRelationship r root := by
    intro record member
    obtain ⟨inRecords, selected⟩ := Ledger.mem_select.mp member
    obtain ⟨network, r, found, effective, rfl⟩ :=
      h.sound.mem_entries_iff.mp ((h.records record).mp inRecords)
    exact ⟨r, _, ⟨network, found, effective, selected⟩, rfl⟩
  obtain ⟨relationships, run, allWanted, all⟩ :=
    Analysis.recorded_eq_ok mode query (fun r => h.loaded) made
  refine ⟨relationships, run, fun r => ⟨allWanted r, fun wants => ?_⟩⟩
  obtain ⟨network, found, effective, selected⟩ := wants
  have entered := h.sound.mem_entries_iff.mpr ⟨network, r, found, effective, rfl⟩
  obtain ⟨r', member, root, same⟩ :=
    all _ (Ledger.mem_select.mpr ⟨(h.records _).mpr entered, selected⟩)
  rwa [Collection.eq_of_ofRelationship_eq (h.sound.effectiveAt_of_mem found effective)
    (h.sound.effectiveAt_of_wants (allWanted r' member)) same]

theorem Store.Holds.exists_networks (h : store.Holds collection) (mode : Analysis.Mode)
    (query : Query) :
    ∃ relationships rebuilt, (store.analysis .never mode).networks query = .ok rebuilt ∧
      rebuilt.Follows relationships ∧ ∀ r, r ∈ relationships ↔ collection.Wants query r := by
  obtain ⟨relationships, run, all⟩ := h.exists_recorded mode query
  have narrowed : (store.analysis .never mode).recorded ((store.analysis .never mode).narrow query) =
      .ok relationships := by
    rw [← run, Analysis.recorded, Analysis.select_narrow _ query h.plain, Analysis.recorded]
  obtain ⟨rebuilt, built, follows⟩ := Analysis.exists_networks narrowed
  exact ⟨relationships, rebuilt, built, follows, all⟩

theorem Store.Holds.exists_relationships (h : store.Holds collection) (mode : Analysis.Mode)
    (query : Query) :
    ∃ relationships, (store.analysis .never mode).relationships query = .ok relationships ∧
      ∀ r, r ∈ relationships ↔ collection.Wants query r := by
  by_cases plain : mode = .all
  · subst plain
    exact h.exists_recorded .all query
  · obtain ⟨log, rebuilt, built, follows, all⟩ := h.exists_networks mode query
    refine ⟨_, Analysis.relationships_of_networks plain built, fun r => ?_⟩
    have effective : ∀ r ∈ log, collection.effectiveAt r.baseSet r.identity = some r :=
      fun r member => h.sound.effectiveAt_of_wants ((all r).mp member)
    rw [follows.mem_relationships_iff, all]
    · exact fun r member => (h.sound.of_effectiveAt (effective r member)).2.2
    · intro r member r' member' same
      obtain ⟨base, identity⟩ := Relationship.address_eq_iff.mp same
      have found := effective r member
      rw [base, identity, effective r' member'] at found
      exact (Option.some.inj found).symm

end Stored

namespace Collection

variable {collection rebuilt : Collection} {log : Log} {r : Relationship} {baseSet : BaseSet}
  {index : Index}

theorem selects_ofBaseSet {rootsOnly root : Bool} :
    ({ Query.ofBaseSet baseSet with rootsOnly } : Query).selects (.ofRelationship r root) = true ↔
      r.baseSet = baseSet ∧ (rootsOnly = true → root = true) := by
  obtain ⟨arcRole, linkRole⟩ := baseSet
  rw [eq_comm (a := r.baseSet)]
  cases rootsOnly <;> simp [Query.selects, Query.ofBaseSet, Query.all, Record.ofRelationship,
    Relationship.baseSet]

/-- A fragment is a root of a network that has been rebuilt if something effective leads out of it
    and nothing effective leads into it. -/
theorem Follows.mem_roots (h : rebuilt.Follows log) : index ∈ rebuilt.roots baseSet ↔
    (∃ r ∈ log, r.baseSet = baseSet ∧ r.source.index = index) ∧
      ∀ r ∈ log, r.baseSet = baseSet → r.target.index ≠ index := by
  unfold roots
  cases found : rebuilt.network? baseSet with
  | none =>
      have nothing := h.missing baseSet found
      simp only [Log.ofBaseSet, List.filter_eq_nil_iff, decide_eq_true_eq] at nothing
      constructor
      · intro member
        cases member
      · rintro ⟨⟨r, member, base, _⟩, _⟩
        exact absurd base (nothing r member)
  | some network =>
      have follows := (h.networks baseSet network found).2
      rw [Option.map_some, Option.getD_some, Network.mem_roots, follows.mem_sources_iff,
        follows.mem_targets_iff]
      simp [Log.ofBaseSet, and_assoc]

theorem ascending_roots (collection : Collection) (baseSet : BaseSet) :
    Ascending compare (collection.roots baseSet) := by
  unfold roots
  cases collection.network? baseSet with
  | none => exact .nil
  | some network => exact network.ascending_roots

end Collection

/-- A root is recorded if something effective leads out of it and no bucket leads into it. -/
theorem Store.Holds.exists_wants_iff {store : Store} {collection : Collection}
    (h : store.Holds collection) {baseSet : BaseSet} {index : Index} :
    (∃ r, collection.Wants { Query.ofBaseSet baseSet with rootsOnly := true } r ∧
        r.source.index = index) ↔
      (∃ r, collection.Wants (Query.ofBaseSet baseSet) r ∧ r.source.index = index) ∧
        index ∉ collection.entered baseSet := by
  have entered : ∀ network, collection.network? baseSet = some network →
      collection.entered baseSet = network.targets := by
    intro network found
    rw [Collection.entered, found, Option.map_some, Option.getD_some]
  constructor
  · rintro ⟨r, ⟨network, found, member, selected⟩, rfl⟩
    obtain ⟨rfl, flagged⟩ := Collection.selects_ofBaseSet.mp selected
    have isRoot := List.contains_iff_mem.mp (flagged rfl)
    refine ⟨⟨r, ⟨network, found, member, ?_⟩, rfl⟩, ?_⟩
    · exact Collection.selects_ofBaseSet.mpr ⟨rfl, fun no => by cases no⟩
    · rw [entered network found]
      exact (Network.mem_roots.mp isRoot).2
  · rintro ⟨⟨r, ⟨network, found, member, selected⟩, rfl⟩, outside⟩
    obtain ⟨rfl, _⟩ := Collection.selects_ofBaseSet.mp selected
    rw [entered network found] at outside
    obtain ⟨log, follows⟩ := (h.sound _ network found).1.follows
    have effective := follows.mem_relationships.mp member
    rw [follows.effectiveAt_eq] at effective
    have inLog := (Log.mem_of_effective? effective).1
    have isRoot := Network.mem_roots.mpr ⟨follows.mem_sources_iff.mpr ⟨r, inLog, rfl⟩, outside⟩
    exact ⟨r, ⟨network, found, member,
      Collection.selects_ofBaseSet.mpr ⟨rfl, fun _ => List.contains_iff_mem.mpr isRoot⟩⟩, rfl⟩

theorem Store.Holds.mem_entered {store : Store} {collection : Collection}
    (h : store.Holds collection) {baseSet : BaseSet} {r : Relationship}
    (wants : collection.Wants (Query.ofBaseSet baseSet) r) :
    r.baseSet = baseSet ∧ r.target.index ∈ collection.entered baseSet := by
  obtain ⟨network, found, member, selected⟩ := wants
  obtain ⟨rfl, _⟩ := Collection.selects_ofBaseSet.mp selected
  obtain ⟨log, follows⟩ := (h.sound _ network found).1.follows
  rw [Collection.entered, found, Option.map_some, Option.getD_some]
  exact ⟨rfl, follows.mem_targets member⟩

/-- The recorded roots are those of the network that is rebuilt, but for the fragments that some
    bucket of the documents' network leads into. -/
theorem Store.roots_eq_filter {store next : Store} {outage : Outage} {clock : Clock}
    {limit : Option Duration} {tally : Ledger.Tally} (vacant : store.ledger = ∅)
    (passed : store.storeAll outage clock limit = (.ok tally, next))
    (mode : Analysis.Mode) (baseSet : BaseSet) :
    ∃ collection calls rebuilt, next.networks .never none = .ok (collection, calls) ∧
      (next.analysis .never mode).networks (Query.ofBaseSet baseSet) = .ok rebuilt ∧
      (next.analysis .never mode).roots baseSet = .ok ((rebuilt.roots baseSet).filter fun index =>
        !(collection.entered baseSet).contains index) := by
  obtain ⟨collection, calls, defined, holds⟩ := holds_of_storeAll vacant passed
  obtain ⟨log, rebuilt, built, follows, all⟩ := holds.exists_networks mode (Query.ofBaseSet baseSet)
  obtain ⟨relationships, reported, wanted⟩ :=
    holds.exists_relationships mode { Query.ofBaseSet baseSet with rootsOnly := true }
  refine ⟨collection, calls, rebuilt, defined, built, ?_⟩
  have answer : (next.analysis .never mode).roots baseSet =
      .ok (distinct (relationships.map fun r => r.source.index)) := by
    rw [Analysis.roots, reported]
    rfl
  rw [answer]
  congr 1
  refine (ascending_distinct _).eq_of_mem_iff ((rebuilt.ascending_roots baseSet).filter _)
    fun index => ?_
  simp only [mem_distinct, List.mem_map, wanted, List.mem_filter, Bool.not_eq_true',
    ← Bool.not_eq_true, List.contains_iff_mem, holds.exists_wants_iff, follows.mem_roots]
  simp only [all]
  refine and_congr_left fun outside => ?_
  constructor
  · rintro ⟨r, wants, rfl⟩
    refine ⟨⟨r, wants, (holds.mem_entered wants).1, rfl⟩, fun other wants' _ same => ?_⟩
    exact outside (same ▸ (holds.mem_entered wants').2)
  · rintro ⟨⟨r, wants, _, same⟩, _⟩
    exact ⟨r, wants, same⟩

/-- A fragment that only a prohibited arc leads into is a root of the network that is rebuilt, and
    is not recorded as one. -/
theorem Store.roots_ne_of_prohibited : ∃ store next : Store, ∃ clock tally,
    store.ledger = ∅ ∧ store.storeAll .never clock none = (.ok tally, next) ∧
      (next.analysis .never .activeOnly).roots ⟨"A", "L"⟩ = .ok [] ∧
      ((next.analysis .never .activeOnly).networks (Query.ofBaseSet ⟨"A", "L"⟩)).map
        (fun rebuilt => rebuilt.roots ⟨"A", "L"⟩) = .ok ["t"] := by
  let prohibiting : Arc := { Arc.plain "x" "A" "k" with use := .prohibited }
  let store := (Store.empty .inMemory).load (DocumentEntry.sample [prohibiting] ++
    [.fragment ⟨"u", .concept, none⟩, .member "link" "r" "u",
      .arc "link" "q" "r" (.plain "y" "A" "k")])
  have passed : store.storeAll .never id none = (.ok ⟨1, 0⟩, (store.storeAll .never id none).2) :=
    storeAll_eq_mk (by decide +kernel)
  exact ⟨store, _, id, _, rfl, passed, by decide +kernel, by decide +kernel⟩

/-- Of two roots of the network that is rebuilt, the one that a prohibited arc leads into is not
    recorded. -/
theorem Store.roots_eq_of_sample : ∃ store next : Store, ∃ clock tally, ∃ rebuilt : Collection,
    store.ledger = ∅ ∧ store.storeAll .never clock none = (.ok tally, next) ∧
      (next.analysis .never .all).networks (Query.ofBaseSet ⟨"A", "L"⟩) = .ok rebuilt ∧
      rebuilt.roots ⟨"A", "L"⟩ = ["t", "v"] ∧
      (next.analysis .never .all).roots ⟨"A", "L"⟩ = .ok ["v"] := by
  let prohibiting : Arc := { Arc.plain "x" "A" "k" with use := .prohibited }
  let store := (Store.empty .inMemory).load (DocumentEntry.sample [prohibiting] ++
    [.fragment ⟨"u", .concept, none⟩, .fragment ⟨"v", .concept, none⟩, .member "link" "r" "u",
      .member "link" "o" "v", .arc "link" "q" "r" (.plain "y" "A" "k"),
      .arc "link" "o" "r" (.plain "z" "A" "k")])
  let next := (store.storeAll .never id none).2
  have passed : store.storeAll .never id none = (.ok ⟨2, 0⟩, next) :=
    storeAll_eq_mk (by decide +kernel)
  have roots : ((next.analysis .never .all).networks (Query.ofBaseSet ⟨"A", "L"⟩)).map
      (fun rebuilt => rebuilt.roots ⟨"A", "L"⟩) = .ok ["t", "v"] := by
    decide +kernel
  have entered : (next.networks .never none).toOption.map (fun all =>
      all.1.entered ⟨"A", "L"⟩) = some ["t", "u"] := by
    decide +kernel
  obtain ⟨collection, calls, rebuilt, defined, built, answer⟩ :=
    roots_eq_filter rfl passed .all ⟨"A", "L"⟩
  rw [built] at roots
  rw [defined] at entered
  have roots : rebuilt.roots ⟨"A", "L"⟩ = ["t", "v"] := Except.ok.inj roots
  have entered : collection.entered ⟨"A", "L"⟩ = ["t", "u"] := Option.some.inj entered
  rw [roots, entered] at answer
  exact ⟨store, next, id, _, rebuilt, rfl, passed, built, roots, answer⟩

end XbrlNetworks
