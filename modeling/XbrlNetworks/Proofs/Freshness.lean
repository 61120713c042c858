import XbrlNetworks.Proofs.RoundTrip
import XbrlNetworks.Proofs.Storing

/-! # How fresh stored relationships are

A pass puts a record for every effective relationship and strikes the address
of every bucket in which nothing is effective.  What it never touches is the
address of a bucket that is there no more: when an arc is loaded again with
another key, the record of its old bucket stays.
-/

namespace XbrlNetworks

open Std

/-- Stores that start without stored relationships and are loaded and passed over in turns.  A
    pass may fail. -/
inductive Store.Reachable : Store → Prop where
  | start {store : Store} : store.ledger = ∅ → Reachable store
  | load {store : Store} (entries : List DocumentEntry) :
    Reachable store → Reachable (store.load entries)
  | storeAll {store next : Store} {outage : Outage} {clock : Clock} {limit : Option Duration}
    {result : Except Problem Ledger.Tally} :
    Reachable store → store.storeAll outage clock limit = (result, next) → Reachable next

/-- The records that stand for the effective relationships of a network. -/
def Network.entries (network : Network) : List Record :=
  network.relationships.map fun r =>
    .ofRelationship r (network.roots.contains r.source.index)

def Collection.entries (collection : Collection) : List Record :=
  collection.networks.flatMap Network.entries

/-- The bucket that an address is about, if there is one. -/
def Collection.bucketAt? (collection : Collection) (address : Record.Address) : Option Bucket :=
  (collection.network? ⟨address.arcRole, address.linkRole⟩).bind fun network =>
    network.bucketAt? ⟨address.key, address.source, address.target⟩

namespace Collection

variable {collection : Collection} {record : Record}

theorem Sound.mem_entries (h : collection.Sound) :
    record ∈ collection.entries ↔ .put record ∈ collection.changes := by
  simp only [entries, changes, List.mem_flatMap]
  refine exists_congr fun network => and_congr_right fun member => ?_
  obtain ⟨_, log, follows⟩ := h.of_mem_networks member
  rw [follows.mem_changes, Network.entries, List.mem_map]
  simp only [follows.mem_relationships, Network.effectiveAt_eq_filter, Option.filter_eq_some_iff,
    Relationship.change]
  constructor
  · rintro ⟨r, ⟨active, asserts⟩, rfl⟩
    exact ⟨r, active, by simp_all⟩
  · rintro ⟨r, active, asked⟩
    split at asked
    · cases asked
    · rename_i asserts
      cases asked
      exact ⟨r, ⟨active, by simpa using asserts⟩, rfl⟩

theorem Sound.pairwise_networks (h : collection.Sound) :
    collection.networks.Pairwise fun network other => network.baseSet ≠ other.baseSet :=
  List.pairwise_map.mp h.ascending_networks.nodup

end Collection

theorem Network.Follows.nodup_entries {network : Network} {log : Log} (h : network.Follows log) :
    network.entries.Nodup := by
  refine List.Nodup.map_on ?_ h.nodup_relationships
  intro r member r' member' same
  have address : r.address = r'.address := congrArg Record.address same
  have effective := h.mem_relationships.mp member
  rw [(Relationship.address_eq_iff.mp address).2, h.mem_relationships.mp member'] at effective
  exact (Option.some.inj effective).symm

namespace Collection

variable {collection : Collection}

theorem Sound.nodup_entries (h : collection.Sound) : collection.entries.Nodup := by
  rw [entries, List.nodup_flatMap]
  constructor
  · intro network member
    obtain ⟨_, log, follows⟩ := h.of_mem_networks member
    exact follows.nodup_entries
  · refine List.Pairwise.imp_of_mem ?_ h.pairwise_networks
    intro network network' member member' different record inside inside'
    obtain ⟨r, effective, rfl⟩ := List.mem_map.mp inside
    obtain ⟨r', effective', same⟩ := List.mem_map.mp inside'
    obtain ⟨_, log, follows⟩ := h.of_mem_networks member
    obtain ⟨_, log', follows'⟩ := h.of_mem_networks member'
    have address : r'.address = r.address := congrArg Record.address same
    apply different
    rw [← follows.baseSet_eq effective, ← follows'.baseSet_eq effective',
      (Relationship.address_eq_iff.mp address).1]

theorem Sound.exists_change_iff (h : collection.Sound) {address : Record.Address} :
    (∃ change ∈ collection.changes, change.address = address) ↔
      (collection.bucketAt? address).isSome = true := by
  simp only [h.mem_changes]
  constructor
  · rintro ⟨_, ⟨network, r, found, active, rfl⟩, rfl⟩
    obtain ⟨bucket, there, _⟩ := Option.bind_eq_some_iff.mp active
    have here : collection.bucketAt? r.address = some bucket :=
      Option.bind_eq_some_iff.mpr ⟨network, found, there⟩
    rw [r.address_change, here, Option.isSome_some]
  · intro there
    obtain ⟨bucket, there⟩ := Option.isSome_iff_exists.mp there
    obtain ⟨network, found, there⟩ := Option.bind_eq_some_iff.mp there
    obtain ⟨reached, base⟩ := h _ network found
    obtain ⟨log, follows⟩ := reached.follows
    obtain ⟨r, active⟩ := follows.exists_activeAt there
    obtain ⟨member, identity⟩ := follows.mem_of_activeAt active
    have here : r.address = address := by
      have own := (follows.own r member).trans base
      cases address
      simp only [Relationship.baseSet, BaseSet.mk.injEq] at own
      simp only [Relationship.identity, Bucket.Identity.mk.injEq] at identity
      simp only [Relationship.address, own, identity]
    refine ⟨r.change network.roots, ⟨network, r, ?_, ?_, rfl⟩, (r.address_change _).trans here⟩
    · rw [follows.own r member, base, found]
    · rw [identity, active]

/-- Once the changes of a collection are made, a record that stands is one of its entries, or has
    stood before where the collection has no bucket. -/
theorem Sound.getElem?_foldl_eq_some_iff (h : collection.Sound) (ledger : Ledger)
    {record : Record} :
    (collection.changes.foldl Ledger.apply ledger)[record.address]? = some record ↔
      record ∈ collection.entries ∨ ¬ (collection.bucketAt? record.address).isSome = true ∧
        ledger[record.address]? = some record := by
  rw [h.mem_entries, ← h.exists_change_iff]
  by_cases asked : ∃ change ∈ collection.changes, change.address = record.address
  · obtain ⟨change, member, here⟩ := asked
    rw [← here, h.getElem?_foldl_of_mem ledger member]
    constructor
    · intro found
      cases change with
      | put put =>
          cases found
          exact .inl member
      | strike _ => cases found
    · rintro (member' | ⟨nothing, _⟩)
      · rw [h.change_eq_of_address_eq member member' here]
        rfl
      · exact absurd ⟨change, member, rfl⟩ nothing
  · rw [Ledger.getElem?_foldl_of_forall_ne fun change member here => asked ⟨change, member, here⟩]
    constructor
    · exact fun stood => .inr ⟨asked, stood⟩
    · rintro (member | ⟨_, stood⟩)
      · exact absurd ⟨_, member, rfl⟩ asked
      · exact stood

end Collection

/-- After a pass a record stands for every effective relationship of the networks that the
    documents define.  No other record is left just when none stood where these networks have no
    bucket. -/
theorem Store.records_perm_entries_iff {store next : Store} {outage : Outage}
    {clock : Clock} {limit : Option Duration} {tally : Ledger.Tally}
    (passed : store.storeAll outage clock limit = (.ok tally, next)) :
    ∃ collection calls, next.networks .never none = .ok (collection, calls) ∧
      (∀ record ∈ collection.entries, record ∈ next.ledger.records) ∧
      (next.ledger.records.Perm collection.entries ↔
        ∀ record ∈ store.ledger.records,
          (collection.bucketAt? record.address).isSome = true) := by
  obtain ⟨collection, calls, defined, rfl⟩ := storeAll_eq_ok passed
  have sound := (reachable_networks defined).sound
  have stands : ∀ record,
      record ∈ Ledger.records (collection.changes.foldl Ledger.apply store.ledger) ↔
        record ∈ collection.entries ∨ ¬ (collection.bucketAt? record.address).isSome = true ∧
          record ∈ store.ledger.records := by
    intro record
    rw [Ledger.mem_records, Ledger.mem_records, sound.getElem?_foldl_eq_some_iff]
  refine ⟨collection, calls, defined, fun record entered => (stands record).mpr (.inl entered), ?_⟩
  constructor
  · intro same record member
    by_contra uncovered
    -- No change is about this record, so it is still there without being an entry.
    have entered := same.mem_iff.mp ((stands record).mpr (.inr ⟨uncovered, member⟩))
    exact uncovered (sound.exists_change_iff.mp ⟨_, sound.mem_entries.mp entered, rfl⟩)
  · intro covered
    refine (List.perm_ext_iff_of_nodup (Ledger.nodup_records _) sound.nodup_entries).mpr
      fun record => (stands record).trans ⟨?_, .inl⟩
    rintro (entered | ⟨uncovered, member⟩)
    · exact entered
    · exact absurd (covered record member) uncovered

/-- The record of an arc that is loaded again with another key survives the next pass. -/
theorem Store.not_perm_entries_of_rekeyed : ∃ store next clock tally collection calls,
    Store.Reachable store ∧ store.storeAll .never clock none = (.ok tally, next) ∧
      next.networks .never none = .ok (collection, calls) ∧
      ¬ next.ledger.records.Perm collection.entries := by
  let clock : Clock := id
  let start := (Store.empty .inMemory).load (DocumentEntry.sample [.plain "x" "A" "k"])
  let store := (start.storeAll .never clock none).2.load
    (DocumentEntry.sample [.plain "x" "A" "other"])
  have reached : store.Reachable :=
    .load _ (.storeAll (.load _ (.start rfl)) (storeAll_eq_mk rfl))
  have passed : store.storeAll .never clock none =
      (.ok ⟨1, 0⟩, (store.storeAll .never clock none).2) :=
    storeAll_eq_mk (by decide +kernel)
  have defined : (store.networks .never none).toOption.map (fun all => all.1.entries.length) =
      some 1 := by
    decide +kernel
  have left : (store.storeAll .never clock none).2.ledger.records.length = 2 := by decide +kernel
  obtain ⟨collection, calls, found, same⟩ := storeAll_eq_ok passed
  rw [found] at defined
  have defines : (store.storeAll .never clock none).2.networks .never none =
      .ok (collection, calls) := by
    rw [same, networks_ledger, found]
  refine ⟨store, _, clock, _, collection, calls, reached, passed, defines, fun perm => ?_⟩
  have one : collection.entries.length = 1 := Option.some.inj defined
  rw [perm.length_eq, one] at left
  cases left

/-- An arc that comes to be prohibited keeps its bucket, so its record is struck and nothing is
    left over. -/
theorem Store.records_perm_of_prohibited : ∃ store next clock tally collection calls,
    Store.Reachable store ∧ store.ledger.records.length = 1 ∧
      store.storeAll .never clock none = (.ok tally, next) ∧
      next.networks .never none = .ok (collection, calls) ∧
      next.ledger.records.Perm collection.entries := by
  let clock : Clock := id
  let start := (Store.empty .inMemory).load (DocumentEntry.sample [.plain "x" "A" "k"])
  let store := (start.storeAll .never clock none).2.load
    (DocumentEntry.sample [{ Arc.plain "y" "A" "k" with use := .prohibited, priority := 1 }])
  have reached : store.Reachable :=
    .load _ (.storeAll (.load _ (.start rfl)) (storeAll_eq_mk rfl))
  have passed : store.storeAll .never clock none =
      (.ok ⟨0, 1⟩, (store.storeAll .never clock none).2) :=
    storeAll_eq_mk (by decide +kernel)
  have covered : (store.networks .never none).toOption.map (fun all =>
      store.ledger.records.all fun record => (all.1.bucketAt? record.address).isSome) =
        some true := by
    decide +kernel
  obtain ⟨collection, calls, defined, _, perm_iff⟩ := records_perm_entries_iff passed
  obtain ⟨_, _, found, same⟩ := storeAll_eq_ok passed
  refine ⟨store, _, clock, _, collection, calls, reached, by decide +kernel, passed, defined,
    perm_iff.mpr ?_⟩
  rw [same, networks_ledger] at defined
  rw [defined] at covered
  exact List.all_eq_true.mp (Option.some.inj covered)

end XbrlNetworks
