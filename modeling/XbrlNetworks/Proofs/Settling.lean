import XbrlNetworks.Proofs.Freshness
import XbrlNetworks.Proofs.Identities

/-! # What a collection settles in a ledger

Every bucket of a collection has an address of its own.  So the changes that the
buckets ask for never undo one another: posting settles what stands at each of
these addresses, leaves every other address alone, and counts a record as removed
just when it stood in the ledger before.
-/

namespace XbrlNetworks

open Std

def Collection.buckets (collection : Collection) : List Bucket :=
  collection.networks.flatMap fun network => network.buckets.toList

/-- The address that a bucket is about: that of its active relationship. -/
def Bucket.address? (bucket : Bucket) : Option Record.Address :=
  bucket.active?.map Relationship.address

namespace Ledger

variable {ledger : Ledger} {tally : Tally} {calls : Nat}

def removes (ledger : Ledger) : Change → Bool
  | .put _ => false
  | .strike address => (ledger.delete address).1

theorem removes_apply {change later : Change} (different : change.address ≠ later.address) :
    (ledger.apply change).removes later = ledger.removes later := by
  cases later with
  | put record => rfl
  | strike address =>
      have elsewhere : change.address ≠ address := different
      have same := ledger.getElem?_apply change address
      rw [if_neg elsewhere] at same
      rw [removes, removes, fst_delete, fst_delete, contains, contains, same]

theorem count_eq (ledger : Ledger) (tally : Tally) (change : Change) :
    ledger.count tally change = ⟨tally.stored + change.record?.isSome.toNat,
      tally.removed + (ledger.removes change).toNat⟩ := by
  cases change with
  | put record => rfl
  | strike address => rfl

/-- Changes at different addresses are counted as if each were the first. -/
theorem result_post_never {changes : List Change}
    (apart : changes.Pairwise fun change later => change.address ≠ later.address) :
    (post .never (changes.map .ok) ledger tally calls).result =
      .ok ⟨tally.stored + changes.countP (·.record?.isSome),
        tally.removed + changes.countP ledger.removes⟩ := by
  induction apart generalizing ledger tally calls with
  | nil => rfl
  | @cons change changes different _ ih =>
      -- The first change leaves the others their addresses as they were.
      have unchanged : changes.countP (ledger.apply change).removes =
          changes.countP ledger.removes :=
        List.countP_congr fun later member => by rw [removes_apply (different later member)]
      change (post .never (changes.map .ok) (ledger.apply change) (ledger.count tally change)
        (calls + 1)).result = _
      rw [ih, unchanged, count_eq, List.countP_cons, List.countP_cons]
      simp only [Bool.toNat, Bool.cond_eq_ite, Nat.add_assoc, Nat.add_comm, Nat.add_left_comm]

theorem result_postAll_never {changes : List Change}
    (apart : changes.Pairwise fun change later => change.address ≠ later.address)
    (ledger : Ledger) : (ledger.postAll .never (changes.map .ok)).result =
      .ok ⟨changes.countP (·.record?.isSome), changes.countP ledger.removes⟩ := by
  rw [postAll, result_post_never apart, Nat.zero_add, Nat.zero_add]

end Ledger

theorem Relationship.record?_change (r : Relationship) (roots : List Index) :
    (r.change roots).record? =
      if r.isProhibited then none else some (.ofRelationship r (roots.contains r.source.index)) := by
  unfold change
  split
  · rfl
  · rfl

namespace Network

variable {network : Network} {log : Log}

theorem Coherent.pairwise_buckets (h : network.Coherent) :
    network.buckets.toList.Pairwise fun bucket other => bucket.identity ≠ other.identity := by
  rw [← List.pairwise_map (f := Bucket.identity) (R := fun first second => first ≠ second),
    ← h.map_some_identities]
  exact h.nodup_identities.map (Option.some_injective _)

theorem Follows.exists_active (h : network.Follows log) {bucket : Bucket}
    (member : bucket ∈ network.buckets.toList) : ∃ active, bucket.active? = some active ∧
      bucket.identity = some active.identity ∧ active.baseSet = network.baseSet := by
  obtain ⟨identity, there⟩ := h.coherent.mem_buckets.mp member
  obtain ⟨active, found⟩ := h.exists_activeAt there
  obtain ⟨inLog, rfl⟩ := h.mem_of_activeAt found
  refine ⟨active, ?_, (h.coherent.sound_of_bucketAt? there).seeded, h.own active inLog⟩
  rwa [activeAt, there, Option.bind_some] at found

theorem Follows.pairwise_changes (h : network.Follows log) :
    network.changes.Pairwise fun change later => change.address ≠ later.address := by
  rw [changes, List.pairwise_filterMap]
  refine List.Pairwise.imp_of_mem ?_ h.coherent.pairwise_buckets
  intro bucket bucket' member member' different change asked change' asked' same
  obtain ⟨active, found, identity, _⟩ := h.exists_active member
  obtain ⟨active', found', identity', _⟩ := h.exists_active member'
  rw [found, Option.map_some, Option.some.injEq] at asked
  rw [found', Option.map_some, Option.some.injEq] at asked'
  rw [← asked, ← asked', Relationship.address_change, Relationship.address_change,
    Relationship.address_eq_iff] at same
  exact different (by rw [identity, identity', same.2])

theorem Follows.countP_changes (h : network.Follows log) {asks : Ledger.Change → Bool}
    {counts : Bucket → Bool} (same : ∀ bucket active, bucket.active? = some active →
      asks (active.change network.roots) = counts bucket) :
    network.changes.countP asks = network.buckets.toList.countP counts := by
  rw [changes, List.countP_filterMap]
  refine List.countP_congr fun bucket member => ?_
  obtain ⟨active, found, _⟩ := h.exists_active member
  simp [found, same bucket active found]

end Network

namespace Collection

variable {collection : Collection}

theorem Sound.pairwise_changes (h : collection.Sound) :
    collection.changes.Pairwise fun change later => change.address ≠ later.address := by
  rw [changes, List.pairwise_flatMap]
  refine ⟨fun network member => ?_, ?_⟩
  · obtain ⟨_, log, follows⟩ := h.of_mem_networks member
    exact follows.pairwise_changes
  · refine List.Pairwise.imp_of_mem ?_ h.pairwise_networks
    intro network network' member member' different change asked change' asked' same
    obtain ⟨_, log, follows⟩ := h.of_mem_networks member
    obtain ⟨_, log', follows'⟩ := h.of_mem_networks member'
    obtain ⟨r, active, rfl⟩ := follows.mem_changes.mp asked
    obtain ⟨r', active', rfl⟩ := follows'.mem_changes.mp asked'
    rw [r.address_change, r'.address_change, Relationship.address_eq_iff,
      follows.own r (follows.mem_of_activeAt active).1,
      follows'.own r' (follows'.mem_of_activeAt active').1] at same
    exact different same.1

theorem Sound.countP_changes (h : collection.Sound) {asks : Ledger.Change → Bool}
    {counts : Bucket → Bool} (same : ∀ bucket active roots, bucket.active? = some active →
      asks (active.change roots) = counts bucket) :
    collection.changes.countP asks = collection.buckets.countP counts := by
  rw [changes, buckets, List.countP_flatMap, List.countP_flatMap]
  congr 1
  refine List.map_congr_left fun network member => ?_
  obtain ⟨_, log, follows⟩ := h.of_mem_networks member
  exact follows.countP_changes fun bucket active => same bucket active network.roots

theorem Sound.result_postAll (h : collection.Sound) (ledger : Ledger) :
    (ledger.postAll .never collection.requests).result =
      .ok ⟨collection.buckets.countP fun bucket => !bucket.isProhibited,
        collection.buckets.countP fun bucket =>
          bucket.isProhibited && bucket.address?.any ledger.contains⟩ := by
  have stored : collection.changes.countP (·.record?.isSome) =
      collection.buckets.countP fun bucket => !bucket.isProhibited := by
    refine h.countP_changes fun bucket active roots found => ?_
    rw [active.record?_change, Bucket.isProhibited, found, Option.any_some]
    cases active.isProhibited with
    | true => rfl
    | false => rfl
  have removed : collection.changes.countP ledger.removes =
      collection.buckets.countP fun bucket =>
        bucket.isProhibited && bucket.address?.any ledger.contains := by
    refine h.countP_changes fun bucket active roots found => ?_
    rw [Relationship.change, Bucket.isProhibited, Bucket.address?, found, Option.any_some,
      Option.map_some, Option.any_some]
    cases active.isProhibited with
    | true => exact ledger.fst_delete active.address
    | false => rfl
  rw [requests_eq, Ledger.result_postAll_never h.pairwise_changes, stored, removed]

theorem change_mem_changes {network : Network} (member : network ∈ collection.networks)
    {bucket : Bucket} (inside : bucket ∈ network.buckets.toList) {active : Relationship}
    (found : bucket.active? = some active) :
    active.change network.roots ∈ collection.changes :=
  List.mem_flatMap.mpr ⟨network, member, List.mem_filterMap.mpr ⟨bucket, inside, by simp [found]⟩⟩

/-- Posting a collection settles the addresses of its buckets and no other: where the active
    relationship of a bucket asserts, its record stands, and where it prohibits, none does.  Records
    are counted as stored for the former, and as removed for the latter that had one; what prohibits
    is never put. -/
theorem Reachable.postAll_settles (h : collection.Reachable) (ledger : Ledger) :
    (∀ network ∈ collection.networks, ∀ bucket ∈ network.buckets.toList,
      ∃ active, bucket.active? = some active ∧
        (ledger.postAll .never collection.requests).ledger[active.address]? =
          if active.isProhibited then none
          else some (.ofRelationship active (network.roots.contains active.source.index))) ∧
    (∀ address, (∀ bucket ∈ collection.buckets, bucket.address? ≠ some address) →
      (ledger.postAll .never collection.requests).ledger[address]? = ledger[address]?) ∧
    (ledger.postAll .never collection.requests).result =
      .ok ⟨collection.buckets.countP fun bucket => !bucket.isProhibited,
        collection.buckets.countP fun bucket =>
          bucket.isProhibited && bucket.address?.any ledger.contains⟩ ∧
    ∀ record, .ok (.put record) ∈ collection.requests → record.prohibited = false := by
  have sound := h.sound
  have posted := sound.result_postAll ledger
  have carriedOut : (ledger.postAll .never collection.requests).ledger =
      collection.changes.foldl Ledger.apply ledger := ledger_postAll posted
  rw [carriedOut]
  refine ⟨?_, ?_, posted, ?_⟩
  · intro network member bucket inside
    obtain ⟨_, log, follows⟩ := sound.of_mem_networks member
    obtain ⟨active, found, _⟩ := follows.exists_active inside
    have settled := sound.getElem?_foldl_of_mem ledger (change_mem_changes member inside found)
    rw [active.address_change, active.record?_change] at settled
    exact ⟨active, found, settled⟩
  · intro address elsewhere
    refine Ledger.getElem?_foldl_of_forall_ne fun change asked here => ?_
    obtain ⟨network, member, asked⟩ := List.mem_flatMap.mp asked
    obtain ⟨bucket, inside, asked⟩ := List.mem_filterMap.mp asked
    obtain ⟨active, found, rfl⟩ := Option.map_eq_some_iff.mp asked
    rw [active.address_change] at here
    refine elsewhere bucket (List.mem_flatMap.mpr ⟨network, member, inside⟩) ?_
    rw [Bucket.address?, found, Option.map_some, here]
  · intro record put
    obtain ⟨network, active, _, _, asked⟩ := sound.mem_changes.mp (ok_mem_requests.mp put)
    have stands := active.record?_change network.roots
    rw [asked] at stands
    split at stands
    · cases stands
    · rename_i asserts
      cases stands
      exact Bool.eq_false_iff.mpr asserts

/-- One bucket replaces a record, the other strikes one, and a third record is left alone. -/
theorem postAll_settles_of_three_records : ∃ collection : Collection, ∃ ledger : Ledger,
    collection.Reachable ∧ ledger.records.length = 3 ∧
      (ledger.postAll .never collection.requests).result = .ok ⟨1, 1⟩ ∧
      (ledger.postAll .never collection.requests).ledger.records.length = 2 ∧
      (ledger.postAll .never collection.requests).ledger[
          (Relationship.sample "x" "v" "w" .optional).address]? =
        ledger[(Relationship.sample "x" "v" "w" .optional).address]? := by
  let documents := Documents.empty.load (DocumentEntry.sample
    [.plain "x" "A" "k", { Arc.plain "y" "A" "j" with use := .prohibited }])
  let network := (Network.openFor (.sample "x" "s" "t" .optional)).fill
    ⟨documents.catalogue, .never⟩ none 0
  let collection := Collection.empty.put network.network
  let other : Record := .ofRelationship (.sample "x" "v" "w" .optional) true
  let ledger : Ledger := (((∅ : Ledger).put other).put { other with
    source := "s", target := "t", key := "k", root := false }).put { other with
    source := "s", target := "t", key := "j" }
  have reached : collection.Reachable :=
    .put .empty (.fill _ _ _ (Network.reachable_openFor _))
  obtain ⟨_, frame, counted, _⟩ := reached.postAll_settles ledger
  exact ⟨collection, ledger, reached, by decide +kernel, counted.trans (by decide +kernel),
    by decide +kernel, frame _ (by decide +kernel)⟩

end Collection

end XbrlNetworks
