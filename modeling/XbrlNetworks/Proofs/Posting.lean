import XbrlNetworks.Ledger.Posting
import XbrlNetworks.Proofs.Collections
import XbrlNetworks.Proofs.Table

/-! # What posting leaves in a ledger

No bucket is refused, since one that prohibits does not ask for a record.  The last
change at an address decides what stands there.  The changes that a collection asks
for have different addresses, one for each of its buckets, so each of them has its
effect.
-/

namespace XbrlNetworks

open Std

namespace Ledger

def Change.address : Change → Record.Address
  | .put record => record.address
  | .strike address => address

/-- What stands at its address after a change. -/
def Change.record? : Change → Option Record
  | .put record => some record
  | .strike _ => none

theorem getElem?_apply (ledger : Ledger) (change : Change) (address : Record.Address) :
    (ledger.apply change)[address]? =
      if change.address = address then change.record? else ledger[address]? := by
  cases change with
  | put record => exact ledger.getElem?_put record address
  | strike struck => exact ledger.getElem?_erase struck address

/-- What stands at an address was put or struck there last, or has always stood there. -/
theorem getElem?_foldl_apply (ledger : Ledger) (changes : List Change)
    (address : Record.Address) :
    (changes.foldl apply ledger)[address]? =
      match changes.reverse.find? fun change => decide (change.address = address) with
      | some change => change.record?
      | none => ledger[address]? := by
  -- The last change is found first, so the changes are taken apart at their end.
  induction changes using List.reverseRecOn with
  | nil => rfl
  | append_singleton changes change ih =>
      rw [List.foldl_append, List.foldl_cons, List.foldl_nil, getElem?_apply, List.reverse_append,
        List.reverse_singleton, List.singleton_append, List.find?_cons]
      by_cases here : change.address = address
      · simp [here]
      · simp [here, ih]

theorem getElem?_foldl_of_forall_ne {ledger : Ledger} {changes : List Change}
    {address : Record.Address} (other : ∀ change ∈ changes, change.address ≠ address) :
    (changes.foldl apply ledger)[address]? = ledger[address]? := by
  have nothing : (changes.reverse.find? fun change => decide (change.address = address)) =
      none := by
    simpa using other
  rw [getElem?_foldl_apply, nothing]

theorem ledger_post {outage : Outage} {changes : List Change} {ledger : Ledger}
    {tally total : Tally} {calls : Nat}
    (h : (post outage (changes.map .ok) ledger tally calls).result = .ok total) :
    (post outage (changes.map .ok) ledger tally calls).ledger = changes.foldl apply ledger := by
  induction changes generalizing ledger tally calls with
  | nil => rfl
  | cons change changes ih =>
      rw [List.map_cons] at h ⊢
      cases answered : outage.answer calls (.ok ()) with
      | error fault =>
          simp only [post, answered] at h
          cases h
      | ok _ =>
          simp only [post, answered] at h ⊢
          exact ih h

theorem result_post_undisturbed {outage : Outage} {requests : List (Except Flaw Change)}
    {ledger : Ledger} {tally total : Tally} {calls : Nat}
    (h : (post outage requests ledger tally calls).result = .ok total) :
    (post .never requests ledger tally calls).result = .ok total := by
  induction requests generalizing ledger tally calls with
  | nil => exact h
  | cons request requests ih =>
      cases request with
      | error flaw => cases h
      | ok change =>
          cases answered : outage.answer calls (.ok ()) with
          | error fault =>
              simp only [post, answered] at h
              cases h
          | ok _ =>
              simp only [post, answered] at h
              exact ih h

end Ledger

/-- The change that an active relationship comes to. -/
def Relationship.change (r : Relationship) (roots : List Index) : Ledger.Change :=
  if r.isProhibited then
    .strike r.address
  else
    .put (.ofRelationship r (roots.contains r.source.index))

/-- What an active relationship asks for is never refused. -/
theorem Relationship.request_eq (r : Relationship) (roots : List Index) :
    r.request roots = .ok (r.change roots) := by
  unfold request recording change
  split
  · rfl
  · rfl

theorem Relationship.address_change (r : Relationship) (roots : List Index) :
    (r.change roots).address = r.address := by
  unfold Relationship.change
  split
  · rfl
  · rfl

theorem Relationship.address_eq_iff {r r' : Relationship} :
    r.address = r'.address ↔ r.baseSet = r'.baseSet ∧ r.identity = r'.identity := by
  simp only [address, baseSet, identity, Record.Address.mk.injEq, BaseSet.mk.injEq,
    Bucket.Identity.mk.injEq]
  tauto

def Network.changes (network : Network) : List Ledger.Change :=
  network.buckets.toList.filterMap fun bucket =>
    bucket.active?.map fun r => r.change network.roots

def Collection.changes (collection : Collection) : List Ledger.Change :=
  collection.networks.flatMap Network.changes

theorem Network.requests_eq (network : Network) :
    network.requests = network.changes.map .ok := by
  simp only [requests, changes, List.map_filterMap, Option.map_map, Relationship.request_eq]
  rfl

theorem Collection.requests_eq (collection : Collection) :
    collection.requests = collection.changes.map .ok := by
  rw [requests, changes, List.map_flatMap, funext Network.requests_eq]

theorem Collection.ok_mem_requests {collection : Collection} {change : Ledger.Change} :
    .ok change ∈ collection.requests ↔ change ∈ collection.changes := by
  rw [requests_eq]
  exact List.mem_map_of_injective fun _ _ => Except.ok.inj

theorem Collection.ledger_postAll {collection : Collection} {outage : Outage} {ledger : Ledger}
    {tally : Ledger.Tally} (h : (ledger.postAll outage collection.requests).result = .ok tally) :
    (ledger.postAll outage collection.requests).ledger =
      collection.changes.foldl Ledger.apply ledger := by
  rw [requests_eq] at h ⊢
  exact Ledger.ledger_post h

namespace Network

/-- The active relationship of an identity, whether it prohibits or not. -/
def activeAt (network : Network) (identity : Bucket.Identity) : Option Relationship :=
  (network.bucketAt? identity).bind Bucket.active?

variable {network : Network} {log : Log} {r : Relationship} {identity : Bucket.Identity}

theorem effectiveAt_eq_filter (network : Network) (identity : Bucket.Identity) :
    network.effectiveAt identity =
      (network.activeAt identity).filter fun r => !r.isProhibited := by
  rw [effectiveAt, activeAt]
  cases network.bucketAt? identity with
  | none => rfl
  | some bucket => rfl

theorem Follows.mem_of_activeAt (h : network.Follows log)
    (active : network.activeAt identity = some r) : r ∈ log ∧ r.identity = identity := by
  rw [activeAt, h.view] at active
  split at active
  · cases active
  · rw [Option.bind_some, Bucket.active?_ofLog] at active
    exact Log.mem_of_mem_competitors (Log.mem_of_winner? active)

theorem Follows.baseSet_eq (h : network.Follows log)
    (member : r ∈ network.relationships) : r.baseSet = network.baseSet := by
  have effective := h.mem_relationships.mp member
  rw [h.effectiveAt_eq] at effective
  exact h.own r (Log.mem_of_effective? effective).1

theorem Follows.exists_activeAt (h : network.Follows log) {bucket : Bucket}
    (there : network.bucketAt? identity = some bucket) :
    ∃ r, network.activeAt identity = some r := by
  have occupied := (h.coherent.sound_of_bucketAt? there).occupied
  rw [activeAt, there, Option.bind_some]
  cases active : bucket.active? with
  | some r => exact ⟨r, rfl⟩
  | none => exact absurd (List.head?_eq_none_iff.mp active) (Bucket.relationships_ne_nil occupied)

theorem Follows.mem_changes (h : network.Follows log) {change : Ledger.Change} :
    change ∈ network.changes ↔
      ∃ r, network.activeAt r.identity = some r ∧ r.change network.roots = change := by
  simp only [changes, List.mem_filterMap, h.coherent.mem_buckets, Option.map_eq_some_iff]
  constructor
  · rintro ⟨bucket, ⟨identity, there⟩, r, active, asked⟩
    have activeThere : network.activeAt identity = some r := by
      rw [activeAt, there, Option.bind_some, active]
    exact ⟨r, (h.mem_of_activeAt activeThere).2 ▸ activeThere, asked⟩
  · rintro ⟨r, active, asked⟩
    obtain ⟨bucket, there, active⟩ := Option.bind_eq_some_iff.mp active
    exact ⟨bucket, ⟨r.identity, there⟩, r, active, asked⟩

end Network

namespace Collection

variable {collection : Collection} {r : Relationship}

theorem Sound.mem_changes (h : collection.Sound) {change : Ledger.Change} :
    change ∈ collection.changes ↔ ∃ network r, collection.network? r.baseSet = some network ∧
      network.activeAt r.identity = some r ∧ r.change network.roots = change := by
  rw [changes, List.mem_flatMap]
  constructor
  · rintro ⟨network, member, asked⟩
    obtain ⟨found, log, follows⟩ := h.of_mem_networks member
    obtain ⟨r, active, asked⟩ := follows.mem_changes.mp asked
    have own := follows.own r (follows.mem_of_activeAt active).1
    exact ⟨network, r, by rw [own, found], active, asked⟩
  · rintro ⟨network, r, found, active, asked⟩
    obtain ⟨log, follows⟩ := (h _ network found).1.follows
    exact ⟨network, mem_networks.mpr ⟨_, found⟩, follows.mem_changes.mpr ⟨r, active, asked⟩⟩

theorem Sound.change_eq_of_address_eq (h : collection.Sound) {change change' : Ledger.Change}
    (member : change ∈ collection.changes) (member' : change' ∈ collection.changes)
    (same : change.address = change'.address) : change = change' := by
  obtain ⟨network, r, found, active, rfl⟩ := h.mem_changes.mp member
  obtain ⟨network', r', found', active', rfl⟩ := h.mem_changes.mp member'
  rw [r.address_change, r'.address_change, Relationship.address_eq_iff] at same
  rw [same.1, found'] at found
  cases found
  rw [same.2, active'] at active
  cases active
  rfl

/-- Each change that a collection asks for decides what stands at its address in the end. -/
theorem Sound.getElem?_foldl_of_mem (h : collection.Sound) (ledger : Ledger)
    {change : Ledger.Change} (member : change ∈ collection.changes) :
    (collection.changes.foldl Ledger.apply ledger)[change.address]? = change.record? := by
  rw [Ledger.getElem?_foldl_apply]
  split
  · rename_i last found
    have member' := List.mem_reverse.mp (List.mem_of_find?_eq_some found)
    rw [h.change_eq_of_address_eq member' member (by simpa using List.find?_some found)]
  · rename_i nothing
    simpa using List.find?_eq_none.mp nothing change (List.mem_reverse.mpr member)

theorem Sound.getElem?_posted (h : collection.Sound) {address : Record.Address} {record : Record} :
    (collection.changes.foldl Ledger.apply (∅ : Ledger))[address]? = some record ↔
      .put record ∈ collection.changes ∧ record.address = address := by
  constructor
  · intro found
    rw [Ledger.getElem?_foldl_apply] at found
    split at found
    · rename_i change last
      have member := List.mem_reverse.mp (List.mem_of_find?_eq_some last)
      have here : change.address = address := by simpa using List.find?_some last
      cases change with
      | put put =>
          cases found
          exact ⟨member, here⟩
      | strike _ => cases found
    · simp at found
  · rintro ⟨member, rfl⟩
    exact h.getElem?_foldl_of_mem ∅ member

theorem Sound.mem_records_posted (h : collection.Sound) {record : Record} :
    record ∈ (collection.changes.foldl Ledger.apply (∅ : Ledger)).records ↔
      .put record ∈ collection.changes := by
  rw [Ledger.mem_records, h.getElem?_posted]
  exact and_iff_left rfl

theorem Sound.exists_of_put_mem (h : collection.Sound) {record : Record}
    (member : .put record ∈ collection.changes) :
    ∃ r root, collection.effectiveAt r.baseSet r.identity = some r ∧
      record = .ofRelationship r root := by
  obtain ⟨network, r, found, active, asked⟩ := h.mem_changes.mp member
  unfold Relationship.change at asked
  split at asked
  · cases asked
  · rename_i asserts
    cases asked
    refine ⟨r, _, ?_, rfl⟩
    simp [effectiveAt, found, Network.effectiveAt_eq_filter, active, asserts]

theorem Sound.exists_put_mem (h : collection.Sound)
    (effective : collection.effectiveAt r.baseSet r.identity = some r) :
    ∃ root, .put (.ofRelationship r root) ∈ collection.changes := by
  obtain ⟨network, found, effective⟩ := Option.bind_eq_some_iff.mp effective
  rw [Network.effectiveAt_eq_filter, Option.filter_eq_some_iff] at effective
  obtain ⟨active, asserts⟩ := effective
  refine ⟨network.roots.contains r.source.index, h.mem_changes.mpr ⟨network, r, found, active, ?_⟩⟩
  rw [Bool.not_eq_true'] at asserts
  simp [Relationship.change, asserts]

end Collection

end XbrlNetworks
