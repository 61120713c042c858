import XbrlNetworks.Proofs.Reproduction
import XbrlNetworks.Proofs.Settling

/-! # Passes that are interrupted

Posting makes one call for each bucket, network by network and slot by slot.  So a
connection that is lost leaves the effects of as many buckets as there were calls
before it.  What a change leaves at its address has nothing to do with what stood
there, and therefore a pass that is made again ends as one that was never
interrupted, wherever the first one stopped.
-/

namespace XbrlNetworks

open Std

/-- The first calls succeed and the next one fails.  Calls after it may do either. -/
structure Outage.FailsAt (outage : Outage) (count : Nat) (fault : StoreFault) : Prop where
  before : ∀ made < count, outage made = none
  next : outage count = some fault

theorem Outage.failsAt_after (count : Nat) : (after count).FailsAt count .connectionLost where
  before made less := by simp [after, less]
  next := by simp [after]

/-- The buckets of a network, slot by slot, each with the network. -/
def Network.places (network : Network) : List (Network × Bucket) :=
  network.buckets.toList.map fun bucket => (network, bucket)

def Collection.places (collection : Collection) : List (Network × Bucket) :=
  collection.networks.flatMap Network.places

/-- What storing a bucket of a network makes of a ledger. -/
def Ledger.settle (ledger : Ledger) (place : Network × Bucket) : Ledger :=
  match place.2.active? with
  | none => ledger
  | some active =>
    if active.isProhibited then
      ledger.erase active.address
    else
      ledger.put (.ofRelationship active (place.1.roots.contains active.source.index))

def Network.change? (place : Network × Bucket) : Option Ledger.Change :=
  place.2.active?.map fun r => r.change place.1.roots

namespace Ledger

variable {ledger other : Ledger} {outage : Outage} {count calls : Nat} {fault : StoreFault}
  {changes : List Change} {tally : Tally}

theorem post_cons_of_lt (fails : outage.FailsAt count fault) (early : calls < count)
    (change : Change) : post outage ((change :: changes).map .ok) ledger tally calls =
      post outage (changes.map .ok) (ledger.apply change) (ledger.count tally change)
        (calls + 1) := by
  simp only [List.map_cons, post, Outage.answer, fails.before calls early]

theorem post_cons_of_eq (fails : outage.FailsAt count fault) (change : Change) :
    post outage ((change :: changes).map .ok) ledger tally count =
      ⟨.error (.storeAccess fault), ledger, count + 1⟩ := by
  simp only [List.map_cons, post, Outage.answer, fails.next]

/-- Posting fails just when there are more changes than calls that succeed. -/
theorem result_post_of_failsAt (fails : outage.FailsAt count fault) (early : calls ≤ count) :
    (post outage (changes.map .ok) ledger tally calls).result =
      if count < calls + changes.length then .error (.storeAccess fault)
      else (post .never (changes.map .ok) ledger tally calls).result := by
  -- The calls that have been made go up with each change, until they are as many as succeed.
  induction changes generalizing ledger tally calls with
  | nil =>
      rw [if_neg (by simpa using early)]
      rfl
  | cons change changes ih =>
      rw [List.length_cons]
      rcases Nat.lt_or_eq_of_le early with less | rfl
      · rw [post_cons_of_lt fails less, ih less,
          show calls + (changes.length + 1) = calls + 1 + changes.length by omega]
        rfl
      · rw [post_cons_of_eq fails, if_pos (by omega)]

theorem ledger_post_of_failsAt (fails : outage.FailsAt count fault) (early : calls ≤ count) :
    (post outage (changes.map .ok) ledger tally calls).ledger =
      (changes.take (count - calls)).foldl apply ledger := by
  induction changes generalizing ledger tally calls with
  | nil => simp [post]
  | cons change changes ih =>
      rcases Nat.lt_or_eq_of_le early with less | rfl
      · rw [post_cons_of_lt fails less, ih less,
          show count - calls = count - (calls + 1) + 1 by omega, List.take_succ_cons,
          List.foldl_cons]
      · rw [post_cons_of_eq fails, Nat.sub_self, List.take_zero, List.foldl_nil]

/-- Posting fails only where a call does: nothing is refused that was asked for. -/
theorem exists_failsAt_of_post (before : ∀ made < calls, outage made = none) {failure : Failure}
    (h : (post outage (changes.map .ok) ledger tally calls).result = .error failure) :
    ∃ count fault, outage.FailsAt count fault ∧ count < calls + changes.length ∧
      failure = .storeAccess fault := by
  induction changes generalizing ledger tally calls with
  | nil => cases h
  | cons change changes ih =>
      cases next : outage calls with
      | some fault =>
          simp only [List.map_cons, post, Outage.answer, next, Except.error.injEq] at h
          exact ⟨calls, fault, ⟨before, next⟩, by simp, h.symm⟩
      | none =>
          simp only [List.map_cons, post, Outage.answer, next] at h
          have succeeded : ∀ made < calls + 1, outage made = none := by
            intro made less
            rcases Nat.lt_succ_iff_lt_or_eq.mp less with earlier | rfl
            · exact before made earlier
            · exact next
          obtain ⟨count, fault, fails, early, same⟩ := ih succeeded h
          exact ⟨count, fault, fails, by rw [List.length_cons]; omega, same⟩

theorem foldl_apply_congr (same : ∀ address : Record.Address,
      (∀ change ∈ changes, change.address ≠ address) → ledger[address]? = other[address]?) :
    changes.foldl apply ledger = changes.foldl apply other := by
  refine ext_getElem? fun address => ?_
  rw [getElem?_foldl_apply, getElem?_foldl_apply]
  split
  · rfl
  · rename_i nothing
    exact same address (by simpa using nothing)

/-- Changes that have been made in part can be made again. -/
theorem foldl_apply_take (ledger : Ledger) (changes : List Change) (count : Nat) :
    changes.foldl apply ((changes.take count).foldl apply ledger) =
      changes.foldl apply ledger :=
  foldl_apply_congr fun _ other => getElem?_foldl_of_forall_ne fun change member =>
    other change (List.mem_of_mem_take member)

theorem foldl_apply_foldl_apply (ledger : Ledger) (changes : List Change) :
    changes.foldl apply (changes.foldl apply ledger) = changes.foldl apply ledger := by
  simpa using foldl_apply_take ledger changes changes.length

theorem settle_eq_elim (ledger : Ledger) (place : Network × Bucket) :
    ledger.settle place = (Network.change? place).elim ledger ledger.apply := by
  cases found : place.2.active? with
  | none => simp only [settle, Network.change?, found, Option.map_none, Option.elim_none]
  | some active =>
      simp only [settle, Network.change?, found, Option.map_some, Option.elim_some,
        Relationship.change]
      cases active.isProhibited with
      | true => rfl
      | false => rfl

end Ledger

namespace Network

variable {network next : Network} {log : Log}

theorem Follows.map_some_changes (h : network.Follows log) :
    network.changes.map some = network.places.map change? := by
  rw [changes, places, List.map_filterMap, List.map_map, ← List.filterMap_eq_map]
  refine List.filterMap_congr fun bucket member => ?_
  obtain ⟨active, found, _⟩ := h.exists_active member
  simp [change?, found]

theorem Grows.exists_insertAll (h : network.Grows next) :
    ∃ relationships, network.insertAll relationships = .ok next := by
  induction h with
  | refl => exact ⟨[], rfl⟩
  | @insert middle next r isNew _ inserted ih =>
      obtain ⟨relationships, run⟩ := ih
      refine ⟨relationships ++ [r], ?_⟩
      rw [insertAll_append, run]
      change (middle.insert r).map (·.1) >>= pure = _
      rw [inserted]
      rfl

/-- A network comes about by insertions, and its slots stand in the order in which these opened
    them. -/
theorem Reachable.exists_insertions (h : network.Reachable) : ∃ empty relationships,
    Network.new network.baseSet = .ok empty ∧ empty.insertAll relationships = .ok network ∧
      network.identities = (relationships.map Relationship.identity).eraseDups := by
  obtain ⟨empty, opened, grown⟩ := h.grown
  obtain ⟨relationships, run⟩ := grown.exists_insertAll
  exact ⟨empty, relationships, opened, run, (follows_new opened).1.identities_insertAll run⟩

end Network

namespace Collection

variable {collection : Collection}

theorem Sound.map_some_changes (h : collection.Sound) :
    collection.changes.map some = collection.places.map Network.change? := by
  rw [changes, places, List.map_flatMap, List.map_flatMap]
  refine List.flatMap_congr fun network member => ?_
  obtain ⟨_, log, follows⟩ := h.of_mem_networks member
  exact follows.map_some_changes

theorem Sound.length_changes (h : collection.Sound) :
    collection.changes.length = collection.places.length := by
  simpa using congrArg List.length h.map_some_changes

theorem Sound.foldl_settle (h : collection.Sound) (ledger : Ledger) (count : Nat) :
    (collection.places.take count).foldl Ledger.settle ledger =
      (collection.changes.take count).foldl Ledger.apply ledger := by
  have asked := congrArg (fun asked? : List (Option Ledger.Change) =>
    (asked?.take count).foldl (fun ledger change? => change?.elim ledger ledger.apply) ledger)
      h.map_some_changes
  simp only [← List.map_take, List.foldl_map, Option.elim_some] at asked
  rw [show Ledger.settle = _ from funext₂ Ledger.settle_eq_elim]
  exact asked.symm

theorem Sound.foldl_settle_places (h : collection.Sound) (ledger : Ledger) :
    collection.places.foldl Ledger.settle ledger =
      collection.changes.foldl Ledger.apply ledger := by
  have settled := h.foldl_settle ledger collection.places.length
  rwa [List.take_length, ← h.length_changes, List.take_length] at settled

theorem Sound.ledger_postAll_of_failsAt (h : collection.Sound) (ledger : Ledger)
    {outage : Outage} {count : Nat} {fault : StoreFault} (fails : outage.FailsAt count fault) :
    (ledger.postAll outage collection.requests).ledger =
      (collection.places.take count).foldl Ledger.settle ledger := by
  rw [requests_eq, h.foldl_settle]
  exact Ledger.ledger_post_of_failsAt fails (Nat.zero_le count)

theorem Sound.postAll_eq_error (h : collection.Sound) {ledger : Ledger} {outage : Outage}
    {failure : Failure}
    (failed : (ledger.postAll outage collection.requests).result = .error failure) :
    ∃ count fault, outage.FailsAt count fault ∧ count < collection.places.length ∧
      failure = .storeAccess fault ∧
      (ledger.postAll outage collection.requests).ledger =
        (collection.places.take count).foldl Ledger.settle ledger := by
  rw [requests_eq] at failed
  obtain ⟨count, fault, fails, early, same⟩ :=
    Ledger.exists_failsAt_of_post (fun _ less => absurd less (Nat.not_lt_zero _)) failed
  rw [Nat.zero_add, h.length_changes] at early
  exact ⟨count, fault, fails, early, same, h.ledger_postAll_of_failsAt ledger fails⟩

theorem Sound.countP_removes_again (h : collection.Sound) (ledger : Ledger) :
    collection.changes.countP (collection.changes.foldl Ledger.apply ledger).removes = 0 := by
  rw [List.countP_eq_zero]
  intro change member
  cases change with
  | put record => exact Bool.false_ne_true
  | strike address =>
      have struck := h.getElem?_foldl_of_mem ledger member
      simp only [Ledger.Change.address, Ledger.Change.record?] at struck
      rw [Ledger.removes, Ledger.fst_delete, Ledger.contains, struck]
      exact Bool.false_ne_true

/-- A pass in which a call fails ends there, with the store's fault, if it has that many buckets.
    It leaves what the buckets before have settled: those of the networks in the order of their
    base sets, in the order in which they were opened.  A pass that succeeds after it leads to the
    same ledger as one alone, and another one stores as many records, removes none and changes
    nothing. -/
theorem Reachable.postAll_after_interruption (h : collection.Reachable) (ledger : Ledger)
    {outage : Outage} {count : Nat} {fault : StoreFault} (fails : outage.FailsAt count fault) :
    let interrupted := ledger.postAll outage collection.requests
    let whole := ledger.postAll .never collection.requests
    let retried := interrupted.ledger.postAll .never collection.requests
    let again := retried.ledger.postAll .never collection.requests
    interrupted.result = (if count < collection.places.length then .error (.storeAccess fault)
      else whole.result) ∧
    interrupted.ledger = (collection.places.take count).foldl Ledger.settle ledger ∧
    Ascending BaseSet.compare (collection.networks.map Network.baseSet) ∧
    (∀ network ∈ collection.networks, ∃ empty relationships,
      Network.new network.baseSet = .ok empty ∧ empty.insertAll relationships = .ok network ∧
        network.identities = (relationships.map Relationship.identity).eraseDups) ∧
    (∃ tally, whole.result = .ok tally) ∧ retried.ledger = whole.ledger ∧
    ∃ stored removed, retried.result = .ok ⟨stored, removed⟩ ∧ again.result = .ok ⟨stored, 0⟩ ∧
      again.ledger = retried.ledger := by
  intro interrupted whole retried again
  have sound := h.sound
  have answers : ∀ ledger : Ledger, (ledger.postAll .never collection.requests).result =
      .ok ⟨collection.changes.countP (·.record?.isSome),
        collection.changes.countP ledger.removes⟩ := by
    rw [requests_eq]
    exact Ledger.result_postAll_never sound.pairwise_changes
  have carriesOut : ∀ ledger : Ledger, (ledger.postAll .never collection.requests).ledger =
      collection.changes.foldl Ledger.apply ledger :=
    fun ledger => ledger_postAll (answers ledger)
  have stopped := sound.ledger_postAll_of_failsAt ledger fails
  have same : retried.ledger = collection.changes.foldl Ledger.apply ledger := by
    rw [carriesOut, stopped, sound.foldl_settle, Ledger.foldl_apply_take]
  refine ⟨?_, stopped, sound.ascending_networks, ?_, ⟨_, answers ledger⟩, ?_, _, _, answers _,
    ?_, ?_⟩
  · rw [← sound.length_changes, ← Nat.zero_add collection.changes.length]
    simp only [interrupted, whole, requests_eq]
    exact Ledger.result_post_of_failsAt fails (Nat.zero_le count)
  · intro network member
    exact (sound _ network (sound.of_mem_networks member).1).1.exists_insertions
  · rw [same, carriesOut]
  · rw [answers, same, sound.countP_removes_again]
  · rw [carriesOut, same, Ledger.foldl_apply_foldl_apply]

/-- The first of two buckets has replaced its record when the connection is lost, and the second
    strikes its own in the pass that follows. -/
theorem postAll_after_interruption_of_two_buckets : ∃ collection : Collection, ∃ ledger : Ledger,
    collection.Reachable ∧ collection.places.length = 2 ∧ ledger.records.length = 2 ∧
      (ledger.postAll (.after 1) collection.requests).result =
        .error (.storeAccess .connectionLost) ∧
      (ledger.postAll (.after 1) collection.requests).ledger ≠ ledger ∧
      (ledger.postAll (.after 1) collection.requests).ledger.records.length = 2 ∧
      ((ledger.postAll (.after 1) collection.requests).ledger.postAll .never
        collection.requests).ledger = (ledger.postAll .never collection.requests).ledger ∧
      (ledger.postAll .never collection.requests).ledger.records.length = 1 := by
  let documents := Documents.empty.load (DocumentEntry.sample
    [.plain "x" "A" "k", { Arc.plain "y" "A" "j" with use := .prohibited }])
  let network := (Network.openFor (.sample "x" "s" "t" .optional)).fill
    ⟨documents.catalogue, .never⟩ none 0
  let collection := Collection.empty.put network.network
  let old : Record := .ofRelationship (.sample "x" "s" "t" .optional) false
  let ledger : Ledger := ((∅ : Ledger).put { old with key := "k" }).put { old with key := "j" }
  have reached : collection.Reachable :=
    .put .empty (.fill _ _ _ (Network.reachable_openFor _))
  obtain ⟨stopped, prefixed, _, _, _, retried, _⟩ :=
    reached.postAll_after_interruption ledger (Outage.failsAt_after 1)
  have two : collection.places.length = 2 := by decide +kernel
  rw [two] at stopped
  have replaced : (ledger.postAll (.after 1) collection.requests).ledger.records.any (·.root) =
      true := by
    rw [prefixed]
    decide +kernel
  refine ⟨collection, ledger, reached, two, by decide +kernel, stopped, fun same => ?_, ?_,
    retried, by decide +kernel⟩
  · rw [same] at replaced
    exact absurd replaced (by decide +kernel)
  · rw [prefixed]
    decide +kernel

end Collection

end XbrlNetworks
