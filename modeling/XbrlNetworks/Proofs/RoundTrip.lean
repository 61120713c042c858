import XbrlNetworks.Proofs.Posting
import XbrlNetworks.Proofs.Representation
import XbrlNetworks.Proofs.Restoring
import XbrlNetworks.Proofs.Routing
import XbrlNetworks.Proofs.Storing

/-! # From a collection to the ledger and back

Only the winners of a collection are posted, and yet nothing effective is
lost: analysed again with the same fragments, the ledger gives networks that
answer like those it was posted from.
-/

namespace XbrlNetworks

open Std

namespace Collection

variable {collection rebuilt : Collection} {log : Log} {baseSet : BaseSet}
  {identity : Bucket.Identity} {r : Relationship}

theorem Follows.effectiveAt_eq (h : collection.Follows log) (baseSet : BaseSet)
    (identity : Bucket.Identity) :
    collection.effectiveAt baseSet identity = (log.ofBaseSet baseSet).effective? identity := by
  rw [effectiveAt]
  cases found : collection.network? baseSet with
  | none =>
      rw [h.missing baseSet found]
      rfl
  | some network => exact (h.networks baseSet network found).2.effectiveAt_eq identity

theorem Sound.of_effectiveAt (h : collection.Sound)
    (effective : collection.effectiveAt baseSet identity = some r) :
    r.baseSet = baseSet ∧ r.identity = identity ∧ r.isProhibited = false := by
  obtain ⟨network, found, effective⟩ := Option.bind_eq_some_iff.mp effective
  obtain ⟨reached, same⟩ := h baseSet network found
  obtain ⟨log, follows⟩ := reached.follows
  rw [Network.effectiveAt_eq_filter, Option.filter_eq_some_iff] at effective
  obtain ⟨active, asserts⟩ := effective
  obtain ⟨member, here⟩ := follows.mem_of_activeAt active
  exact ⟨(follows.own r member).trans same, here, by simpa using asserts⟩

theorem eq_of_ofRelationship_eq {r' : Relationship} {root root' : Bool}
    (effective : collection.effectiveAt r.baseSet r.identity = some r)
    (effective' : collection.effectiveAt r'.baseSet r'.identity = some r')
    (same : Record.ofRelationship r root = .ofRelationship r' root') : r = r' := by
  have address : r.address = r'.address := by
    rw [← Record.address_ofRelationship r root, same, Record.address_ofRelationship]
  obtain ⟨base, identity⟩ := Relationship.address_eq_iff.mp address
  rw [base, identity, effective'] at effective
  exact (Option.some.inj effective).symm

/-- The effective relationships of a collection, in any order, are all that it takes to rebuild
    what is effective. -/
theorem Follows.effectiveAt_eq_of_mem_iff (h : rebuilt.Follows log) (sound : collection.Sound)
    (same : ∀ r, r ∈ log ↔ collection.effectiveAt r.baseSet r.identity = some r)
    (baseSet : BaseSet) (identity : Bucket.Identity) :
    rebuilt.effectiveAt baseSet identity = collection.effectiveAt baseSet identity := by
  rw [h.effectiveAt_eq]
  apply Option.ext
  intro r
  constructor
  · intro effective
    obtain ⟨member, here⟩ := Log.mem_of_effective? effective
    obtain ⟨inLog, own⟩ := List.mem_filter.mp member
    rw [← here, ← of_decide_eq_true own]
    exact (same r).mp inLog
  · intro effective
    obtain ⟨own, here, asserts⟩ := sound.of_effectiveAt effective
    have inLog : r ∈ log := (same r).mpr (by rw [own, here, effective])
    apply Log.effective?_eq_of_unique (List.mem_filter.mpr ⟨inLog, by simpa using own⟩) here asserts
    intro other member otherHere
    obtain ⟨otherInLog, otherOwn⟩ := List.mem_filter.mp member
    have otherEffective := (same other).mp otherInLog
    rw [of_decide_eq_true otherOwn, otherHere, effective] at otherEffective
    exact (Option.some.inj otherEffective).symm

end Collection

namespace Analysis

variable {catalogue : Catalogue} {ledger : Ledger}

theorem select_narrow (analysis : Analysis) (query : Query)
    (plain : ∀ record ∈ analysis.ledger.records, record.prohibited = false) :
    analysis.ledger.select (analysis.narrow query) = analysis.ledger.select query := by
  rw [Ledger.select_eq_filter, Ledger.select_eq_filter]
  refine List.filter_congr fun record member => ?_
  unfold narrow
  cases analysis.mode with
  | all => rfl
  | nonProhibited => simp [Query.selects, plain record member]
  | activeOnly => rfl

theorem recorded_eq_ok {wanted : Relationship → Prop} (mode : Mode) (query : Query)
    (loaded : ∀ r, wanted r → Loaded catalogue r)
    (made : ∀ record ∈ ledger.select query, ∃ r root, wanted r ∧ record = .ofRelationship r root) :
    ∃ relationships,
      (Analysis.mk ⟨catalogue, .never⟩ ledger mode).recorded query = .ok relationships ∧
      (∀ r ∈ relationships, wanted r) ∧
      ∀ record ∈ ledger.select query, ∃ r ∈ relationships, ∃ root,
        record = .ofRelationship r root := by
  obtain ⟨relationships, matched⟩ := exists_forall₂ made
  refine ⟨relationships, recorded_of_restores mode (matched.imp ?_), fun r member => ?_,
    fun record member => ?_⟩
  · rintro record r ⟨root, isWanted, rfl⟩
    exact (loaded r isWanted).restores root
  · obtain ⟨record, _, root, isWanted, _⟩ := exists_of_forall₂ matched.flip member
    exact isWanted
  · obtain ⟨r, inside, root, _, same⟩ := exists_of_forall₂ matched member
    exact ⟨r, inside, root, same⟩

theorem exists_networks {analysis : Analysis} {query : Query} {relationships : List Relationship}
    (h : analysis.recorded (analysis.narrow query) = .ok relationships) :
    ∃ rebuilt, analysis.networks query = .ok rebuilt ∧ rebuilt.Follows relationships := by
  obtain ⟨rebuilt, added, inserted, follows⟩ := Collection.follows_empty.insertAll relationships
  refine ⟨rebuilt, ?_, follows⟩
  change (analysis.recorded (analysis.narrow query) >>= fun relationships =>
    Collection.empty.insertAll relationships >>= fun done => pure done.1) = _
  rw [h]
  change (Collection.empty.insertAll relationships >>= fun done => pure done.1) = _
  rw [inserted]
  rfl

theorem relationships_of_networks {analysis : Analysis} {query : Query} {rebuilt : Collection}
    (resolves : analysis.mode ≠ .all) (built : analysis.networks query = .ok rebuilt) :
    analysis.relationships query = .ok (rebuilt.networks.flatMap Network.relationships) := by
  unfold Analysis.relationships
  split
  · exact absurd ‹_› resolves
  all_goals
    rw [built]
    rfl

theorem relationships_eq_error {analysis : Analysis} {query : Query} {failure : Failure}
    (unread : analysis.recorded (analysis.narrow query) = .error failure) :
    analysis.relationships query = .error failure := by
  obtain ⟨connection, ledger, mode⟩ := analysis
  cases mode with
  | all => exact unread
  | nonProhibited | activeOnly =>
      unfold Analysis.relationships networks
      simp only [unread]
      rfl

theorem networks_eq_ok {wanted : Relationship → Prop} (mode : Mode)
    (loaded : ∀ r, wanted r → Loaded catalogue r) (asserts : ∀ r, wanted r → r.isProhibited = false)
    (made : ∀ record ∈ ledger.records, ∃ r root, wanted r ∧ record = .ofRelationship r root) :
    ∃ relationships rebuilt,
      (Analysis.mk ⟨catalogue, .never⟩ ledger mode).networks Query.all = .ok rebuilt ∧
      rebuilt.Follows relationships ∧ (∀ r ∈ relationships, wanted r) ∧
      ∀ record ∈ ledger.records, ∃ r ∈ relationships, ∃ root, record = .ofRelationship r root := by
  let analysis : Analysis := ⟨⟨catalogue, .never⟩, ledger, mode⟩
  have plain : ∀ record ∈ ledger.records, record.prohibited = false := by
    intro record member
    obtain ⟨r, root, isWanted, rfl⟩ := made record member
    exact asserts r isWanted
  have selected : ledger.select (analysis.narrow Query.all) = ledger.records :=
    analysis.select_narrow Query.all plain
  rw [← selected] at made ⊢
  obtain ⟨relationships, run, allWanted, all⟩ := recorded_eq_ok mode _ loaded made
  obtain ⟨rebuilt, built, follows⟩ := exists_networks run
  exact ⟨relationships, rebuilt, built, follows, allWanted, all⟩

end Analysis

/-- A collection that has been posted to an empty ledger is analysed into one that answers alike,
    in every mode, if the catalogue has the fragments of its relationships. -/
theorem Collection.Reachable.analysis_networks {collection : Collection} {store : Store}
    {outage : Outage} {tally : Ledger.Tally} (h : collection.Reachable)
    (vacant : store.ledger = ∅)
    (loaded : ∀ network ∈ collection.networks, ∀ r ∈ network.relationships,
      store.documents.fragment? r.source.index = .ok (some r.source) ∧
        store.documents.fragment? r.target.index = .ok (some r.target))
    (posted : (store.ledger.postAll outage collection.requests).result = .ok tally)
    (mode : Analysis.Mode) :
    ∃ rebuilt,
      ({ store with
        ledger := (store.ledger.postAll outage collection.requests).ledger }.analysis .never
          mode).networks Query.all = .ok rebuilt ∧
      ∀ (index : Index) (arcRole : String) (linkRole : Option String),
        rebuilt.outgoing index arcRole linkRole = collection.outgoing index arcRole linkRole ∧
        rebuilt.incoming index arcRole linkRole = collection.incoming index arcRole linkRole := by
  have sound := h.sound
  let wanted (r : Relationship) : Prop := collection.effectiveAt r.baseSet r.identity = some r
  have fetched : ∀ r, wanted r → Analysis.Loaded store.documents.catalogue r := by
    intro r isWanted
    obtain ⟨network, found, effective⟩ := Option.bind_eq_some_iff.mp isWanted
    obtain ⟨log, follows⟩ := (sound _ network found).1.follows
    exact loaded network (Collection.mem_networks.mpr ⟨_, found⟩) r
      (follows.mem_relationships.mpr effective)
  have asserts : ∀ r, wanted r → r.isProhibited = false :=
    fun r isWanted => (sound.of_effectiveAt isWanted).2.2
  rw [Collection.ledger_postAll posted, vacant]
  have made : ∀ record ∈ (collection.changes.foldl Ledger.apply (∅ : Ledger)).records,
      ∃ r root, wanted r ∧ record = .ofRelationship r root := by
    intro record member
    exact sound.exists_of_put_mem (sound.mem_records_posted.mp member)
  obtain ⟨relationships, rebuilt, run, follows, allWanted, all⟩ :=
    Analysis.networks_eq_ok mode fetched asserts made
  have covers : ∀ r, r ∈ relationships ↔ wanted r := by
    intro r
    constructor
    · exact allWanted r
    · intro isWanted
      obtain ⟨root, put⟩ := sound.exists_put_mem isWanted
      obtain ⟨r', member, root', same⟩ := all _ (sound.mem_records_posted.mpr put)
      rwa [Collection.eq_of_ofRelationship_eq isWanted (allWanted r' member) same]
  have effective := follows.effectiveAt_eq_of_mem_iff sound covers
  refine ⟨rebuilt, run, fun index arcRole linkRole => ⟨?_, ?_⟩⟩
  · exact follows.coherent.outgoing_congr sound.coherent effective index arcRole linkRole
  · exact follows.coherent.incoming_congr sound.coherent effective index arcRole linkRole

/-- Of three arcs between two fragments one overrides another and one is prohibited, and a fourth
    one of the same order leads elsewhere: two relationships go through a ledger and come back in
    their order. -/
theorem Collection.analysis_networks_of_override : ∃ (collection : Collection) (store : Store)
    (tally : Ledger.Tally) (rebuilt : Collection), collection.Reachable ∧
      collection.requests.length = 3 ∧
      (store.ledger.postAll .never collection.requests).result = .ok tally ∧ tally = ⟨2, 0⟩ ∧
      ({ store with
        ledger := (store.ledger.postAll .never collection.requests).ledger }.analysis .never
          .all).networks Query.all = .ok rebuilt ∧
      (rebuilt.outgoing "s" "A" (some "L")).map (·.arc.index) = ["y", "w"] ∧
      (rebuilt.incoming "t" "A" none).map (·.arc.index) = ["y"] := by
  let documents := Documents.empty.load (DocumentEntry.sample
    [.plain "x" "A" "k", { Arc.plain "y" "A" "k" with priority := 1 },
      { Arc.plain "z" "A" "j" with use := .prohibited }] ++
    [.fragment ⟨"u", .concept, none⟩, .member "link" "r" "u",
      .arc "link" "p" "r" (.plain "w" "A" "k")])
  let filled := (Network.openFor (.sample "x" "s" "t" .optional)).fill
    ⟨documents.catalogue, .never⟩ none 0
  let collection := Collection.empty.put filled.network
  let store : Store := ⟨documents, ∅, .inMemory⟩
  have reached : collection.Reachable := .put .empty (.fill _ _ _ (Network.reachable_openFor _))
  have loaded : ∀ network ∈ collection.networks, ∀ r ∈ network.relationships,
      store.documents.fragment? r.source.index = .ok (some r.source) ∧
        store.documents.fragment? r.target.index = .ok (some r.target) := by
    decide +kernel
  have posted : (store.ledger.postAll .never collection.requests).result = .ok ⟨2, 0⟩ := by
    decide +kernel
  obtain ⟨rebuilt, run, same⟩ := reached.analysis_networks rfl loaded posted .all
  refine ⟨collection, store, _, rebuilt, reached, ?_, posted, rfl, run, ?_, ?_⟩
  · decide +kernel
  · rw [(same "s" "A" (some "L")).1]
    decide +kernel
  · rw [(same "t" "A" none).2]
    decide +kernel

end XbrlNetworks
