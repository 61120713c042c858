import Mathlib.Algebra.BigOperators.Group.Finset.Piecewise
import XbrlNetworks.Proofs.Listing
import XbrlNetworks.Proofs.Population
import XbrlNetworks.Proofs.Refinement
import XbrlNetworks.Proofs.Routing

/-! # How a collection distributes relationships

A collection that relationships are added to has just the networks that these
ask for, and each of them has become what it would have become by itself.  In
which order the relationships of different networks come makes no difference.
-/

namespace XbrlNetworks

open Std

namespace Network

variable {network other start next : Network} {log relationships : Log} {r : Relationship}
  {isNew : Bool} {answers : List Bool} {added added' : Nat}

theorem insertEach_append (run : start.insertEach relationships = .ok (network, answers))
    (inserted : network.insert r = .ok (next, isNew)) :
    start.insertEach (relationships ++ [r]) = .ok (next, answers ++ [isNew]) := by
  induction relationships generalizing start answers with
  | nil =>
      cases run
      simp only [List.nil_append, insertEach, inserted]
      rfl
  | cons first rest ih =>
      simp only [List.cons_append, insertEach] at run ⊢
      cases accepted : start.insert first with
      | error failure =>
          rw [accepted] at run
          cases run
      | ok answer =>
          rw [accepted] at run
          obtain ⟨last, later, same⟩ := exists_of_map_eq_ok run
          cases same
          simp only [ih later]
          rfl

/-- A new network of the same base set becomes this one when relationships are added to it in
    order, and so many of them are new. -/
def MadeOf (network : Network) (log : Log) (added : Nat) : Prop :=
  ∃ start answers, Network.new network.baseSet = .ok start ∧
    start.insertEach log = .ok (network, answers) ∧ answers.count true = added

theorem MadeOf.eq (h : network.MadeOf log added) (h' : other.MadeOf log added')
    (base : network.baseSet = other.baseSet) : network = other := by
  obtain ⟨start, answers, opened, run, _⟩ := h
  obtain ⟨start', answers', opened', run', _⟩ := h'
  rw [base, opened'] at opened
  cases opened
  rw [run] at run'
  cases run'
  rfl

theorem madeOf_openFor (r : Relationship) : (openFor r).MadeOf [] 0 :=
  ⟨openFor r, [], new_baseSet r, rfl, rfl⟩

theorem MadeOf.insert (h : network.MadeOf log added)
    (inserted : network.insert r = .ok (next, isNew)) :
    next.MadeOf (log ++ [r]) (added + isNew.toNat) := by
  obtain ⟨start, answers, opened, run, rfl⟩ := h
  refine ⟨start, answers ++ [isNew], ?_, insertEach_append run inserted, ?_⟩
  · rw [(Grows.insert .refl inserted).baseSet_eq, opened]
  · cases isNew <;> simp

end Network

namespace Log

/-- How many relationships of a log a collection takes for new: the marks that it leaves on each
    base set. -/
def newCount (log : Log) : Nat :=
  ∑ baseSet ∈ (log.map Relationship.baseSet).toFinset, (log.ofBaseSet baseSet).marks.card

theorem ofBaseSet_ne_nil_iff {log : Log} {baseSet : BaseSet} :
    log.ofBaseSet baseSet ≠ [] ↔ ∃ r ∈ log, r.baseSet = baseSet := by
  simp [ofBaseSet, List.filter_eq_nil_iff]

theorem mem_baseSets {log : Log} {baseSet : BaseSet} :
    baseSet ∈ (log.map Relationship.baseSet).toFinset ↔ log.ofBaseSet baseSet ≠ [] := by
  rw [ofBaseSet_ne_nil_iff, List.mem_toFinset, List.mem_map]

theorem newCount_congr {log log' : Log}
    (same : ∀ baseSet, log.ofBaseSet baseSet = log'.ofBaseSet baseSet) :
    log.newCount = log'.newCount := by
  have baseSets : (log.map Relationship.baseSet).toFinset =
      (log'.map Relationship.baseSet).toFinset := by
    ext baseSet
    rw [mem_baseSets, mem_baseSets, same]
  simp only [newCount, baseSets, same]

theorem newCount_append (log : Log) (r : Relationship) :
    newCount (log ++ [r]) = log.newCount + (!(log.ofBaseSet r.baseSet).repeats r).toNat := by
  have card : ∀ baseSet, (ofBaseSet (log ++ [r]) baseSet).marks.card =
      (log.ofBaseSet baseSet).marks.card +
        if r.baseSet = baseSet then (!(log.ofBaseSet r.baseSet).repeats r).toNat else 0 := by
    intro baseSet
    rw [ofBaseSet_append]
    split
    · rename_i own
      rw [card_marks_append, own]
    · rfl
  have baseSets : ((log ++ [r]).map Relationship.baseSet).toFinset =
      insert r.baseSet (log.map Relationship.baseSet).toFinset := by
    simp
  -- A base set that is new had no part of the log, so its marks add nothing to the sum.
  have absent : r.baseSet ∉ (log.map Relationship.baseSet).toFinset →
      (log.ofBaseSet r.baseSet).marks.card = 0 := by
    intro absent
    rw [not_not.mp (mem_baseSets.not.mp absent)]
    rfl
  simp only [newCount, card, baseSets]
  rw [Finset.sum_add_distrib, Finset.sum_ite_eq, if_pos (Finset.mem_insert_self _ _),
    Finset.sum_insert_of_eq_zero_if_notMem absent]

end Log

namespace Collection

variable {collection other : Collection} {log : Log} {added : Nat}

theorem Sound.exists_insert (h : collection.Sound) (r : Relationship) :
    ∃ next isNew, collection.insert r = .ok (next, isNew) := by
  obtain ⟨log, follows⟩ := (h.reachable_getD r).follows
  have own : r.baseSet = ((collection.network? r.baseSet).getD (.openFor r)).baseSet := by
    cases found : collection.network? r.baseSet with
    | none => rfl
    | some network => exact (h r.baseSet network found).2.symm
  obtain ⟨network, inserted, _⟩ := follows.insert own
  refine ⟨collection.put network, !log.repeats r, ?_⟩
  simp only [Collection.insert, inserted]
  rfl

/-- The networks of a collection are those that a log asks for, each made of its part. -/
structure Splits (collection : Collection) (log : Log) : Prop extends collection.Follows log where
  made : ∀ baseSet network, collection.network? baseSet = some network →
    log.ofBaseSet baseSet ≠ [] ∧
      network.MadeOf (log.ofBaseSet baseSet) (log.ofBaseSet baseSet).marks.card

theorem splits_empty : empty.Splits [] where
  toFollows := follows_empty
  made := by
    intro baseSet network found
    rw [network?_empty] at found
    cases found

theorem Splits.madeOf_getD_openFor (h : collection.Splits log) (r : Relationship) :
    ((collection.network? r.baseSet).getD (.openFor r)).MadeOf (log.ofBaseSet r.baseSet)
      (log.ofBaseSet r.baseSet).marks.card := by
  cases found : collection.network? r.baseSet with
  | none =>
      rw [h.missing r.baseSet found]
      exact Network.madeOf_openFor r
  | some network => exact (h.made r.baseSet network found).2

theorem Splits.insert (h : collection.Splits log) (r : Relationship) :
    ∃ next, collection.insert r = .ok (next, !(log.ofBaseSet r.baseSet).repeats r) ∧
      next.Splits (log ++ [r]) := by
  obtain ⟨next, inserted, follows⟩ := h.toFollows.insert r
  obtain ⟨network, accepted, rfl⟩ := insert_eq_ok inserted
  have base : network.baseSet = r.baseSet :=
    (Network.Grows.insert .refl accepted).baseSet_eq.trans (h.getD_openFor r).1
  have made := (h.madeOf_getD_openFor r).insert accepted
  rw [← Log.card_marks_append] at made
  refine ⟨_, inserted, follows, fun baseSet other found => ?_⟩
  rw [network?_put, base] at found
  rw [Log.ofBaseSet_append]
  split at found
  · rename_i here
    cases found
    rw [if_pos here, ← here]
    exact ⟨by simp, made⟩
  · rename_i elsewhere
    rw [if_neg elsewhere]
    exact h.made baseSet other found

/-- What is added to nothing is split, and what is new is counted. -/
theorem exists_splits (log : Log) : ∃ collection,
    empty.insertAll log = .ok (collection, log.newCount) ∧ collection.Splits log := by
  obtain ⟨last, added, run, splits, rfl⟩ := exists_insertAll
    (fun collection log added => collection.Splits log ∧ added = log.newCount)
    (fun collection log added r ⟨splits, counted⟩ => by
      obtain ⟨next, inserted, splitsNext⟩ := splits.insert r
      exact ⟨next, _, inserted, splitsNext, by rw [counted, Log.newCount_append]⟩)
    ⟨splits_empty, rfl⟩ log
  exact ⟨last, run, splits⟩

theorem Splits.ofBaseSet_ne_nil_iff (h : collection.Splits log) {baseSet : BaseSet} :
    log.ofBaseSet baseSet ≠ [] ↔ ∃ network, collection.network? baseSet = some network := by
  constructor
  · exact fun asked => Option.ne_none_iff_exists'.mp (mt (h.missing baseSet) asked)
  · exact fun ⟨network, found⟩ => (h.made baseSet network found).1

/-- Collections that are split from logs with the same parts have the same networks. -/
theorem Splits.network?_eq (h : collection.Splits log) {log' : Log} (h' : other.Splits log')
    (same : ∀ baseSet, log.ofBaseSet baseSet = log'.ofBaseSet baseSet) (baseSet : BaseSet) :
    collection.network? baseSet = other.network? baseSet := by
  cases found : collection.network? baseSet with
  | none =>
      have nothing := h.missing baseSet found
      rw [same] at nothing
      by_contra there
      exact h'.ofBaseSet_ne_nil_iff.mpr (Option.ne_none_iff_exists'.mp (Ne.symm there)) nothing
  | some network =>
      obtain ⟨asked, made⟩ := h.made baseSet network found
      rw [same] at asked made
      obtain ⟨network', found'⟩ := h'.ofBaseSet_ne_nil_iff.mp asked
      have made' := (h'.made baseSet network' found').2
      have base := (h.networks baseSet network found).1.trans (h'.networks _ _ found').1.symm
      rw [found', made.eq made' base]

theorem ext_network? (listed : ∀ arcRole, arcRole ∈ collection.arcRoles ↔ arcRole ∈ other.arcRoles)
    (same : ∀ baseSet, collection.network? baseSet = other.network? baseSet) :
    collection = other := by
  have byArcRole : collection.byArcRole = other.byArcRole := by
    refine ExtTreeMap.ext_getElem? fun arcRole => ?_
    have inner : collection.ofArcRole arcRole = other.ofArcRole arcRole :=
      ExtTreeMap.ext_getElem? fun linkRole => same ⟨arcRole, linkRole⟩
    have member := listed arcRole
    rw [arcRoles, arcRoles, ExtTreeMap.mem_keys, ExtTreeMap.mem_keys] at member
    exact getElem?_eq_of_getD_eq member inner
  cases collection
  cases other
  exact congrArg Collection.mk byArcRole

/-- No arc role is listed without a network by adding relationships to nothing. -/
theorem mem_arcRoles_of_insertAll (run : empty.insertAll log = .ok (collection, added))
    (arcRole : String) : arcRole ∈ collection.arcRoles ↔
      ∃ linkRole, (collection.network? ⟨arcRole, linkRole⟩).isSome = true := by
  rw [← linkRoles_ne_nil_iff]
  constructor
  · intro listed
    rcases (sound_empty.insertAll run).2.fresh arcRole listed with before | ⟨linkRole, populated⟩
    · simp [arcRoles, empty] at before
    · exact linkRoles_ne_nil_of_populated populated
  · exact mem_arcRoles_of_linkRoles_ne_nil

/-- What a log makes of a collection: a network for each base set that it mentions and no other,
    made of the part of the log with that base set, and with its new ones counted; the networks
    stand in the order of their base sets, and none is empty. -/
structure Distributes (collection : Collection) (log : Log) (added : Nat) : Prop where
  present : ∀ baseSet, collection.contains baseSet = true ↔ ∃ r ∈ log, r.baseSet = baseSet
  made : ∀ baseSet network, collection.network? baseSet = some network →
    network.baseSet = baseSet ∧ ∃ count, network.MadeOf (log.ofBaseSet baseSet) count
  listed : ∀ network, network ∈ collection.networks ↔
    collection.network? network.baseSet = some network
  counted : ∃ counts, List.Forall₂ (fun network count =>
      network.MadeOf (log.ofBaseSet network.baseSet) count) collection.networks counts ∧
    added = counts.sum
  ascending : Ascending BaseSet.compare (collection.networks.map Network.baseSet)
  size : collection.size = collection.networks.length

theorem Splits.newCount_eq (h : collection.Splits log) (sound : collection.Sound) :
    log.newCount = (collection.networks.map fun network =>
      (log.ofBaseSet network.baseSet).marks.card).sum := by
  have baseSets : (log.map Relationship.baseSet).toFinset =
      (collection.networks.map Network.baseSet).toFinset := by
    ext baseSet
    rw [Log.mem_baseSets, h.ofBaseSet_ne_nil_iff, List.mem_toFinset, List.mem_map]
    constructor
    · exact fun ⟨network, found⟩ =>
        ⟨network, mem_networks.mpr ⟨_, found⟩, (h.networks _ _ found).1⟩
    · rintro ⟨network, member, rfl⟩
      exact ⟨network, (sound.of_mem_networks member).1⟩
  rw [Log.newCount, baseSets, List.sum_toFinset _ sound.ascending_networks.nodup, List.map_map]
  rfl

theorem Splits.distributes (h : collection.Splits log) (sound : collection.Sound) :
    collection.Distributes log log.newCount where
  present := by
    intro baseSet
    rw [contains, Option.isSome_iff_exists, ← h.ofBaseSet_ne_nil_iff, Log.ofBaseSet_ne_nil_iff]
  made := fun baseSet network found =>
    ⟨(h.networks baseSet network found).1, _, (h.made baseSet network found).2⟩
  listed := fun network =>
    ⟨fun member => (sound.of_mem_networks member).1, fun found => mem_networks.mpr ⟨_, found⟩⟩
  counted := by
    refine ⟨_, List.forall₂_map_right_iff.mpr (List.forall₂_same.mpr ?_), h.newCount_eq sound⟩
    intro network member
    exact (h.made _ network (sound.of_mem_networks member).1).2
  ascending := sound.ascending_networks
  size := by
    rw [size, List.filter_eq_self.mpr]
    intro network member
    obtain ⟨found, _⟩ := sound.of_mem_networks member
    have asked := (h.made _ network found).1
    rw [(h.networks _ network found).2.isEmpty_eq_false asked]
    rfl

/-- A collection takes every relationship.  What is added to nothing is distributed to the
    networks of its base sets, and how it is interleaved makes no difference. -/
theorem exists_distribution :
    (∀ past collection, Run past collection →
      ∀ r, ∃ next isNew, collection.insert r = .ok (next, isNew)) ∧
    (∀ log, ∃ collection added,
      empty.insertAll log = .ok (collection, added) ∧ collection.Distributes log added) ∧
    ∀ log log' : Log, (∀ baseSet, log.ofBaseSet baseSet = log'.ofBaseSet baseSet) →
      empty.insertAll log = empty.insertAll log' := by
  refine ⟨fun past collection run => run.sound.exists_insert, fun log => ?_,
    fun log log' same => ?_⟩
  · obtain ⟨collection, run, splits⟩ := exists_splits log
    exact ⟨collection, _, run, splits.distributes (sound_empty.insertAll run).1⟩
  · obtain ⟨collection, run, splits⟩ := exists_splits log
    obtain ⟨collection', run', splits'⟩ := exists_splits log'
    have networks := splits.network?_eq splits' same
    have collections : collection = collection' := by
      refine ext_network? (fun arcRole => ?_) networks
      simp only [mem_arcRoles_of_insertAll run, mem_arcRoles_of_insertAll run', networks]
    rw [run, run', collections, Log.newCount_congr same]

/-- A relationship is taken though its network has been taken out before; and of three
    relationships of two networks, one of them given twice, two are new in either order. -/
theorem exists_distribution_of_two_networks : ∃ past collection next isNew,
    ∃ r other : Relationship, ∃ last : Collection,
      Run past collection ∧ "A" ∈ collection.arcRoles ∧ collection.linkRoles "A" = [] ∧
      collection.insert r = .ok (next, isNew) ∧
      r.baseSet ≠ other.baseSet ∧
      empty.insertAll [r, other, r] = .ok (last, 2) ∧ last.Distributes [r, other, r] 2 ∧
      empty.insertAll [other, r, r] = .ok (last, 2) := by
  let r := Relationship.sample "x" "s" "t" .optional
  let other : Relationship := { Relationship.sample "y" "s" "t" .optional with
    link := ⟨"link", "M"⟩
    hasLinkRole := by simp }
  let put := empty.put (.openFor r)
  let out := (put.fill ⟨Documents.empty.catalogue, .never⟩ none ⟨"A", "L"⟩ 0).collection
  have before : Run [put, empty] out :=
    .step (.step .start (.put (Network.reachable_openFor _))) (.fill _ _ _ _)
  have same : ∀ baseSet, Log.ofBaseSet [r, other, r] baseSet =
      Log.ofBaseSet [other, r, r] baseSet := by
    intro baseSet
    by_cases here : r.baseSet = baseSet
    · rw [← here]
      decide +kernel
    · simp only [Log.ofBaseSet, List.filter_cons, here, decide_false, Bool.false_eq_true, if_false]
  obtain ⟨takes, distributed, interleaved⟩ := exists_distribution
  obtain ⟨next, isNew, inserted⟩ := takes _ out before r
  obtain ⟨last, added, run, distributes⟩ := distributed [r, other, r]
  have count : (empty.insertAll [r, other, r]).map Prod.snd = .ok 2 := by decide +kernel
  rw [run] at count
  obtain rfl : added = 2 := Except.ok.inj count
  exact ⟨_, out, next, isNew, r, other, last, before, by decide +kernel, by decide +kernel,
    inserted, by decide +kernel, run, distributes, interleaved _ _ same ▸ run⟩

end Collection

end XbrlNetworks
