import Mathlib.Algebra.GroupWithZero.Nat
import Mathlib.Data.Finset.Card
import Mathlib.Data.Finset.Image
import XbrlNetworks.Proofs.Steps

/-! # What a filled network holds

Every relationship leaves a mark in its network: its arc, in the bucket of its
identity.  What is counted as new are the marks that were not there before, so a
network that is filled from nothing holds one mark for each way in which the
documents lead an arc from one fragment to another, and counts each of them
once.
-/

namespace XbrlNetworks

open Std

/-- The bucket and the arc by which a relationship is known. -/
def Relationship.mark (r : Relationship) : Bucket.Identity × Index :=
  (r.identity, r.arc.index)

def Offer.mark (offer : Offer) : Bucket.Identity × Index :=
  (offer.identity, offer.arc.index)

namespace Log

def marks (log : Log) : Finset (Bucket.Identity × Index) :=
  (log.map Relationship.mark).toFinset

theorem mem_marks {log : Log} {identity : Bucket.Identity} {arc : Index} :
    (identity, arc) ∈ log.marks ↔ ∃ r ∈ log, r.identity = identity ∧ r.arc.index = arc := by
  simp [marks, Relationship.mark]

theorem repeats_iff_mem_marks {log : Log} {r : Relationship} :
    log.repeats r = true ↔ r.mark ∈ log.marks := by
  rw [Relationship.mark, mem_marks, repeats_iff, exists_mem_competitors]

theorem marks_append (log : Log) (r : Relationship) :
    marks (log ++ [r]) = insert r.mark log.marks := by
  simp [marks]

theorem card_marks_append (log : Log) (r : Relationship) :
    (marks (log ++ [r])).card = log.marks.card + (!log.repeats r).toNat := by
  rw [marks_append]
  cases repeated : log.repeats r with
  | true => simp [repeats_iff_mem_marks.mp repeated]
  | false =>
      have new : r.mark ∉ log.marks := by
        rw [← repeats_iff_mem_marks, repeated]
        exact Bool.false_ne_true
      simp [new]

end Log

theorem Bucket.sum_added_set {buckets : List Bucket} {slot : Nat} {bucket : Bucket}
    (found : buckets[slot]? = some bucket) (r : Relationship) :
    ((buckets.set slot (bucket.join r)).map added).sum = (buckets.map added).sum + 1 := by
  induction buckets generalizing slot with
  | nil => simp at found
  | cons first rest ih =>
      cases slot with
      | zero =>
          cases found
          simp [join]
          omega
      | succ slot =>
          simp only [List.set_cons_succ, List.map_cons, List.sum_cons]
          rw [ih found, Nat.add_assoc]

namespace Network

variable {catalogue : Catalogue} {network next last : Network} {log : Log} {r : Relationship}
  {isNew : Bool} {offers : List Offer} {added : Nat}

def Records (network : Network) (identity : Bucket.Identity) (arc : Index) : Prop :=
  ∃ bucket, network.bucketAt? identity = some bucket ∧ bucket.containsArc arc = true

theorem Follows.records_iff (h : network.Follows log) {identity : Bucket.Identity} {arc : Index} :
    network.Records identity arc ↔ (identity, arc) ∈ log.marks := by
  rw [Log.mem_marks, ← Log.exists_mem_competitors, ← Bucket.mem_arcs_ofLog, Records, h.view]
  split
  · rename_i nothing
    simp [nothing, Bucket.ofLog, Bucket.empty]
  · simp [Bucket.containsArc]

/-- How many relationships have been added to the buckets of a network. -/
def total (network : Network) : Nat :=
  (network.buckets.toList.map Bucket.added).sum

theorem total_opened (network : Network) (r : Relationship) :
    (network.opened r).total = network.total + 1 := by
  simp [total, opened, Bucket.join, Bucket.empty]

theorem total_joined {slot : Nat} (inside : slot < network.buckets.size) :
    (network.joined slot r).total = network.total + 1 := by
  have found : network.buckets.toList[slot]? = some (network.bucket slot) := by
    simp [bucket, inside]
  simpa [total, joined] using Bucket.sum_added_set found r

theorem Coherent.total_insert (h : network.Coherent)
    (inserted : network.insert r = .ok (next, isNew)) :
    next.total = network.total + isNew.toNat := by
  have own := baseSet_eq_of_insert inserted
  by_cases absent : ∀ slot, ¬ network.Holds slot r.identity
  · rw [insert_of_absent h own absent] at inserted
    cases inserted
    exact network.total_opened r
  · obtain ⟨slot, holds⟩ := not_forall_not.mp absent
    cases repeated : (network.bucket slot).containsArc r.arc.index with
    | true =>
        rw [insert_of_repeated h own holds repeated] at inserted
        cases inserted
        rfl
    | false =>
        rw [insert_of_fresh h own holds repeated] at inserted
        cases inserted
        exact total_joined holds.lt_size

theorem Takes.marks (lawful : catalogue.Lawful) (h : network.Takes catalogue offers last added)
    (follows : network.Follows log) :
    ∃ rest, last.Follows (log ++ rest) ∧
      (log ++ rest).marks = log.marks ∪ (offers.map Offer.mark).toFinset ∧
      (log ++ rest).marks.card = log.marks.card + added ∧
      last.total = network.total + added := by
  induction h generalizing log with
  | nil => exact ⟨[], by rwa [List.append_nil], by simp, by simp, rfl⟩
  | @cons network next last offer offers r isNew added arc link source target inserted _ ih =>
      have mark : r.mark = offer.mark := by
        rw [Relationship.mark, Offer.mark, arc,
          Resolves.identity_eq lawful follows.coherent arc source target]
      obtain ⟨followsNext, _, new⟩ := follows.insert_ok inserted
      obtain ⟨rest, followsLast, marks, card, total⟩ := ih followsNext
      rw [List.append_assoc] at followsLast marks card
      refine ⟨[r] ++ rest, followsLast, ?_, ?_, ?_⟩
      · rw [marks, Log.marks_append, mark]
        simp [Finset.union_insert]
      · rw [card, Log.card_marks_append, ← new, Nat.add_assoc]
      · rw [total, follows.coherent.total_insert inserted, Nat.add_assoc]

/-- A network that was empty holds just the marks of the offers that it has taken, and has counted
    each of them once. -/
theorem Takes.of_new (lawful : catalogue.Lawful) {baseSet : BaseSet}
    (opened : Network.new baseSet = .ok network) (h : network.Takes catalogue offers last added) :
    (∀ identity arc, last.Records identity arc ↔
      (identity, arc) ∈ (offers.map Offer.mark).toFinset) ∧
      added = (offers.map Offer.mark).toFinset.card ∧ added = last.total := by
  obtain ⟨rest, follows, marks, card, total⟩ := h.marks lawful (follows_new opened).1
  have nothing : network.total = 0 := by
    simp [Network.total, (new_eq_ok opened).2.1]
  simp only [List.nil_append, Log.marks, List.map_nil, List.toFinset_nil, Finset.empty_union,
    Finset.card_empty, Nat.zero_add] at follows marks card
  refine ⟨fun identity arc => ?_, ?_, ?_⟩
  · rw [follows.records_iff, Log.marks, marks]
  · rw [← marks, card]
  · rw [total, nothing, Nat.zero_add]

end Network

theorem Fragment.meant_eq_iff {fragment : Fragment} {index : Index} :
    fragment.meant = index ↔
      (fragment.isLocator = false ∧ fragment.index = index) ∨ fragment.kind = .locator index := by
  obtain ⟨own, kind, name⟩ := fragment
  cases kind <;> simp [meant, isLocator, Kind.target?]

/-- An arc on its way from one fragment to another. -/
structure Span where
  arc : Index
  /-- The fragment that is meant at the source -/
  source : Index
  /-- The fragment that is meant at the target -/
  target : Index
deriving DecidableEq, Repr

namespace Documents

/-- Inside a link a label stands for a fragment: one that carries the label and is no locator, or
    the target of a locator that does. -/
def StandsFor (documents : Documents) (link : Index) (label : String) (index : Index) : Prop :=
  ∃ fragment, documents.Carries link label fragment ∧
    ((fragment.isLocator = false ∧ fragment.index = index) ∨ fragment.kind = .locator index)

/-- An arc of a base set, as the tables have it, leads from one fragment to another. -/
structure Runs (documents : Documents) (baseSet : BaseSet) (row : ArcRow) (span : Span) :
    Prop where
  arc : documents.arcs[span.arc]? = some row
  link : documents.links[row.link]? = some baseSet.linkRole
  role : row.role = baseSet.arcRole
  source : documents.StandsFor row.link row.sourceLabel span.source
  target : documents.StandsFor row.link row.targetLabel span.target

/-- A network holds the arc of a span in the bucket of the arc's key and the two fragments. -/
def Recorded (documents : Documents) (network : Network) (span : Span) : Prop :=
  ∃ row, documents.arcs[span.arc]? = some row ∧
    network.Records ⟨row.key, span.source, span.target⟩ span.arc

variable {documents : Documents} {baseSet : BaseSet} {identity : Bucket.Identity} {arc : Index}

theorem Readable.exists_mark_iff (h : documents.Readable) {step : Step}
    (member : step ∈ documents.catalogue.steps baseSet) :
    (∃ offer ∈ documents.catalogue.offersOfStep step, offer.mark = (identity, arc)) ↔
      ∃ row, step.arc.index = arc ∧ step.link.index = row.link ∧ row.key = identity.key ∧
        documents.Runs baseSet row ⟨arc, identity.source, identity.target⟩ := by
  obtain ⟨inLinks, linkRole, arcRole, sourceLabel, targetLabel, has⟩ := h.mem_steps.mp member
  constructor
  · rintro ⟨⟨_, _, source, target⟩, offered, marked⟩
    obtain ⟨rfl, rfl, atSource, atTarget⟩ := (h.mem_offersOfStep has).mp offered
    cases marked
    exact ⟨_, rfl, rfl, rfl, has, inLinks, arcRole,
      ⟨source, atSource, Fragment.meant_eq_iff.mp rfl⟩,
      ⟨target, atTarget, Fragment.meant_eq_iff.mp rfl⟩⟩
  · rintro ⟨row, rfl, _, key, runs⟩
    have same : row = .ofArc step.link.index sourceLabel targetLabel step.arc :=
      Option.some.inj (runs.arc.symm.trans has)
    subst same
    obtain ⟨source, atSource, meant⟩ := runs.source
    obtain ⟨target, atTarget, meant'⟩ := runs.target
    refine ⟨⟨step.link, step.arc, source, target⟩,
      (h.mem_offersOfStep has).mpr ⟨rfl, rfl, atSource, atTarget⟩, ?_⟩
    rw [Offer.mark, Offer.identity, Fragment.meant_eq_iff.mpr meant,
      Fragment.meant_eq_iff.mpr meant', show step.arc.key = identity.key from key]

theorem Readable.exists_step (h : documents.Readable) {row : ArcRow} {span : Span}
    (runs : documents.Runs baseSet row span) :
    ∃ step ∈ documents.catalogue.steps baseSet, step.arc.index = span.arc ∧
      step.link.index = row.link := by
  obtain ⟨arc, link, sourceLabel, targetLabel, keeps⟩ := h.arcs span.arc row runs.arc
  obtain ⟨same, rfl⟩ := Prod.mk.inj keeps
  refine ⟨⟨⟨link, baseSet.linkRole⟩, arc⟩, h.mem_steps.mpr ⟨runs.link, rfl, runs.role,
    sourceLabel, targetLabel, ?_⟩, same.symm, rfl⟩
  rw [HasArc, ← same]
  exact runs.arc

theorem Readable.mem_marks_iff (h : documents.Readable) {steps : List Step}
    (inScope : ∀ step ∈ steps, step ∈ documents.catalogue.steps baseSet) :
    (identity, arc) ∈
        ((steps.flatMap documents.catalogue.offersOfStep).map Offer.mark).toFinset ↔
      ∃ step ∈ steps, ∃ row, step.arc.index = arc ∧ step.link.index = row.link ∧
        row.key = identity.key ∧
        documents.Runs baseSet row ⟨arc, identity.source, identity.target⟩ := by
  simp only [List.mem_toFinset, List.mem_map, List.mem_flatMap]
  constructor
  · rintro ⟨offer, ⟨step, member, offered⟩, marked⟩
    exact ⟨step, member, (h.exists_mark_iff (inScope step member)).mp ⟨offer, offered, marked⟩⟩
  · rintro ⟨step, member, runs⟩
    obtain ⟨offer, offered, marked⟩ := (h.exists_mark_iff (inScope step member)).mpr runs
    exact ⟨offer, ⟨step, member, offered⟩, marked⟩

/-- All that is offered to the network of a base set leaves the marks that the tables say. -/
theorem Readable.mem_marks_offers (h : documents.Readable) :
    (identity, arc) ∈ ((documents.catalogue.offers baseSet).map Offer.mark).toFinset ↔
      ∃ row, row.key = identity.key ∧
        documents.Runs baseSet row ⟨arc, identity.source, identity.target⟩ := by
  rw [Catalogue.offers_eq, h.mem_marks_iff fun _ member => member]
  constructor
  · rintro ⟨_, _, row, _, _, key, runs⟩
    exact ⟨row, key, runs⟩
  · rintro ⟨row, key, runs⟩
    obtain ⟨step, member, index, link⟩ := h.exists_step runs
    exact ⟨step, member, row, index, link, key, runs⟩

variable {network : Network} {outage : Outage} {limit : TimeLimit} {calls added : Nat}

/-- A network that was filled from nothing holds an arc between two fragments just when the tables
    lead it there, and every way of an arc is counted once. -/
theorem Loaded.recorded_iff_runs (h : documents.Loaded)
    (opened : Network.new baseSet = .ok network)
    (done : (network.fill ⟨documents.catalogue, outage⟩ limit calls).result = .ok added) :
    (∀ span, documents.Recorded
        (network.fill ⟨documents.catalogue, outage⟩ limit calls).network span ↔
      ∃ row, documents.Runs baseSet row span) ∧
    ∃ spans : Finset Span, (∀ span, span ∈ spans ↔ ∃ row, documents.Runs baseSet row span) ∧
      added = spans.card ∧
      added = ((network.fill ⟨documents.catalogue, outage⟩ limit calls).network.buckets.toList.map
        Bucket.added).sum := by
  have takes := (Network.fill_eq_ok done).1
  rw [(Network.follows_new opened).2] at takes
  obtain ⟨records, card, total⟩ := takes.of_new documents.lawful_catalogue opened
  simp only [h.readable.mem_marks_offers] at records
  refine ⟨fun span => ?_, ((documents.catalogue.offers baseSet).map Offer.mark).toFinset.image
    fun mark => ⟨mark.2, mark.1.source, mark.1.target⟩, fun span => ?_, ?_, total⟩
  · constructor
    · rintro ⟨_, _, recorded⟩
      obtain ⟨row, _, runs⟩ := (records _ _).mp recorded
      exact ⟨row, runs⟩
    · rintro ⟨row, runs⟩
      exact ⟨row, runs.arc, (records _ _).mpr ⟨row, rfl, runs⟩⟩
  · simp only [Finset.mem_image, Prod.exists, h.readable.mem_marks_offers]
    constructor
    · rintro ⟨_, _, ⟨row, _, runs⟩, rfl⟩
      exact ⟨row, runs⟩
    · rintro ⟨row, runs⟩
      exact ⟨⟨row.key, span.source, span.target⟩, span.arc, ⟨row, rfl, runs⟩, rfl⟩
  · rw [card, Finset.card_image_of_injOn]
    -- The arc decides the key, so that a span can come of one mark only.
    rintro ⟨⟨key, source, target⟩, arc⟩ marked ⟨⟨key', source', target'⟩, arc'⟩ marked' same
    cases same
    obtain ⟨row, rfl, runs⟩ := h.readable.mem_marks_offers.mp marked
    obtain ⟨row', rfl, runs'⟩ := h.readable.mem_marks_offers.mp marked'
    rw [Option.some.inj (runs.arc.symm.trans runs'.arc)]

/-- A fragment that is meant twice, by itself and by a locator, is counted once. -/
theorem recorded_iff_runs_of_locator : ∃ (documents : Documents) (network : Network),
    documents.Loaded ∧ Network.new ⟨"A", "L"⟩ = .ok network ∧
      (network.fill ⟨documents.catalogue, .never⟩ none 0).result = .ok 1 ∧
      (∀ span, documents.Recorded (network.fill ⟨documents.catalogue, .never⟩ none 0).network span ↔
        ∃ row, documents.Runs ⟨"A", "L"⟩ row span) := by
  let documents := (Documents.empty.load (DocumentEntry.sample [.plain "x" "A" "k"])).load
    [.fragment ⟨"u", .locator "t", none⟩, .member "link" "q" "u"]
  let network : Network := ⟨⟨"A", "L"⟩, ∅, #[], ∅, ∅, by decide, by decide⟩
  have loaded : documents.Loaded := .load _ (.load _ .empty)
  have opened : Network.new ⟨"A", "L"⟩ = .ok network := rfl
  have done : (network.fill ⟨documents.catalogue, .never⟩ none 0).result = .ok 1 := by
    decide +kernel
  exact ⟨documents, network, loaded, opened, done, (loaded.recorded_iff_runs opened done).1⟩

end Documents

end XbrlNetworks
