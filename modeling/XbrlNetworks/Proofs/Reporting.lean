import XbrlNetworks.Proofs.Rereading

/-! # In which order relationships are reported

Networks are listed by their roles, sources by their indexes, and what leads out
of a source is collected by key and target and then sorted by order, which keeps
the places of what is equal.  So a collection reports its effective relationships
in one total order that is read off the relationships themselves.
-/

namespace XbrlNetworks

open Std

namespace Relationship

def edgeOrder : Relationship → Relationship → Ordering :=
  compareLex (compareOn key) (compareOn fun r => r.target.index)

/-- By the place of the order value, negative zero before zero, and then by some other order. -/
def placeOrder (cmp : Relationship → Relationship → Ordering) :
    Relationship → Relationship → Ordering :=
  compareLex (compareOn fun r => r.arc.order.value.rank) cmp

/-- By arc role, link role, source, order value, key and target. -/
def reportingOrder : Relationship → Relationship → Ordering :=
  compareLex (compareOn fun r => r.arc.role) (compareLex (compareOn fun r => r.link.role)
    (compareLex (compareOn fun r => r.source.index) (placeOrder edgeOrder)))

instance : TransCmp reportingOrder :=
  inferInstanceAs (TransCmp (compareLex (compareOn fun r : Relationship => r.arc.role)
    (compareLex (compareOn fun r => r.link.role) (compareLex (compareOn fun r => r.source.index)
      (compareLex (compareOn fun r => r.arc.order.value.rank)
        (compareLex (compareOn key) (compareOn fun r => r.target.index)))))))

variable {cmp : Relationship → Relationship → Ordering} {first second : Relationship}

theorem placeOrder_eq_lt : placeOrder cmp first second = .lt ↔
    first.arc.order.value.rank < second.arc.order.value.rank ∨
      first.arc.order.value.rank = second.arc.order.value.rank ∧ cmp first second = .lt := by
  simp only [placeOrder, compareLex, compareOn, Ordering.then_eq_lt, Int.compare_eq_lt,
    Int.compare_eq_eq]

theorem le_iff : first.le second = true ↔
    first.arc.order.value.rank ≤ second.arc.order.value.rank := by
  rw [le, Arc.Order.le, decide_eq_true_eq]

end Relationship

section Sorting

variable {cmp : Relationship → Relationship → Ordering} {r : Relationship}
  {relationships : List Relationship}

/-- What was before all others comes to stand before those at its own place. -/
theorem Ascending.insertBy_le (h : Ascending (Relationship.placeOrder cmp) relationships)
    (before : ∀ other ∈ relationships, cmp r other = .lt) :
    Ascending (Relationship.placeOrder cmp) (insertBy Relationship.le r relationships) := by
  induction relationships with
  | nil => exact List.pairwise_singleton _ _
  | cons first rest ih =>
      obtain ⟨after, ascends⟩ := List.pairwise_cons.mp h
      simp only [insertBy]
      cases le : r.le first with
      | true =>
          -- It goes first: where the place is the same, what was before decides.
          rw [if_pos rfl]
          have place := Relationship.le_iff.mp le
          refine List.pairwise_cons.mpr ⟨fun other member => ?_, h⟩
          rw [Relationship.placeOrder_eq_lt]
          rcases List.mem_cons.mp member with rfl | later
          · grind
          · have place' := Relationship.placeOrder_eq_lt.mp (after other later)
            grind
      | false =>
          rw [if_neg Bool.false_ne_true]
          have place : ¬ r.arc.order.value.rank ≤ first.arc.order.value.rank := by
            rw [← Relationship.le_iff, le]
            exact Bool.false_ne_true
          refine List.pairwise_cons.mpr ⟨fun other member => ?_, ih ascends fun other member =>
            before other (List.mem_cons_of_mem _ member)⟩
          rcases List.mem_cons.mp ((insertBy_perm r rest).mem_iff.mp member) with rfl | later
          · exact Relationship.placeOrder_eq_lt.mpr (.inl (by omega))
          · exact after other later

theorem Ascending.sortByOrder (h : Ascending cmp relationships) :
    Ascending (Relationship.placeOrder cmp) (sortByOrder relationships) := by
  induction h with
  | nil => exact .nil
  | cons before _ ih =>
      exact ih.insertBy_le fun other member => before other (mem_sortByOrder.mp member)

end Sorting

namespace Network

variable {network : Network} {log : Log}

theorem Follows.ascending_effective (h : network.Follows log) (source : Index) :
    Ascending Relationship.edgeOrder (network.effective (network.bySource.slots source)) := by
  rw [h.coherent.effective_slots h.coherent.bySource (ascending_keys _)
    fun edge _ found => h.coherent.mem_keys h.coherent.bySource edge found]
  refine List.pairwise_filterMap.mpr (List.Pairwise.imp ?_ (ascending_keys _))
  intro edge edge' less r found r' found'
  have key : r.identity = edge.leaving source := h.identity_eq found
  have key' : r'.identity = edge'.leaving source := h.identity_eq found'
  cases edge
  cases edge'
  simp only [Relationship.identity, Edge.leaving, Bucket.Identity.mk.injEq] at key key'
  simpa only [Relationship.edgeOrder, Edge.compare, compareLex, compareOn, key, key'] using less

theorem Follows.ascending_outgoing (h : network.Follows log) (source : Index) :
    Ascending (Relationship.placeOrder Relationship.edgeOrder) (network.outgoing source) :=
  (h.ascending_effective source).sortByOrder

theorem Follows.ascending_relationships (h : network.Follows log) :
    Ascending (compareLex (compareOn fun r : Relationship => r.source.index)
      (Relationship.placeOrder Relationship.edgeOrder)) network.relationships := by
  have sources : Ascending (compareOn id) network.sources := ascending_keys network.bySource
  exact sources.flatMap (fun source _ => h.ascending_outgoing source)
    fun source _ r member => (h.mem_outgoing.mp member).2

end Network

namespace Collection

variable {collection : Collection} {log : Log}

/-- A collection reports what is effective in one order, and so nothing twice. -/
theorem Follows.ascending_relationships (h : collection.Follows log) :
    Ascending Relationship.reportingOrder (collection.networks.flatMap Network.relationships) := by
  have own : ∀ entry ∈ collection.byArcRole.toList, ∀ inner ∈ entry.2.toList,
      inner.2.baseSet = ⟨entry.1, inner.1⟩ ∧ ∃ log, inner.2.Follows log := by
    rintro ⟨arcRole, networks⟩ member ⟨linkRole, network⟩ inside
    obtain ⟨same, follows⟩ := h.networks _ network (network?_of_mem_toList member inside)
    exact ⟨same, _, follows⟩
  have roles : ∀ entry ∈ collection.byArcRole.toList, ∀ inner ∈ entry.2.toList,
      ∀ r ∈ inner.2.relationships, r.arc.role = entry.1 ∧ r.link.role = inner.1 := by
    intro entry member inner inside r effective
    obtain ⟨same, log, follows⟩ := own entry member inner inside
    have base := (follows.baseSet_eq effective).trans same
    exact ⟨congrArg BaseSet.arcRole base, congrArg BaseSet.linkRole base⟩
  have byArcRole : Ascending (compareOn Prod.fst) collection.byArcRole.toList :=
    ExtTreeMap.ordered_keys_toList
  rw [Collection.networks, List.flatMap_assoc]
  simp only [List.flatMap_map]
  -- The networks are walked by arc role and within it by link role.
  refine byArcRole.flatMap (fun entry member => ?_) fun entry member r inside => ?_
  · have byLinkRole : Ascending (compareOn Prod.fst) entry.2.toList :=
      ExtTreeMap.ordered_keys_toList
    refine byLinkRole.flatMap (fun inner inside => ?_) fun inner inside r effective => ?_
    · obtain ⟨_, log, follows⟩ := own entry member inner inside
      exact follows.ascending_relationships
    · exact (roles entry member inner inside r effective).2
  · obtain ⟨inner, inside, effective⟩ := List.mem_flatMap.mp inside
    exact (roles entry member inner inside r effective).1

end Collection

end XbrlNetworks
