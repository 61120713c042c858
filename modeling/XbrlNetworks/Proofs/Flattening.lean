import XbrlNetworks.Proofs.Decoding
import XbrlNetworks.Proofs.Rehydration

/-! # Laying flat and making again

A record has all of a relationship but what its fragments are besides their indexes.
So a relationship is made again from its record, and a record that can be made a
relationship is got back from it, only that blanks around its order are gone: they are
left out when the order is read, and an order that has been read is read the same again.
-/

namespace XbrlNetworks.Record

variable {record : Record} {source target : Fragment} {order : Arc.Order} {r : Relationship}

/-- Two fragments can be the ends of what a record is made into: they have the indexes that the
    record names, and neither is a locator. -/
structure Joins (record : Record) (source target : Fragment) : Prop where
  sourceIndex : source.index = record.source
  targetIndex : target.index = record.target
  sourceResolved : source.isLocator = false
  targetResolved : target.isLocator = false

theorem isProhibited_arcWith (record : Record) (order : Arc.Order) :
    (record.arcWith order).isProhibited = record.prohibited := by
  cases flag : record.prohibited <;> simp [arcWith, use, Arc.isProhibited, flag]

theorem ofRelationship_eq (arc : r.arc = record.arcWith order) (link : r.link = record.toLink)
    (source : r.source.index = record.source) (target : r.target.index = record.target) :
    ofRelationship r record.root = { record with order := order.text } := by
  unfold ofRelationship Relationship.isProhibited Relationship.key
  rw [arc, isProhibited_arcWith, link, source, target]
  rfl

/-- Whatever is laid flat is made again field by field.  A record with an order that can be read
    and with both roles is bound to any fitting ends, and laying that flat gives the record back
    with the blanks around its order left out. -/
theorem flat_and_made_again :
    (∀ (r : Relationship) (root : Bool), (ofRelationship r root).address = r.address ∧
      (ofRelationship r root).toArc = .ok r.arc ∧ (ofRelationship r root).toLink = r.link) ∧
    ∀ (record : Record) (order : Arc.Order) (source target : Fragment),
      Arc.Order.ofText? record.order = some order → record.Joins source target →
      record.arcRole ≠ "" → record.linkRole ≠ "" →
      ∃ arc r, record.toArc = .ok arc ∧
        Relationship.bind arc source target record.toLink = .ok r ∧
        ofRelationship r record.root = { record with order := trim record.order } := by
  refine ⟨fun r root => ⟨address_ofRelationship r root, toArc_ofRelationship r root, rfl⟩, ?_⟩
  intro record order source target read joins hasArcRole hasLinkRole
  have fit : Relationship.Fit (record.arcWith order) source target record.toLink :=
    ⟨hasArcRole, hasLinkRole, joins.sourceResolved, joins.targetResolved⟩
  refine ⟨record.arcWith order, _, toArc_of_some read, fit.bind_eq_ok, ?_⟩
  rw [ofRelationship_eq rfl rfl joins.sourceIndex joins.targetIndex,
    (Arc.Order.ofText?_eq_some_iff.mp read).1]

/-- An order comes back without the no-break space and the ideographic space around it, and with
    the zero at its end. -/
theorem made_again_of_blanks : ∃ (arc : Arc) (r : Relationship),
    let record : Record :=
      ⟨"x", "A", "link", "L", "s", "t", "\u00a0 2.50\u3000", -1, true, "k", false⟩
    let source : Fragment := ⟨"s", .concept, some "n"⟩
    let target : Fragment := ⟨"t", .label, none⟩
    record.toArc = .ok arc ∧ Relationship.bind arc source target record.toLink = .ok r ∧
      ofRelationship r false = { record with order := "2.50" } := by
  let record : Record :=
    ⟨"x", "A", "link", "L", "s", "t", "\u00a0 2.50\u3000", -1, true, "k", false⟩
  obtain ⟨order, read⟩ := Option.isSome_iff_exists.mp
    (show (Arc.Order.ofText? record.order).isSome = true by decide +kernel)
  have joins : record.Joins ⟨"s", .concept, some "n"⟩ ⟨"t", .label, none⟩ := ⟨rfl, rfl, rfl, rfl⟩
  obtain ⟨arc, r, made, bound, flat⟩ := flat_and_made_again.2 record order _ _ read joins
    (show "A" ≠ "" by decide) (show "L" ≠ "" by decide)
  have trimmed : trim record.order = "2.50" := by decide +kernel
  exact ⟨arc, r, made, bound, trimmed ▸ flat⟩

end XbrlNetworks.Record
