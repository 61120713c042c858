import Std.Data.ExtTreeMap
import XbrlNetworks.Index

/-! # Perspectives

A network keeps its buckets in slots and looks them up from either end of a
relationship.  A perspective is one of these two look-ups: it leads from a
fragment to the edges at it, and from each edge to the slot of its bucket.
-/

namespace XbrlNetworks

/-- A bucket as it looks from one of its ends. -/
structure Edge where
  key : String
  /-- The fragment at the other end -/
  far : Index
deriving DecidableEq, Repr

protected def Edge.compare : Edge → Edge → Ordering :=
  compareLex (compareOn Edge.key) (compareOn Edge.far)

instance : Std.TransCmp Edge.compare :=
  inferInstanceAs (Std.TransCmp (compareLex (compareOn Edge.key) (compareOn Edge.far)))

instance : Std.LawfulEqCmp Edge.compare where
  eq_of_compare {first second} same := by
    obtain ⟨key, far⟩ := first
    obtain ⟨otherKey, otherFar⟩ := second
    simpa [Edge.compare, compareLex, compareOn, Ordering.then_eq_eq] using same

/-- The slots of buckets by the edges at a fragment. -/
abbrev Edges := Std.ExtTreeMap Edge Nat Edge.compare

/-- The slots of all buckets, seen from one end. -/
abbrev Perspective := Std.ExtTreeMap Index Edges

namespace Perspective

def edges (perspective : Perspective) (near : Index) : Edges :=
  perspective[near]?.getD ∅

def slot? (perspective : Perspective) (near : Index) (edge : Edge) : Option Nat :=
  (perspective.edges near)[edge]?

/-- The slots of the buckets at a fragment, in the order of their edges. -/
def slots (perspective : Perspective) (near : Index) : List Nat :=
  (perspective.edges near).toList.map (·.2)

def record (perspective : Perspective) (near : Index) (edge : Edge) (slot : Nat) : Perspective :=
  perspective.insert near ((perspective.edges near).insert edge slot)

end Perspective

end XbrlNetworks
