import XbrlNetworks.Relationship

/-! # Records of relationships

A record is a relationship laid flat for storage: its ends are named by their
indexes only, its order is text, and a flag says whether its source is a root
of the network.  A record is not checked before it is made a relationship
again.
-/

namespace XbrlNetworks

/-- What at most one stored record has. -/
structure Record.Address where
  arcRole : String
  linkRole : String
  key : String
  source : Index
  target : Index
deriving DecidableEq, Repr

namespace Record.Address

/-- Addresses compared part by part in the order in which they are declared. -/
protected def compare : Address → Address → Ordering :=
  compareLex (compareOn arcRole) (compareLex (compareOn linkRole)
    (compareLex (compareOn key) (compareLex (compareOn source) (compareOn target))))

/-- The order in which records are read: by arc role, link role, source and
    target, and only then by key. -/
def readingOrder : Address → Address → Ordering :=
  compareLex (compareOn arcRole) (compareLex (compareOn linkRole)
    (compareLex (compareOn source) (compareLex (compareOn target) (compareOn key))))

instance : Std.TransCmp Address.compare :=
  inferInstanceAs (Std.TransCmp (compareLex (compareOn arcRole) (compareLex (compareOn linkRole)
    (compareLex (compareOn key) (compareLex (compareOn source) (compareOn target))))))

instance : Std.TransCmp readingOrder :=
  inferInstanceAs (Std.TransCmp (compareLex (compareOn arcRole) (compareLex (compareOn linkRole)
    (compareLex (compareOn source) (compareLex (compareOn target) (compareOn key))))))

instance : Std.LawfulEqCmp Address.compare where
  eq_of_compare {first second} same := by
    obtain ⟨arcRole, linkRole, key, source, target⟩ := first
    obtain ⟨otherArcRole, otherLinkRole, otherKey, otherSource, otherTarget⟩ := second
    simp only [Address.compare, compareLex, compareOn, Ordering.then_eq_eq,
      Std.LawfulEqOrd.compare_eq_iff_eq] at same
    simp only [same]

instance : Std.LawfulEqCmp readingOrder where
  eq_of_compare {first second} same := by
    obtain ⟨arcRole, linkRole, key, source, target⟩ := first
    obtain ⟨otherArcRole, otherLinkRole, otherKey, otherSource, otherTarget⟩ := second
    simp only [readingOrder, compareLex, compareOn, Ordering.then_eq_eq,
      Std.LawfulEqOrd.compare_eq_iff_eq] at same
    simp only [same]

end Record.Address

/-- A relationship laid flat. -/
structure Record where
  arc : Index
  arcRole : String
  link : Index
  linkRole : String
  source : Index
  target : Index
  /-- The order of the arc as text -/
  order : String
  priority : Int32
  prohibited : Bool
  key : String
  /-- Whether the source is a root of the network -/
  root : Bool
deriving DecidableEq, Repr

def Relationship.address (r : Relationship) : Record.Address :=
  ⟨r.arc.role, r.link.role, r.key, r.source.index, r.target.index⟩

namespace Record

/-- Lays a relationship flat. -/
def ofRelationship (r : Relationship) (root : Bool) : Record :=
  ⟨r.arc.index, r.arc.role, r.link.index, r.link.role, r.source.index, r.target.index,
    r.arc.order.text, r.arc.priority, r.isProhibited, r.key, root⟩

def address (record : Record) : Address :=
  ⟨record.arcRole, record.linkRole, record.key, record.source, record.target⟩

def use (record : Record) : Arc.Use :=
  if record.prohibited then .prohibited else .optional

/-- Makes the arc again, reading its order. -/
def toArc (record : Record) : Except Failure Arc :=
  match Arc.Order.ofText? record.order with
  | some order => .ok ⟨record.arc, record.arcRole, order, record.priority, record.use, record.key⟩
  | none => .error (.invalidOrder record.arc record.order)

def toLink (record : Record) : ExtendedLink :=
  ⟨record.link, record.linkRole⟩

theorem address_ofRelationship (r : Relationship) (root : Bool) :
    (ofRelationship r root).address = r.address := rfl

end Record

end XbrlNetworks
