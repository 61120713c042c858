import XbrlNetworks.Arc

/-! # Relationships

A relationship is an arc bound to the fragments at its two ends.  It belongs
to the network of its own arc role and link role, so neither is empty, and
its ends are never locators.
-/

namespace XbrlNetworks

/-- An arc bound to its resolved ends inside an extended link. -/
structure Relationship where
  arc : Arc
  source : Fragment
  target : Fragment
  link : ExtendedLink
  hasArcRole : arc.role ≠ ""
  hasLinkRole : link.role ≠ ""
  sourceResolved : source.isLocator = false
  targetResolved : target.isLocator = false
deriving DecidableEq

namespace Relationship

/-- Binds an arc to its ends, checking the arc role, the link role, the source
    and the target in this order. -/
def bind (arc : Arc) (source target : Fragment) (link : ExtendedLink) :
    Except Flaw Relationship :=
  if hasArcRole : arc.role = "" then
    .error (.arcWithoutRole arc.index)
  else if hasLinkRole : link.role = "" then
    .error (.linkWithoutRole link.index)
  else if sourceResolved : source.isLocator = true then
    .error (.unresolvedEndpoint source.index)
  else if targetResolved : target.isLocator = true then
    .error (.unresolvedEndpoint target.index)
  else
    .ok ⟨arc, source, target, link, hasArcRole, hasLinkRole,
      Bool.eq_false_iff.mpr sourceResolved, Bool.eq_false_iff.mpr targetResolved⟩

def baseSet (r : Relationship) : BaseSet :=
  ⟨r.arc.role, r.link.role⟩

def key (r : Relationship) : String :=
  r.arc.key

def isProhibited (r : Relationship) : Bool :=
  r.arc.isProhibited

def le (first second : Relationship) : Bool :=
  first.arc.order.le second.arc.order

/-- Whether two relationships compete with each other: same key, same ends. -/
def equivalent (first second : Relationship) : Bool :=
  first.source.index == second.source.index && first.target.index == second.target.index &&
    first.key == second.key

/-- Whether two relationships come from the same arc between the same ends. -/
def sameArc (first second : Relationship) : Bool :=
  first.arc.index == second.arc.index && first.source.index == second.source.index &&
    first.target.index == second.target.index

end Relationship

/-- Relationships in the order of their arcs; those at the same place keep
    their relative order. -/
def sortByOrder (relationships : List Relationship) : List Relationship :=
  sortBy Relationship.le relationships

end XbrlNetworks
