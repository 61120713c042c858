import XbrlNetworks.Bucket
import XbrlNetworks.Network.Perspective

/-! # Networks

A network is the graph of the relationships of one base set.  Its buckets
stand in slots in the order in which they were opened, and two perspectives
lead to the same slots from the source and from the target.  What a network
answers about a fragment is taken from the effective relationships of its
buckets.
-/

namespace XbrlNetworks

/-- The relationships of one base set. -/
structure Network where
  baseSet : BaseSet
  /-- The fragments at the ends of its relationships, as first seen -/
  fragments : Std.ExtTreeMap Index Fragment
  /-- The buckets by slot -/
  buckets : Array Bucket
  /-- The slots, seen from the source -/
  bySource : Perspective
  /-- The slots, seen from the target -/
  byTarget : Perspective
  hasArcRole : baseSet.arcRole ≠ ""
  hasLinkRole : baseSet.linkRole ≠ ""

namespace Network

/-- The network without relationships; the link role is checked first. -/
def new (baseSet : BaseSet) : Except Flaw Network :=
  if hasLinkRole : baseSet.linkRole = "" then
    .error .emptyLinkRole
  else if hasArcRole : baseSet.arcRole = "" then
    .error .emptyArcRole
  else
    .ok ⟨baseSet, ∅, #[], ∅, ∅, hasArcRole, hasLinkRole⟩

def openFor (r : Relationship) : Network :=
  ⟨r.baseSet, ∅, #[], ∅, ∅, r.hasArcRole, r.hasLinkRole⟩

/-- The bucket in a slot.  A slot past the last one reads as an empty bucket;
    the perspectives never name one. -/
def bucket (network : Network) (slot : Nat) : Bucket :=
  network.buckets.getD slot .empty

/-- Keeps a fragment unless one of its index is kept already. -/
def keep (fragments : Std.ExtTreeMap Index Fragment) (fragment : Fragment) :
    Std.ExtTreeMap Index Fragment :=
  fragments.insertIfNew fragment.index fragment

/-- Puts a relationship into a new slot and notes it under both ends. -/
def openSlot (network : Network) (r : Relationship) : Except Failure Network :=
  (Bucket.empty.add r).map fun bucket =>
    let slot := network.buckets.size
    { network with
      fragments := keep (keep network.fragments r.source) r.target
      buckets := network.buckets.push bucket
      bySource := network.bySource.record r.source.index ⟨r.key, r.target.index⟩ slot
      byTarget := network.byTarget.record r.target.index ⟨r.key, r.source.index⟩ slot }

def joinSlot (network : Network) (slot : Nat) (r : Relationship) : Except Failure Network :=
  ((network.bucket slot).add r).map fun bucket =>
    { network with buckets := network.buckets.setIfInBounds slot bucket }

/-- Adds a relationship and tells whether it was new.  It is not when its
    bucket has already had a relationship of the same arc. -/
def insert (network : Network) (r : Relationship) : Except Failure (Network × Bool) :=
  if r.baseSet ≠ network.baseSet then
    .error (.mismatched network.baseSet r.baseSet)
  else
    match network.byTarget.slot? r.target.index ⟨r.key, r.source.index⟩ with
    | none => (network.openSlot r).map (·, true)
    | some slot =>
      if (network.bucket slot).containsArc r.arc.index then
        .ok (network, false)
      else
        (network.joinSlot slot r).map (·, true)

/-- Adds relationships in order, up to the first that is refused. -/
def insertAll (network : Network) (relationships : List Relationship) : Except Failure Network :=
  relationships.foldlM (fun network r => (network.insert r).map (·.1)) network

/-- How many buckets there are. -/
def size (network : Network) : Nat :=
  network.buckets.size

def isEmpty (network : Network) : Bool :=
  network.buckets.isEmpty

/-- The fragments that relationships lead out of, effective or not. -/
def sources (network : Network) : List Index :=
  network.bySource.keys

/-- The fragments that relationships lead into, effective or not. -/
def targets (network : Network) : List Index :=
  network.byTarget.keys

def effective (network : Network) (slots : List Nat) : List Relationship :=
  slots.filterMap fun slot => (network.bucket slot).effective?

/-- The effective relationships out of a fragment, in the order of their arcs;
    those at the same place stand in the order of their edges. -/
def outgoing (network : Network) (source : Index) : List Relationship :=
  sortByOrder (network.effective (network.bySource.slots source))

/-- The effective relationships into a fragment, in the order of their edges. -/
def incoming (network : Network) (target : Index) : List Relationship :=
  network.effective (network.byTarget.slots target)

/-- All effective relationships, one source after the other. -/
def relationships (network : Network) : List Relationship :=
  network.sources.flatMap network.outgoing

/-- The fragments that relationships lead out of but not into, effective or not. -/
def roots (network : Network) : List Index :=
  network.sources.filter fun index => !network.byTarget.contains index

/-- Whether no effective relationship leads into the fragment. -/
def isRoot (network : Network) (index : Index) : Bool :=
  (network.incoming index).isEmpty

/-- Whether no effective relationship leads out of the fragment. -/
def isLeaf (network : Network) (index : Index) : Bool :=
  (network.outgoing index).isEmpty

def hasSingleParent (network : Network) (index : Index) : Bool :=
  (network.incoming index).length == 1

end Network

end XbrlNetworks
