import Std.Data.ExtTreeMap
import Std.Data.ExtTreeSet
import XbrlNetworks.Relationship

/-! # Buckets of equivalent relationships

Relationships with the same key and the same ends compete: the one with the
greatest priority is active, and if it prohibits, none of them takes effect.
A bucket holds such competitors.  Of two with the same priority it keeps the
later one, but it remembers every arc that was ever added.
-/

namespace XbrlNetworks

/-- What the relationships of one bucket have in common. -/
structure Bucket.Identity where
  key : String
  source : Index
  target : Index
deriving DecidableEq, Repr

/-- The bucket that a relationship belongs in. -/
def Relationship.identity (r : Relationship) : Bucket.Identity :=
  ⟨r.key, r.source.index, r.target.index⟩

/-- Relationships that compete with each other. -/
structure Bucket where
  /-- What they have in common, once there is one -/
  identity : Option Bucket.Identity
  /-- The latest relationship of each priority -/
  candidates : Std.ExtTreeMap Int32 Relationship
  /-- The arcs of all relationships ever added -/
  arcs : Std.ExtTreeSet Index
  /-- How many relationships were ever added -/
  added : Nat

namespace Bucket

def empty : Bucket := ⟨none, ∅, ∅, 0⟩

/-- The bucket with one more relationship, whatever its identity. -/
def join (bucket : Bucket) (r : Relationship) : Bucket where
  identity := some r.identity
  candidates := bucket.candidates.insert r.arc.priority r
  arcs := bucket.arcs.insert r.arc.index
  added := bucket.added + 1

/-- Adds a relationship.  The first one decides the identity of the bucket and
    later ones have to match it. -/
def add (bucket : Bucket) (r : Relationship) : Except Failure Bucket :=
  match bucket.identity with
  | none => .ok (bucket.join r)
  | some identity =>
    if identity = r.identity then
      .ok (bucket.join r)
    else
      .error (.incompatible r.key r.source.index r.target.index
        identity.key identity.source identity.target)

/-- The relationships that are kept, greatest priority first. -/
def relationships (bucket : Bucket) : List Relationship :=
  (bucket.candidates.toList.map (·.2)).reverse

/-- The relationship with the greatest priority. -/
def active? (bucket : Bucket) : Option Relationship :=
  bucket.relationships.head?

/-- The active relationship, unless it prohibits. -/
def effective? (bucket : Bucket) : Option Relationship :=
  bucket.active?.filter fun r => !r.isProhibited

def isProhibited (bucket : Bucket) : Bool :=
  bucket.active?.any Relationship.isProhibited

/-- Whether a relationship of the arc was ever added, kept or not. -/
def containsArc (bucket : Bucket) (arc : Index) : Bool :=
  bucket.arcs.contains arc

def isEmpty (bucket : Bucket) : Bool :=
  bucket.candidates.isEmpty

end Bucket

end XbrlNetworks
