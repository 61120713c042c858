import XbrlNetworks.Network.Basic

/-! # Snapshots

A snapshot keeps of a network its roles and the relationships that its
buckets keep, and forgets all else.  Adding them again to an empty network
restores it.
-/

namespace XbrlNetworks

/-- What is written down of a network. -/
structure Snapshot where
  baseSet : BaseSet
  /-- The kept relationships bucket by bucket, in each the greatest priority first -/
  relationships : List Relationship

def Network.snapshot (network : Network) : Snapshot :=
  ⟨network.baseSet, network.buckets.toList.flatMap Bucket.relationships⟩

def Snapshot.restore (snapshot : Snapshot) : Except Failure Network :=
  match Network.new snapshot.baseSet with
  | .error flaw => .error (.validation flaw)
  | .ok network => network.insertAll snapshot.relationships

end XbrlNetworks
