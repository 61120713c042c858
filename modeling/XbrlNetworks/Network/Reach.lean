import XbrlNetworks.Network.Basic

/-! # Reach

Which fragments can be reached from one fragment along effective
relationships.  The search keeps account of the fragments that it has not
seen yet, of which there are finitely many, so it ends on cycles too.
-/

namespace XbrlNetworks.Network

/-- The fragments that effective relationships out of a fragment lead into. -/
def children (network : Network) (index : Index) : List Index :=
  (network.outgoing index).map fun r => r.target.index

/-- The first `count` fragments that are seen when the search goes on from
    `pending`, the latest children first.  One that is seen is no longer
    `unseen`, so pending ones that were seen before are passed over. -/
def explore (network : Network) : (count : Nat) → (unseen pending : List Index) → List Index
  | 0, _, _ => []
  | count + 1, unseen, pending =>
    match pending.dropWhile fun index => !unseen.contains index with
    | [] => []
    | index :: rest =>
      index :: network.explore count (unseen.erase index) (network.children index ++ rest)

/-- The fragments that can be reached from a fragment, itself among them, each
    once.  Whatever else can be reached is a target of the network, so the
    search never sees more than it starts with. -/
def reachableFrom (network : Network) (index : Index) : List Index :=
  let unseen := index :: network.targets.filter (· != index)
  network.explore unseen.length unseen [index]

/-- The fragments at the ends of effective relationships, in ascending order. -/
def connected (network : Network) : List Index :=
  distinct (network.relationships.flatMap fun r => [r.source.index, r.target.index])

end XbrlNetworks.Network
