import XbrlNetworks.Network.Reach

/-! # Walking a network as a tree

A network is a tree when it has one root, no fragment has more than one
parent, and the root reaches every fragment of an effective relationship.  A
tree is walked from its root, parents before children and siblings in the
order of their arcs.  The walk is a machine: it keeps the siblings that are
still to be visited, one queue for each level, and goes on at the deepest.
-/

namespace XbrlNetworks

/-- One stop of a walk. -/
structure Visit where
  fragment : Fragment
  /-- The relationship that led here; the root has none -/
  relationship : Option Relationship
  /-- The distance from the root -/
  depth : Nat
deriving DecidableEq

/-- A walk that may be on its way. -/
structure Traversal where
  network : Network
  /-- The root, as long as it is still to be visited -/
  root : Option Fragment
  /-- The siblings still to be visited, the deepest level first -/
  levels : List (List Relationship)

namespace Traversal

/-- Puts the children of a fragment above the other levels. -/
def descend (network : Network) (fragment : Fragment) (levels : List (List Relationship)) :
    List (List Relationship) :=
  let children := network.outgoing fragment.index
  if children.isEmpty then levels else children :: levels

/-- The next stop and the rest of the walk; nothing when the walk is over.
    Levels without siblings are left behind here. -/
def next? (walk : Traversal) : Option (Visit × Traversal) :=
  match walk.root with
  | some fragment =>
    let levels := descend walk.network fragment walk.levels
    some (⟨fragment, none, 0⟩, { walk with root := none, levels })
  | none =>
    match walk.levels.dropWhile List.isEmpty with
    | (r :: siblings) :: outer =>
      let levels := descend walk.network r.target (siblings :: outer)
      some (⟨r.target, some r, outer.length + 1⟩, { walk with levels })
    | _ => none

def take (walk : Traversal) : Nat → List Visit
  | 0 => []
  | count + 1 =>
    match walk.next? with
    | some (visit, rest) => visit :: rest.take count
    | none => []

/-- All stops of a walk.  A tree has at most one stop for each of its buckets
    besides the root. -/
def visits (walk : Traversal) : List Visit :=
  walk.take (walk.network.size + 1)

end Traversal

namespace Network

/-- What keeps the network from being a tree, or else its root. -/
def treeRoot (network : Network) : Except Obstacle Fragment := do
  let [root] := network.roots | throw (.rootCount network.roots.length)
  if let some child := network.targets.find? fun index => 1 < (network.incoming index).length then
    throw (.sharedChild child)
  let some fragment := network.fragments[root]? | throw (.unknownRoot root)
  let reached := (network.reachableFrom root).length
  let connected := network.connected.length
  if reached ≠ connected then
    throw (.outOfReach reached connected root)
  return fragment

def tree (network : Network) : Except Failure Traversal :=
  match network.treeRoot with
  | .error obstacle => .error (.notATree network.baseSet obstacle)
  | .ok root => .ok ⟨network, some root, []⟩

end Network

end XbrlNetworks
