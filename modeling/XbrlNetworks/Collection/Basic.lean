import XbrlNetworks.Network.Basic

/-! # Collections of networks

A collection holds at most one network for each base set, by arc role and
then by link role.  Relationships find their own network, and questions about
a fragment can be put to one network or to all networks of an arc role.
-/

namespace XbrlNetworks

/-- Networks of one arc role, by link role. -/
abbrev NetworksByLinkRole := Std.ExtTreeMap String Network

/-- At most one network for each base set. -/
structure Collection where
  byArcRole : Std.ExtTreeMap String NetworksByLinkRole

namespace Collection

def empty : Collection := ⟨∅⟩

def ofArcRole (collection : Collection) (arcRole : String) : NetworksByLinkRole :=
  collection.byArcRole[arcRole]?.getD ∅

def network? (collection : Collection) (baseSet : BaseSet) : Option Network :=
  (collection.ofArcRole baseSet.arcRole)[baseSet.linkRole]?

def contains (collection : Collection) (baseSet : BaseSet) : Bool :=
  (collection.network? baseSet).isSome

/-- Puts a network in, replacing that of the same base set. -/
def put (collection : Collection) (network : Network) : Collection :=
  let arcRole := network.baseSet.arcRole
  let networks := (collection.ofArcRole arcRole).insert network.baseSet.linkRole network
  ⟨collection.byArcRole.insert arcRole networks⟩

/-- Takes the network of a base set out.  An arc role stays listed when its
    last network is taken out. -/
def takeOut (collection : Collection) (baseSet : BaseSet) : Collection :=
  ⟨collection.byArcRole.modify baseSet.arcRole (·.erase baseSet.linkRole)⟩

/-- Adds a relationship to its network, which is opened where there is none,
    and tells whether it was new. -/
def insert (collection : Collection) (r : Relationship) : Except Failure (Collection × Bool) :=
  let network := (collection.network? r.baseSet).getD (.openFor r)
  (network.insert r).map fun (network, isNew) => (collection.put network, isNew)

/-- Adds relationships in order and counts those that were new. -/
def insertAll (collection : Collection) (relationships : List Relationship) :
    Except Failure (Collection × Nat) :=
  relationships.foldlM (fun (collection, added) r =>
    (collection.insert r).map fun (collection, isNew) => (collection, added + isNew.toNat))
    (collection, 0)

/-- All networks, by arc role and then by link role. -/
def networks (collection : Collection) : List Network :=
  collection.byArcRole.toList.flatMap fun (_, networks) => networks.toList.map (·.2)

def arcRoles (collection : Collection) : List String :=
  collection.byArcRole.keys

def linkRoles (collection : Collection) (arcRole : String) : List String :=
  (collection.ofArcRole arcRole).keys

/-- How many networks have relationships. -/
def size (collection : Collection) : Nat :=
  (collection.networks.filter fun network => !network.isEmpty).length

/-- The networks of an arc role, only that of one link role if one is given. -/
def selected (collection : Collection) (arcRole : String) (linkRole : Option String) :
    List Network :=
  let wanted := (collection.ofArcRole arcRole).toList.filter fun (role, _) =>
    linkRole.all (· == role)
  wanted.map (·.2)

def outgoing (collection : Collection) (source : Index) (arcRole : String)
    (linkRole : Option String) : List Relationship :=
  (collection.selected arcRole linkRole).flatMap fun network => network.outgoing source

def incoming (collection : Collection) (target : Index) (arcRole : String)
    (linkRole : Option String) : List Relationship :=
  (collection.selected arcRole linkRole).flatMap fun network => network.incoming target

/-- Fragments in ascending order of their indexes; of those with the same
    index the last one. -/
def distinctFragments (fragments : List Fragment) : List Fragment :=
  let byIndex : Std.ExtTreeMap Index Fragment :=
    fragments.foldl (fun byIndex fragment => byIndex.insert fragment.index fragment) ∅
  byIndex.toList.map (·.2)

def sourcesOf (collection : Collection) (target : Index) (arcRole : String)
    (linkRole : Option String) : List Fragment :=
  distinctFragments ((collection.incoming target arcRole linkRole).map (·.source))

def targetsOf (collection : Collection) (source : Index) (arcRole : String)
    (linkRole : Option String) : List Fragment :=
  distinctFragments ((collection.outgoing source arcRole linkRole).map (·.target))

end Collection

end XbrlNetworks
