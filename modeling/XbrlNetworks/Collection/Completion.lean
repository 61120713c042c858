import XbrlNetworks.Collection.Basic
import XbrlNetworks.Network.Completion

/-! # Filling the networks of a collection

A network is taken out of the collection, filled, and put back if it then has
relationships, whether the work succeeded or not.  For an arc role this is
done for all link roles of the store one after the other, up to the first
failure.
-/

namespace XbrlNetworks

/-- What filling networks of a collection has led to. -/
structure Collection.Filled where
  /-- How many relationships were added, or why the work stopped -/
  result : Except Failure Nat
  /-- The collection, filled in part after a failure -/
  collection : Collection
  calls : Nat

namespace Collection

def networkOrNew (collection : Collection) (baseSet : BaseSet) : Except Flaw Network :=
  match collection.network? baseSet with
  | some network => .ok network
  | none => Network.new baseSet

def putUnlessEmpty (collection : Collection) (network : Network) : Collection :=
  if network.isEmpty then collection else collection.put network

def fill (collection : Collection) (connection : Connection) (limit : TimeLimit)
    (baseSet : BaseSet) (calls : Nat) : Filled :=
  match collection.networkOrNew baseSet with
  | .error flaw => ⟨.error (.validation flaw), collection, calls⟩
  | .ok network =>
    let filled := network.fill connection limit calls
    ⟨filled.result, (collection.takeOut baseSet).putUnlessEmpty filled.network, filled.calls⟩

/-- Fills the networks of an arc role for some link roles; `added` counts the
    relationships that were added before. -/
def fillLinkRoles (connection : Connection) (limit : TimeLimit) (arcRole : String) :
    List String → Collection → (added calls : Nat) → Filled
  | [], collection, added, calls => ⟨.ok added, collection, calls⟩
  | linkRole :: linkRoles, collection, added, calls =>
    let filled := collection.fill connection limit ⟨arcRole, linkRole⟩ calls
    match filled.result with
    | .error _ => filled
    | .ok more =>
      fillLinkRoles connection limit arcRole linkRoles filled.collection (added + more)
        filled.calls

def fillArcRole (collection : Collection) (connection : Connection) (limit : TimeLimit)
    (arcRole : String) (calls : Nat) : Filled :=
  match connection.outage.answer calls connection.catalogue.linkRoles with
  | .error fault => ⟨.error (.storeAccess fault), collection, calls + 1⟩
  | .ok linkRoles => fillLinkRoles connection limit arcRole linkRoles collection 0 (calls + 1)

end Collection

end XbrlNetworks
