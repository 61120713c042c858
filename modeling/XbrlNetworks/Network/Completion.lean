import XbrlNetworks.Document.Catalogue
import XbrlNetworks.Network.Basic

/-! # Filling a network

A network is filled from a catalogue: in every extended link of its link role
every arc of its arc role is bound to all pairs of its ends and added.  Ends
that are locators are followed for one step.  The work stops at the first
failure and the network keeps what it has got by then, so the state outlives
the failure.
-/

namespace XbrlNetworks

/-- What filling a network has led to so far. -/
structure Progress where
  network : Network
  calls : Nat
  added : Nat

/-- Work on a network that may fail and then keeps its progress. -/
abbrev Filling := EStateM Failure Progress

namespace Filling

def ask (outage : Outage) (truth : Except StoreFault α) : Filling α := do
  let progress ← get
  set { progress with calls := progress.calls + 1 }
  match outage.answer progress.calls truth with
  | .ok answer => pure answer
  | .error fault => throw (.storeAccess fault)

def checkTime (limit : TimeLimit) : Filling Unit := do
  let progress ← get
  match limit.spent? progress.calls with
  | some spent => throw (.timedOut spent)
  | none => pure ()

/-- The fragment that a locator stands for: one that the network has kept, or
    else the store's. -/
def lookUp (connection : Connection) (locator target : Index) : Filling Fragment := do
  let progress ← get
  match progress.network.fragments[target]? with
  | some kept => pure kept
  | none =>
    match ← ask connection.outage (connection.catalogue.fragment? target) with
    | some fragment => pure fragment
    | none => throw (.danglingLocator locator target)

/-- Follows a locator for one step; other fragments are resolved already. -/
def resolve (connection : Connection) (fragment : Fragment) : Filling Fragment :=
  match fragment.kind.target? with
  | none => pure fragment
  | some target => do
    let resolved ← lookUp connection fragment.index target
    if resolved.isLocator then
      throw (.locatorChain fragment.index resolved.index)
    else
      pure resolved

def addPair (link : ExtendedLink) (arc : Arc) (source target : Fragment) : Filling Unit := do
  match Relationship.bind arc source target link with
  | .error flaw => throw (.validation flaw)
  | .ok r =>
    let progress ← get
    match progress.network.insert r with
    | .error failure => throw failure
    | .ok (network, isNew) =>
      set { progress with network, added := progress.added + isNew.toNat }

/-- Adds the relationships of one arc; the sources are resolved before the
    targets are asked for. -/
def addArc (connection : Connection) (limit : TimeLimit) (link : ExtendedLink) (arc : Arc) :
    Filling Unit := do
  checkTime limit
  let sources ← ask connection.outage (connection.catalogue.arcSources arc)
  let sources ← sources.mapM (resolve connection)
  let targets ← ask connection.outage (connection.catalogue.arcTargets arc)
  let targets ← targets.mapM (resolve connection)
  sources.forM fun source => targets.forM fun target => addPair link arc source target

def addLink (connection : Connection) (limit : TimeLimit) (arcRole : String)
    (link : ExtendedLink) : Filling Unit := do
  checkTime limit
  let arcs ← ask connection.outage (connection.catalogue.arcs link arcRole)
  arcs.forM (addArc connection limit link)

def addAll (connection : Connection) (limit : TimeLimit) (baseSet : BaseSet) :
    Filling Unit := do
  let links ← ask connection.outage (connection.catalogue.links baseSet.linkRole)
  links.forM (addLink connection limit baseSet.arcRole)

end Filling

/-- What filling a network has led to in the end. -/
structure Network.Filled where
  /-- How many relationships were added, or why the work stopped -/
  result : Except Failure Nat
  /-- The network, filled in part after a failure -/
  network : Network
  calls : Nat

/-- Fills a network.  A failure tells the base set and whether anything had
    been added before. -/
def Network.fill (network : Network) (connection : Connection) (limit : TimeLimit)
    (calls : Nat) : Network.Filled :=
  match Filling.addAll connection limit network.baseSet ⟨network, calls, 0⟩ with
  | .ok () progress => ⟨.ok progress.added, progress.network, progress.calls⟩
  | .error cause progress =>
    ⟨.error (.completion network.baseSet (0 < progress.added) cause), progress.network,
      progress.calls⟩

end XbrlNetworks
