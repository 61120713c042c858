import XbrlNetworks.Collection.Basic
import XbrlNetworks.Document.Catalogue
import XbrlNetworks.Ledger.Basic

/-! # Posting networks to a ledger

Each bucket of a network asks for one change of the ledger: its active
relationship is recorded there, or, if that one prohibits, what stands under its
address is struck.  Nothing that prohibits is recorded; whoever asks for it is
refused.  Changes are carried out one after the other, each with one call to the
store, and what is refused or fails ends the work there.
-/

namespace XbrlNetworks

/-- One change of a ledger. -/
inductive Ledger.Change where
  | put (record : Record)
  /-- Removes the record of an address, if there is one. -/
  | strike (address : Record.Address)
deriving DecidableEq, Repr

/-- How many records were changed. -/
structure Ledger.Tally where
  /-- Records stored or replaced -/
  stored : Nat
  removed : Nat
deriving DecidableEq, Repr

/-- What posting has led to. -/
structure Ledger.Posted where
  /-- The tally, or why the work stopped -/
  result : Except Failure Ledger.Tally
  /-- The ledger, changed in part after a failure -/
  ledger : Ledger
  calls : Nat

namespace Ledger

def apply (ledger : Ledger) : Change → Ledger
  | .put record => ledger.put record
  | .strike address => (ledger.delete address).2

def count (ledger : Ledger) (tally : Tally) : Change → Tally
  | .put _ => { tally with stored := tally.stored + 1 }
  | .strike address => { tally with removed := tally.removed + (ledger.delete address).1.toNat }

/-- Carries out what is asked for until it is refused or a call fails. -/
def post (outage : Outage) :
    List (Except Flaw Change) → Ledger → Tally → (calls : Nat) → Posted
  | [], ledger, tally, calls => ⟨.ok tally, ledger, calls⟩
  | .error flaw :: _, ledger, _, calls => ⟨.error (.validation flaw), ledger, calls⟩
  | .ok change :: requests, ledger, tally, calls =>
    match outage.answer calls (.ok ()) with
    | .error fault => ⟨.error (.storeAccess fault), ledger, calls + 1⟩
    | .ok () => post outage requests (ledger.apply change) (ledger.count tally change) (calls + 1)

def postAll (ledger : Ledger) (outage : Outage) (requests : List (Except Flaw Change)) : Posted :=
  post outage requests ledger ⟨0, 0⟩ 0

end Ledger

/-- Asks for one relationship to be recorded, which must not prohibit. -/
def Relationship.recording (r : Relationship) (root : Bool) : Except Flaw Ledger.Change :=
  if r.isProhibited then
    .error (.prohibitingRecord r.arc.index)
  else
    .ok (.put (.ofRelationship r root))

/-- What an active relationship asks for. -/
def Relationship.request (r : Relationship) (roots : List Index) : Except Flaw Ledger.Change :=
  if r.isProhibited then
    .ok (.strike r.address)
  else
    r.recording (roots.contains r.source.index)

/-- What the buckets of a network ask for, slot by slot. -/
def Network.requests (network : Network) : List (Except Flaw Ledger.Change) :=
  network.buckets.toList.filterMap fun bucket =>
    bucket.active?.map fun r => r.request network.roots

def Collection.requests (collection : Collection) : List (Except Flaw Ledger.Change) :=
  collection.networks.flatMap Network.requests

end XbrlNetworks
