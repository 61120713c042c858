import XbrlNetworks.Collection.Completion
import XbrlNetworks.Document.Tables
import XbrlNetworks.Ledger.Posting
import XbrlNetworks.Settings

/-! # Stores

A store keeps loaded documents beside the ledger of the relationships that
were made of them.  Storing all relationships fills every network that the
documents define and only then posts all of them, so that a failure to fill
leaves the ledger as it was.  All calls are made over one connection, those
that read the documents and those that change the ledger.
-/

namespace XbrlNetworks

/-- Loaded documents and stored relationships. -/
structure Store where
  documents : Documents
  ledger : Ledger
  settings : Settings

/-- Why storing all relationships did not succeed. -/
inductive Store.Problem where
  /-- The store did not say which arc roles there are. -/
  | access (fault : StoreFault)
  /-- A network could not be filled or posted. -/
  | network (failure : Failure)
deriving DecidableEq, Repr

namespace Store

def empty (settings : Settings) : Store := ⟨.empty, ∅, settings⟩

/-- Loads the pieces of a document; the stored relationships stay as they are. -/
def load (store : Store) (entries : List DocumentEntry) : Store :=
  { store with documents := store.documents.load entries }

/-- Fills the networks of some arc roles one after the other, up to the first
    failure, with what is then left of the limit.  Answers how many calls have
    been made. -/
def fillArcRoles (connection : Connection) (limit : TimeLimit) :
    List String → Collection → (calls : Nat) → Except Failure (Collection × Nat)
  | [], collection, calls => .ok (collection, calls)
  | arcRole :: arcRoles, collection, calls =>
    match limit.rest calls with
    | .error passed => .error (.timedOut passed)
    | .ok rest =>
      let filled := collection.fillArcRole connection rest arcRole calls
      match filled.result with
      | .error failure => .error failure
      | .ok _ => fillArcRoles connection limit arcRoles filled.collection filled.calls

/-- All networks that the documents define, and how many calls they took. -/
def networks (store : Store) (outage : Outage) (limit : TimeLimit) :
    Except Problem (Collection × Nat) :=
  match outage.answer 0 store.documents.catalogue.arcRoles with
  | .error fault => .error (.access fault)
  | .ok arcRoles =>
    (fillArcRoles ⟨store.documents.catalogue, outage⟩ limit arcRoles .empty 1).mapError .network

/-- A limit that is given goes before that of the settings. -/
def timeLimit (store : Store) (clock : Clock) (limit : Option Duration) : TimeLimit :=
  (limit <|> store.settings.timeLimit).map fun limit => ⟨limit, clock⟩

/-- Stores the relationships of all networks that the documents define. -/
def storeAll (store : Store) (outage : Outage) (clock : Clock) (limit : Option Duration) :
    Except Problem Ledger.Tally × Store :=
  match store.networks outage (store.timeLimit clock limit) with
  | .error problem => (.error problem, store)
  | .ok (collection, calls) =>
    let posted := store.ledger.postAll (outage.onwards calls) collection.requests
    (posted.result.mapError .network, { store with ledger := posted.ledger })

def analysis (store : Store) (outage : Outage) (mode : Analysis.Mode) : Analysis :=
  ⟨⟨store.documents.catalogue, outage⟩, store.ledger, mode⟩

end Store

end XbrlNetworks
