import XbrlNetworks.Collection.Basic
import XbrlNetworks.Document.Catalogue
import XbrlNetworks.Ledger.Basic

/-! # Analysing stored relationships

Records are made relationships again with the fragments of the catalogue, and
are reported in one of three ways: all as they are, or only those that are
effective once networks have been built of them, with or without the
prohibiting records.
-/

namespace XbrlNetworks

/-- Which stored relationships are reported. -/
inductive Analysis.Mode where
  /-- All of them, as they are. -/
  | all
  /-- The effective ones, prohibiting records left out before. -/
  | nonProhibited
  /-- The effective ones. -/
  | activeOnly
deriving DecidableEq, Repr

namespace Analysis.Mode

def text : Mode → String
  | all => "all"
  | nonProhibited => "non_prohibited"
  | activeOnly => "active_only"

def ofText? : String → Option Mode
  | "all" => some all
  | "non_prohibited" => some nonProhibited
  | "active_only" => some activeOnly
  | _ => none

end Analysis.Mode

/-- What stored relationships are analysed with. -/
structure Analysis where
  connection : Connection
  ledger : Ledger
  mode : Analysis.Mode

namespace Analysis

/-- What making relationships again has to remember. -/
structure Memory where
  calls : Nat
  /-- The fragments that the store has given -/
  known : Std.ExtTreeMap Index Fragment

/-- Work that asks the store for each fragment once. -/
abbrev Recalling := StateT Memory (Except Failure)

/-- The fragment of an index, from memory or from the store. -/
def fetch (connection : Connection) (index : Index) : Recalling Fragment := fun memory =>
  match memory.known[index]? with
  | some fragment => .ok (fragment, memory)
  | none =>
    match connection.outage.answer memory.calls (connection.catalogue.fragment? index) with
    | .error fault => .error (.storeAccess fault)
    | .ok none => .error (.missingFragment index)
    | .ok (some fragment) =>
      .ok (fragment, ⟨memory.calls + 1, memory.known.insert index fragment⟩)

/-- Makes a relationship again: its source, its target, its arc and then the whole. -/
def restore (connection : Connection) (record : Record) : Recalling Relationship := do
  let source ← fetch connection record.source
  let target ← fetch connection record.target
  let arc ← record.toArc
  match Relationship.bind arc source target record.toLink with
  | .ok r => return r
  | .error flaw => throw (.validation flaw)

/-- One call to the store that stands alone. -/
def call (analysis : Analysis) (truth : α) : Except Failure α :=
  match analysis.connection.outage.answer 0 (.ok truth) with
  | .ok answer => .ok answer
  | .error fault => .error (.storeAccess fault)

/-- The relationships of all records that a query wants. -/
def recorded (analysis : Analysis) (query : Query) : Except Failure (List Relationship) := do
  let records ← analysis.call (analysis.ledger.select query)
  let (relationships, _) ← (records.mapM (restore analysis.connection)).run ⟨1, ∅⟩
  return relationships

/-- The query with prohibiting records left out where the mode says so. -/
def narrow (analysis : Analysis) (query : Query) : Query :=
  match analysis.mode with
  | .nonProhibited => { query with withoutProhibited := true }
  | .all | .activeOnly => query

def networks (analysis : Analysis) (query : Query) : Except Failure Collection := do
  let relationships ← analysis.recorded (analysis.narrow query)
  let (collection, _) ← Collection.empty.insertAll relationships
  return collection

/-- The relationships that a query wants, as the mode reports them. -/
def relationships (analysis : Analysis) (query : Query) : Except Failure (List Relationship) :=
  match analysis.mode with
  | .all => analysis.recorded query
  | .nonProhibited | .activeOnly => do
    let collection ← analysis.networks query
    return collection.networks.flatMap Network.relationships

def hasRelationships (analysis : Analysis) (query : Query) : Except Failure Bool := do
  let relationships ← analysis.relationships query
  return !relationships.isEmpty

/-- The sources of the relationships that are recorded as starting at a root
    of the network, in ascending order. -/
def roots (analysis : Analysis) (baseSet : BaseSet) : Except Failure (List Index) := do
  let relationships ← analysis.relationships { Query.ofBaseSet baseSet with rootsOnly := true }
  return distinct (relationships.map fun r => r.source.index)

/-- The relationships out of a fragment, in the order of their arcs. -/
def children (analysis : Analysis) (baseSet : BaseSet) (parent : Index) :
    Except Failure (List Relationship) := do
  let relationships ← analysis.relationships { Query.ofBaseSet baseSet with source := some parent }
  return sortByOrder relationships

def parents (analysis : Analysis) (baseSet : BaseSet) (child : Index) :
    Except Failure (List Relationship) :=
  analysis.relationships { Query.ofBaseSet baseSet with target := some child }

def arcRoles (analysis : Analysis) : Except Failure (List String) :=
  analysis.call analysis.ledger.arcRoles

def linkRoles (analysis : Analysis) (arcRole : String) : Except Failure (List String) :=
  analysis.call (analysis.ledger.linkRoles arcRole)

end Analysis

end XbrlNetworks
