import XbrlNetworks.Analysis
import XbrlNetworks.Json.Relationship
import XbrlNetworks.Network.Snapshot

/-! # Networks and records in JSON

A network is written as its snapshot and restored when it is read.  A record
is written field by field and is not checked when it is read.
-/

namespace XbrlNetworks

open Json

def BaseSet.toJson (set : BaseSet) : Json :=
  .object [("arc_role", .string set.arcRole), ("link_role", .string set.linkRole)]

def BaseSet.ofJson (json : Json) : Read BaseSet := do
  let fields ← json.fields ["arc_role", "link_role"]
  let arcRole? ← fields.get? "arc_role" readText
  let linkRole? ← fields.get? "link_role" readText
  fields.finish
  return ⟨← need arcRole?, ← need linkRole?⟩

def Network.toJson (network : Network) : Json :=
  let snapshot := network.snapshot
  .object [("arc_role", .string snapshot.baseSet.arcRole),
    ("link_role", .string snapshot.baseSet.linkRole),
    ("relationships", .array (snapshot.relationships.map Relationship.toJson))]

/-- Reads a network by adding its relationships in order. -/
def Network.ofJson (json : Json) : Read Network := do
  let fields ← json.fields ["link_role", "arc_role", "relationships"]
  let arcRole? ← fields.get? "arc_role" readText
  let linkRole? ← fields.get? "link_role" readText
  let relationships? ← fields.get? "relationships" (readList Relationship.ofJson)
  fields.finish
  let baseSet : BaseSet := ⟨← need arcRole?, ← need linkRole?⟩
  obey (Snapshot.restore ⟨baseSet, ← need relationships?⟩)

def Record.toJson (record : Record) : Json :=
  .object [("arc_index", .string record.arc), ("arc_role", .string record.arcRole),
    ("link_index", .string record.link), ("link_role", .string record.linkRole),
    ("order", .string record.order), ("priority", ofPriority record.priority),
    ("prohibited", .bool record.prohibited), ("root", .bool record.root),
    ("semantic_key", .string record.key), ("source_index", .string record.source),
    ("target_index", .string record.target)]

def Record.ofJson (json : Json) : Read Record := do
  let fields ← json.fields ["arc_index", "arc_role", "link_index", "link_role", "source_index",
    "target_index", "order", "priority", "prohibited", "semantic_key", "root"]
  let arc? ← fields.get? "arc_index" readText
  let arcRole? ← fields.get? "arc_role" readText
  let link? ← fields.get? "link_index" readText
  let linkRole? ← fields.get? "link_role" readText
  let order? ← fields.get? "order" readText
  let priority? ← fields.get? "priority" readPriority
  let prohibited? ← fields.get? "prohibited" readBool
  let root? ← fields.get? "root" readBool
  let key? ← fields.get? "semantic_key" readText
  let source? ← fields.get? "source_index" readText
  let target? ← fields.get? "target_index" readText
  fields.finish
  return ⟨← need arc?, ← need arcRole?, ← need link?, ← need linkRole?, ← need source?,
    ← need target?, ← need order?, ← need priority?, ← need prohibited?, ← need key?,
    ← need root?⟩

def Analysis.Mode.toJson (mode : Analysis.Mode) : Json :=
  .string mode.text

def Analysis.Mode.ofJson (json : Json) : Read Analysis.Mode :=
  readChoice Analysis.Mode.ofText? json

end XbrlNetworks
