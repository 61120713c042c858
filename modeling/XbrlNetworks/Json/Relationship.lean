import XbrlNetworks.Json.Basic
import XbrlNetworks.Relationship

/-! # Relationships in JSON

How relationships and their parts are written and read.  What is written is
read back as it was: an order by its text, a locator as an object around its
target, a fragment's name only where there is one.
-/

namespace XbrlNetworks

open Json

def Fragment.Kind.toJson : Fragment.Kind → Json
  | .locator target => .object [("locator", .object [("target", .string target)])]
  | kind => .string kind.name

/-- Reads the target of a locator from the object around it. -/
def Fragment.Kind.readLocator (content : Json) : Read Fragment.Kind := do
  let .object members := content | throw .shape
  let target? ← (Fields.mk members false).get? "target" readText
  return .locator (← need target?)

def Fragment.Kind.ofJson : Json → Read Fragment.Kind
  | .object [("locator", content)] => Fragment.Kind.readLocator content
  | json => readChoice Fragment.Kind.plain? json

def Fragment.toJson (fragment : Fragment) : Json :=
  .object ([("index", .string fragment.index), ("kind", fragment.kind.toJson)] ++
    (fragment.name.map fun name => ("name", Json.string name)).toList)

def Fragment.ofJson (json : Json) : Read Fragment := do
  let fields ← json.fields ["index", "kind", "name"]
  let index? ← fields.get? "index" readText
  let kind? ← fields.get? "kind" Fragment.Kind.ofJson
  let name? ← fields.get? "name" readTextOrNull
  fields.finish
  return ⟨← need index?, ← need kind?, name?.join⟩

def ExtendedLink.toJson (link : ExtendedLink) : Json :=
  .object [("index", .string link.index), ("role", .string link.role)]

def ExtendedLink.ofJson (json : Json) : Read ExtendedLink := do
  let fields ← json.fields ["index", "role"]
  let index? ← fields.get? "index" readText
  let role? ← fields.get? "role" readText
  fields.finish
  return ⟨← need index?, ← need role?⟩

def Arc.Order.toJson (order : Arc.Order) : Json :=
  .string order.text

/-- Reads an order from text, as if no arc were known. -/
def Arc.Order.ofJson (json : Json) : Read Arc.Order := do
  let text ← readText json
  match Arc.Order.ofText? text with
  | some order => return order
  | none => throw (.broken (.invalidOrder "" text))

def Arc.Use.toJson (use : Arc.Use) : Json :=
  .string use.text

def Arc.Use.ofJson (json : Json) : Read Arc.Use :=
  readChoice Arc.Use.ofName? json

def Arc.toJson (arc : Arc) : Json :=
  .object [("arcrole", .string arc.role), ("index", .string arc.index),
    ("order", arc.order.toJson), ("priority", ofPriority arc.priority),
    ("semantic_key", .string arc.key), ("use", arc.use.toJson)]

/-- Reads an arc; order, priority and use may be left out. -/
def Arc.ofJson (json : Json) : Read Arc := do
  let fields ← json.fields ["index", "arcrole", "order", "priority", "use", "semantic_key"]
  let role? ← fields.get? "arcrole" readText
  let index? ← fields.get? "index" readText
  let order? ← fields.get? "order" Arc.Order.ofJson
  let priority? ← fields.get? "priority" readPriority
  let key? ← fields.get? "semantic_key" readText
  let use? ← fields.get? "use" Arc.Use.ofJson
  fields.finish
  return ⟨← need index?, ← need role?, order?.getD .one, priority?.getD 0,
    use?.getD .optional, ← need key?⟩

def Relationship.toJson (r : Relationship) : Json :=
  .object [("arc", r.arc.toJson), ("link", r.link.toJson), ("source", r.source.toJson),
    ("target", r.target.toJson)]

/-- Reads a relationship, which has to keep the rules of construction. -/
def Relationship.ofJson (json : Json) : Read Relationship := do
  let fields ← json.fields ["arc", "source", "target", "link"]
  let arc? ← fields.get? "arc" Arc.ofJson
  let link? ← fields.get? "link" ExtendedLink.ofJson
  let source? ← fields.get? "source" Fragment.ofJson
  let target? ← fields.get? "target" Fragment.ofJson
  fields.finish
  match Relationship.bind (← need arc?) (← need source?) (← need target?) (← need link?) with
  | .ok r => return r
  | .error flaw => throw (.broken (.validation flaw))

end XbrlNetworks
