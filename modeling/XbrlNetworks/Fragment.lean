import XbrlNetworks.Failure

/-! # Fragments and extended links

A fragment is a node that relationships connect.  A locator is a fragment
that only stands for another one, named by its target.
-/

namespace XbrlNetworks

/-- What a fragment is. -/
inductive Fragment.Kind where
  /-- A concept that a taxonomy schema declares. -/
  | concept
  /-- An item or tuple of an instance document. -/
  | fact
  | label
  | reference
  /-- Any other resource. -/
  | resource
  /-- A locator that stands for the fragment `target`. -/
  | locator (target : Index)
  /-- Anything that need not be told apart. -/
  | other
deriving DecidableEq, Repr

namespace Fragment.Kind

def name : Kind → String
  | concept => "concept"
  | fact => "fact"
  | label => "label"
  | reference => "reference"
  | resource => "resource"
  | locator _ => "locator"
  | other => "other"

/-- The fragment that a locator stands for. -/
def target? : Kind → Option Index
  | locator target => some target
  | _ => none

/-- The kind of a name that needs no target. -/
def plain? : String → Option Kind
  | "concept" => some concept
  | "fact" => some fact
  | "label" => some label
  | "reference" => some reference
  | "resource" => some resource
  | "other" => some other
  | _ => none

/-- The kind of a name and a target: a locator has a target and nothing else has one. -/
def ofParts (name : String) (target? : Option Index) : Except Flaw Kind :=
  match target? with
  | some target => if name = "locator" then .ok (locator target) else .error (.strayTarget name)
  | none =>
    if name = "locator" then
      .error .locatorWithoutTarget
    else
      match plain? name with
      | some kind => .ok kind
      | none => .error (.unknownKind name)

theorem ofParts_name_target? (kind : Kind) : ofParts kind.name kind.target? = .ok kind := by
  cases kind <;> rfl

end Fragment.Kind

/-- A node that relationships connect. -/
structure Fragment where
  index : Index
  kind : Fragment.Kind
  /-- The name of the element or concept, where it is known -/
  name : Option String
deriving DecidableEq, Repr

def Fragment.isLocator (fragment : Fragment) : Bool :=
  fragment.kind.target?.isSome

/-- The element that contains arcs and gives them its link role. -/
structure ExtendedLink where
  index : Index
  role : String
deriving DecidableEq, Repr

end XbrlNetworks
