import Std.Data.ExtTreeMap
import XbrlNetworks.Arc
import XbrlNetworks.Decimal.Shortest

/-! # The key of equivalent arcs

Arcs are equivalent when they agree on everything but a few exempt
attributes.  The key of an arc is the text of its arc role, of the value of
its order, and of its other attributes in the order of their names.
-/

namespace XbrlNetworks

/-- The attributes of an arc by name. -/
abbrev Attributes := Std.ExtTreeMap String String

namespace Arc

/-- Whether an attribute takes no part in equivalence: use, priority and order,
    and everything in the linking vocabulary. -/
def isExempt (name : String) : Bool :=
  name == "use" || name == "priority" || name == "order" ||
    "xlink:".toList.isPrefixOf name.toList

/-- One attribute as it stands in a key, its value without blanks around it. -/
def keyPart (name value : String) : String :=
  "|" ++ name ++ "=" ++ trim value

/-- The key of an arc.  The order enters by its value, so that two ways to
    write the same number give the same key. -/
def keyOf (role : String) (order : Order) (attributes : Attributes) : String :=
  let compared := attributes.toList.filter fun (name, _) => !isExempt name
  let parts := compared.map fun (name, value) => keyPart name value
  role ++ "|order=" ++ order.value.text ++ String.join parts

end Arc

end XbrlNetworks
