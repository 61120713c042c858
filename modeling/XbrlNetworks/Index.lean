import Std.Data.ExtTreeSet

/-! # Indexes and base sets

Fragments, arcs and extended links are told apart by opaque indexes, which
are only ever compared, ordered and handed back.  A base set is what names a
network: an arc role together with a link role.  Whatever is listed is put in
order, by one of the two functions that stand first.
-/

namespace XbrlNetworks

/-- The texts of a list in ascending order, each once. -/
def distinct (texts : List String) : List String :=
  (Std.ExtTreeSet.ofList texts).toList

/-- Puts an item before the first one that it may precede. -/
def insertBy (le : α → α → Bool) (item : α) : List α → List α
  | [] => [item]
  | first :: rest => if le item first then item :: first :: rest else first :: insertBy le item rest

/-- The items of a list in order; those at the same place keep their relative order. -/
def sortBy (le : α → α → Bool) (items : List α) : List α :=
  items.foldr (insertBy le) []

/-- The opaque name under which a fragment, an arc or an extended link is loaded. -/
abbrev Index := String

/-- The pair of roles whose arcs form one network. -/
structure BaseSet where
  arcRole : String
  linkRole : String
deriving DecidableEq, Repr

namespace BaseSet

protected def compare : BaseSet → BaseSet → Ordering :=
  compareLex (compareOn arcRole) (compareOn linkRole)

/-- A base set as it stands in messages, the link role first. -/
def text (set : BaseSet) : String :=
  s!"({set.linkRole}, {set.arcRole})"

end BaseSet

end XbrlNetworks
