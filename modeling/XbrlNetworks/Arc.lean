import XbrlNetworks.Decimal.Binary64
import XbrlNetworks.Fragment
import XbrlNetworks.Text.Blank

/-! # Arcs

An arc carries what decides how its relationship competes with equivalent
ones: the order among siblings, the priority, and whether it asserts or
prohibits.  Arcs that may override or prohibit each other share a key.
-/

namespace XbrlNetworks

/-- What an arc does with its relationship. -/
inductive Arc.Use where
  /-- The arc asserts the relationship. -/
  | optional
  /-- The arc prohibits equivalent relationships of lower priority. -/
  | prohibited
deriving DecidableEq, Repr

namespace Arc.Use

def text : Use → String
  | optional => "optional"
  | prohibited => "prohibited"

/-- The use of a name without blanks around it. -/
def ofName? : String → Option Use
  | "optional" => some optional
  | "prohibited" => some prohibited
  | _ => none

def ofText? (raw : String) : Option Use :=
  ofName? (trim raw)

theorem ofText?_text (use : Use) : ofText? use.text = some use := by
  cases use with
  | optional => decide +kernel
  | prohibited => decide +kernel

def invalidMessage (raw : String) : String :=
  s!"Invalid arc use: {raw}"

end Arc.Use

/-- The position of an arc among its siblings: a decimal number as it was
    written, together with the value that it sorts by. -/
structure Arc.Order where
  /-- The number as written, without blanks around it -/
  text : String
  value : Binary64
  /-- The value is what the text says. -/
  reads : Binary64.ofText? text = some value
deriving DecidableEq

namespace Arc.Order

def ofText? (raw : String) : Option Order :=
  match reads : Binary64.ofText? (trim raw) with
  | some value => some ⟨trim raw, value, reads⟩
  | none => none

/-- The order of an arc that gives none. -/
def one : Order := ⟨"1", .one, by decide +kernel⟩

def le (first second : Order) : Bool :=
  decide (first.value.rank ≤ second.value.rank)

end Arc.Order

/-- An arc of an extended link, reduced to what its relationship needs. -/
structure Arc where
  index : Index
  role : String
  /-- The position among siblings -/
  order : Arc.Order
  /-- The priority; of equivalent arcs the one with the greatest wins -/
  priority : Int32
  use : Arc.Use
  /-- The key that the arc shares with those it is equivalent to -/
  key : String
deriving DecidableEq

namespace Arc

/-- An optional arc of order one and priority zero. -/
def plain (index : Index) (role key : String) : Arc :=
  ⟨index, role, .one, 0, .optional, key⟩

def withOrder (arc : Arc) (raw : String) : Except Failure Arc :=
  match Order.ofText? raw with
  | some order => .ok { arc with order }
  | none => .error (.invalidOrder arc.index raw)

/-- The priority of a number that fits in 32 bits. -/
def priorityOfInt? (value : Int) : Option Int32 :=
  if Int32.minValue.toInt ≤ value ∧ value ≤ Int32.maxValue.toInt then
    some (Int32.ofInt value)
  else
    none

theorem priorityOfInt?_toInt (priority : Int32) :
    priorityOfInt? priority.toInt = some priority := by
  rw [priorityOfInt?, if_pos ⟨priority.minValue_le_toInt, priority.toInt_le⟩, Int32.ofInt_toInt]

def isProhibited (arc : Arc) : Bool :=
  arc.use == .prohibited

end Arc

end XbrlNetworks
