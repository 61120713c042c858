import XbrlNetworks.Arc

/-! # JSON values

What is written down of the values of this library, and how fields are read
back.  A record is read from an object, whose unknown members are ignored, or
from an array that gives the fields in the order of their declaration.  The
fields that are present are read in the order of their names, and only then
is it noticed that one is missing.
-/

namespace XbrlNetworks

/-- A JSON value. -/
inductive Json where
  | null
  | bool (value : Bool)
  /-- The number `mantissa / 10 ^ places`, an integer if it was written without places. -/
  | number (mantissa : Int) (places : Nat)
  | string (value : String)
  | array (items : List Json)
  /-- An object, its members in the order of their names. -/
  | object (members : List (String × Json))

namespace Json

/-- Why a JSON value stands for no value of the wanted type. -/
inductive Refusal where
  /-- The value has the wrong shape: a wrong type, a missing field or an unknown name. -/
  | shape
  /-- The value has the right shape and breaks a rule of the library. -/
  | broken (failure : Failure)
deriving DecidableEq, Repr

def Refusal.message? : Refusal → Option String
  | shape => none
  | broken failure => some failure.message

/-- What reading a JSON value gives. -/
abbrev Read (α : Type) := Except Refusal α

def readText : Json → Read String
  | string text => .ok text
  | _ => .error .shape

def readBool : Json → Read Bool
  | bool value => .ok value
  | _ => .error .shape

/-- Reads an integer of 32 bits; a number with places is none. -/
def readPriority : Json → Read Int32
  | number value 0 =>
    match Arc.priorityOfInt? value with
    | some priority => .ok priority
    | none => .error .shape
  | _ => .error .shape

def readTextOrNull : Json → Read (Option String)
  | null => .ok none
  | string text => .ok (some text)
  | _ => .error .shape

def readList (read : Json → Read α) : Json → Read (List α)
  | array items => items.mapM read
  | _ => .error .shape

/-- Reads the name of one of several choices: a string, or an object whose
    only member has that name and the value null. -/
def readChoice (choice? : String → Option α) (json : Json) : Read α :=
  let name? := match json with
    | string name => some name
    | object [(name, null)] => some name
    | _ => none
  match name?.bind choice? with
  | some choice => .ok choice
  | none => .error .shape

/-- The fields of a record, found by name. -/
structure Fields where
  members : List (String × Json)
  /-- Whether an array had items beyond the last field -/
  surplus : Bool

/-- The fields of a record with the given names in the order of declaration. -/
def fields (names : List String) : Json → Read Fields
  | object members => .ok ⟨members, false⟩
  | array items => .ok ⟨names.zip items, names.length < items.length⟩
  | _ => .error .shape

namespace Fields

def get? (fields : Fields) (name : String) (read : Json → Read α) : Read (Option α) :=
  match fields.members.lookup name with
  | some json => (read json).map some
  | none => .ok none

def finish (fields : Fields) : Read Unit :=
  if fields.surplus then .error .shape else .ok ()

end Fields

def need : Option α → Read α
  | some value => .ok value
  | none => .error .shape

/-- Reads a value whose rules may be broken. -/
def obey : Except Failure α → Read α
  | .ok value => .ok value
  | .error failure => .error (.broken failure)

def ofPriority (priority : Int32) : Json :=
  number priority.toInt 0

end Json

end XbrlNetworks
