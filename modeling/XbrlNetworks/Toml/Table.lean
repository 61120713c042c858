import XbrlNetworks.Toml.Text

/-! # TOML tables

A value is a text, a whole number of 64 bits, an array, a table, or something
of another type: a boolean, a float, a date or a time, which is checked and
then forgotten.  Tables come about in four ways, and what may be added to one
later depends on the way it came about.
-/

namespace XbrlNetworks.Toml

/-- How a table came about. -/
inductive Origin where
  /-- A header opened it, or it is the table that is open without a header. -/
  | header
  /-- A header led through it to another table. -/
  | passage
  /-- A key with points led through it to a value. -/
  | key
  /-- It was written between braces and is complete. -/
  | inline
deriving DecidableEq, Repr

/-- What stands at a key. -/
inductive Value where
  | text (value : String)
  | whole (value : Int)
  /-- An array that was written between brackets. -/
  | array (items : List Value)
  /-- A table with its entries in the order in which they were made. -/
  | table (origin : Origin) (entries : List (String × Value))
  /-- An array of tables that headers opened, the latest element first. -/
  | tables (elements : List (List (String × Value)))
  /-- A value of any other type. -/
  | other

/-- What stands in a table. -/
abbrev Entries := List (String × Value)

def Value.isVoid : Value → Bool
  | array [] | table _ [] | tables [] => true
  | _ => false

/-- The name that a value chooses from several: it is that text, or a table
    that holds the name alone and nothing at it. -/
def Value.choice? : Value → Option String
  | text name => some name
  | table _ [(name, content)] => if content.isVoid then some name else none
  | _ => none

namespace Entries

def put (name : String) (value : Value) : Entries → Entries
  | [] => [(name, value)]
  | (first, old) :: rest =>
    if first = name then (name, value) :: rest else (first, old) :: put name value rest

/-- Changes the table at the end of a path.  What is missing on the way comes
    about there, its origin being `way`.  The way may lead through tables of any
    origin that are not complete, and through an array of tables to its latest
    element; a key does not lead through a table that a header opened. -/
def alter (way : Origin) (change : Origin → Entries → Option Entries) :
    (origin : Origin) → (path : List String) → Entries → Option Entries
  | origin, [], entries => change origin entries
  | _, name :: path, entries => do
    let value ← match entries.lookup name with
      | none => (alter way change way path []).map (.table way)
      | some (.table origin inner) =>
        if origin = .inline ∨ (way = .key ∧ origin = .header) then
          none
        else
          (alter way change origin path inner).map (.table origin)
      | some (.tables (latest :: earlier)) =>
        (alter way change .header path latest).map fun latest => .tables (latest :: earlier)
      | some _ => none
    return put name value entries

/-- Assigns a value to a key.  Nothing may stand there, and the table that the
    last point leads into has to be one that came about by a key. -/
def assign (key : Key) (value : Value) (entries : Entries) : Option Entries :=
  alter .key (fun origin inner =>
    if (key.path = [] ∨ origin = .key) ∧ (inner.lookup key.name).isNone then
      some (put key.name value inner)
    else
      none) .header key.path entries

/-- Opens a table.  Nothing may stand there but a table that a header passed
    through, which keeps its entries. -/
def openTable (key : Key) (entries : Entries) : Option Entries :=
  alter .passage (fun _ inner =>
    match inner.lookup key.name with
    | none => some (put key.name (.table .header []) inner)
    | some (.table .passage kept) => some (put key.name (.table .header kept) inner)
    | some _ => none) .header key.path entries

/-- Opens one more element of an array of tables, which comes about if nothing
    stands there. -/
def openElement (key : Key) (entries : Entries) : Option Entries :=
  alter .passage (fun _ inner =>
    match inner.lookup key.name with
    | none => some (put key.name (.tables [[]]) inner)
    | some (.tables elements) => some (put key.name (.tables ([] :: elements)) inner)
    | some _ => none) .header key.path entries

end Entries

end XbrlNetworks.Toml
