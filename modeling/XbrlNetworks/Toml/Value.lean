import XbrlNetworks.Toml.Moment
import XbrlNetworks.Toml.Number

/-! # Reading TOML values

How values of all types are read, arrays and inline tables among them.  Both
may hold one another, but only down to a fixed depth.
-/

namespace XbrlNetworks.Toml

/-- How many arrays and inline tables may stand in one another, and how many
    names a key may have. -/
def deepest : Nat := 79

def bareValue : Reader Value := do
  let chars ← run fun c => isBare c || c == '+' || c == '.'
  if chars = "true".toList ∨ chars = "false".toList then
    return .other
  else
    number? chars

def simpleValue : Reader Value := do
  match ← string? with
  | some text => return .text text
  | none => (do moment; return .other) <|> bareValue

/-- Reads the rest of an array, at most `count` items; a comma may stand after
    the last one.  An item and a line take up one character at least, so what
    bounds the items bounds the lines around them too. -/
def items (item : Reader Value) : (count : Nat) → Reader (List Value)
  | 0 => failure
  | count + 1 => do
    skipLines (count + 1)
    if ← accept [']'] then
      return []
    let first ← item
    skipLines (count + 1)
    if ← accept [','] then
      return first :: (← items item count)
    expect ']'
    return [first]

def field (item : Reader Value) (entries : Entries) : Reader Entries := do
  skipBlanks
  let key ← key deepest
  expect '='
  skipBlanks
  let value ← item
  skipBlanks
  entries.assign key value

def fields (item : Reader Value) : (count : Nat) → Entries → Reader Entries
  | 0, _ => failure
  | count + 1, entries => do
    if ← accept [','] then
      fields item count (← field item entries)
    else
      expect '\x7d'
      return entries

def inlineTable (item : Reader Value) : Reader Entries := do
  skipBlanks
  if ← accept ['\x7d'] then
    return []
  fields item (← bound) (← field item [])

/-- Reads a value in which no more than `depth` arrays and inline tables stand
    in one another. -/
def value : (depth : Nat) → Reader Value
  | 0 => simpleValue
  | depth + 1 => do
    if ← accept ['['] then
      return .array (← items (value depth) (← bound))
    else if ← accept ['\x7b'] then
      return .table .inline (← inlineTable (value depth))
    else
      simpleValue

end XbrlNetworks.Toml
