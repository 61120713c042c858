import XbrlNetworks.Toml.Value

/-! # TOML documents

A document is a sequence of lines, each blank, a table's header or the
assignment of a value to a key.  Assignments go into the table that the last
header before them opened, or into the top table before the first.
-/

namespace XbrlNetworks.Toml

/-- A line of a document that says something. -/
inductive Line where
  /-- Opens a table. -/
  | header (key : Key)
  /-- Opens one more element of an array of tables. -/
  | element (key : Key)
  /-- Assigns a value to a key of the open table. -/
  | assign (key : Key) (value : Value)

def header : Reader Line := do
  let isElement ← accept ['[']
  skipBlanks
  let key ← key deepest
  expect ']'
  if isElement then
    expect ']'
    return .element key
  else
    return .header key

def assignment : Reader Line := do
  let key ← key deepest
  expect '='
  skipBlanks
  return .assign key (← value deepest)

def line? : Reader (Option Line) := do
  skipBlanks
  let said ← match ← peek with
    | none | some '#' | some '\n' | some '\r' => pure none
    | some '[' => do
      expect '['
      some <$> header
    | some _ => some <$> assignment
  skipBlanks
  skipComment
  endOfLine
  return said

/-- Reads the lines that are left, at most `count` of them. -/
def lines : (count : Nat) → Reader (List Line)
  | 0 => return []
  | count + 1 => do
    if (← peek).isNone then
      return []
    let said ← line?
    return said.toList ++ (← lines count)

/-- What a document has said up to some line. -/
structure Document where
  /-- The names that lead to the table that is open -/
  table : List String
  /-- The entries of the top table -/
  entries : Entries

namespace Document

def empty : Document := ⟨[], []⟩

def add (document : Document) : Line → Option Document
  | .header key => (document.entries.openTable key).map fun entries => ⟨key.names, entries⟩
  | .element key => (document.entries.openElement key).map fun entries => ⟨key.names, entries⟩
  | .assign key value =>
    (document.entries.alter .passage (fun _ inner => inner.assign key value) .header
      document.table).map fun entries => ⟨document.table, entries⟩

/-- Reads a document; a mark of byte order may stand before it. -/
def ofText? (text : String) : Option Document := do
  let chars := text.toList
  let chars := if chars.head? = some '\ufeff' then chars.tail else chars
  let (lines, _) ← lines (chars.length + 1) chars
  lines.foldlM add empty

def value? (document : Document) (name : String) : Option Value :=
  document.entries.lookup name

end Document

end XbrlNetworks.Toml
