import XbrlNetworks.Toml.Reader

/-! # TOML strings and keys

A string stands in double quotes, where a backslash escapes, or in single
quotes, where nothing does.  Either kind may stand in three quotes instead and
then go over several lines.  A key is a row of names between points, each of
them bare or a string of one line.
-/

namespace XbrlNetworks.Toml

def hexDigit? (c : Char) : Option Nat :=
  if c.isDigit then some (c.toNat - '0'.toNat)
  else if 'a' ≤ c && c ≤ 'f' then some (c.toNat - 'a'.toNat + 10)
  else if 'A' ≤ c && c ≤ 'F' then some (c.toNat - 'A'.toNat + 10)
  else none

def hexChar (count : Nat) : Reader Char := fun input => do
  let digits ← (input.take count).mapM hexDigit?
  let value := digits.foldl (fun value digit => 16 * value + digit) 0
  if h : digits.length = count ∧ value.isValidChar then
    some (Char.ofNatAux value h.2, input.drop count)
  else
    none

def charOfEscape : Char → Option Char
  | 'b' => some '\x08'
  | 't' => some '\t'
  | 'n' => some '\n'
  | 'f' => some '\x0c'
  | 'r' => some '\r'
  | '"' => some '"'
  | '\\' => some '\\'
  | _ => none

def escape : Reader Char := do
  match ← next with
  | 'u' => hexChar 4
  | 'U' => hexChar 8
  | letter => charOfEscape letter

def basicText : (count : Nat) → Reader (List Char)
  | 0 => failure
  | count + 1 => do
    match ← next with
    | '"' => return []
    | '\\' => return (← escape) :: (← basicText count)
    | c => if isPlain c then return c :: (← basicText count) else failure

def literalText : Reader (List Char) := do
  let text ← run fun c => isPlain c && c != '\''
  expect '\''
  return text

/-- Reads up to two more quotes after the three that end a text of several
    lines; they are its last characters. -/
def spareQuotes (quote : Char) : Reader (List Char) := fun input =>
  let count := min 2 (input.takeWhile (· == quote)).length
  some (input.take count, input.drop count)

def restIsBlank : Reader Bool := fun input => some (endsLine (input.dropWhile isGap), input)

/-- Reads the rest of a text of several lines, at most `count` characters.  A
    line ends in a line feed however it was written.  Where backslashes escape,
    one at the end of a line is left out together with all blanks and ends of
    lines after it; `skipping` tells that this is under way. -/
def block (quote : Char) (escapes : Bool) : (skipping : Bool) → (count : Nat) → Reader (List Char)
  | _, 0 => failure
  | skipping, count + 1 => do
    if endsLine (← get) then
      endOfLine
      let rest ← block quote escapes skipping count
      return if skipping then rest else '\n' :: rest
    let c ← next
    if c = quote then
      if ← accept [quote, quote] then
        spareQuotes quote
      else
        return c :: (← block quote escapes false count)
    else if escapes && c = '\\' then
      if ← restIsBlank then
        block quote escapes true count
      else
        return (← escape) :: (← block quote escapes false count)
    else if skipping && isGap c then
      block quote escapes true count
    else if isPlain c then
      return c :: (← block quote escapes false count)
    else
      failure

/-- Reads a text of several lines after its opening quotes; an end of line that
    follows these is left out. -/
def blockText (quote : Char) (escapes : Bool) : Reader (List Char) := do
  if endsLine (← get) then endOfLine
  block quote escapes false (← bound)

def lineString? : Reader (Option String) := do
  if ← accept ['"'] then
    return some (String.ofList (← basicText (← bound)))
  else if ← accept ['\''] then
    return some (String.ofList (← literalText))
  else
    return none

def string? : Reader (Option String) := do
  if ← accept ['"', '"', '"'] then
    return some (String.ofList (← blockText '"' true))
  else if ← accept ['\'', '\'', '\''] then
    return some (String.ofList (← blockText '\'' false))
  else
    lineString?

/-- A row of names. -/
structure Key where
  /-- The names of the tables on the way -/
  path : List String
  name : String
deriving DecidableEq, Repr

def Key.names (key : Key) : List String :=
  key.path ++ [key.name]

def isBare (c : Char) : Bool :=
  c.isAlphanum || c == '_' || c == '-'

def keyName : Reader String := do
  match ← lineString? with
  | some name => return name
  | none =>
    let name ← run isBare
    if name.isEmpty then failure
    return String.ofList name

def key : (count : Nat) → Reader Key
  | 0 => failure
  | count + 1 => do
    let name ← keyName
    skipBlanks
    if ← accept ['.'] then
      skipBlanks
      let rest ← key count
      return ⟨name :: rest.path, rest.name⟩
    else
      return ⟨[], name⟩

end XbrlNetworks.Toml
