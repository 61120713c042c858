/-! # Reading TOML character by character

A reader takes characters off the front of its input and fails where the
grammar does.  These are the readers that all others are made of: single
characters, runs of them, blanks, comments and the ends of lines.
-/

namespace XbrlNetworks.Toml

/-- A reader of the characters that are left. -/
abbrev Reader := StateT (List Char) Option

/-- Whether a character may stand in a string or a comment. -/
def isPlain (c : Char) : Bool :=
  c == '\t' || (0x20 ≤ c.toNat && c.toNat != 0x7F)

/-- Whether a character only separates others. -/
def isGap (c : Char) : Bool :=
  c == ' ' || c == '\t'

def peek : Reader (Option Char) := fun input => some (input.head?, input)

def next : Reader Char
  | [] => none
  | c :: rest => some (c, rest)

def expect (c : Char) : Reader Unit
  | [] => none
  | first :: rest => if first = c then some ((), rest) else none

/-- Reads the given characters if they stand here, and tells whether they did. -/
def accept (wanted : List Char) : Reader Bool := fun input =>
  if wanted.isPrefixOf input then some (true, input.drop wanted.length) else some (false, input)

def run (allowed : Char → Bool) : Reader (List Char) := fun input =>
  some (input.takeWhile allowed, input.dropWhile allowed)

/-- How many characters are left, and one more: a bound for what reads at
    least one of them in each round. -/
def bound : Reader Nat := fun input => some (input.length + 1, input)

def skipBlanks : Reader Unit := do
  let _ ← run isGap

def skipComment : Reader Unit := do
  if (← peek) = some '#' then
    let _ ← run isPlain

/-- Whether a line ends here, the end of the input left aside. -/
def endsLine : List Char → Bool
  | '\n' :: _ => true
  | '\r' :: '\n' :: _ => true
  | _ => false

/-- Reads the end of a line; the end of the input is one too. -/
def endOfLine : Reader Unit
  | [] => some ((), [])
  | '\n' :: rest => some ((), rest)
  | '\r' :: '\n' :: rest => some ((), rest)
  | _ => none

/-- Skips blanks, comments and ends of lines, at most `count` lines of them. -/
def skipLines : (count : Nat) → Reader Unit
  | 0 => failure
  | count + 1 => do
    skipBlanks
    skipComment
    match ← peek with
    | some '\n' | some '\r' =>
      endOfLine
      skipLines count
    | _ => return ()

end XbrlNetworks.Toml
