/-! # Decimal numerals

A decimal numeral is a sign, a natural number and a power of ten.  `ofText?`
reads one from text and `text` writes one positionally, never with an
exponent.
-/

namespace XbrlNetworks

/-- The decimal number `± digits · 10 ^ exponent`; a zero keeps its sign. -/
structure Numeral where
  negative : Bool
  /-- The digits read as one natural number, the point left out -/
  digits : Nat
  /-- The power of ten that the last digit counts -/
  exponent : Int
deriving DecidableEq, Repr

namespace Numeral

/-- Splits one leading sign off; the flag is set for a minus. -/
def splitSign : List Char → Bool × List Char
  | '-' :: rest => (true, rest)
  | '+' :: rest => (false, rest)
  | unsigned => (false, unsigned)

def valueOfDigits (digits : List Char) : Nat :=
  digits.foldl (fun value digit => 10 * value + (digit.toNat - '0'.toNat)) 0

/-- Reads what may follow the digits: nothing, or `e` with an exponent that
    has an optional sign and at least one digit. -/
def exponentOfChars? : List Char → Option Int
  | [] => some 0
  | mark :: rest =>
    let (negative, digits) := splitSign rest
    if (mark == 'e' || mark == 'E') && !digits.isEmpty && digits.all Char.isDigit then
      some (if negative then -(valueOfDigits digits : Int) else valueOfDigits digits)
    else
      none

def splitFraction : List Char → List Char × List Char
  | '.' :: rest => (rest.takeWhile Char.isDigit, rest.dropWhile Char.isDigit)
  | rest => ([], rest)

/-- Reads an optional sign, digits with at most one point and at least one
    digit, and an optional exponent. -/
def ofChars? (chars : List Char) : Option Numeral :=
  let (negative, unsigned) := splitSign chars
  let whole := unsigned.takeWhile Char.isDigit
  let (fraction, rest) := splitFraction (unsigned.dropWhile Char.isDigit)
  if whole.isEmpty && fraction.isEmpty then
    none
  else
    (exponentOfChars? rest).map fun exponent =>
      ⟨negative, valueOfDigits (whole ++ fraction), exponent - fraction.length⟩

def ofText? (text : String) : Option Numeral :=
  ofChars? text.toList

/-- The digits before the point of `digits · 10 ^ exponent`, and those after
    it with the zeros at the end left out. -/
def places (digits : Nat) : Int → List Char × List Char
  | .ofNat zeros =>
    (if digits = 0 then ['0'] else Nat.toDigits 10 digits ++ List.replicate zeros '0', [])
  | .negSucc n =>
    let shown := Nat.toDigits 10 digits
    let padded := List.replicate (n + 2 - shown.length) '0' ++ shown
    let cut := padded.length - (n + 1)
    (padded.take cut, ((padded.drop cut).reverse.dropWhile (· == '0')).reverse)

/-- Writes a numeral positionally, without a point where no digit follows it. -/
def text (numeral : Numeral) : String :=
  let (whole, fraction) := places numeral.digits numeral.exponent
  let unsigned := if fraction.isEmpty then whole else whole ++ '.' :: fraction
  String.ofList (if numeral.negative then '-' :: unsigned else unsigned)

end Numeral

end XbrlNetworks
