import XbrlNetworks.Decimal.Binary64
import XbrlNetworks.Toml.Table

/-! # TOML numbers

An integer is written in base ten, sixteen, eight or two and has 64 bits.  A
float is only checked: it is infinite or no number by name, or else has a
fraction or an exponent.  Single underscores may stand between digits.
-/

namespace XbrlNetworks.Toml

/-- The digits of a run in which single underscores may stand between digits. -/
def ungroup (allowed : Char → Bool) : List Char → Option (List Char)
  | [] => none
  | [digit] => if allowed digit then some [digit] else none
  | digit :: '_' :: rest =>
    if allowed digit then (ungroup allowed rest).map (digit :: ·) else none
  | digit :: rest =>
    if allowed digit then (ungroup allowed rest).map (digit :: ·) else none

/-- The digits of a number in base ten, which has no leading zero. -/
def decimalDigits (chars : List Char) : Option (List Char) :=
  (ungroup Char.isDigit chars).filter fun digits => digits.length == 1 || digits.head? != some '0'

def wholeInRange (value : Int) : Option Value :=
  if Int64.minValue.toInt ≤ value ∧ value ≤ Int64.maxValue.toInt then
    some (.whole value)
  else
    none

def wholeInBase (base : Nat) (chars : List Char) : Option Value := do
  let digits ← ungroup (fun c => (hexDigit? c).any (· < base)) chars
  let values ← digits.mapM hexDigit?
  let value : Nat := values.foldl (fun value digit => base * value + digit) 0
  wholeInRange value

/-- Whether the end of a float is well formed: an exponent or nothing. -/
def isExponent : List Char → Bool
  | [] => true
  | mark :: rest =>
    (mark == 'e' || mark == 'E') && (ungroup Char.isDigit (Numeral.splitSign rest).2).isSome

def isFiniteFloat (unsigned : List Char) : Bool :=
  let inNumber (c : Char) : Bool := c.isDigit || c == '_'
  let rest := unsigned.dropWhile inNumber
  (decimalDigits (unsigned.takeWhile inNumber)).isSome &&
    match rest with
    | '.' :: rest =>
      (ungroup Char.isDigit (rest.takeWhile inNumber)).isSome &&
        isExponent (rest.dropWhile inNumber)
    | [] => false
    | rest => isExponent rest

def overflows (unsigned : List Char) : Bool :=
  (Binary64.ofText? (String.ofList (unsigned.filter (· != '_')))).isNone

/-- Whether a number is a float.  One that is too large is refused only if it
    is positive. -/
def isFloat (negative : Bool) (unsigned : List Char) : Bool :=
  unsigned == "inf".toList || unsigned == "nan".toList ||
    (isFiniteFloat unsigned && (negative || !overflows unsigned))

def number? (chars : List Char) : Option Value :=
  let (negative, unsigned) := Numeral.splitSign chars
  if isFloat negative unsigned then
    some .other
  else
    match decimalDigits unsigned with
    | some digits =>
      let value : Int := Numeral.valueOfDigits digits
      wholeInRange (if negative then -value else value)
    | none =>
      match chars with
      | '0' :: 'x' :: digits => wholeInBase 16 digits
      | '0' :: 'o' :: digits => wholeInBase 8 digits
      | '0' :: 'b' :: digits => wholeInBase 2 digits
      | _ => none

end XbrlNetworks.Toml
