import XbrlNetworks.Decimal.Binary64

/-! # The shortest decimal of a number

A number is written with the fewest digits that read back to it.  On the grid
of decimals with a given number of significant digits only the two neighbours
of the number can be the nearest one, so those two are tried on grid after
grid, and the first grid on which one of them reads back is taken.
-/

namespace XbrlNetworks

namespace Binary64

/-- The number of digits before the point of a positive number; nothing or
    less where it starts behind the point. -/
def leadingPlace (x : Binary64) : Int :=
  ((Nat.toDigits 10 (x.magnitude * Nat.pow 10 400 / unitsPerOne)).length : Int) - 400

/-- The absolute value counted in units of `10 ^ exponent`, as a quotient. -/
def inTens (x : Binary64) : Int → Nat × Nat
  | .ofNat tens => (x.magnitude, unitsPerOne * Nat.pow 10 tens)
  | .negSucc n => (x.magnitude * Nat.pow 10 (n + 1), unitsPerOne)

def readsBack (x : Binary64) (numeral : Numeral) : Bool :=
  decide (ofNumeral? numeral = some x)

/-- The neighbour among the multiples of `10 ^ exponent` that reads back: of two
    the nearer, and the upper one where both are equally near. -/
def onGrid? (x : Binary64) (exponent : Int) : Option Numeral :=
  let (num, den) := x.inTens exponent
  let below : Numeral := ⟨x.negative, num / den, exponent⟩
  let above : Numeral := ⟨x.negative, num / den + 1, exponent⟩
  let inOrder := if 2 * (num % den) < den then [below, above] else [above, below]
  inOrder.find? x.readsBack

def withDigits? (x : Binary64) (count : Nat) : Option Numeral :=
  x.onGrid? (x.leadingPlace - count)

def exactNumeral (x : Binary64) : Numeral :=
  ⟨x.negative, x.magnitude * Nat.pow 5 binaryPlaces, -binaryPlaces⟩

/-- The decimal number with the fewest digits that reads back; seventeen
    digits always suffice. -/
def shortest (x : Binary64) : Numeral :=
  if x.magnitude = 0 then
    ⟨x.negative, 0, 0⟩
  else
    ((List.range' 1 17).findSome? x.withDigits?).getD x.exactNumeral

/-- The text of a number: positional, without an exponent, and without a
    point where no digit follows it. -/
def text (x : Binary64) : String :=
  x.shortest.text

end Binary64

end XbrlNetworks
