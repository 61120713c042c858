import XbrlNetworks.Decimal.Numeral

/-! # Finite binary64 numbers

The value of an arc's order is a finite binary floating point number of 64
bits.  Every such number is a whole multiple of `2 ^ -1074`, so it is kept
here as a sign and that multiple, and no operation of a machine's floating
point unit is involved.  `ofNumeral?` rounds a decimal number to the nearest
one, a tie going to the even neighbour, and refuses what rounds to infinity.
-/

namespace XbrlNetworks

/-- The number of binary places after the point. -/
def binaryPlaces : Nat := 1074

def unitsPerOne : Nat := Nat.pow 2 binaryPlaces

/-- The least power of two that is out of range, `2 ^ 1024`, counted in units
    of `2 ^ -1074`. -/
def unitsOutOfRange : Nat := Nat.pow 2 (binaryPlaces + 1024)

/-- The unit in the last of 53 significant bits of a number of units. -/
def lastBit (magnitude : Nat) : Nat := Nat.pow 2 (magnitude.log2 - 52)

/-- Whether a number of units is in range and has at most 53 significant bits. -/
def IsRepresentable (magnitude : Nat) : Prop :=
  magnitude < unitsOutOfRange ∧ lastBit magnitude ∣ magnitude

/-- A finite binary64 number; zero has both signs. -/
structure Binary64 where
  negative : Bool
  /-- The absolute value in units of `2 ^ -1074` -/
  magnitude : Nat
  representable : IsRepresentable magnitude
deriving DecidableEq

namespace Binary64

/-- Where a number stands in the total order: negative numbers below positive
    ones, and the negative zero directly below the positive zero. -/
def rank (x : Binary64) : Int :=
  if x.negative then -x.magnitude - 1 else x.magnitude

/-- The whole number nearest to `num / den`, the even one of two. -/
def nearest (num den : Nat) : Nat :=
  if 2 * (num % den) < den ∨ (2 * (num % den) = den ∧ num / den % 2 = 0) then
    num / den
  else
    num / den + 1

/-- The number with at most 53 significant bits nearest to `num / den`. -/
def roundToBits (num den : Nat) : Nat :=
  nearest num (den * lastBit (num / den)) * lastBit (num / den)

/-- A whole number of steps has at most 53 significant bits if the steps are
    at most `2 ^ 53` and each is a power of two. -/
theorem lastBit_dvd_of_steps {steps shift : Nat} (few : steps ≤ Nat.pow 2 53) :
    lastBit (steps * Nat.pow 2 shift) ∣ steps * Nat.pow 2 shift := by
  simp only [lastBit, Nat.pow_eq] at few ⊢
  by_cases none : steps = 0
  · simp [none]
  have positive : steps * Nat.pow 2 shift ≠ 0 :=
    Nat.mul_ne_zero none (Nat.pos_iff_ne_zero.mp (Nat.two_pow_pos shift))
  by_cases full : steps = Nat.pow 2 53
  · simp only [full, Nat.pow_eq]
    rw [← Nat.pow_add, Nat.log2_two_pow]
    exact Nat.pow_dvd_pow 2 (by omega)
  · have below : steps * Nat.pow 2 shift < Nat.pow 2 (53 + shift) := by
      simp only [Nat.pow_eq] at full ⊢
      rw [Nat.pow_add]
      exact Nat.mul_lt_mul_of_pos_right (by omega) (Nat.two_pow_pos shift)
    have := (Nat.log2_lt positive).mpr below
    exact Nat.dvd_mul_left_of_dvd (Nat.pow_dvd_pow 2 (by simp only [Nat.pow_eq] at this; omega)) steps

theorem nearest_le (num den : Nat) :
    nearest num (den * lastBit (num / den)) ≤ Nat.pow 2 53 := by
  have whole : num / (den * lastBit (num / den)) < Nat.pow 2 53 := by
    rw [← Nat.div_div_eq_div_mul]
    refine Nat.div_lt_of_lt_mul ?_
    simp only [lastBit, Nat.pow_eq]
    rw [← Nat.pow_add]
    exact Nat.lt_of_lt_of_le Nat.lt_log2_self (Nat.pow_le_pow_right (by decide) (by omega))
  unfold nearest
  split <;> omega

theorem lastBit_dvd_roundToBits (num den : Nat) :
    lastBit (roundToBits num den) ∣ roundToBits num den :=
  lastBit_dvd_of_steps (nearest_le num den)

theorem two_pow_lt_two_pow {first second : Nat} (less : first < second) :
    Nat.pow 2 first < Nat.pow 2 second := by
  simpa only [Nat.pow_eq] using Nat.pow_lt_pow_right (by decide) less

theorem lastBit_dvd_two_pow (shift : Nat) : lastBit (Nat.pow 2 shift) ∣ Nat.pow 2 shift := by
  have dvd := @lastBit_dvd_of_steps 1 shift (by decide)
  rwa [Nat.one_mul] at dvd

theorem isRepresentable_two_pow {shift : Nat} (small : shift < binaryPlaces + 1024) :
    IsRepresentable (Nat.pow 2 shift) := by
  unfold IsRepresentable unitsOutOfRange
  exact ⟨two_pow_lt_two_pow small, lastBit_dvd_two_pow shift⟩

theorem isRepresentable_unitsPerOne : IsRepresentable unitsPerOne := by
  unfold unitsPerOne
  exact isRepresentable_two_pow (Nat.lt_add_of_pos_right (by decide))

theorem unitsOutOfRange_pos : 0 < unitsOutOfRange :=
  Nat.lt_of_le_of_lt (Nat.zero_le _) isRepresentable_unitsPerOne.1

def one : Binary64 := ⟨false, unitsPerOne, isRepresentable_unitsPerOne⟩

def zero (negative : Bool) : Binary64 :=
  ⟨negative, 0, unitsOutOfRange_pos, Nat.dvd_zero _⟩

/-- The number with the given sign nearest to `num / den` units of `2 ^ -1074`,
    unless that is infinity. -/
def ofRatio? (negative : Bool) (num den : Nat) : Option Binary64 :=
  if finite : roundToBits num den < unitsOutOfRange then
    some ⟨negative, roundToBits num den, finite, lastBit_dvd_roundToBits num den⟩
  else
    none

/-- The number nearest to a decimal number.  A number of 311 or more digits
    before the point is out of range, and one that starts more than 400
    places after the point is nearest to zero; neither is computed. -/
def ofNumeral? (numeral : Numeral) : Option Binary64 :=
  let leading : Int := (Nat.toDigits 10 numeral.digits).length + numeral.exponent
  if numeral.digits = 0 ∨ leading < -400 then
    some (zero numeral.negative)
  else if 310 < leading then
    none
  else
    match numeral.exponent with
    | .ofNat tens => ofRatio? numeral.negative (numeral.digits * Nat.pow 10 tens * unitsPerOne) 1
    | .negSucc n => ofRatio? numeral.negative (numeral.digits * unitsPerOne) (Nat.pow 10 (n + 1))

def ofText? (text : String) : Option Binary64 :=
  (Numeral.ofText? text).bind ofNumeral?

end Binary64

end XbrlNetworks
