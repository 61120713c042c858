import Mathlib.Data.Nat.Digits.Defs
import Mathlib.Tactic.Ring
import XbrlNetworks.Decimal.Shortest

/-! # Rounding looks at the value only

A numeral can be written with more or fewer zeros at its end.  The number that
it rounds to is the same, and if its value is a binary number, it rounds to
that one.  So what is written as the shortest decimal of a number stands for
that number again.
-/

namespace XbrlNetworks

/-- The same value with some zeros more at the end of the digits. -/
def Numeral.widen (numeral : Numeral) (zeros : Nat) : Numeral :=
  ⟨numeral.negative, numeral.digits * 10 ^ zeros, numeral.exponent - zeros⟩

/-- How many places before the point the first digit stands. -/
def Numeral.leading (numeral : Numeral) : Int :=
  (Nat.toDigits 10 numeral.digits).length + numeral.exponent

theorem Numeral.length_toDigits_mul_pow {digits : Nat} (positive : 0 < digits) (zeros : Nat) :
    (Nat.toDigits 10 (digits * 10 ^ zeros)).length = (Nat.toDigits 10 digits).length + zeros := by
  induction zeros with
  | zero => simp
  | succ zeros ih =>
      have before : 0 < digits * 10 ^ zeros := Nat.mul_pos positive (Nat.pow_pos (by decide))
      have wider : digits * 10 ^ (zeros + 1) = 10 * (digits * 10 ^ zeros) + 0 := by ring
      rw [wider, ← Nat.toDigits_append_toDigits (by decide) before (by decide),
        List.length_append, ih]
      rfl

theorem Numeral.leading_widen {numeral : Numeral} (positive : 0 < numeral.digits) (zeros : Nat) :
    (numeral.widen zeros).leading = numeral.leading := by
  simp only [leading, widen, length_toDigits_mul_pow positive]
  omega

namespace Binary64

variable {num den num' den' : Nat}

theorem nearest_mul_right {factor : Nat} (positive : 0 < factor) (num den : Nat) :
    nearest (num * factor) (den * factor) = nearest num den := by
  have remainder : 2 * (num % den * factor) = 2 * (num % den) * factor := by ring
  simp only [nearest, Nat.mul_div_mul_right _ _ positive, Nat.mul_mod_mul_right, remainder,
    Nat.mul_lt_mul_right positive, Nat.mul_left_inj positive.ne']

theorem nearest_congr (positive : 0 < den) (positive' : 0 < den')
    (same : num * den' = num' * den) : nearest num den = nearest num' den' :=
  calc
    nearest num den = nearest (num * den') (den * den') :=
      (nearest_mul_right positive' num den).symm
    _ = nearest (num' * den) (den' * den) := by rw [same, Nat.mul_comm den]
    _ = nearest num' den' := nearest_mul_right positive num' den'

theorem div_congr (positive : 0 < den) (positive' : 0 < den')
    (same : num * den' = num' * den) : num / den = num' / den' :=
  calc
    num / den = num * den' / (den * den') := (Nat.mul_div_mul_right _ _ positive').symm
    _ = num' * den / (den' * den) := by rw [same, Nat.mul_comm den]
    _ = num' / den' := Nat.mul_div_mul_right _ _ positive

theorem lastBit_pos (magnitude : Nat) : 0 < lastBit magnitude :=
  Nat.two_pow_pos _

theorem roundToBits_congr (positive : 0 < den) (positive' : 0 < den')
    (same : num * den' = num' * den) : roundToBits num den = roundToBits num' den' := by
  have scaled : num * (den' * lastBit (num' / den')) = num' * (den * lastBit (num' / den')) := by
    rw [← Nat.mul_assoc, same, Nat.mul_assoc]
  rw [roundToBits, roundToBits, div_congr positive positive' same,
    nearest_congr (Nat.mul_pos positive (lastBit_pos _)) (Nat.mul_pos positive' (lastBit_pos _))
      scaled]

theorem ofRatio?_congr (negative : Bool) (positive : 0 < den) (positive' : 0 < den')
    (same : num * den' = num' * den) : ofRatio? negative num den = ofRatio? negative num' den' := by
  simp only [ofRatio?, roundToBits_congr positive positive' same]

theorem nearest_mul (positive : 0 < den) (steps : Nat) : nearest (den * steps) den = steps := by
  simp [nearest, Nat.mul_div_cancel_left steps positive, positive]

theorem ofRatio?_representable (x : Binary64) : ofRatio? x.negative x.magnitude 1 = some x := by
  have kept : roundToBits x.magnitude 1 = x.magnitude := by
    obtain ⟨steps, whole⟩ := x.representable.2
    have exact : nearest x.magnitude (lastBit x.magnitude) = steps := by
      have positive := lastBit_pos x.magnitude
      generalize lastBit x.magnitude = unit at whole positive
      rw [whole, nearest_mul positive]
    rw [roundToBits, Nat.div_one, Nat.one_mul, exact, Nat.mul_comm, ← whole]
  simp only [ofRatio?, kept, x.representable.1, dite_true]

theorem ofNumeral?_eq (numeral : Numeral) :
    ofNumeral? numeral =
      if numeral.digits = 0 ∨ numeral.leading < -400 then some (zero numeral.negative)
      else if 310 < numeral.leading then none
      else ofRatio? numeral.negative (numeral.digits * 10 ^ numeral.exponent.toNat * unitsPerOne)
        (10 ^ (-numeral.exponent).toNat) := by
  obtain ⟨negative, digits, exponent⟩ := numeral
  cases exponent with
  | ofNat tens => simp [ofNumeral?, Numeral.leading]
  | negSucc n => simp [ofNumeral?, Numeral.leading, Int.neg_negSucc]

theorem ofNumeral?_widen (numeral : Numeral) (zeros : Nat) :
    ofNumeral? (numeral.widen zeros) = ofNumeral? numeral := by
  rcases Nat.eq_zero_or_pos numeral.digits with none | positive
  · simp [ofNumeral?_eq, Numeral.widen, none]
  have places : zeros + (numeral.exponent - zeros).toNat + (-numeral.exponent).toNat =
      numeral.exponent.toNat + (-(numeral.exponent - zeros)).toNat := by omega
  have ratio : numeral.digits * 10 ^ zeros * 10 ^ (numeral.exponent - zeros).toNat * unitsPerOne *
        10 ^ (-numeral.exponent).toNat =
      numeral.digits * 10 ^ numeral.exponent.toNat * unitsPerOne *
        10 ^ (-(numeral.exponent - zeros)).toNat :=
    calc
      _ = numeral.digits * unitsPerOne *
          10 ^ (zeros + (numeral.exponent - zeros).toNat + (-numeral.exponent).toNat) := by
        rw [Nat.pow_add, Nat.pow_add]
        ring
      _ = _ := by
        rw [places, Nat.pow_add]
        ring
  have rounded := ofRatio?_congr numeral.negative (Nat.pow_pos (by decide))
    (Nat.pow_pos (by decide)) ratio
  have wider : numeral.digits * 10 ^ zeros ≠ 0 :=
    Nat.mul_ne_zero positive.ne' (Nat.pow_pos (by decide)).ne'
  rw [ofNumeral?_eq, ofNumeral?_eq, numeral.leading_widen positive]
  simp only [Numeral.widen, wider, positive.ne', rounded]

/-- Every number but zero has its first digit within the range that is computed. -/
theorem leading_exactNumeral {x : Binary64} (positive : 0 < x.magnitude) :
    -400 ≤ x.exactNumeral.leading ∧ x.exactNumeral.leading ≤ 310 := by
  have few : (Nat.toDigits 10 (x.magnitude * 5 ^ binaryPlaces)).length ≤ binaryPlaces + 310 := by
    rw [Nat.length_toDigits_le_iff (by decide) (by decide)]
    calc
      x.magnitude * 5 ^ binaryPlaces < unitsOutOfRange * 5 ^ binaryPlaces :=
        Nat.mul_lt_mul_of_pos_right x.representable.1 (Nat.pow_pos (by decide))
      _ ≤ 10 ^ (binaryPlaces + 310) := by decide +kernel
  have many : binaryPlaces - 400 <
      (Nat.toDigits 10 (x.magnitude * 5 ^ binaryPlaces)).length := by
    rw [← Nat.not_le, Nat.length_toDigits_le_iff (by decide) (by decide), Nat.not_lt]
    calc
      10 ^ (binaryPlaces - 400) ≤ 5 ^ binaryPlaces := by decide +kernel
      _ ≤ x.magnitude * 5 ^ binaryPlaces := Nat.le_mul_of_pos_left _ positive
  simp only [Numeral.leading, exactNumeral, Nat.pow_eq]
  generalize (Nat.toDigits 10 (x.magnitude * 5 ^ binaryPlaces)).length = length at few many ⊢
  simp only [binaryPlaces] at few many ⊢
  omega

theorem unitsPerOne_eq : unitsPerOne = 2 ^ binaryPlaces := by
  unfold unitsPerOne
  generalize binaryPlaces = places
  exact Nat.pow_eq

theorem ofRatio?_fives (negative : Bool) (magnitude places : Nat) :
    ofRatio? negative (magnitude * 5 ^ places * 10 ^ (-(places : Int)).toNat * 2 ^ places)
        (10 ^ (- -(places : Int)).toNat) = ofRatio? negative magnitude 1 := by
  have none : (-(places : Int)).toNat = 0 := by omega
  have all : (- -(places : Int)).toNat = places := by omega
  rw [none, all]
  apply ofRatio?_congr negative (Nat.pow_pos (by decide)) Nat.one_pos
  rw [Nat.pow_zero, Nat.mul_one, Nat.mul_one, Nat.mul_assoc, ← Nat.mul_pow]

theorem ofNumeral?_exactNumeral {x : Binary64} (positive : 0 < x.magnitude) :
    ofNumeral? x.exactNumeral = some x := by
  obtain ⟨lower, upper⟩ := leading_exactNumeral positive
  have digits : x.exactNumeral.digits ≠ 0 := by
    simp [exactNumeral, positive.ne']
  rw [ofNumeral?_eq, if_neg (not_or.mpr ⟨digits, not_lt.mpr lower⟩), if_neg (not_lt.mpr upper)]
  simp only [exactNumeral, unitsPerOne_eq, Nat.pow_eq, ofRatio?_fives]
  exact ofRatio?_representable x

theorem ofNumeral?_of_onGrid? {x : Binary64} {exponent : Int} {numeral : Numeral}
    (found : x.onGrid? exponent = some numeral) : ofNumeral? numeral = some x := by
  unfold onGrid? at found
  have back := List.find?_some found
  simpa only [readsBack, decide_eq_true_eq] using back

/-- The shortest decimal of a number rounds to it. -/
theorem ofNumeral?_shortest (x : Binary64) : ofNumeral? x.shortest = some x := by
  unfold shortest
  split
  · rename_i nothing
    obtain ⟨negative, magnitude, representable⟩ := x
    cases nothing
    rw [ofNumeral?_eq, if_pos (.inl rfl)]
    rfl
  · rename_i something
    cases found : (List.range' 1 17).findSome? x.withDigits? with
    | none => exact ofNumeral?_exactNumeral (Nat.pos_of_ne_zero something)
    | some numeral =>
        obtain ⟨count, _, onGrid⟩ := List.exists_of_findSome?_eq_some found
        exact ofNumeral?_of_onGrid? onGrid

end Binary64

end XbrlNetworks
