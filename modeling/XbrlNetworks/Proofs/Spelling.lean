import Mathlib.Algebra.Order.Field.Power
import Mathlib.Algebra.Order.Field.Rat
import Mathlib.Tactic.FieldSimp
import Mathlib.Tactic.Positivity
import XbrlNetworks.Proofs.Keys

/-! # Keys and spelling

A number can be written in many ways: with zeros at either end, with a plus sign, with
or without an exponent.  Attribute values may have blanks around them.  Neither makes a
difference to a key, and exempt attributes do not stand in it at all.  Only zero is an
exception: it is one number with two signs, and the sign is written into the key.
-/

namespace XbrlNetworks

open Std

namespace Numeral

def value (numeral : Numeral) : ℚ :=
  (if numeral.negative then -1 else 1) * (numeral.digits * 10 ^ numeral.exponent)

variable {numeral other : Numeral}

theorem value_eq_zero_iff : numeral.value = 0 ↔ numeral.digits = 0 := by
  have ten : (10 : ℚ) ^ numeral.exponent ≠ 0 := zpow_ne_zero _ (by norm_num)
  cases sign : numeral.negative <;> simp [value, sign, ten]

theorem abs_value (numeral : Numeral) :
    |numeral.value| = numeral.digits * 10 ^ numeral.exponent := by
  have positive : (0 : ℚ) ≤ numeral.digits * 10 ^ numeral.exponent := by positivity
  cases sign : numeral.negative <;> simp [value, sign, abs_of_nonneg positive]

theorem negative_eq_of_value_eq (same : numeral.value = other.value)
    (something : numeral.digits ≠ 0) : numeral.negative = other.negative := by
  have positive : (0 : ℚ) < numeral.digits * 10 ^ numeral.exponent := by positivity
  have nonnegative : (0 : ℚ) ≤ other.digits * 10 ^ other.exponent := by positivity
  unfold value at same
  cases sign : numeral.negative <;> cases sign' : other.negative <;>
    simp [sign, sign'] at same ⊢ <;> linarith

/-- Of two numerals that write the same number the one with the smaller exponent has more zeros
    at its end. -/
theorem eq_widen_of_value_eq (same : numeral.value = other.value)
    (something : numeral.digits ≠ 0) (less : other.exponent ≤ numeral.exponent) :
    other = numeral.widen (numeral.exponent - other.exponent).toNat := by
  obtain ⟨zeros, apart⟩ := Int.eq_ofNat_of_zero_le (Int.sub_nonneg.mpr less)
  have exponents : other.exponent = numeral.exponent - zeros := by omega
  have digits : numeral.digits * 10 ^ zeros = other.digits := by
    have ten : (10 : ℚ) ^ other.exponent ≠ 0 := zpow_ne_zero _ (by norm_num)
    have sizes := congrArg abs same
    rw [abs_value, abs_value, show numeral.exponent = zeros + other.exponent by omega,
      zpow_add₀ (by norm_num), ← mul_assoc, zpow_natCast] at sizes
    exact_mod_cast mul_right_cancel₀ ten sizes
  calc
    other = ⟨other.negative, other.digits, other.exponent⟩ := rfl
    _ = numeral.widen zeros := by
      rw [← negative_eq_of_value_eq same something, ← digits, exponents]
      rfl
    _ = numeral.widen (numeral.exponent - other.exponent).toNat := by
      rw [apart, Int.toNat_natCast]

end Numeral

namespace Binary64

section Rounding

variable {numeral other : Numeral}

theorem ofNumeral?_eq_of_value_eq (same : numeral.value = other.value)
    (something : numeral.digits ≠ 0) : ofNumeral? numeral = ofNumeral? other := by
  have something' : other.digits ≠ 0 := by
    rwa [ne_eq, ← Numeral.value_eq_zero_iff, ← same, Numeral.value_eq_zero_iff]
  rcases le_total other.exponent numeral.exponent with less | less
  · rw [Numeral.eq_widen_of_value_eq same something less, ofNumeral?_widen]
  · rw [Numeral.eq_widen_of_value_eq same.symm something' less, ofNumeral?_widen]

theorem ofNumeral?_of_digits_eq_zero (nothing : numeral.digits = 0) :
    ofNumeral? numeral = some (zero numeral.negative) := by
  rw [ofNumeral?_eq, if_pos (.inl nothing)]

end Rounding

/-- The number itself, counted in units of `2 ^ -1074`.  A zero is zero whatever its sign. -/
def units (x : Binary64) : Int :=
  if x.negative then -x.magnitude else x.magnitude

/-- One zero has a minus sign and the other has not. -/
structure OppositeZeros (x y : Binary64) : Prop where
  left : x.magnitude = 0
  right : y.magnitude = 0
  signs : x.negative ≠ y.negative

variable {x y : Binary64}

theorem of_units_eq (same : x.units = y.units) :
    x.magnitude = y.magnitude ∧ (x.negative = y.negative ∨ x.magnitude = 0) := by
  unfold units at same
  by_cases signs : x.negative = y.negative
  · refine ⟨?_, .inl signs⟩
    rw [signs] at same
    split at same <;> omega
  · have zeros : x.magnitude = 0 ∧ y.magnitude = 0 := by
      cases negative : x.negative <;> simp_all
    exact ⟨zeros.1.trans zeros.2.symm, .inr zeros.1⟩

theorem eq_of_parts_eq (magnitudes : x.magnitude = y.magnitude)
    (signs : x.negative = y.negative) : x = y := by
  cases x
  cases y
  cases magnitudes
  cases signs
  rfl

/-- Equal numbers are the same but for the two zeros. -/
theorem eq_iff_of_units_eq (same : x.units = y.units) : x = y ↔ ¬ x.OppositeZeros y := by
  obtain ⟨magnitudes, signs | zero⟩ := of_units_eq same
  · exact iff_of_true (eq_of_parts_eq magnitudes signs) fun opposite => opposite.signs signs
  · constructor
    · rintro rfl opposite
      exact opposite.signs rfl
    · intro alike
      refine eq_of_parts_eq magnitudes ?_
      by_contra signs
      exact alike ⟨zero, magnitudes ▸ zero, signs⟩

theorem units_eq_of_value_eq {numeral other : Numeral} (same : numeral.value = other.value)
    (rounded : ofNumeral? numeral = some x) (rounded' : ofNumeral? other = some y) :
    x.units = y.units := by
  by_cases nothing : numeral.digits = 0
  · have nothing' : other.digits = 0 := by
      rwa [← Numeral.value_eq_zero_iff, ← same, Numeral.value_eq_zero_iff]
    rw [ofNumeral?_of_digits_eq_zero nothing, Option.some.injEq] at rounded
    rw [ofNumeral?_of_digits_eq_zero nothing', Option.some.injEq] at rounded'
    simp [← rounded, ← rounded', units, zero]
  · rw [ofNumeral?_eq_of_value_eq same nothing, rounded', Option.some.injEq] at rounded
    rw [rounded]

end Binary64

namespace Arc

variable {role : String} {order order' : Order} {attributes attributes' : Attributes}

theorem ascending_compared (attributes : Attributes) :
    Ascending (compareOn Prod.fst) (compared attributes) := by
  refine List.pairwise_map.mpr (List.Pairwise.filter _ ?_)
  exact ExtTreeMap.ordered_keys_toList

theorem compared_eq_iff : compared attributes = compared attributes' ↔
    ∀ name, isExempt name = false → attributes[name]?.map trim = attributes'[name]?.map trim := by
  constructor
  · intro all name exempt
    apply Option.ext
    intro value
    have member := @mem_compared attributes name value
    rw [all, mem_compared] at member
    simpa [exempt] using member.symm
  · intro agree
    apply (ascending_compared _).eq_of_mem_iff (ascending_compared _)
    rintro ⟨name, value⟩
    rw [mem_compared, mem_compared]
    exact and_congr_right fun exempt => by rw [agree name exempt]

theorem keyOf_eq_append : keyOf role order attributes =
    role ++ "|order=" ++ order.value.text ++
      String.join ((compared attributes).map fun (name, value) => "|" ++ name ++ "=" ++ value) := by
  rw [keyOf, compared, List.map_map]
  rfl

theorem keyOf_eq_iff_of_compared_eq (all : compared attributes = compared attributes') :
    keyOf role order attributes = keyOf role order' attributes' ↔ order.value = order'.value := by
  rw [keyOf_eq_append, keyOf_eq_append, all]
  constructor
  · intro same
    have chars := congrArg String.toList same
    simp only [String.toList_append] at chars
    have texts := List.append_cancel_left (List.append_cancel_right chars)
    exact Binary64.text_injective (String.toList_inj.mp texts)
  · exact fun same => by rw [same]

/-- Orders that write the same number have equal values.  Arcs whose orders have equal values and
    whose attributes, exempt ones left out, agree up to blanks have the same key, unless the orders
    are zeros of opposite signs. -/
theorem keyOf_eq_iff_of_agree (agree : ∀ name, isExempt name = false →
      attributes[name]?.map trim = attributes'[name]?.map trim) :
    (∀ numeral numeral', Numeral.ofText? order.text = some numeral →
      Numeral.ofText? order'.text = some numeral' → numeral.value = numeral'.value →
        order.value.units = order'.value.units) ∧
      (order.value.units = order'.value.units →
        (keyOf role order attributes = keyOf role order' attributes' ↔
          ¬ order.value.OppositeZeros order'.value)) := by
  refine ⟨fun numeral numeral' read read' same => ?_, fun same => ?_⟩
  · refine Binary64.units_eq_of_value_eq same ?_ ?_
    · simpa only [Binary64.ofText?, read, Option.bind_some] using order.reads
    · simpa only [Binary64.ofText?, read', Option.bind_some] using order'.reads
  · rw [keyOf_eq_iff_of_compared_eq (compared_eq_iff.mpr agree), Binary64.eq_iff_of_units_eq same]

/-- Zero with a minus sign is zero, but its key is another. -/
theorem keyOf_ne_of_minus_zero : ∃ order order' : Order,
    Order.ofText? "0" = some order ∧ Order.ofText? "-0" = some order' ∧
      order.value.units = order'.value.units ∧ keyOf "R" order ∅ ≠ keyOf "R" order' ∅ := by
  refine ⟨⟨"0", .zero false, by decide +kernel⟩, ⟨"-0", .zero true, by decide +kernel⟩, ?_⟩
  decide +kernel

/-- An order with an exponent and one with zeros around it give the same key, blanks around a
    value and exempt attributes notwithstanding. -/
theorem keyOf_eq_of_exponent : ∃ (order order' : Order) (attributes attributes' : Attributes),
    order.text = "25e-1" ∧ order'.text = "+02.50" ∧
      attributes = .ofList [("use", "prohibited"), ("weight", " 1.0 ")] ∧
      attributes' = .ofList [("weight", "1.0"), ("xlink:title", "t")] ∧
      order.value.units = order'.value.units ∧
      keyOf "R" order attributes = keyOf "R" order' attributes' := by
  obtain ⟨x, reads⟩ := Option.isSome_iff_exists.mp
    (show (Binary64.ofText? "25e-1").isSome = true by decide +kernel)
  have reads' : Binary64.ofText? "+02.50" = some x := by
    rw [← reads]
    decide +kernel
  let order : Order := ⟨"25e-1", x, reads⟩
  let order' : Order := ⟨"+02.50", x, reads'⟩
  let attributes : Attributes := .ofList [("use", "prohibited"), ("weight", " 1.0 ")]
  let attributes' : Attributes := .ofList [("weight", "1.0"), ("xlink:title", "t")]
  have agree : ∀ name, isExempt name = false →
      attributes[name]?.map trim = attributes'[name]?.map trim :=
    compared_eq_iff.mp (by decide +kernel)
  obtain ⟨numbers, keys⟩ :=
    @keyOf_eq_iff_of_agree "R" order order' attributes attributes' agree
  have equal := numbers ⟨false, 25, -1⟩ ⟨false, 250, -2⟩
    (show Numeral.ofText? "25e-1" = _ by decide +kernel)
    (show Numeral.ofText? "+02.50" = _ by decide +kernel) (by norm_num [Numeral.value])
  exact ⟨order, order', attributes, attributes', rfl, rfl, rfl, rfl, equal,
    (keys equal).mpr fun opposite => opposite.signs rfl⟩

end Arc

end XbrlNetworks
