import Mathlib.Data.List.TakeWhile
import XbrlNetworks.Proofs.Rounding

/-! # Numbers are read back from their text

A numeral is written with digits, one point and one sign, and reading it gives
the same value again, up to zeros at the end.  Rounding does not see those, so
the text of a number is read as that number and no other has the same text.
-/

namespace XbrlNetworks

namespace Numeral

def AllDigits (chars : List Char) : Prop := ∀ c ∈ chars, c.isDigit = true

variable {whole fraction : List Char}

theorem takeWhile_append_of_digits (digits : AllDigits whole) {rest : List Char}
    (stop : ∀ c, rest.head? = some c → c.isDigit = false) :
    (whole ++ rest).takeWhile Char.isDigit = whole ∧
      (whole ++ rest).dropWhile Char.isDigit = rest := by
  induction whole with
  | nil =>
      cases rest with
      | nil => exact ⟨rfl, rfl⟩
      | cons c rest => simp [stop c rfl]
  | cons c whole ih =>
      have first := digits c List.mem_cons_self
      have later := ih fun other member => digits other (List.mem_cons_of_mem _ member)
      simp [first, later.1, later.2]

theorem splitSign_of_digits (digits : AllDigits whole) (something : whole ≠ [])
    (rest : List Char) : splitSign (whole ++ rest) = (false, whole ++ rest) := by
  cases whole with
  | nil => exact absurd rfl something
  | cons c whole =>
      have first := digits c List.mem_cons_self
      unfold splitSign
      split
      · rename_i minus
        cases minus
        contradiction
      · rename_i plus
        cases plus
        contradiction
      · rfl

def written (negative : Bool) (whole fraction : List Char) : List Char :=
  let unsigned := if fraction.isEmpty then whole else whole ++ '.' :: fraction
  if negative then '-' :: unsigned else unsigned

theorem text_eq (numeral : Numeral) :
    numeral.text.toList = written numeral.negative (places numeral.digits numeral.exponent).1
      (places numeral.digits numeral.exponent).2 := by
  simp [text, written]

theorem mem_written {negative : Bool} (whole_digits : AllDigits whole)
    (fraction_digits : AllDigits fraction) {c : Char} (h : c ∈ written negative whole fraction) :
    c.isDigit = true ∨ c = '.' ∨ c = '-' := by
  have unsigned : c ∈ whole ++ '.' :: fraction → c.isDigit = true ∨ c = '.' ∨ c = '-' := by
    intro member
    rcases List.mem_append.mp member with inWhole | later
    · exact .inl (whole_digits c inWhole)
    · rcases List.mem_cons.mp later with point | inFraction
      · exact .inr (.inl point)
      · exact .inl (fraction_digits c inFraction)
  cases negative <;> cases fraction <;> simp [written] at h unsigned ⊢ <;> grind

theorem ofChars?_written (negative : Bool) (whole_digits : AllDigits whole)
    (fraction_digits : AllDigits fraction) (something : whole ≠ []) :
    ofChars? (written negative whole fraction) =
      some ⟨negative, valueOfDigits (whole ++ fraction), -fraction.length⟩ := by
  have unsigned : ∃ rest, (if fraction.isEmpty then whole else whole ++ '.' :: fraction) =
      whole ++ rest ∧ (∀ c, rest.head? = some c → c.isDigit = false) ∧
      splitFraction rest = (fraction, []) := by
    cases fraction with
    | nil => exact ⟨[], by simp, by simp, rfl⟩
    | cons c fraction =>
        have nothing : ∀ d, ([] : List Char).head? = some d → d.isDigit = false := by simp
        have all := takeWhile_append_of_digits fraction_digits nothing
        rw [List.append_nil] at all
        exact ⟨'.' :: c :: fraction, rfl, by simp, by simp only [splitFraction, all]⟩
  obtain ⟨rest, same, stop, split⟩ := unsigned
  obtain ⟨taken, dropped⟩ := takeWhile_append_of_digits whole_digits stop
  have sign : splitSign (written negative whole fraction) = (negative, whole ++ rest) := by
    cases negative with
    | true => simp only [written, same, splitSign, if_true]
    | false =>
        simp only [written, same, Bool.false_eq_true, if_false]
        exact splitSign_of_digits whole_digits something rest
  have nonempty : whole.isEmpty = false := by simpa using something
  simp [ofChars?, sign, taken, dropped, split, nonempty, exponentOfChars?]

theorem allDigits_toDigits (digits : Nat) : AllDigits (Nat.toDigits 10 digits) :=
  fun _ member => Nat.isDigit_of_mem_toDigits (by decide) (by decide) member

theorem allDigits_replicate (zeros : Nat) : AllDigits (List.replicate zeros '0') := by
  intro c member
  rw [List.eq_of_mem_replicate member]
  decide

theorem AllDigits.append (first : AllDigits whole) (second : AllDigits fraction) :
    AllDigits (whole ++ fraction) := by
  intro c member
  rcases List.mem_append.mp member with left | right
  · exact first c left
  · exact second c right

theorem valueOfDigits_append_zeros (chars : List Char) (zeros : Nat) :
    valueOfDigits (chars ++ List.replicate zeros '0') = valueOfDigits chars * 10 ^ zeros := by
  change Nat.ofDigitChars 10 _ 0 = Nat.ofDigitChars 10 _ 0 * _
  rw [Nat.ofDigitChars_append, Nat.ofDigitChars_replicate_zero, Nat.mul_comm]

theorem valueOfDigits_zeros_append (chars : List Char) (zeros : Nat) :
    valueOfDigits (List.replicate zeros '0' ++ chars) = valueOfDigits chars := by
  change Nat.ofDigitChars 10 _ 0 = Nat.ofDigitChars 10 _ 0
  rw [Nat.ofDigitChars_append, Nat.ofDigitChars_replicate_zero, Nat.mul_zero]

theorem valueOfDigits_toDigits (digits : Nat) : valueOfDigits (Nat.toDigits 10 digits) = digits :=
  Nat.ofDigitChars_ten_toDigits

theorem exists_zeros (chars : List Char) :
    ∃ zeros, (chars.reverse.dropWhile (· == '0')).reverse ++ List.replicate zeros '0' = chars := by
  refine ⟨(chars.reverse.takeWhile (· == '0')).length, ?_⟩
  have all : chars.reverse.takeWhile (· == '0') =
      List.replicate (chars.reverse.takeWhile (· == '0')).length '0' :=
    List.eq_replicate_of_mem fun c member => by simpa using List.mem_takeWhile_imp member
  have whole := congrArg List.reverse
    (List.takeWhile_append_dropWhile (p := (· == '0')) (l := chars.reverse))
  rwa [List.reverse_append, List.reverse_reverse, all, List.reverse_replicate] at whole

/-- Digits before and after a point that show a numeral, up to zeros at the end. -/
structure Shows (whole fraction : List Char) (numeral : Numeral) : Prop where
  whole_digits : AllDigits whole
  fraction_digits : AllDigits fraction
  something : whole ≠ []
  value : ∃ zeros,
    let read : Numeral :=
      ⟨numeral.negative, valueOfDigits (whole ++ fraction), -fraction.length⟩
    read = numeral.widen zeros ∨ numeral = read.widen zeros

theorem shows_whole (negative : Bool) (digits zeros : Nat) :
    Shows (places digits zeros).1 (places digits zeros).2 ⟨negative, digits, zeros⟩ := by
  by_cases none : digits = 0
  · refine ⟨?_, by simp [places, AllDigits], by simp [places, none], zeros, .inl ?_⟩
    · simpa [places, none] using allDigits_replicate 1
    · simp [places, none, widen, valueOfDigits]
  · refine ⟨?_, by simp [places, AllDigits], by simp [places, none, Nat.toDigits_ne_nil], zeros,
      .inl ?_⟩
    · simpa [places, none] using (allDigits_toDigits digits).append (allDigits_replicate zeros)
    · simp [places, none, widen, valueOfDigits_append_zeros, valueOfDigits_toDigits]

theorem shows_padded (negative : Bool) {digits n cut zeros : Nat} {padded fraction : List Char}
    (plain : AllDigits padded) (value : valueOfDigits padded = digits)
    (enough : padded.length = cut + (n + 1)) (something : 0 < cut)
    (made : fraction ++ List.replicate zeros '0' = padded.drop cut) :
    Shows (padded.take cut) fraction ⟨negative, digits, .negSucc n⟩ := by
  have whole : padded.take cut ++ fraction ++ List.replicate zeros '0' = padded := by
    rw [List.append_assoc, made, List.take_append_drop]
  have shifted : valueOfDigits (padded.take cut ++ fraction) * 10 ^ zeros = digits := by
    rw [← valueOfDigits_append_zeros, whole, value]
  have length := congrArg List.length made
  simp only [List.length_append, List.length_replicate, List.length_drop] at length
  refine ⟨?_, ?_, ?_, zeros, .inr ?_⟩
  · exact fun c member => plain c (List.mem_of_mem_take member)
  · intro c member
    exact plain c (List.mem_of_mem_drop (made ▸ List.mem_append_left _ member))
  · rw [← List.length_pos_iff, List.length_take]
    omega
  · simp only [widen, shifted, mk.injEq, true_and]
    omega

theorem shows_places (numeral : Numeral) :
    Shows (places numeral.digits numeral.exponent).1 (places numeral.digits numeral.exponent).2
      numeral := by
  obtain ⟨negative, digits, exponent⟩ := numeral
  cases exponent with
  | ofNat zeros => exact shows_whole negative digits zeros
  | negSucc n =>
      let shown := Nat.toDigits 10 digits
      let padded := List.replicate (n + 2 - shown.length) '0' ++ shown
      have plain : AllDigits padded := (allDigits_replicate _).append (allDigits_toDigits digits)
      have value : valueOfDigits padded = digits := by
        rw [valueOfDigits_zeros_append, valueOfDigits_toDigits]
      have enough : n + 2 ≤ padded.length := by
        simp only [padded, List.length_append, List.length_replicate]
        omega
      have split : padded.length = padded.length - (n + 1) + (n + 1) := by omega
      have something : 0 < padded.length - (n + 1) := by omega
      obtain ⟨zeros, made⟩ := exists_zeros (padded.drop (padded.length - (n + 1)))
      exact shows_padded negative plain value split something made

theorem ofText?_text_eq_some (numeral : Numeral) : ∃ read zeros, ofText? numeral.text = some read ∧
    (read = numeral.widen zeros ∨ numeral = read.widen zeros) := by
  obtain ⟨whole, fraction, something, zeros, same⟩ := shows_places numeral
  refine ⟨_, zeros, ?_, same⟩
  rw [ofText?, text_eq]
  exact ofChars?_written _ whole fraction something

theorem mem_text {numeral : Numeral} {c : Char} (h : c ∈ numeral.text.toList) :
    c.isDigit = true ∨ c = '.' ∨ c = '-' := by
  rw [text_eq] at h
  exact mem_written (shows_places numeral).whole_digits (shows_places numeral).fraction_digits h

end Numeral

namespace Binary64

/-- The text of a number is read as that number. -/
theorem ofText?_text (x : Binary64) : ofText? x.text = some x := by
  obtain ⟨read, zeros, found, same⟩ := Numeral.ofText?_text_eq_some x.shortest
  rw [ofText?, text, found, Option.bind_some]
  rcases same with wider | narrower
  · rw [wider, ofNumeral?_widen, ofNumeral?_shortest]
  · rw [← ofNumeral?_widen read zeros, ← narrower, ofNumeral?_shortest]

theorem text_injective {x y : Binary64} (same : x.text = y.text) : x = y := by
  have read := ofText?_text x
  rw [same, ofText?_text] at read
  exact (Option.some.inj read).symm

end Binary64

end XbrlNetworks
