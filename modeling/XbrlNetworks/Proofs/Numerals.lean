import Mathlib.Data.List.TakeWhile
import XbrlNetworks.Arc

/-! # Orders are written without blanks

A numeral has no place for a blank, so the text of an order is its own
trimming and is read as the same order again.
-/

namespace XbrlNetworks

theorem dropWhile_isBlank_eq_self {chars : List Char} (plain : ∀ c ∈ chars, isBlank c = false) :
    chars.dropWhile isBlank = chars :=
  List.dropWhile_eq_self_iff.mpr fun inside => by simp [plain _ (List.getElem_mem inside)]

theorem trimChars_eq_self {chars : List Char} (plain : ∀ c ∈ chars, isBlank c = false) :
    trimChars chars = chars := by
  have backwards : ∀ c ∈ chars.reverse, isBlank c = false :=
    fun c member => plain c (List.mem_reverse.mp member)
  rw [trimChars, dropWhile_isBlank_eq_self plain, dropWhile_isBlank_eq_self backwards,
    List.reverse_reverse]

namespace Numeral

theorem not_isBlank_of_isDigit {c : Char} (h : c.isDigit = true) : isBlank c = false := by
  simp only [Char.isDigit, Bool.and_eq_true, decide_eq_true_eq, ge_iff_le,
    UInt32.le_iff_toNat_le] at h
  have lower : 48 ≤ c.toNat := h.1
  have upper : c.toNat ≤ 57 := h.2
  simp [isBlank, blankRanges]
  omega

variable {chars : List Char}

theorem not_isBlank_of_splitSign (h : ∀ c ∈ (splitSign chars).2, isBlank c = false) :
    ∀ c ∈ chars, isBlank c = false := by
  intro c member
  unfold splitSign at h
  split at h
  · rcases List.mem_cons.mp member with rfl | later
    · decide
    · exact h c later
  · rcases List.mem_cons.mp member with rfl | later
    · decide
    · exact h c later
  · exact h c member

theorem not_isBlank_of_exponent {exponent : Int} (h : exponentOfChars? chars = some exponent) :
    ∀ c ∈ chars, isBlank c = false := by
  cases chars with
  | nil => simp
  | cons mark rest =>
      simp only [exponentOfChars?, Option.ite_none_right_eq_some, Bool.and_eq_true,
        Bool.or_eq_true, beq_iff_eq, List.all_eq_true] at h
      obtain ⟨⟨⟨marked, _⟩, digits⟩, _⟩ := h
      intro c member
      rcases List.mem_cons.mp member with rfl | later
      · rcases marked with rfl | rfl
        · decide
        · decide
      · exact not_isBlank_of_splitSign (fun c member => not_isBlank_of_isDigit (digits c member))
          c later

theorem not_isBlank_of_digits (h : ∀ c ∈ chars.dropWhile Char.isDigit, isBlank c = false) :
    ∀ c ∈ chars, isBlank c = false := by
  intro c member
  rw [← List.takeWhile_append_dropWhile (p := Char.isDigit) (l := chars), List.mem_append] at member
  rcases member with digit | later
  · exact not_isBlank_of_isDigit (List.mem_takeWhile_imp digit)
  · exact h c later

theorem not_isBlank_of_splitFraction (h : ∀ c ∈ (splitFraction chars).2, isBlank c = false) :
    ∀ c ∈ chars, isBlank c = false := by
  intro c member
  unfold splitFraction at h
  split at h
  · rcases List.mem_cons.mp member with rfl | later
    · decide
    · exact not_isBlank_of_digits h c later
  · exact h c member

theorem not_isBlank_of_ofChars? {numeral : Numeral} (h : ofChars? chars = some numeral) :
    ∀ c ∈ chars, isBlank c = false := by
  unfold ofChars? at h
  simp only [Option.ite_none_left_eq_some] at h
  obtain ⟨_, found⟩ := h
  obtain ⟨exponent, read, _⟩ := Option.map_eq_some_iff.mp found
  apply not_isBlank_of_splitSign
  apply not_isBlank_of_digits
  apply not_isBlank_of_splitFraction
  exact not_isBlank_of_exponent read

end Numeral

namespace Arc.Order

theorem trim_text (order : Order) : trim order.text = order.text := by
  obtain ⟨numeral, read, _⟩ := Option.bind_eq_some_iff.mp order.reads
  have plain := Numeral.not_isBlank_of_ofChars? read
  rw [trim, trimChars_eq_self plain, String.ofList_toList]

theorem eq_of_text_eq {first second : Order} (h : first.text = second.text) : first = second := by
  obtain ⟨text, value, reads⟩ := first
  obtain ⟨text', value', reads'⟩ := second
  cases h
  cases reads.symm.trans reads'
  rfl

theorem ofText?_text (order : Order) : ofText? order.text = some order := by
  unfold ofText?
  split
  · exact congrArg some (eq_of_text_eq order.trim_text)
  · rename_i unread
    rw [order.trim_text, order.reads] at unread
    cases unread

end Arc.Order

end XbrlNetworks
