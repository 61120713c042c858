import Mathlib.Data.List.Basic
import XbrlNetworks.Relationship

/-! # Sorting

`sortBy` is a stable sort.  Core's merge sort is stable too, so the two agree, and
what is known of merge sort holds of `sortBy`.  Relationships are sorted by the place
of their order values.
-/

namespace XbrlNetworks

section Sorting

variable {α : Type} {le : α → α → Bool}

/-- An item comes to stand behind those that it must not precede. -/
theorem insertBy_append {item : α} {front back : List α}
    (hf : ∀ first ∈ front, le item first = false) (hb : ∀ later ∈ back, le item later = true) :
    insertBy le item (front ++ back) = front ++ item :: back := by
  induction front with
  | nil =>
      cases back with
      | nil => rfl
      | cons later back => simp [insertBy, hb later]
  | cons first front ih =>
      have rest := ih fun other member => hf other (List.mem_cons_of_mem _ member)
      simp [insertBy, hf first, rest]

theorem sortBy_eq_mergeSort (trans : ∀ a b c, le a b = true → le b c = true → le a c = true)
    (total : ∀ a b, (le a b || le b a) = true) (items : List α) :
    sortBy le items = items.mergeSort le := by
  induction items with
  | nil => simp [sortBy]
  | cons item items ih =>
      obtain ⟨front, back, whole, split, before⟩ := List.mergeSort_cons trans total item items
      have sorted := List.pairwise_mergeSort trans total (item :: items)
      rw [whole, List.pairwise_append] at sorted
      have after := (List.pairwise_cons.mp sorted.2.1).1
      rw [whole]
      change insertBy le item (sortBy le items) = _
      rw [ih, split]
      refine insertBy_append ?_ after
      intro first member
      simpa using before first member

theorem insertBy_perm (item : α) (items : List α) :
    (insertBy le item items).Perm (item :: items) := by
  induction items with
  | nil => exact List.Perm.refl _
  | cons first rest ih =>
      rw [insertBy]
      split
      · exact List.Perm.refl _
      · exact (ih.cons first).trans (List.Perm.swap item first rest)

theorem sortBy_perm (items : List α) : (sortBy le items).Perm items := by
  induction items with
  | nil => exact List.Perm.refl _
  | cons item items ih => exact (insertBy_perm item _).trans (ih.cons item)

end Sorting

namespace Relationship

theorem le_total (first second : Relationship) : (first.le second || second.le first) = true := by
  simp only [le, Arc.Order.le, Bool.or_eq_true, decide_eq_true_eq]
  omega

theorem le_trans (first second third : Relationship) (h : first.le second = true)
    (h' : second.le third = true) : first.le third = true := by
  simp only [le, Arc.Order.le, decide_eq_true_eq] at *
  omega

end Relationship

theorem sortByOrder_eq_mergeSort (relationships : List Relationship) :
    sortByOrder relationships = relationships.mergeSort Relationship.le :=
  sortBy_eq_mergeSort Relationship.le_trans Relationship.le_total relationships

theorem sortByOrder_perm (relationships : List Relationship) :
    (sortByOrder relationships).Perm relationships :=
  sortBy_perm relationships

@[simp] theorem mem_sortByOrder {relationships : List Relationship} {r : Relationship} :
    r ∈ sortByOrder relationships ↔ r ∈ relationships :=
  (sortByOrder_perm relationships).mem_iff

end XbrlNetworks
