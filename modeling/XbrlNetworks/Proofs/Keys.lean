import XbrlNetworks.Arc.Key
import XbrlNetworks.Proofs.Ascending
import XbrlNetworks.Proofs.Writing

/-! # What a key tells

The parts of a key stand between bars, and nothing is done about a bar or an
equals sign inside a part.  As long as there are none where they could mislead,
a key tells the arc role, the value of the order and all compared attributes.
Otherwise arcs that differ may share a key.
-/

namespace XbrlNetworks.Arc

open Std

/-- The attributes that take part in equivalence by name, their values without blanks around
    them. -/
def compared (attributes : Attributes) : List (String × String) :=
  (attributes.toList.filter fun (name, _) => !isExempt name).map fun (name, value) =>
    (name, trim value)

/-- What stands between the bars of a key. -/
def sections (role : String) (order : Order) (attributes : Attributes) : List (List Char) :=
  role.toList :: ("order=" ++ order.value.text).toList ::
    (compared attributes).map fun (name, value) => name.toList ++ '=' :: value.toList

/-- No text that enters a key looks like the boundary between two parts. -/
structure Unambiguous (role : String) (attributes : Attributes) : Prop where
  role : '|' ∉ role.toList
  names : ∀ name value, (name, value) ∈ compared attributes →
    '|' ∉ name.toList ∧ '=' ∉ name.toList
  values : ∀ name value, (name, value) ∈ compared attributes → '|' ∉ value.toList

variable {role role' : String} {order order' : Order} {attributes attributes' : Attributes}

theorem mem_compared {name value : String} : (name, value) ∈ compared attributes ↔
    isExempt name = false ∧ attributes[name]?.map trim = some value := by
  simp only [compared, List.mem_map, List.mem_filter, Prod.exists, Prod.mk.injEq,
    ExtTreeMap.mem_toList_iff_getElem?_eq_some, Bool.not_eq_true', Option.map_eq_some_iff]
  constructor
  · rintro ⟨name', raw, ⟨found, exempt⟩, rfl, trimmed⟩
    exact ⟨exempt, raw, found, trimmed⟩
  · rintro ⟨exempt, raw, found, trimmed⟩
    exact ⟨name, raw, ⟨found, exempt⟩, rfl, trimmed⟩

theorem toList_keyOf : (keyOf role order attributes).toList =
    ['|'].intercalate (sections role order attributes) := by
  have tail : ∀ (entries : List (String × String)) (first : List Char),
      first ++ (String.join (entries.map fun (name, value) => keyPart name value)).toList =
        ['|'].intercalate (first :: (entries.map fun (name, value) => (name, trim value)).map
          fun (name, value) => name.toList ++ '=' :: value.toList) := by
    intro entries
    induction entries with
    | nil => simp
    | cons entry entries ih =>
        intro first
        have rest := ih (entry.1.toList ++ '=' :: (trim entry.2).toList)
        simp only [String.toList_join] at rest ⊢
        simp only [List.map_cons, List.intercalate_cons_cons, ← rest]
        simp [keyPart]
  have whole := tail (attributes.toList.filter fun (name, _) => !isExempt name)
    ("order=" ++ order.value.text).toList
  rw [sections, List.intercalate_cons_cons, compared, ← whole]
  simp [keyOf]

/-- The first equals sign ends a name. -/
theorem append_equals_injective {name name' value value' : List Char} (plain : '=' ∉ name)
    (plain' : '=' ∉ name') (same : name ++ '=' :: value = name' ++ '=' :: value') :
    name = name' ∧ value = value' := by
  induction name generalizing name' with
  | nil =>
      cases name' with
      | nil => exact ⟨rfl, (List.cons.inj same).2⟩
      | cons c name' =>
          have here : '=' = c := (List.cons.inj same).1
          exact absurd (here ▸ List.mem_cons_self) plain'
  | cons c name ih =>
      cases name' with
      | nil =>
          have here : c = '=' := (List.cons.inj same).1
          exact absurd (here ▸ List.mem_cons_self) plain
      | cons c' name' =>
          obtain ⟨rfl, rest⟩ := List.cons.inj same
          obtain ⟨rfl, rfl⟩ := ih (fun member => plain (List.mem_cons_of_mem _ member))
            (fun member => plain' (List.mem_cons_of_mem _ member)) rest
          exact ⟨rfl, rfl⟩

theorem Unambiguous.not_mem_sections (h : Unambiguous role attributes) :
    ∀ part ∈ sections role order attributes, '|' ∉ part := by
  intro part member bar
  rcases List.mem_cons.mp member with rfl | later
  · exact h.role bar
  rcases List.mem_cons.mp later with rfl | inParts
  · rw [String.toList_append, List.mem_append] at bar
    rcases bar with label | number
    · simp at label
    · rcases Numeral.mem_text number with digit | point | minus
      · simp at digit
      · simp at point
      · simp at minus
  · obtain ⟨⟨name, value⟩, inCompared, rfl⟩ := List.mem_map.mp inParts
    rcases List.mem_append.mp bar with inName | later
    · exact (h.names name value inCompared).1 inName
    · rcases List.mem_cons.mp later with equals | inValue
      · simp at equals
      · exact h.values name value inCompared inValue

theorem compared_eq_of_sections_eq (names : ∀ name value, (name, value) ∈ compared attributes →
      '=' ∉ name.toList)
    (names' : ∀ name value, (name, value) ∈ compared attributes' → '=' ∉ name.toList)
    (same : (compared attributes).map (fun (name, value) => name.toList ++ '=' :: value.toList) =
      (compared attributes').map fun (name, value) => name.toList ++ '=' :: value.toList) :
    compared attributes = compared attributes' := by
  generalize compared attributes = entries at names same
  generalize compared attributes' = entries' at names' same
  induction entries generalizing entries' with
  | nil => simpa using same.symm
  | cons entry entries ih =>
      obtain ⟨name, value⟩ := entry
      cases entries' with
      | nil => simp at same
      | cons entry' entries' =>
          obtain ⟨name', value'⟩ := entry'
          simp only [List.map_cons, List.cons.injEq] at same
          obtain ⟨first, rest⟩ := same
          obtain ⟨sameName, sameValue⟩ := append_equals_injective
            (names name value List.mem_cons_self) (names' name' value' List.mem_cons_self) first
          rw [String.toList_inj.mp sameName, String.toList_inj.mp sameValue]
          congr 1
          exact ih (fun name value member => names name value (List.mem_cons_of_mem _ member))
            entries' (fun name value member => names' name value (List.mem_cons_of_mem _ member))
            rest

/-- Arcs with the same key agree on everything that the key is made of, if no bar or equals sign
    in it can mislead. -/
theorem agree_of_keyOf_eq (plain : Unambiguous role attributes)
    (plain' : Unambiguous role' attributes')
    (same : keyOf role order attributes = keyOf role' order' attributes') :
    role = role' ∧ order.value = order'.value ∧ ∀ name, isExempt name = false →
      attributes[name]?.map trim = attributes'[name]?.map trim := by
  have split := congrArg (List.splitOn '|' ∘ String.toList) same
  simp only [Function.comp_apply, toList_keyOf] at split
  rw [List.splitOn_intercalate '|' plain.not_mem_sections (by simp [sections]),
    List.splitOn_intercalate '|' plain'.not_mem_sections (by simp [sections])] at split
  simp only [sections, List.cons.injEq, String.toList_inj] at split
  obtain ⟨sameRole, sameOrder, sameParts⟩ := split
  refine ⟨sameRole, ?_, ?_⟩
  · apply Binary64.text_injective
    have label := congrArg String.toList sameOrder
    rw [String.toList_append, String.toList_append] at label
    exact String.toList_inj.mp (List.append_cancel_left label)
  · have all := compared_eq_of_sections_eq
      (fun name value member => (plain.names name value member).2)
      (fun name value member => (plain'.names name value member).2) sameParts
    intro name exempt
    apply Option.ext
    intro value
    have member := @mem_compared attributes name value
    have member' := @mem_compared attributes' name value
    rw [all, member'] at member
    simpa [exempt] using member.symm

/-- A value that holds a bar can pass for two attributes. -/
theorem keyOf_eq_of_bar : ∃ attributes attributes' : Attributes,
    keyOf "R" .one attributes = keyOf "R" .one attributes' ∧ isExempt "b" = false ∧
      attributes["b"]?.map trim = none ∧ attributes'["b"]?.map trim = some "2" := by
  refine ⟨.ofList [("a", "1|b=2")], .ofList [("a", "1"), ("b", "2")], ?_⟩
  decide +kernel

/-- Blanks around a value and exempt attributes are not part of what a key tells. -/
theorem agree_of_keyOf_eq_weight : ∃ attributes attributes' : Attributes,
    keyOf "R" .one attributes = keyOf "R" .one attributes' ∧
      attributes["weight"]?.map trim = attributes'["weight"]?.map trim := by
  let attributes : Attributes := .ofList [("weight", " 1.0 ")]
  let attributes' : Attributes := .ofList [("weight", "1.0"), ("use", "prohibited")]
  have same : keyOf "R" .one attributes = keyOf "R" .one attributes' := by decide +kernel
  have all : compared attributes = [("weight", "1.0")] := by decide +kernel
  have all' : compared attributes' = [("weight", "1.0")] := by decide +kernel
  have plain : Unambiguous "R" attributes := ⟨by decide, by simp [all], by simp [all]⟩
  have plain' : Unambiguous "R" attributes' := ⟨by decide, by simp [all'], by simp [all']⟩
  exact ⟨attributes, attributes', same, (agree_of_keyOf_eq plain plain' same).2.2 "weight"
    (by decide +kernel)⟩

end XbrlNetworks.Arc
