import Mathlib.Data.List.Nodup
import XbrlNetworks.Network.Perspective
import XbrlNetworks.Proofs.Ascending

/-! # Perspectives after a record

Noting a slot changes what a perspective says at that one edge.  All slots that
a perspective names are listed by `named`.
-/

namespace XbrlNetworks

open Std

namespace Perspective

theorem edges_record (perspective : Perspective) (near near' : Index) (edge : Edge) (slot : Nat) :
    (perspective.record near edge slot).edges near' =
      if near = near' then (perspective.edges near).insert edge slot
      else perspective.edges near' := by
  simp only [edges, record, ExtTreeMap.getElem?_insert, LawfulEqOrd.compare_eq_iff_eq]
  split <;> rfl

theorem slot?_record (perspective : Perspective) (near near' : Index) (edge edge' : Edge)
    (slot : Nat) : (perspective.record near edge slot).slot? near' edge' =
      if near = near' ∧ edge = edge' then some slot else perspective.slot? near' edge' := by
  simp only [slot?, edges_record]
  by_cases atNear : near = near'
  · subst atNear
    simp only [if_true, ExtTreeMap.getElem?_insert, LawfulEqCmp.compare_eq_iff_eq, true_and]
  · simp only [atNear, if_false, false_and]

theorem mem_record {perspective : Perspective} {near near' : Index} {edge : Edge} {slot : Nat} :
    near' ∈ perspective.record near edge slot ↔ near = near' ∨ near' ∈ perspective := by
  simp only [record, ExtTreeMap.mem_insert, LawfulEqOrd.compare_eq_iff_eq]

@[simp] theorem slot?_empty (near : Index) (edge : Edge) :
    (∅ : Perspective).slot? near edge = none := by
  simp [slot?, edges]

theorem mem_of_edge {perspective : Perspective} {near : Index} {edge : Edge}
    (h : edge ∈ perspective.edges near) : near ∈ perspective := by
  by_contra absent
  simp [edges, ExtTreeMap.getElem?_eq_none absent] at h

theorem mem_of_slot? {perspective : Perspective} {near : Index} {edge : Edge} {slot : Nat}
    (h : perspective.slot? near edge = some slot) : near ∈ perspective :=
  mem_of_edge (ExtTreeMap.getElem?_eq_some_iff.mp h).1

/-- Every slot that a perspective names, edge after edge. -/
def named (perspective : Perspective) : List Nat :=
  perspective.keys.flatMap perspective.slots

theorem mem_slots {perspective : Perspective} {near : Index} {slot : Nat} :
    slot ∈ perspective.slots near ↔ ∃ edge, perspective.slot? near edge = some slot :=
  mem_map_snd_toList

theorem mem_named {perspective : Perspective} {slot : Nat} :
    slot ∈ perspective.named ↔ ∃ near edge, perspective.slot? near edge = some slot := by
  simp only [named, List.mem_flatMap, ExtTreeMap.mem_keys, mem_slots]
  constructor
  · exact fun ⟨near, _, edge, found⟩ => ⟨near, edge, found⟩
  · exact fun ⟨near, edge, found⟩ => ⟨near, mem_of_slot? found, edge, found⟩

theorem nodup_named {perspective : Perspective}
    (h : ∀ near near' edge edge' slot, perspective.slot? near edge = some slot →
      perspective.slot? near' edge' = some slot → near = near' ∧ edge = edge') :
    perspective.named.Nodup := by
  rw [named, List.nodup_flatMap]
  constructor
  · intro near _
    have keys : ((perspective.edges near).toList.map (·.1)).Nodup := by
      rw [ExtTreeMap.map_fst_toList_eq_keys]
      exact ExtTreeMap.nodup_keys
    refine List.Nodup.map_on ?_ keys.of_map
    rintro ⟨edge, slot⟩ member ⟨edge', slot'⟩ member' (rfl : slot = slot')
    have found := ExtTreeMap.mem_toList_iff_getElem?_eq_some.mp member
    have found' := ExtTreeMap.mem_toList_iff_getElem?_eq_some.mp member'
    rw [(h near near edge edge' slot found found').2]
  · refine List.Pairwise.imp ?_ (ExtTreeMap.nodup_keys (t := perspective))
    intro near near' different slot member member'
    obtain ⟨edge, found⟩ := mem_slots.mp member
    obtain ⟨edge', found'⟩ := mem_slots.mp member'
    exact different (h near near' edge edge' slot found found').1

end Perspective

end XbrlNetworks
