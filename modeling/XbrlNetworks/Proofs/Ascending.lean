import Mathlib.Data.List.Sort
import Std.Data.ExtTreeMap
import XbrlNetworks.Index

/-! # Ascending lists

What is read off an ordered map stands in ascending order.  An ascending list
is determined by its members, so two maps are read alike as soon as they agree
on everything that leaves a trace.  Lists that are matched item by item stand in
the same order.
-/

namespace XbrlNetworks

open Std

variable {α β γ : Type} {cmp : α → α → Ordering}

theorem isLE_total [OrientedCmp cmp] {first second : α} :
    ((cmp first second).isLE || (cmp second first).isLE) = true := by
  have swapped : cmp second first = (cmp first second).swap := OrientedCmp.eq_swap
  rw [swapped]
  cases cmp first second with
  | lt => rfl
  | eq => rfl
  | gt => rfl

/-- Every member stands before all greater ones, and none stands twice. -/
def Ascending (cmp : α → α → Ordering) (keys : List α) : Prop :=
  keys.Pairwise fun first second => cmp first second = .lt

namespace Ascending

theorem nodup [TransCmp cmp] {keys : List α} (h : Ascending cmp keys) : keys.Nodup := by
  refine List.Pairwise.imp ?_ h
  intro first second less same
  subst same
  simp [ReflCmp.compare_self] at less

theorem of_isLE [LawfulEqCmp cmp] {keys : List α}
    (sorted : keys.Pairwise fun first second => (cmp first second).isLE = true)
    (apart : keys.Nodup) : Ascending cmp keys := by
  refine (sorted.and apart).imp ?_
  rintro first second ⟨le, different⟩
  rcases Ordering.isLE_iff_eq_lt_or_eq_eq.mp le with less | same
  · exact less
  · exact absurd (LawfulEqCmp.eq_of_compare same) different

/-- Members determine an ascending list. -/
theorem eq_of_mem_iff [TransCmp cmp] {left right : List α} (hl : Ascending cmp left)
    (hr : Ascending cmp right) (same : ∀ key, key ∈ left ↔ key ∈ right) : left = right := by
  refine List.Perm.eq_of_pairwise ?_ hl hr ((List.perm_ext_iff_of_nodup hl.nodup hr.nodup).mpr same)
  intro first second _ _ less greater
  exact absurd greater (OrientedCmp.not_lt_of_lt less)

theorem eq_of_mem_iff_of_map [TransCmp cmp] {key : β → α} {left right : List β}
    (hl : Ascending cmp (left.map key)) (hr : Ascending cmp (right.map key))
    (same : ∀ item, item ∈ left ↔ item ∈ right) : left = right := by
  refine List.Perm.eq_of_pairwise ?_ (List.pairwise_map.mp hl) (List.pairwise_map.mp hr)
    ((List.perm_ext_iff_of_nodup hl.nodup.of_map hr.nodup.of_map).mpr same)
  intro first second _ _ less greater
  exact absurd greater (OrientedCmp.not_lt_of_lt less)

theorem filter {keys : List α} (h : Ascending cmp keys) (p : α → Bool) :
    Ascending cmp (keys.filter p) :=
  List.Pairwise.filter p h

theorem flatMap_eq [TransCmp cmp] {left right : List α} (hl : Ascending cmp left)
    (hr : Ascending cmp right) {f : α → List β}
    (same : ∀ key, f key ≠ [] → (key ∈ left ↔ key ∈ right)) :
    left.flatMap f = right.flatMap f := by
  -- Both sides are cut down to the keys that contribute, and these are the same.
  have drop : ∀ keys : List α, keys.flatMap f =
      (keys.filter fun key => !(f key).isEmpty).flatMap f := by
    intro keys
    induction keys with
    | nil => rfl
    | cons key keys ih =>
        cases empty : (f key).isEmpty with
        | true => simp [List.isEmpty_iff.mp empty, ih]
        | false => simp [empty, ih]
  rw [drop left, drop right]
  congr 1
  apply eq_of_mem_iff (hl.filter _) (hr.filter _)
  intro key
  simp only [List.mem_filter, Bool.not_eq_true', List.isEmpty_eq_false_iff]
  constructor
  · exact fun ⟨member, visible⟩ => ⟨(same key visible).mp member, visible⟩
  · exact fun ⟨member, visible⟩ => ⟨(same key visible).mpr member, visible⟩

theorem filterMap_eq [TransCmp cmp] {left right : List α} (hl : Ascending cmp left)
    (hr : Ascending cmp right) {f : α → Option β}
    (same : ∀ key value, f key = some value → (key ∈ left ↔ key ∈ right)) :
    left.filterMap f = right.filterMap f := by
  simp only [List.filterMap_eq_flatMap_toList]
  apply flatMap_eq hl hr
  intro key visible
  cases found : f key with
  | none => simp [found] at visible
  | some value => exact same key value found

theorem of_forall₂ [Ord γ] {key : α → γ} {key' : β → γ} {items : List α} {others : List β}
    (h : Ascending (compareOn key) items)
    (matched : List.Forall₂ (fun item other => key' other = key item) items others) :
    Ascending (compareOn key') others := by
  have same : items.map key = others.map key' := by
    rw [← List.forall₂_eq_eq_eq, List.forall₂_map_left_iff, List.forall₂_map_right_iff]
    exact matched.imp fun _ _ => Eq.symm
  have ascends : (items.map key).Pairwise fun first second => compare first second = .lt :=
    List.pairwise_map.mpr h
  rw [same] at ascends
  exact List.pairwise_map.mp ascends

theorem flatMap [Ord γ] [ReflOrd γ] {key : α → γ} {key' : β → γ} {cmp' : β → β → Ordering}
    {items : List α} {f : α → List β} (h : Ascending (compareOn key) items)
    (inner : ∀ item ∈ items, Ascending cmp' (f item))
    (keys : ∀ item ∈ items, ∀ other ∈ f item, key' other = key item) :
    Ascending (compareLex (compareOn key') cmp') (items.flatMap f) := by
  refine List.pairwise_flatMap.mpr ⟨fun item member => ?_, ?_⟩
  · refine List.Pairwise.imp_of_mem ?_ (inner item member)
    intro first second inFirst inSecond less
    simp [compareLex, compareOn, keys item member first inFirst, keys item member second inSecond,
      ReflCmp.compare_self, less]
  · refine List.Pairwise.imp_of_mem ?_ h
    intro item item' member member' less first inFirst second inSecond
    have less : compare (key item) (key item') = .lt := less
    simp [compareLex, compareOn, keys item member first inFirst,
      keys item' member' second inSecond, less]

theorem mem_before_iff [TransCmp cmp] {before after : List α} {item other : α}
    (h : Ascending cmp (before ++ item :: after)) :
    other ∈ before ↔ other ∈ before ++ item :: after ∧ cmp other item = .lt := by
  obtain ⟨_, ascends, across⟩ := List.pairwise_append.mp h
  constructor
  · intro member
    exact ⟨List.mem_append_left _ member, across other member item List.mem_cons_self⟩
  · rintro ⟨member, less⟩
    rcases List.mem_append.mp member with inBefore | inRest
    · exact inBefore
    · rcases List.mem_cons.mp inRest with rfl | inAfter
      · simp [ReflCmp.compare_self] at less
      · exact absurd (List.rel_of_pairwise_cons ascends inAfter) (OrientedCmp.not_lt_of_lt less)

end Ascending

section OrderedMap

variable [TransCmp cmp]

theorem ascending_keys (map : ExtTreeMap α β cmp) : Ascending cmp map.keys :=
  ExtTreeMap.ordered_keys

/-- Maps that have or lack a key together have the same there if they do up to a default. -/
theorem getElem?_eq_of_getD_eq {map other : ExtTreeMap α β cmp} {key : α} {default : β}
    (listed : key ∈ map ↔ key ∈ other)
    (same : map[key]?.getD default = other[key]?.getD default) : map[key]? = other[key]? := by
  by_cases member : key ∈ map
  · rw [ExtTreeMap.getElem?_eq_some_getElem member,
      ExtTreeMap.getElem?_eq_some_getElem (listed.mp member)] at same ⊢
    exact congrArg some same
  · rw [ExtTreeMap.getElem?_eq_none member, ExtTreeMap.getElem?_eq_none (mt listed.mpr member)]

variable [LawfulEqCmp cmp]

theorem flatMap_toList (map : ExtTreeMap α β cmp) (f : α × β → List γ) :
    map.toList.flatMap f = map.keys.flatMap fun key => map[key]?.toList.flatMap fun value =>
      f (key, value) := by
  rw [← ExtTreeMap.map_fst_toList_eq_keys, List.flatMap_map]
  apply List.flatMap_congr
  rintro ⟨key, value⟩ member
  have found : map[key]? = some value := ExtTreeMap.mem_toList_iff_getElem?_eq_some.mp member
  simp [found]

theorem mem_map_snd_toList {map : ExtTreeMap α β cmp} {value : β} :
    value ∈ map.toList.map (·.2) ↔ ∃ key : α, map[key]? = some value := by
  simp only [List.mem_map, Prod.exists, exists_eq_right,
    ExtTreeMap.mem_toList_iff_getElem?_eq_some]

theorem insert_comm (map : ExtTreeMap α β cmp) {key other : α} (apart : key ≠ other)
    (value otherValue : β) :
    (map.insert key value).insert other otherValue =
      (map.insert other otherValue).insert key value := by
  refine ExtTreeMap.ext_getElem? fun asked => ?_
  simp only [ExtTreeMap.getElem?_insert, LawfulEqCmp.compare_eq_iff_eq]
  grind

end OrderedMap

theorem ascending_distinct (texts : List String) : Ascending compare (distinct texts) :=
  ExtTreeSet.ordered_toList

@[simp] theorem mem_distinct {texts : List String} {text : String} :
    text ∈ distinct texts ↔ text ∈ texts := by
  simp [distinct, ExtTreeSet.mem_toList, ExtTreeSet.mem_ofList]

theorem exists_forall₂ {α β : Type} {R : α → β → Prop} {items : List α}
    (h : ∀ item ∈ items, ∃ other, R item other) : ∃ others, List.Forall₂ R items others := by
  induction items with
  | nil => exact ⟨[], .nil⟩
  | cons item items ih =>
      obtain ⟨other, first⟩ := h item List.mem_cons_self
      obtain ⟨others, rest⟩ := ih fun later member => h later (List.mem_cons_of_mem _ member)
      exact ⟨other :: others, .cons first rest⟩

theorem exists_of_forall₂ {α β : Type} {R : α → β → Prop} {left : List α} {right : List β}
    (h : List.Forall₂ R left right) {item : α} (member : item ∈ left) :
    ∃ other ∈ right, R item other := by
  induction h with
  | nil => cases member
  | cons here _ ih =>
      rcases List.mem_cons.mp member with rfl | later
      · exact ⟨_, List.mem_cons_self, here⟩
      · obtain ⟨other, inRest, holds⟩ := ih later
        exact ⟨other, List.mem_cons_of_mem _ inRest, holds⟩

end XbrlNetworks
