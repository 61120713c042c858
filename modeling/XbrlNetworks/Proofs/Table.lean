import XbrlNetworks.Ledger.Basic
import XbrlNetworks.Proofs.Ascending
import XbrlNetworks.Proofs.Sorting

/-! # The table of records as a map

A row is found by its address, and what is put or erased there shows at that address
and nowhere else.  So the table does as a map of records by address would, although
it keeps its rows in another order than the one in which they are read, overwrites a
row column by column, and has the conditions of a query checked one by one.
-/

namespace XbrlNetworks

open Std

theorem Record.overwrite_eq {row record : Record} (same : row.address = record.address) :
    row.overwrite record = record := by
  cases row
  cases record
  simp only [Record.address, Record.Address.mk.injEq] at same
  simp only [Record.overwrite, same]

theorem Query.all_conditions_holds (query : Query) (record : Record) :
    query.conditions.all (·.holds record) = query.selects record := by
  have criterion : ∀ (wanted? : Option String) (condition : String → Condition),
      (wanted?.map condition).toList.all (·.holds record) =
        wanted?.all fun wanted => (condition wanted).holds record := by
    intro wanted? condition
    cases wanted? with
    | none => rfl
    | some wanted => exact Bool.and_true _
  have flag : ∀ (wanted : Bool) (condition : Condition),
      (if wanted then [condition] else []).all (·.holds record) =
        (!wanted || condition.holds record) := by
    intro wanted condition
    cases wanted with
    | true => exact Bool.and_true _
    | false => rfl
  simp only [conditions, List.all_append, criterion, flag]
  simp only [Condition.holds, selects, BEq.comm]

namespace Ledger

variable {ledger other : Ledger} {record row : Record} {address : Record.Address}

theorem getElem?_eq_find? (ledger : Ledger) (address : Record.Address) :
    ledger[address]? = ledger.rows.find? fun row => row.address == address := rfl

@[simp] theorem getElem?_empty (address : Record.Address) : (∅ : Ledger)[address]? = none := rfl

theorem address_of_getElem? (found : ledger[address]? = some record) :
    record.address = address := by
  simpa using List.find?_some found

theorem ascending_addresses (ledger : Ledger) :
    Ascending Record.Address.compare (ledger.rows.map Record.address) :=
  List.pairwise_map.mpr ledger.ascending

/-- A row stands at its own address, where there is no other one. -/
theorem mem_rows : record ∈ ledger.rows ↔ ledger[record.address]? = some record := by
  constructor
  · intro member
    cases found : ledger[record.address]? with
    | none => simpa using List.find?_eq_none.mp found record member
    | some row =>
        rw [List.inj_on_of_nodup_map ledger.ascending_addresses.nodup
          (List.mem_of_find?_eq_some found) member (address_of_getElem? found)]
  · exact List.mem_of_find?_eq_some

theorem ext_getElem? (same : ∀ address : Record.Address, ledger[address]? = other[address]?) :
    ledger = other := by
  have rows : ledger.rows = other.rows :=
    ledger.ascending_addresses.eq_of_mem_iff_of_map other.ascending_addresses
      fun row => by rw [mem_rows, mem_rows, same]
  cases ledger
  cases other
  cases rows
  rfl

theorem find?_upsert (record : Record) (rows : List Record) (address : Record.Address) :
    (upsert record rows).find? (fun row => row.address == address) =
      if record.address = address then some record
      else rows.find? fun row => row.address == address := by
  induction rows with
  | nil =>
      simp only [upsert, List.find?_cons, List.find?_nil]
      grind
  | cons row rows ih =>
      rw [upsert]
      split
      case h_1 =>
        simp only [List.find?_cons]
        grind
      case h_2 equal =>
        have same : row.address = record.address := (LawfulEqCmp.eq_of_compare equal).symm
        rw [Record.overwrite_eq same]
        simp only [List.find?_cons]
        grind
      case h_3 greater =>
        have different : row.address ≠ record.address := by
          intro same
          have equal : record.address.compare row.address = .eq :=
            LawfulEqCmp.compare_eq_iff_eq.mpr same.symm
          rw [equal] at greater
          cases greater
        simp only [List.find?_cons, ih]
        grind

theorem getElem?_put (ledger : Ledger) (record : Record) (address : Record.Address) :
    (ledger.put record)[address]? =
      if record.address = address then some record else ledger[address]? :=
  find?_upsert record ledger.rows address

theorem getElem?_erase (ledger : Ledger) (erased address : Record.Address) :
    (ledger.erase erased)[address]? = if erased = address then none else ledger[address]? := by
  rw [getElem?_eq_find?, getElem?_eq_find?, erase, List.find?_filter]
  split
  · grind
  · rename_i different
    congr 1
    funext row
    grind

theorem fst_delete (ledger : Ledger) (address : Record.Address) :
    (ledger.delete address).1 = ledger.contains address := by
  rw [Bool.eq_iff_iff, delete, erase, contains, getElem?_eq_find?, List.find?_isSome,
    decide_eq_true_iff, List.length_filter_lt_length_iff_exists]
  simp

@[simp] theorem snd_delete (ledger : Ledger) (address : Record.Address) :
    (ledger.delete address).2 = ledger.erase address := rfl

theorem mem_select_iff_getElem? {query : Query} : record ∈ ledger.select query ↔
    ledger[record.address]? = some record ∧ query.selects record = true := by
  rw [select, (sortBy_perm _).mem_iff, List.mem_filter, mem_rows, Query.all_conditions_holds]

/-- What a query selects is read in the order of the addresses, of which none stands twice. -/
theorem ascending_select (ledger : Ledger) (query : Query) :
    Ascending Record.Address.readingOrder ((ledger.select query).map Record.address) := by
  have apart : ((ledger.select query).map Record.address).Nodup := by
    refine ((sortBy_perm _).map _).nodup_iff.mpr ?_
    exact ledger.ascending_addresses.nodup.sublist (List.filter_sublist.map _)
  have sorted : (ledger.select query).Pairwise fun row later =>
      (row.address.readingOrder later.address).isLE = true := by
    rw [select, sortBy_eq_mergeSort (fun _ _ _ => TransCmp.isLE_trans) fun _ _ => isLE_total]
    exact List.pairwise_mergeSort (fun _ _ _ => TransCmp.isLE_trans) (fun _ _ => isLE_total) _
  exact .of_isLE (List.pairwise_map.mpr sorted) apart

theorem mem_records : record ∈ ledger.records ↔ ledger[record.address]? = some record := by
  rw [records, mem_select_iff_getElem?]
  exact and_iff_left rfl

theorem nodup_records (ledger : Ledger) : ledger.records.Nodup :=
  (ledger.ascending_select .all).nodup.of_map

theorem select_eq_filter (ledger : Ledger) (query : Query) :
    ledger.select query = ledger.records.filter query.selects := by
  refine (ledger.ascending_select query).eq_of_mem_iff_of_map
    ((ledger.ascending_select .all).sublist (List.filter_sublist.map _)) fun record => ?_
  rw [mem_select_iff_getElem?, List.mem_filter, mem_records]

theorem mem_select {query : Query} :
    record ∈ ledger.select query ↔ record ∈ ledger.records ∧ query.selects record = true := by
  rw [select_eq_filter, List.mem_filter]

/-- A table does as a map of records by address that is kept in reading order. -/
structure Represents (ledger : Ledger)
    (map : ExtTreeMap Record.Address Record Record.Address.readingOrder) : Prop where
  stands : ∀ address : Record.Address, ledger[address]? = map[address]?
  select : ∀ query : Query, ledger.select query = (map.toList.map (·.2)).filter query.selects
  delete : ∀ address : Record.Address, (ledger.delete address).1 = map.contains address

variable {map : ExtTreeMap Record.Address Record Record.Address.readingOrder}

theorem records_eq (stands : ∀ address : Record.Address, ledger[address]? = map[address]?) :
    ledger.records = map.toList.map (·.2) := by
  have keyed : (map.toList.map (·.2)).map Record.address = map.keys := by
    rw [List.map_map, ← ExtTreeMap.map_fst_toList_eq_keys]
    refine List.map_congr_left fun entry member => ?_
    have there := ExtTreeMap.mem_toList_iff_getElem?_eq_some.mp member
    rw [← stands] at there
    exact address_of_getElem? there
  have ascends : Ascending Record.Address.readingOrder
      ((map.toList.map (·.2)).map Record.address) := by
    rw [keyed]
    exact ascending_keys map
  refine (ledger.ascending_select .all).eq_of_mem_iff_of_map ascends fun record => ?_
  change record ∈ ledger.records ↔ _
  rw [mem_records, mem_map_snd_toList, stands]
  constructor
  · exact fun found => ⟨_, found⟩
  · rintro ⟨address, found⟩
    rwa [address_of_getElem? ((stands address).trans found)]

/-- It does so as soon as the same records stand in both. -/
theorem represents_of_getElem?
    (stands : ∀ address : Record.Address, ledger[address]? = map[address]?) :
    ledger.Represents map where
  stands := stands
  select query := by rw [select_eq_filter, records_eq stands]
  delete address := by
    rw [fst_delete, contains, stands, ExtTreeMap.contains_eq_isSome_getElem?]

namespace Represents

theorem empty : Represents ∅ ∅ := represents_of_getElem? fun address => by simp

theorem put (h : ledger.Represents map) (record : Record) :
    (ledger.put record).Represents (map.insert record.address record) := by
  refine represents_of_getElem? fun address => ?_
  rw [getElem?_put, ExtTreeMap.getElem?_insert, h.stands]
  simp only [LawfulEqCmp.compare_eq_iff_eq]

theorem erase (h : ledger.Represents map) (address : Record.Address) :
    (ledger.erase address).Represents (map.erase address) := by
  refine represents_of_getElem? fun asked => ?_
  rw [getElem?_erase, ExtTreeMap.getElem?_erase, h.stands]
  simp only [LawfulEqCmp.compare_eq_iff_eq]

end Represents

end Ledger

end XbrlNetworks
