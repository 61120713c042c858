import XbrlNetworks.Proofs.Modes

/-! # Narrowing before or after resolving

A query narrows the records before networks are built of them.  As no two records
of a ledger have the same address, a record that a query leaves out could not have
competed with one that it lets through, and the order in which relationships are
reported is read off the relationships themselves.  So whatever a query reports is
what the query for everything reports, less what the query does not want.
-/

namespace XbrlNetworks

open Std

variable {catalogue : Catalogue} {ledger : Ledger} {mode : Analysis.Mode} {query : Query}
  {relationships effective : List Relationship} {record : Record} {baseSet : BaseSet}

namespace Ledger

/-- Whether a query wants the record that is stored under an address. -/
def selectsAt (ledger : Ledger) (query : Query) (address : Record.Address) : Bool :=
  ledger[address]?.any query.selects

theorem selectsAt_of_mem (member : record ∈ ledger.records) (query : Query) :
    ledger.selectsAt query record.address = query.selects record := by
  rw [selectsAt, mem_records.mp member, Option.any_some]

theorem selectsAt_ends (ledger : Ledger) (baseSet : BaseSet) (parent child : Index)
    (r : Relationship) :
    (r.target.index == child &&
        ledger.selectsAt { Query.ofBaseSet baseSet with source := some parent } r.address) =
      (r.source.index == parent &&
        ledger.selectsAt { Query.ofBaseSet baseSet with target := some child } r.address) := by
  unfold selectsAt
  cases found : ledger[r.address]? with
  | none => simp
  | some record =>
      have own := address_of_getElem? found
      have source : record.source = r.source.index := congrArg Record.Address.source own
      have target : record.target = r.target.index := congrArg Record.Address.target own
      simp only [Option.any_some, Query.selects, Query.ofBaseSet, Query.all, source, target,
        Option.all_some, Option.all_none, Bool.and_true, Bool.not_false, Bool.true_or]
      grind

end Ledger

namespace Analysis

/-- What a mode reports of the relationships that are read: all of them, or in their own order
    those that do not prohibit. -/
inductive Reports : Mode → List Relationship → List Relationship → Prop where
  | unresolved (relationships : List Relationship) : Reports .all relationships relationships
  | resolved {mode : Mode} {relationships effective : List Relationship} :
    mode ≠ .all → Ascending Relationship.reportingOrder effective →
      (∀ r, r ∈ effective ↔ r ∈ relationships ∧ r.isProhibited = false) →
      Reports mode relationships effective

theorem Reports.filter {narrowed : List Relationship} {wanted : Relationship → Bool}
    (h : Reports mode relationships effective)
    (h' : Reports mode (relationships.filter wanted) narrowed) :
    narrowed = effective.filter wanted := by
  cases h with
  | unresolved => cases h' with
    | unresolved => rfl
    | resolved resolves _ _ => exact absurd rfl resolves
  | resolved resolves ascends same => cases h' with
    | unresolved => exact absurd rfl resolves
    | resolved _ ascends' same' =>
        refine ascends'.eq_of_mem_iff (ascends.filter wanted) fun r => ?_
        rw [same', List.mem_filter, List.mem_filter, same, and_right_comm]

variable (mode) in
theorem exists_relationships (lawful : catalogue.Lawful) 
    (restored : List.Forall₂ (Record.Restores catalogue)
      (ledger.select ((Analysis.mk ⟨catalogue, .never⟩ ledger mode).narrow query)) relationships) :
    ∃ effective, (Analysis.mk ⟨catalogue, .never⟩ ledger mode).relationships query = .ok effective ∧
      Reports mode relationships effective := by
  have read := recorded_of_restores mode restored
  by_cases unresolved : mode = .all
  · subst unresolved
    exact ⟨relationships, read, .unresolved relationships⟩
  · obtain ⟨rebuilt, built, follows⟩ := exists_networks read
    have apart := Ledger.nodup_restored lawful restored
    refine ⟨_, relationships_of_networks unresolved built, .resolved unresolved
      follows.ascending_relationships fun r => follows.mem_effective_iff ?_⟩
    exact fun r member r' member' => List.inj_on_of_nodup_map apart member member'

theorem exists_restored
    (h : (Analysis.mk ⟨catalogue, .never⟩ ledger mode).relationships query = .ok effective) :
    ∃ relationships, List.Forall₂ (Record.Restores catalogue)
      (ledger.select ((Analysis.mk ⟨catalogue, .never⟩ ledger mode).narrow query))
      relationships := by
  cases read : (Analysis.mk ⟨catalogue, .never⟩ ledger mode).recorded
      ((Analysis.mk ⟨catalogue, .never⟩ ledger mode).narrow query) with
  | ok relationships => exact ⟨relationships, recorded_eq_ok_iff.mp read⟩
  | error failure => cases h.symm.trans (relationships_eq_error read)

theorem select_narrow_eq_filter (ledger : Ledger) (connection : Connection) (mode : Mode)
    (query : Query) :
    ledger.select ((Analysis.mk connection ledger mode).narrow query) =
      (ledger.select ((Analysis.mk connection ledger mode).narrow Query.all)).filter
        query.selects := by
  cases mode with
  | all => exact ledger.select_eq_filter query
  | activeOnly => exact ledger.select_eq_filter query
  | nonProhibited =>
      change ledger.select { query with withoutProhibited := true } =
        (ledger.select { Query.all with withoutProhibited := true }).filter query.selects
      rw [Ledger.select_withoutProhibited, Ledger.select_withoutProhibited, List.filter_comm,
        ledger.select_eq_filter query]
      rfl

theorem restores_filter (lawful : catalogue.Lawful) (connection : Connection) (query : Query)
    (restored : List.Forall₂ (Record.Restores catalogue)
      (ledger.select ((Analysis.mk connection ledger mode).narrow Query.all)) relationships) :
    List.Forall₂ (Record.Restores catalogue)
      (ledger.select ((Analysis.mk connection ledger mode).narrow query))
      (relationships.filter fun r => ledger.selectsAt query r.address) := by
  have stored : List.Forall₂ (fun record r => record ∈ ledger.records ∧
      record.Restores catalogue r) _ relationships :=
    (List.forall₂_and_left _ _).mpr ⟨fun record member => (Ledger.mem_select.mp member).1, restored⟩
  rw [select_narrow_eq_filter]
  refine (List.rel_filter (fun record r both => ?_) stored).imp fun _ _ both => both.2
  obtain ⟨member, restores⟩ := both
  simp only [restores.address_eq lawful, Ledger.selectsAt_of_mem member]

/-- Where the records that a mode wants can be read, every query reports what is reported for
    everything, less what it does not want. -/
theorem exists_whole (lawful : catalogue.Lawful) 
    (restored : List.Forall₂ (Record.Restores catalogue)
      (ledger.select ((Analysis.mk ⟨catalogue, .never⟩ ledger mode).narrow Query.all))
      relationships) :
    ∃ whole, (Analysis.mk ⟨catalogue, .never⟩ ledger mode).relationships Query.all = .ok whole ∧
      ∀ query, (Analysis.mk ⟨catalogue, .never⟩ ledger mode).relationships query =
        .ok (whole.filter fun r => ledger.selectsAt query r.address) := by
  obtain ⟨whole, reported, reports⟩ := exists_relationships mode lawful restored
  refine ⟨whole, reported, fun query => ?_⟩
  obtain ⟨narrowed, reported', reports'⟩ := exists_relationships mode lawful
    (restores_filter lawful ⟨catalogue, .never⟩ query restored)
  rw [reported', reports.filter reports']

end Analysis

theorem pairwise_sortByOrder (relationships : List Relationship) :
    (sortByOrder relationships).Pairwise fun r r' =>
      r.arc.order.value.rank ≤ r'.arc.order.value.rank := by
  rw [sortByOrder_eq_mergeSort]
  exact (List.pairwise_mergeSort Relationship.le_trans Relationship.le_total relationships).imp
    Relationship.le_iff.mp

/-- Narrowing before resolving equals resolving before narrowing.  Where everything can be read, be
    it all records or just those that the mode wants, a query reports what is reported for
    everything, less the relationships whose stored record the query does not want.  So what leads
    out of a fragment and what leads into another one agree on what is between them, and the
    former stands in the order of its values. -/
theorem Store.relationships_eq_filter {store : Store} {reader : Analysis.Mode}
    {everything : List Relationship}
    (read : (store.analysis .never reader).relationships Query.all = .ok everything)
    (mode : Analysis.Mode) (covers : reader = .all ∨ reader = mode) :
    ∃ whole, (store.analysis .never mode).relationships Query.all = .ok whole ∧
      (∀ query, (store.analysis .never mode).relationships query =
        .ok (whole.filter fun r => store.ledger[r.address]?.any query.selects)) ∧
      ∀ baseSet parent child, ∃ children parents,
        (store.analysis .never mode).children baseSet parent = .ok children ∧
        (store.analysis .never mode).parents baseSet child = .ok parents ∧
        (children.filter fun r => r.target.index == child).Perm
          (parents.filter fun r => r.source.index == parent) ∧
        children.Pairwise fun r r' => r.arc.order.value.rank ≤ r'.arc.order.value.rank := by
  have lawful := store.documents.lawful_catalogue
  obtain ⟨relationships, restored⟩ : ∃ relationships,
      List.Forall₂ (Record.Restores store.documents.catalogue)
        (store.ledger.select ((store.analysis .never mode).narrow Query.all)) relationships := by
    obtain ⟨relationships, restored⟩ := Analysis.exists_restored read
    rcases covers with rfl | rfl
    · -- What a mode wants of everything is itself a query for some of the records.
      have fewer : List.Forall₂ (Record.Restores store.documents.catalogue)
          (store.ledger.select ((store.analysis .never .all).narrow
            ((store.analysis .never mode).narrow Query.all))) _ :=
        Analysis.restores_filter lawful _ _ restored
      exact ⟨_, fewer⟩
    · exact ⟨relationships, restored⟩
  obtain ⟨whole, reported, narrowed⟩ := Analysis.exists_whole lawful restored
  refine ⟨whole, reported, narrowed, fun baseSet parent child => ?_⟩
  have out := narrowed { Query.ofBaseSet baseSet with source := some parent }
  have into := narrowed { Query.ofBaseSet baseSet with target := some child }
  refine ⟨_, _, congrArg (Except.map sortByOrder) out, into, ?_, pairwise_sortByOrder _⟩
  refine ((sortByOrder_perm _).filter _).trans (List.Perm.of_eq ?_)
  rw [List.filter_filter, List.filter_filter]
  exact List.filter_congr fun r _ => store.ledger.selectsAt_ends baseSet parent child r

/-- Of three records the query for one target reports one, as it stands among the two that are
    reported for everything. -/
theorem Store.relationships_eq_filter_of_target : ∃ store : Store,
    ∃ changes : List Ledger.Change, ∃ everything whole,
      store.ledger = changes.foldl Ledger.apply ∅ ∧
      (store.analysis .never .all).relationships Query.all = .ok everything ∧
      everything.length = 3 ∧
      (store.analysis .never .activeOnly).relationships Query.all = .ok whole ∧
      whole = [.sample "x" "s" "t" .optional, .sample "y" "s" "u" .optional] ∧
      (store.analysis .never .activeOnly).relationships { Query.all with target := some "u" } =
        .ok (whole.filter fun r => r.target.index == "u") := by
  let p := Relationship.sample "x" "s" "t" .optional
  let q := Relationship.sample "y" "s" "u" .optional
  let z := Relationship.sample "z" "t" "u" .prohibited
  let changes : List Ledger.Change := [.put (.ofRelationship z false), .strike q.address,
    .put (.ofRelationship q true), .put (.ofRelationship p true)]
  let store : Store := ⟨Documents.empty.load [.fragment p.source, .fragment p.target,
    .fragment q.target], changes.foldl Ledger.apply ∅, .inMemory⟩
  have built : store.ledger = changes.foldl Ledger.apply ∅ := rfl
  have read : (store.analysis .never .all).relationships Query.all = .ok [p, q, z] := by
    decide +kernel
  have reported : (store.analysis .never .activeOnly).relationships Query.all = .ok [p, q] := by
    decide +kernel
  obtain ⟨whole, found, narrowed, _⟩ :=
    Store.relationships_eq_filter read .activeOnly (.inl rfl)
  obtain rfl : whole = [p, q] := Except.ok.inj (found.symm.trans reported)
  refine ⟨store, changes, [p, q, z], [p, q], built, read, rfl, found, rfl, ?_⟩
  rw [narrowed]
  decide +kernel

end XbrlNetworks
