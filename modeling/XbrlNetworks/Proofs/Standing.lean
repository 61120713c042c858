import XbrlNetworks.Proofs.Rereading
import XbrlNetworks.Proofs.Settling

/-! # Which records stand

The changes that have been made to a ledger are its history.  A record stands if it
was put and nothing has been done at its address since, and all that a ledger answers
can be told from the records that stand: what a query selects and in which order,
whether a change removes something, and which roles there are.
-/

namespace XbrlNetworks

open Std

/-- A record meets every condition that a query makes. -/
structure Query.Meets (query : Query) (record : Record) : Prop where
  arcRole : ∀ role, query.arcRole = some role → role = record.arcRole
  linkRole : ∀ role, query.linkRole = some role → role = record.linkRole
  source : ∀ index, query.source = some index → index = record.source
  target : ∀ index, query.target = some index → index = record.target
  root : query.rootsOnly = true → record.root = true
  asserts : query.withoutProhibited = true → record.prohibited = false

theorem Query.selects_iff_meets {query : Query} {record : Record} :
    query.selects record = true ↔ query.Meets record := by
  have condition : ∀ (wanted : Option String) (text : String),
      wanted.all (· == text) = true ↔ ∀ other, wanted = some other → other = text := by
    intro wanted text
    cases wanted with
    | none => simp
    | some other => simp
  have flag : ∀ wanted has : Bool, (!wanted || has) = true ↔ (wanted = true → has = true) := by
    decide
  simp only [selects, Bool.and_eq_true, condition, flag, Bool.not_eq_true']
  constructor
  · rintro ⟨⟨⟨⟨⟨arcRole, linkRole⟩, source⟩, target⟩, root⟩, asserts⟩
    exact ⟨arcRole, linkRole, source, target, root, asserts⟩
  · rintro ⟨arcRole, linkRole, source, target, root, asserts⟩
    exact ⟨⟨⟨⟨⟨arcRole, linkRole⟩, source⟩, target⟩, root⟩, asserts⟩

/-- The columns that records are read by.  The first one in which two records differ decides. -/
def Record.columns (record : Record) : List String :=
  [record.arcRole, record.linkRole, record.source, record.target, record.key]

theorem Record.columns_lt_iff {record later : Record} :
    record.columns < later.columns ↔ record.address.readingOrder later.address = .lt := by
  have less : ∀ text other : String, compare text other = .lt ↔ text < other :=
    fun _ _ => compareOfLessAndEq_eq_lt
  simp only [columns, List.cons_lt_cons_iff, Address.readingOrder, compareLex, compareOn,
    Ordering.then_eq_lt, LawfulEqOrd.compare_eq_iff_eq, less, Record.address, List.lt_irrefl,
    and_false, or_false]

namespace Ledger

variable {changes : List Change} {change : Change} {record : Record} {address : Record.Address}

/-- A record was put, and no later change is about its address. -/
def Stands (changes : List Change) (record : Record) : Prop :=
  ∃ before after, changes = before ++ .put record :: after ∧
    ∀ change ∈ after, change.address ≠ record.address

theorem not_stands_nil : ¬ Stands [] record := by
  rintro ⟨before, after, whole, _⟩
  simp at whole

/-- What one more change does: its record stands, and nothing else that is at its address. -/
theorem stands_append_singleton : Stands (changes ++ [change]) record ↔
    change = .put record ∨ Stands changes record ∧ change.address ≠ record.address := by
  constructor
  · rintro ⟨before, after, whole, quiet⟩
    -- The record is that of the last change, or was put before it.
    rcases List.eq_nil_or_concat after with rfl | ⟨earlier, last, rfl⟩
    · exact .inl (List.append_inj_right' whole rfl |> List.singleton_injective)
    · rw [List.concat_eq_append, ← List.cons_append, ← List.append_assoc] at whole
      obtain ⟨rfl, same⟩ := List.append_inj' whole rfl
      obtain rfl := List.singleton_injective same
      exact .inr ⟨⟨before, earlier, rfl, fun other member => quiet other (by simp [member])⟩,
        quiet change (by simp)⟩
  · rintro (rfl | ⟨⟨before, after, rfl, quiet⟩, different⟩)
    · exact ⟨changes, [], rfl, by simp⟩
    · refine ⟨before, after ++ [change], by simp, fun other member => ?_⟩
      rcases List.mem_append.mp member with earlier | last
      · exact quiet other earlier
      · rwa [List.mem_singleton.mp last]

theorem getElem?_foldl_eq_some_iff :
    (changes.foldl apply (∅ : Ledger))[address]? = some record ↔
      Stands changes record ∧ record.address = address := by
  induction changes using List.reverseRecOn with
  | nil => simp [not_stands_nil]
  | append_singleton changes change ih =>
      rw [List.foldl_append, List.foldl_cons, List.foldl_nil, getElem?_apply,
        stands_append_singleton]
      by_cases here : change.address = address
      · rw [if_pos here]
        constructor
        · intro found
          cases change with
          | put put =>
              cases found
              exact ⟨.inl rfl, here⟩
          | strike struck => cases found
        · rintro ⟨rfl | ⟨_, different⟩, own⟩
          · rfl
          · exact absurd (here.trans own.symm) different
      · rw [if_neg here, ih]
        constructor
        · exact fun ⟨stands, own⟩ => ⟨.inr ⟨stands, fun same => here (same.trans own)⟩, own⟩
        · rintro ⟨rfl | ⟨stands, _⟩, own⟩
          · exact absurd own here
          · exact ⟨stands, own⟩

theorem mem_rows_foldl_iff :
    record ∈ (changes.foldl apply (∅ : Ledger)).rows ↔ Stands changes record := by
  rw [mem_rows, getElem?_foldl_eq_some_iff]
  exact and_iff_left rfl

theorem mem_select_foldl_iff {query : Query} :
    record ∈ (changes.foldl apply (∅ : Ledger)).select query ↔
      Stands changes record ∧ query.selects record = true := by
  rw [mem_select_iff_getElem?, getElem?_foldl_eq_some_iff]
  exact and_congr_left' (and_iff_left rfl)

def Change.enact (map : ExtTreeMap Record.Address Record Record.Address.readingOrder) :
    Change → ExtTreeMap Record.Address Record Record.Address.readingOrder
  | .put record => map.insert record.address record
  | .strike address => map.erase address

namespace Represents

variable {ledger : Ledger} {map : ExtTreeMap Record.Address Record Record.Address.readingOrder}

theorem apply (h : ledger.Represents map) (change : Change) :
    (ledger.apply change).Represents (change.enact map) := by
  cases change with
  | put record => exact h.put record
  | strike address => exact h.erase address

theorem foldl_apply (h : ledger.Represents map) (changes : List Change) :
    (changes.foldl Ledger.apply ledger).Represents
      (changes.foldl (fun map change => change.enact map) map) := by
  induction changes generalizing ledger map with
  | nil => exact h
  | cons change changes ih => exact ih (h.apply change)

end Represents

/-- What a ledger answers, told by the changes that it is made of.  What a query selects is read by
    arc role, link role, source, target and key, and nothing twice; deleting at an address removes
    something just when a record stands there; roles are listed in ascending order. -/
structure Recounts (ledger : Ledger) (changes : List Change) : Prop where
  represents : ledger.Represents (changes.foldl (fun map change => change.enact map) ∅)
  select : ∀ query record, record ∈ ledger.select query ↔
    Stands changes record ∧ query.selects record = true
  order : ∀ query, (ledger.select query).Pairwise fun record later =>
    record.columns < later.columns
  delete : ∀ address, (ledger.delete address).1 = true ↔
    ∃ record, Stands changes record ∧ record.address = address
  arcRoles : ∀ role, role ∈ ledger.arcRoles ↔ ∃ record, Stands changes record ∧
    record.arcRole = role
  ascendingArcRoles : Ascending compare ledger.arcRoles
  linkRoles : ∀ arcRole role, role ∈ ledger.linkRoles arcRole ↔ ∃ record, Stands changes record ∧
    record.arcRole = arcRole ∧ record.linkRole = role
  ascendingLinkRoles : ∀ arcRole, Ascending compare (ledger.linkRoles arcRole)

/-- Whatever the changes are, at each of them the ledger does as a map of records by address and
    answers as the changes before it tell; and a query, which is put to the rows condition by
    condition, selects just the records that stand and that meet what it asks for. -/
theorem recounts_foldl_apply (changes : List Change) :
    (changes.foldl apply (∅ : Ledger)).Recounts changes ∧
      ∀ query record, record ∈ (changes.foldl apply (∅ : Ledger)).select query ↔
        Stands changes record ∧ query.Meets record := by
  constructor
  · constructor
    case represents => exact Represents.empty.foldl_apply changes
    case select => exact fun _ _ => mem_select_foldl_iff
    case order =>
      intro query
      refine (List.pairwise_map.mp (ascending_select _ query)).imp fun less => ?_
      exact Record.columns_lt_iff.mpr less
    case delete =>
      intro address
      rw [fst_delete, contains, Option.isSome_iff_exists]
      simp only [getElem?_foldl_eq_some_iff]
    case arcRoles =>
      intro role
      simp only [Ledger.arcRoles, mem_distinct, List.mem_map, mem_rows_foldl_iff]
    case ascendingArcRoles => exact ascending_distinct _
    case linkRoles =>
      intro arcRole role
      simp only [Ledger.linkRoles, mem_distinct, List.mem_map, List.mem_filter,
        mem_rows_foldl_iff, beq_iff_eq, and_assoc]
    case ascendingLinkRoles => exact fun _ => ascending_distinct _
  · intro query record
    rw [mem_select_foldl_iff, Query.selects_iff_meets]

end Ledger

end XbrlNetworks
