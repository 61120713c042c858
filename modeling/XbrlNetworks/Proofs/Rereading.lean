import XbrlNetworks.Proofs.Roots

/-! # What records are read back as

Any record can be put into a ledger, not only one that was made of a relationship.
If it is read back, then as the one relationship that its fields and the fragments
of the catalogue make up, and that has the address of the record.  So what a query
reads are relationships with different addresses, in the order of the records.
-/

namespace XbrlNetworks

open Std

namespace Record.Restores

variable {catalogue : Catalogue} {record : Record} {r : Relationship}

theorem of_toArc {arc : Arc} (h : record.toArc = .ok arc) :
    arc.role = record.arcRole ∧ arc.key = record.key ∧ arc.use = record.use := by
  unfold toArc at h
  split at h
  · cases h
    exact ⟨rfl, rfl, rfl⟩
  · cases h

theorem address_eq (h : record.Restores catalogue r) (lawful : catalogue.Lawful) :
    r.address = record.address := by
  obtain ⟨role, key, _⟩ := of_toArc h.arc
  have source := lawful.index _ _ h.source
  have target := lawful.index _ _ h.target
  simp only [Relationship.address, Relationship.key, Record.address, role, key, source, target,
    ← h.link, toLink]

theorem isProhibited_eq (h : record.Restores catalogue r) : r.isProhibited = record.prohibited := by
  obtain ⟨_, _, use⟩ := of_toArc h.arc
  rw [Relationship.isProhibited, Arc.isProhibited, use, Record.use]
  cases record.prohibited with
  | true => rfl
  | false => rfl

end Record.Restores

namespace Analysis

variable {catalogue : Catalogue} {memory memory' : Memory} {index : Index} {fragment : Fragment}
  {record : Record} {r : Relationship} {records : List Record} {relationships : List Relationship}

theorem of_bind_eq_ok {α β : Type} {work : Recalling α} {next : α → Recalling β} {answer : β}
    (h : (work >>= next) memory = .ok (answer, memory')) :
    ∃ middle between, work memory = .ok (middle, between) ∧
      next middle between = .ok (answer, memory') := by
  change (work memory >>= fun done => next done.1 done.2) = _ at h
  obtain ⟨middle, done, rest⟩ := exists_of_bind_eq_ok h
  exact ⟨middle.1, middle.2, done, rest⟩

theorem of_fetch_eq_ok (h : Faithful catalogue memory)
    (fetched : fetch ⟨catalogue, .never⟩ index memory = .ok (fragment, memory')) :
    catalogue.fragment? index = .ok (some fragment) ∧ Faithful catalogue memory' := by
  have there : catalogue.fragment? index = .ok (some fragment) := by
    unfold fetch at fetched
    grind [Outage.answer, Outage.never, Faithful]
  obtain ⟨between, again, faithful⟩ := fetch_eq_ok h there
  rw [again] at fetched
  cases fetched
  exact ⟨there, faithful⟩

theorem of_restore_eq_ok (h : Faithful catalogue memory)
    (restored : restore ⟨catalogue, .never⟩ record memory = .ok (r, memory')) :
    record.Restores catalogue r ∧ Faithful catalogue memory' := by
  obtain ⟨source, first, fetched, restored⟩ := of_bind_eq_ok restored
  obtain ⟨atSource, faithful⟩ := of_fetch_eq_ok h fetched
  obtain ⟨target, second, fetched', restored⟩ := of_bind_eq_ok restored
  obtain ⟨atTarget, faithful'⟩ := of_fetch_eq_ok faithful fetched'
  obtain ⟨arc, third, made, restored⟩ := of_bind_eq_ok restored
  cases toArc : record.toArc with
  | error failure =>
      rw [toArc] at made
      cases made
  | ok arc =>
      rw [toArc] at made
      cases made
      cases bound : Relationship.bind arc source target record.toLink with
      | error flaw =>
          simp only [bound] at restored
          cases restored
      | ok r =>
          simp only [bound] at restored
          cases restored
          obtain ⟨rfl, rfl, rfl, link⟩ := Relationship.of_bind_eq_ok bound
          exact ⟨⟨atSource, atTarget, toArc, link.symm⟩, faithful'⟩

theorem restores_of_mapM_restore_eq_ok (h : Faithful catalogue memory)
    (done : records.mapM (restore ⟨catalogue, .never⟩) memory = .ok (relationships, memory')) :
    List.Forall₂ (Record.Restores catalogue) records relationships := by
  induction records generalizing memory relationships with
  | nil =>
      cases done
      exact .nil
  | cons record records ih =>
      rw [List.mapM_cons] at done
      obtain ⟨r, between, restored, done⟩ := of_bind_eq_ok done
      obtain ⟨rest, last, run, done⟩ := of_bind_eq_ok done
      cases done
      obtain ⟨restores, faithful⟩ := of_restore_eq_ok h restored
      exact .cons restores (ih faithful run)

/-- What a query reads, and when it reads at all. -/
theorem recorded_eq_ok_iff {ledger : Ledger} {mode : Mode} {query : Query} :
    (Analysis.mk ⟨catalogue, .never⟩ ledger mode).recorded query = .ok relationships ↔
      List.Forall₂ (Record.Restores catalogue) (ledger.select query) relationships := by
  refine ⟨fun read => ?_, recorded_of_restores mode⟩
  change ((ledger.select query).mapM (restore ⟨catalogue, .never⟩) ⟨1, ∅⟩ >>=
    fun done => pure done.1) = _ at read
  obtain ⟨done, run, same⟩ := exists_of_bind_eq_ok read
  cases same
  exact restores_of_mapM_restore_eq_ok (faithful_empty 1) run

end Analysis

namespace Ledger

variable {ledger : Ledger}

theorem select_withoutProhibited (ledger : Ledger) (query : Query) :
    ledger.select { query with withoutProhibited := true } =
      (ledger.select query).filter fun record => !record.prohibited := by
  rw [select_eq_filter, select_eq_filter, List.filter_filter]
  refine List.filter_congr fun record _ => ?_
  cases prohibited : record.prohibited with
  | true => simp [Query.selects, prohibited]
  | false => simp [Query.selects, prohibited]

theorem nodup_restored {catalogue : Catalogue} (lawful : catalogue.Lawful) {query : Query}
    {relationships : List Relationship}
    (restored : List.Forall₂ (Record.Restores catalogue) (ledger.select query) relationships) :
    (relationships.map Relationship.address).Nodup := by
  have same : (ledger.select query).map Record.address =
      relationships.map Relationship.address := by
    rw [← List.forall₂_eq_eq_eq, List.forall₂_map_left_iff, List.forall₂_map_right_iff]
    exact restored.imp fun _ _ restores => (restores.address_eq lawful).symm
  rw [← same]
  exact (ledger.ascending_select query).nodup

end Ledger

end XbrlNetworks
