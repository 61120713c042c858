import XbrlNetworks.Proofs.Reporting

/-! # The modes of analysis agree

One mode reports the records as they are read; the others build networks of them,
with or without those that prohibit.  As no two records have the same address,
every bucket of these networks has a single candidate, and what is effective is
what does not prohibit.
-/

namespace XbrlNetworks

open Std

variable {store : Store} {query : Query} {relationships : List Relationship}

theorem Collection.Follows.perm_filter {rebuilt : Collection} {log : Log}
    (h : rebuilt.Follows log) (apart : (log.map Relationship.address).Nodup) :
    (rebuilt.networks.flatMap Network.relationships).Perm
      (log.filter fun r => !r.isProhibited) := by
  have inject := List.inj_on_of_nodup_map apart
  refine (List.perm_ext_iff_of_nodup h.ascending_relationships.nodup
    (apart.of_map.filter _)).mpr fun r => ?_
  rw [h.mem_effective_iff fun r member r' member' => inject member member', List.mem_filter,
    Bool.not_eq_true']

/-- The three modes agree up to prohibition.  Where all records that a query wants can be read, the
    other modes succeed too and report the same list: the relationships that do not prohibit, by
    arc role, link role, source, order value, key and target. -/
theorem Store.modes_agree
    (read : (store.analysis .never .all).relationships query = .ok relationships) :
    ∃ effective, (store.analysis .never .nonProhibited).relationships query = .ok effective ∧
      (store.analysis .never .activeOnly).relationships query = .ok effective ∧
      effective.Perm (relationships.filter fun r => !r.isProhibited) ∧
      Ascending Relationship.reportingOrder effective := by
  have lawful := store.documents.lawful_catalogue
  have restored := Analysis.recorded_eq_ok_iff.mp read
  have apart := Ledger.nodup_restored lawful restored
  -- Without what prohibits, the rest of the records is read as before.
  have narrowed : List.Forall₂ (Record.Restores store.documents.catalogue)
      (store.ledger.select { query with withoutProhibited := true })
      (relationships.filter fun r => !r.isProhibited) := by
    rw [Ledger.select_withoutProhibited]
    refine List.rel_filter (fun record r restores => ?_) restored
    simp only [restores.isProhibited_eq]
  obtain ⟨without, builtWithout, followsWithout⟩ : ∃ rebuilt,
      (store.analysis .never .nonProhibited).networks query = .ok rebuilt ∧
        rebuilt.Follows (relationships.filter fun r => !r.isProhibited) :=
    Analysis.exists_networks (Analysis.recorded_of_restores _ narrowed)
  obtain ⟨whole, builtWhole, followsWhole⟩ : ∃ rebuilt,
      (store.analysis .never .activeOnly).networks query = .ok rebuilt ∧
        rebuilt.Follows relationships :=
    Analysis.exists_networks (Analysis.recorded_of_restores _ restored)
  have perm := followsWhole.perm_filter apart
  have perm' := followsWithout.perm_filter (apart.sublist (List.filter_sublist.map _))
  rw [List.filter_filter] at perm'
  simp only [Bool.and_self] at perm'
  have same : without.networks.flatMap Network.relationships =
      whole.networks.flatMap Network.relationships :=
    followsWithout.ascending_relationships.eq_of_mem_iff followsWhole.ascending_relationships
      fun r => perm'.mem_iff.trans perm.mem_iff.symm
  have reports := Analysis.relationships_of_networks Analysis.Mode.noConfusion builtWithout
  have reports' := Analysis.relationships_of_networks Analysis.Mode.noConfusion builtWhole
  rw [same] at reports
  exact ⟨_, reports, reports', perm, followsWhole.ascending_relationships⟩

/-- Two records are read, and the one that prohibits is reported in one mode only. -/
theorem Store.modes_agree_of_prohibited : ∃ store : Store, ∃ changes : List Ledger.Change,
    ∃ relationships effective, store.ledger = changes.foldl Ledger.apply ∅ ∧
      (store.analysis .never .all).relationships Query.all = .ok relationships ∧
      relationships.length = 2 ∧
      (store.analysis .never .activeOnly).relationships Query.all = .ok effective ∧
      effective.Perm (relationships.filter fun r => !r.isProhibited) := by
  let p := Relationship.sample "x" "s" "t" .optional
  let q := Relationship.sample "y" "s" "u" .prohibited
  let changes : List Ledger.Change :=
    [.put (.ofRelationship q true), .put (.ofRelationship p true)]
  let store : Store := ⟨Documents.empty.load [.fragment p.source, .fragment p.target,
    .fragment q.target], changes.foldl Ledger.apply ∅, .inMemory⟩
  have read : (store.analysis .never .all).relationships Query.all = .ok [p, q] := by
    decide +kernel
  have built : store.ledger = changes.foldl Ledger.apply ∅ := rfl
  obtain ⟨effective, _, reports, perm, _⟩ := Store.modes_agree read
  exact ⟨store, changes, _, effective, built, read, rfl, reports, perm⟩

end XbrlNetworks
