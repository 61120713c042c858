import Mathlib.Data.List.Induction
import Mathlib.Order.Basic
import XbrlNetworks.Proofs.Ascending
import XbrlNetworks.Proofs.Log

/-! # Buckets and their logs

A bucket is what its log leaves behind: of every priority the latest
relationship, and every arc.  Its active relationship is the winner of the log.
-/

namespace XbrlNetworks

open Std

namespace Bucket

def ofLog (log : Log) : Bucket := log.foldl join empty

theorem ofLog_append (log : Log) (r : Relationship) :
    ofLog (log ++ [r]) = (ofLog log).join r := by
  simp [ofLog]

theorem candidates_ofLog (log : Log) (priority : Int32) :
    (ofLog log).candidates[priority]? =
      (log.filter fun r => decide (r.arc.priority = priority)).getLast? := by
  -- The latest relationship decides, so the log is taken apart at its end.
  induction log using List.reverseRecOn with
  | nil => simp [ofLog, empty]
  | append_singleton log r ih =>
      simp only [ofLog_append, join, ExtTreeMap.getElem?_insert, LawfulEqOrd.compare_eq_iff_eq,
        List.filter_append, ih]
      by_cases same : r.arc.priority = priority
      · simp [same]
      · simp [same]

theorem mem_arcs_ofLog {log : Log} {arc : Index} :
    arc ∈ (ofLog log).arcs ↔ ∃ r ∈ log, r.arc.index = arc := by
  induction log using List.reverseRecOn with
  | nil => simp [ofLog, empty]
  | append_singleton log r ih =>
      simp only [ofLog_append, join, ExtTreeSet.mem_insert, LawfulEqOrd.compare_eq_iff_eq, ih,
        List.mem_append, List.mem_singleton]
      constructor
      · rintro (same | ⟨earlier, member, same⟩)
        · exact ⟨r, .inr rfl, same⟩
        · exact ⟨earlier, .inl member, same⟩
      · rintro ⟨other, member | rfl, same⟩
        · exact .inr ⟨other, member, same⟩
        · exact .inl same

theorem mem_candidates_ofLog {log : Log} {priority : Int32} :
    priority ∈ (ofLog log).candidates ↔ ∃ r ∈ log, r.arc.priority = priority := by
  rw [ExtTreeMap.mem_iff_isSome_getElem?, candidates_ofLog, List.getLast?_isSome]
  simp

theorem mem_relationships {bucket : Bucket} {r : Relationship} :
    r ∈ bucket.relationships ↔ ∃ priority : Int32, bucket.candidates[priority]? = some r := by
  rw [relationships, List.mem_reverse, mem_map_snd_toList]

theorem relationships_ne_nil {bucket : Bucket} (occupied : bucket.isEmpty = false) :
    bucket.relationships ≠ [] := by
  intro nothing
  rw [relationships, List.reverse_eq_nil_iff, List.map_eq_nil_iff, ← List.isEmpty_iff,
    ExtTreeMap.isEmpty_toList, ← isEmpty, occupied] at nothing
  cases nothing

theorem active?_eq_maxKey (bucket : Bucket) :
    bucket.active? =
      bucket.candidates.maxKey?.bind fun priority => bucket.candidates[priority]? := by
  rw [ExtTreeMap.maxKey?_eq_getLast?_keys, ← ExtTreeMap.map_fst_toList_eq_keys]
  simp only [active?, relationships, List.head?_reverse, List.getLast?_map]
  cases last : bucket.candidates.toList.getLast? with
  | none => rfl
  | some entry =>
      obtain ⟨priority, r⟩ := entry
      have found : bucket.candidates[priority]? = some r :=
        ExtTreeMap.mem_toList_iff_getElem?_eq_some.mp (List.mem_of_getLast? last)
      simp [found]

/-- The active relationship of a bucket is the winner of its log. -/
theorem active?_ofLog (log : Log) : (ofLog log).active? = log.winner? := by
  rw [active?_eq_maxKey]
  cases greatest : (ofLog log).candidates.maxKey? with
  | none =>
      have nothing : log = [] := by
        cases log with
        | nil => rfl
        | cons r rest =>
            have member : r.arc.priority ∈ (ofLog (r :: rest)).candidates :=
              mem_candidates_ofLog.mpr ⟨r, List.mem_cons_self, rfl⟩
            rw [ExtTreeMap.maxKey?_eq_none_iff.mp greatest] at member
            simp at member
      simp [nothing, Log.winner?]
  | some priority =>
      obtain ⟨present, least⟩ := ExtTreeMap.maxKey?_eq_some_iff_mem_and_forall.mp greatest
      obtain ⟨best, bestMember, bestPriority⟩ := mem_candidates_ofLog.mp present
      have above : ∀ r ∈ log, r.arc.priority ≤ priority := by
        intro r member
        have := least r.arc.priority (mem_candidates_ofLog.mpr ⟨r, member, rfl⟩)
        rwa [Std.isLE_compare] at this
      rw [Option.bind_some, candidates_ofLog, Log.winner?]
      congr 1
      apply List.filter_congr
      intro r member
      rw [Bool.eq_iff_iff, decide_eq_true_eq, List.all_eq_true]
      constructor
      · rintro rfl other otherMember
        simpa using above other otherMember
      · intro greater
        apply le_antisymm (above r member)
        simpa [bestPriority] using greater best bestMember

end Bucket

end XbrlNetworks
