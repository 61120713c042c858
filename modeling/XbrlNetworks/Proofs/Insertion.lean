import Mathlib.Data.Finset.Dedup
import Mathlib.Data.Finset.Card
import XbrlNetworks.Proofs.Coherence

/-! # What an insertion does

A network that has been given the relationships of a log keeps, for every
identity, the bucket of the competitors in that log.  One insertion carries
this over to the longer log, so it holds after any number of them.
-/

namespace XbrlNetworks

open Std

namespace Network

variable {network : Network} {r : Relationship} {slot : Nat} {identity : Bucket.Identity}
  {bucket : Bucket}

def bucketAt? (network : Network) (identity : Bucket.Identity) : Option Bucket :=
  (network.byTarget.slot? identity.target ⟨identity.key, identity.source⟩).map network.bucket

theorem Coherent.slot?_eq (h : network.Coherent) (holds : network.Holds slot identity) :
    network.byTarget.slot? identity.target ⟨identity.key, identity.source⟩ = some slot :=
  (h.byTarget.finds _ _ slot).mpr holds

theorem Coherent.slot?_eq_none (h : network.Coherent)
    (absent : ∀ slot, ¬ network.Holds slot identity) :
    network.byTarget.slot? identity.target ⟨identity.key, identity.source⟩ = none := by
  rw [Option.eq_none_iff_forall_ne_some]
  intro slot found
  exact absent slot ((h.byTarget.finds _ _ slot).mp found)

theorem Coherent.bucketAt?_eq (h : network.Coherent) (holds : network.Holds slot identity) :
    network.bucketAt? identity = some (network.bucket slot) := by
  rw [bucketAt?, h.slot?_eq holds, Option.map_some]

theorem Coherent.bucketAt?_eq_none_iff (h : network.Coherent) :
    network.bucketAt? identity = none ↔ ∀ slot, ¬ network.Holds slot identity := by
  constructor
  · intro none slot holds
    simp [h.bucketAt?_eq holds] at none
  · intro absent
    rw [bucketAt?, h.slot?_eq_none absent, Option.map_none]

theorem Coherent.exists_holds_of_bucketAt? (h : network.Coherent)
    (there : network.bucketAt? identity = some bucket) :
    ∃ slot, network.Holds slot identity ∧ network.bucket slot = bucket := by
  obtain ⟨slot, found, same⟩ := Option.map_eq_some_iff.mp there
  exact ⟨slot, (h.byTarget.finds _ _ slot).mp found, same⟩

theorem Coherent.sound_of_bucketAt? (h : network.Coherent)
    (there : network.bucketAt? identity = some bucket) :
    bucket.Sound network.baseSet identity := by
  obtain ⟨slot, holds, rfl⟩ := h.exists_holds_of_bucketAt? there
  exact h.bucket_sound holds

theorem Coherent.mem_buckets (h : network.Coherent) :
    bucket ∈ network.buckets.toList ↔ ∃ identity, network.bucketAt? identity = some bucket := by
  rw [Array.mem_toList_iff, Array.mem_iff_getElem?]
  constructor
  · rintro ⟨slot, found⟩
    obtain ⟨identity, sound⟩ := h.sound slot bucket found
    exact ⟨identity, by rw [h.bucketAt?_eq ⟨bucket, found, sound.seeded⟩, bucket_eq found]⟩
  · rintro ⟨identity, there⟩
    obtain ⟨slot, ⟨bucket, found, _⟩, rfl⟩ := h.exists_holds_of_bucketAt? there
    exact ⟨slot, by rw [bucket_eq found, found]⟩

theorem insert_of_absent (h : network.Coherent) (own : r.baseSet = network.baseSet)
    (absent : ∀ slot, ¬ network.Holds slot r.identity) :
    network.insert r = .ok (network.opened r, true) := by
  have none := h.slot?_eq_none absent
  simp only [Relationship.identity] at none
  simp only [insert, own, ne_eq, not_true_eq_false, if_false, none]
  rfl

theorem insert_of_repeated (h : network.Coherent) (own : r.baseSet = network.baseSet)
    (holds : network.Holds slot r.identity)
    (repeated : (network.bucket slot).containsArc r.arc.index = true) :
    network.insert r = .ok (network, false) := by
  have found := h.slot?_eq holds
  simp only [Relationship.identity] at found
  simp [insert, own, found, repeated]

theorem insert_of_fresh (h : network.Coherent) (own : r.baseSet = network.baseSet)
    (holds : network.Holds slot r.identity)
    (fresh : (network.bucket slot).containsArc r.arc.index = false) :
    network.insert r = .ok (network.joined slot r, true) := by
  have found := h.slot?_eq holds
  have seeded := (h.bucket_sound holds).seeded
  simp only [Relationship.identity] at found
  simp [insert, own, found, fresh, joinSlot, Bucket.add, seeded, Except.map, joined]

theorem bucketAt?_opened (h : network.Coherent) :
    (network.opened r).bucketAt? identity =
      if r.identity = identity then some (Bucket.empty.join r)
      else network.bucketAt? identity := by
  have before : ∀ slot < network.buckets.size, (network.opened r).bucket slot =
      network.bucket slot := by
    intro slot inside
    simp [bucket, opened, Array.getD_eq_getD_getElem?, Array.getElem?_push, Nat.ne_of_lt inside]
  have last : (network.opened r).bucket network.buckets.size = Bucket.empty.join r := by
    simp [bucket, opened, Array.getD_eq_getD_getElem?]
  rw [bucketAt?]
  change ((network.byTarget.record _ _ _).slot? _ _).map _ = _
  rw [Perspective.slot?_record]
  by_cases here : r.identity = identity
  · subst here
    rw [if_pos ⟨rfl, rfl⟩, if_pos rfl, Option.map_some, last]
  · have elsewhere : ¬ (r.target.index = identity.target ∧
        (⟨r.key, r.source.index⟩ : Edge) = ⟨identity.key, identity.source⟩) := by
      rintro ⟨target, edge⟩
      cases identity
      simp only [Edge.mk.injEq] at edge
      simp only [Relationship.identity, Bucket.Identity.mk.injEq] at here
      exact here ⟨edge.1, edge.2, target⟩
    rw [if_neg elsewhere, if_neg here, bucketAt?]
    apply Option.map_congr
    intro slot found
    exact before slot ((h.byTarget.finds _ _ slot).mp found).lt_size

theorem bucketAt?_joined (h : network.Coherent) (holds : network.Holds slot r.identity) :
    (network.joined slot r).bucketAt? identity =
      if r.identity = identity then some ((network.bucket slot).join r)
      else network.bucketAt? identity := by
  rw [bucketAt?]
  change (network.byTarget.slot? _ _).map _ = _
  by_cases here : r.identity = identity
  · subst here
    rw [h.slot?_eq holds, if_pos rfl, Option.map_some]
    simp [bucket, joined, Array.getD_eq_getD_getElem?, holds.lt_size]
  · rw [if_neg here, bucketAt?]
    apply Option.map_congr
    intro slot' found
    have elsewhere : slot ≠ slot' := by
      rintro rfl
      exact here (Holds.identity_eq holds ((h.byTarget.finds _ _ slot).mp found))
    simp [bucket, joined, Array.getD_eq_getD_getElem?, elsewhere]

/-- A network keeps what the log of its relationships says. -/
structure Follows (network : Network) (log : Log) : Prop where
  coherent : network.Coherent
  own : ∀ r ∈ log, r.baseSet = network.baseSet
  view : ∀ identity, network.bucketAt? identity =
    if log.competitors identity = [] then none else some (.ofLog (log.competitors identity))
  size : network.size = (log.map Relationship.identity).dedup.length

theorem Follows.bucketAt?_eq_none_iff {log : Log} (h : network.Follows log) :
    network.bucketAt? identity = none ↔ ∀ r ∈ log, r.identity ≠ identity := by
  rw [h.view, ← Log.competitors_eq_nil_iff]
  split <;> simp_all

theorem Follows.containsArc_iff {log : Log} (h : network.Follows log)
    (holds : network.Holds slot r.identity) :
    (network.bucket slot).containsArc r.arc.index = true ↔ log.repeats r = true := by
  have found := h.coherent.bucketAt?_eq holds
  rw [h.view] at found
  split at found
  · simp at found
  · rw [← Option.some.inj found, Log.repeats_iff, Bucket.containsArc, ExtTreeSet.contains_iff_mem,
      Bucket.mem_arcs_ofLog]

theorem follows_nil (h : network.buckets = #[] ∧ network.fragments = ∅ ∧ network.bySource = ∅ ∧
    network.byTarget = ∅) : network.Follows [] := by
  obtain ⟨buckets, fragments, bySource, byTarget⟩ := h
  have nothing : ∀ slot identity, ¬ network.Holds slot identity := by
    rintro slot identity ⟨bucket, found, _⟩
    simp [buckets] at found
  constructor
  · constructor
    · constructor
      · intro source edge slot
        simp [bySource, nothing]
      · simp [bySource]
    · constructor
      · intro target edge slot
        simp [byTarget, nothing]
      · simp [byTarget]
    · simp [buckets]
    · simp [fragments]
    · simp [fragments, nothing]
  · simp
  · intro identity
    simp [bucketAt?, byTarget, Log.competitors, Log.firstOfArcs]
  · simp [Network.size, buckets]

theorem Follows.opened {log : Log} (h : network.Follows log) (own : r.baseSet = network.baseSet)
    (unknown : ∀ other ∈ log, other.identity ≠ r.identity) :
    (network.opened r).Follows (log ++ [r]) := by
  have absent := h.coherent.bucketAt?_eq_none_iff.mp (h.bucketAt?_eq_none_iff.mpr unknown)
  refine ⟨h.coherent.opened own absent, ?_, ?_, ?_⟩
  · simpa [or_imp, forall_and, Network.opened, own] using h.own
  · intro identity
    rw [bucketAt?_opened h.coherent]
    split
    · rename_i here
      subst here
      rw [Log.competitors_append_self, Log.competitors_eq_nil_iff.mpr unknown,
        Log.repeats_eq_false_of_unknown unknown]
      simp [Bucket.ofLog]
    · rename_i elsewhere
      rw [h.view, Log.competitors_append_other elsewhere]
  · have notYet : r.identity ∉ log.map Relationship.identity := by
      simpa using unknown
    -- One slot more on the left, one identity more on the right.
    have before := h.size
    simp only [Network.size, Network.opened, Array.size_push] at before ⊢
    rw [List.map_append, ← List.card_toFinset, List.toFinset_append, Finset.union_comm]
    simp [notYet, before, ← List.card_toFinset]

theorem Follows.size_append {log : Log} (h : network.Follows log)
    (holds : network.Holds slot r.identity) :
    network.size = ((log ++ [r]).map Relationship.identity).dedup.length := by
  have known : r.identity ∈ log.map Relationship.identity := by
    by_contra unknown
    refine h.coherent.bucketAt?_eq_none_iff.mp (h.bucketAt?_eq_none_iff.mpr ?_) slot holds
    simpa using unknown
  rw [h.size, List.map_append, ← List.card_toFinset, ← List.card_toFinset]
  simp [known]

theorem Follows.repeated {log : Log} (h : network.Follows log) (own : r.baseSet = network.baseSet)
    (holds : network.Holds slot r.identity) (repeated : log.repeats r = true) :
    network.Follows (log ++ [r]) := by
  refine ⟨h.coherent, ?_, ?_, h.size_append holds⟩
  · simpa [or_imp, forall_and, own] using h.own
  · intro identity
    rw [h.view]
    by_cases here : r.identity = identity
    · subst here
      simp [Log.competitors_append_self, repeated]
    · rw [Log.competitors_append_other here]

theorem Follows.joined {log : Log} (h : network.Follows log) (own : r.baseSet = network.baseSet)
    (holds : network.Holds slot r.identity) (new : log.repeats r = false) :
    (network.joined slot r).Follows (log ++ [r]) := by
  have fresh : (network.bucket slot).containsArc r.arc.index = false := by
    rw [← Bool.not_eq_true, h.containsArc_iff holds, new]
    exact Bool.false_ne_true
  refine ⟨h.coherent.joined own holds fresh, ?_, ?_, ?_⟩
  · simpa [or_imp, forall_and, Network.joined, own] using h.own
  · intro identity
    rw [bucketAt?_joined h.coherent holds]
    split
    · rename_i here
      subst here
      have before := h.view r.identity
      rw [h.coherent.bucketAt?_eq holds] at before
      split at before
      · simp at before
      · rw [Log.competitors_append_self, new, Option.some.inj before]
        simp [Bucket.ofLog_append]
    · rename_i elsewhere
      rw [h.view, Log.competitors_append_other elsewhere]
  · rw [← h.size_append holds]
    simp [Network.size, Network.joined]

/-- One insertion makes the log one longer, and tells whether the log has the arc already. -/
theorem Follows.insert {log : Log} (h : network.Follows log) (own : r.baseSet = network.baseSet) :
    ∃ next, network.insert r = .ok (next, !log.repeats r) ∧ next.baseSet = network.baseSet ∧
      next.Follows (log ++ [r]) := by
  by_cases absent : ∀ slot, ¬ network.Holds slot r.identity
  · have unknown := h.bucketAt?_eq_none_iff.mp (h.coherent.bucketAt?_eq_none_iff.mpr absent)
    refine ⟨network.opened r, ?_, rfl, h.opened own unknown⟩
    rw [insert_of_absent h.coherent own absent, Log.repeats_eq_false_of_unknown unknown]
    rfl
  · obtain ⟨slot, holds⟩ := not_forall_not.mp absent
    cases repeated : log.repeats r with
    | true =>
        have contained := (h.containsArc_iff holds).mpr repeated
        exact ⟨network, insert_of_repeated h.coherent own holds contained, rfl,
          h.repeated own holds repeated⟩
    | false =>
        have fresh : (network.bucket slot).containsArc r.arc.index = false := by
          rw [← Bool.not_eq_true, h.containsArc_iff holds, repeated]
          exact Bool.false_ne_true
        exact ⟨network.joined slot r, insert_of_fresh h.coherent own holds fresh, rfl,
          h.joined own holds repeated⟩

end Network

end XbrlNetworks
