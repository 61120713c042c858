import XbrlNetworks.Proofs.Codec
import XbrlNetworks.Proofs.Offers
import XbrlNetworks.Proofs.Posting

/-! # What a snapshot restores

A snapshot holds of every bucket the relationship of each priority.  A network
that is restored has the same candidates in every bucket and answers alike; the
arcs that had lost their places are not known to it any more.
-/

namespace XbrlNetworks

open Std

theorem getLast?_eq_some_iff_mem {α : Type} {items : List α} {item : α}
    (unique : ∀ a ∈ items, ∀ b ∈ items, a = b) : items.getLast? = some item ↔ item ∈ items := by
  constructor
  · exact List.mem_of_getLast?
  · intro member
    have last := List.getLast?_eq_some_getLast (List.ne_nil_of_mem member)
    rw [last, unique _ (List.mem_of_getLast? last) item member]

namespace Log

theorem eq_of_mem_firstOfArcs {log : Log} {r r' : Relationship} (member : r ∈ firstOfArcs log)
    (member' : r' ∈ firstOfArcs log) (same : r.arc.index = r'.arc.index) : r = r' := by
  induction log with
  | nil => cases member
  | cons first rest ih =>
      have later : ∀ {r}, r ∈ (firstOfArcs rest).filter (·.arc.index != first.arc.index) →
          r ∈ firstOfArcs rest ∧ r.arc.index ≠ first.arc.index := by
        intro r inside
        simpa using List.mem_filter.mp inside
      rcases List.mem_cons.mp member with rfl | inRest
      · rcases List.mem_cons.mp member' with rfl | inRest'
        · rfl
        · exact absurd same.symm (later inRest').2
      · rcases List.mem_cons.mp member' with rfl | inRest'
        · exact absurd same (later inRest).2
        · exact ih (later inRest).1 (later inRest').1

end Log

namespace Bucket

variable {bucket other : Bucket}

theorem effective?_congr (h : bucket.candidates = other.candidates) :
    bucket.effective? = other.effective? := by
  rw [effective?, active?, relationships, h, effective?, active?, relationships]

end Bucket

namespace Network

variable {network other restored : Network} {log : Log} {r r' : Relationship} {bucket : Bucket}
  {identity : Bucket.Identity} {priority priority' : Int32}

theorem effectiveAt_congr (same : (network.bucketAt? identity).map Bucket.candidates =
    (other.bucketAt? identity).map Bucket.candidates) :
    network.effectiveAt identity = other.effectiveAt identity := by
  rw [effectiveAt, effectiveAt]
  cases there : other.bucketAt? identity with
  | none =>
      rw [there, Option.map_none, Option.map_eq_none_iff] at same
      rw [same]
  | some bucket =>
      rw [there, Option.map_some, Option.map_eq_some_iff] at same
      obtain ⟨bucket', found, same⟩ := same
      rw [found, Option.bind_some, Option.bind_some, Bucket.effective?_congr same]

theorem Coherent.mem_snapshot (h : network.Coherent) : r ∈ network.snapshot.relationships ↔
    ∃ bucket, network.bucketAt? r.identity = some bucket ∧
      bucket.candidates[r.arc.priority]? = some r := by
  simp only [snapshot, List.mem_flatMap, h.mem_buckets, Bucket.mem_relationships]
  constructor
  · rintro ⟨bucket, ⟨identity, there⟩, priority, kept⟩
    obtain ⟨_, rfl, rfl, _⟩ := (h.sound_of_bucketAt? there).own priority r kept
    exact ⟨bucket, there, kept⟩
  · rintro ⟨bucket, there, kept⟩
    exact ⟨bucket, ⟨r.identity, there⟩, r.arc.priority, kept⟩

theorem Coherent.baseSet_of_mem_snapshot (h : network.Coherent)
    (member : r ∈ network.snapshot.relationships) : r.baseSet = network.baseSet := by
  obtain ⟨bucket, there, kept⟩ := h.mem_snapshot.mp member
  exact ((h.sound_of_bucketAt? there).own _ r kept).1

theorem Follows.eq_of_candidates (h : network.Follows log)
    (there : network.bucketAt? identity = some bucket)
    (kept : bucket.candidates[priority]? = some r)
    (kept' : bucket.candidates[priority']? = some r') (same : r.arc.index = r'.arc.index) :
    r = r' := by
  rw [h.view] at there
  split at there
  · cases there
  · cases there
    rw [Bucket.candidates_ofLog] at kept kept'
    exact Log.eq_of_mem_firstOfArcs (List.mem_of_mem_filter (List.mem_of_getLast? kept))
      (List.mem_of_mem_filter (List.mem_of_getLast? kept')) same

/-- The competitors in a snapshot are the candidates of the bucket. -/
theorem Follows.mem_competitors_snapshot (h : network.Follows log) :
    r ∈ Log.competitors network.snapshot.relationships identity ↔
      ∃ bucket, network.bucketAt? identity = some bucket ∧
        bucket.candidates[r.arc.priority]? = some r := by
  constructor
  · intro competes
    obtain ⟨member, rfl⟩ := Log.mem_of_mem_competitors competes
    exact h.coherent.mem_snapshot.mp member
  · rintro ⟨bucket, there, kept⟩
    obtain ⟨_, rfl, _⟩ := (h.coherent.sound_of_bucketAt? there).own _ r kept
    have member := h.coherent.mem_snapshot.mpr ⟨bucket, there, kept⟩
    obtain ⟨other, competes, same⟩ := Log.exists_mem_competitors.mpr ⟨r, member, rfl, rfl⟩
    obtain ⟨inSnapshot, here⟩ := Log.mem_of_mem_competitors competes
    obtain ⟨bucket', there', kept'⟩ := h.coherent.mem_snapshot.mp inSnapshot
    rw [here, there] at there'
    cases there'
    exact h.eq_of_candidates there kept' kept same ▸ competes

theorem Follows.competitors_snapshot_eq_nil (h : network.Follows log)
    (absent : network.bucketAt? identity = none) :
    Log.competitors network.snapshot.relationships identity = [] := by
  rw [List.eq_nil_iff_forall_not_mem]
  intro r competes
  obtain ⟨bucket, there, _⟩ := h.mem_competitors_snapshot.mp competes
  rw [absent] at there
  cases there

theorem Follows.competitors_snapshot_ne_nil (h : network.Follows log)
    (there : network.bucketAt? identity = some bucket) :
    Log.competitors network.snapshot.relationships identity ≠ [] := by
  obtain ⟨r, active⟩ := h.exists_activeAt there
  rw [activeAt, there, Option.bind_some] at active
  obtain ⟨priority, kept⟩ := Bucket.mem_relationships.mp (List.mem_of_head? active)
  obtain ⟨_, _, rfl, _⟩ := (h.coherent.sound_of_bucketAt? there).own priority r kept
  exact List.ne_nil_of_mem (h.mem_competitors_snapshot.mpr ⟨bucket, there, kept⟩)

theorem Follows.candidates_ofLog_snapshot (h : network.Follows log)
    (there : network.bucketAt? identity = some bucket) :
    (Bucket.ofLog (Log.competitors network.snapshot.relationships identity)).candidates =
      bucket.candidates := by
  have sound := h.coherent.sound_of_bucketAt? there
  refine ExtTreeMap.ext_getElem? fun priority => Option.ext fun r => ?_
  have wins : ∀ r, r ∈ (Log.competitors network.snapshot.relationships identity).filter
      (fun r => decide (r.arc.priority = priority)) ↔ bucket.candidates[priority]? = some r := by
    intro r
    rw [List.mem_filter, h.mem_competitors_snapshot, decide_eq_true_eq]
    simp only [there, Option.some.injEq, exists_eq_left']
    constructor
    · rintro ⟨kept, rfl⟩
      exact kept
    · intro kept
      obtain ⟨_, _, rfl, _⟩ := sound.own priority r kept
      exact ⟨kept, rfl⟩
  have unique : ∀ r r', bucket.candidates[priority]? = some r →
      bucket.candidates[priority]? = some r' → r = r' := by
    intro r r' kept kept'
    rw [kept] at kept'
    exact Option.some.inj kept'
  rw [Bucket.candidates_ofLog, ← wins, getLast?_eq_some_iff_mem]
  exact fun r member r' member' => unique r r' ((wins r).mp member) ((wins r').mp member')

theorem Follows.candidates_eq (h : network.Follows log)
    (follows : restored.Follows network.snapshot.relationships) (identity : Bucket.Identity) :
    (restored.bucketAt? identity).map Bucket.candidates =
      (network.bucketAt? identity).map Bucket.candidates := by
  rw [follows.view]
  cases there : network.bucketAt? identity with
  | none => rw [if_pos (h.competitors_snapshot_eq_nil there)]
  | some bucket =>
      rw [if_neg (h.competitors_snapshot_ne_nil there), Option.map_some, Option.map_some,
        h.candidates_ofLog_snapshot there]

theorem Follows.effectiveAt_eq_of_snapshot (h : network.Follows log)
    (follows : restored.Follows network.snapshot.relationships) (identity : Bucket.Identity) :
    restored.effectiveAt identity = network.effectiveAt identity :=
  effectiveAt_congr (h.candidates_eq follows identity)

theorem Follows.insertAll {relationships : Log} (h : network.Follows log)
    (own : ∀ r ∈ relationships, r.baseSet = network.baseSet) :
    ∃ last, network.insertAll relationships = .ok last ∧ last.baseSet = network.baseSet ∧
      last.Follows (log ++ relationships) := by
  induction relationships generalizing network log with
  | nil => exact ⟨network, rfl, rfl, by rwa [List.append_nil]⟩
  | cons r rest ih =>
      obtain ⟨next, inserted, same, follows⟩ := h.insert (own r List.mem_cons_self)
      have ownRest : ∀ r ∈ rest, r.baseSet = next.baseSet := by
        intro r member
        rw [same, own r (List.mem_cons_of_mem _ member)]
      obtain ⟨last, run, same', followsAll⟩ := ih follows ownRest
      refine ⟨last, ?_, same'.trans same, by rwa [List.append_assoc] at followsAll⟩
      rw [Network.insertAll, List.foldlM_cons, inserted]
      exact run

theorem exists_new (network : Network) :
    ∃ empty, Network.new network.baseSet = .ok empty := by
  simp only [Network.new, network.hasLinkRole, network.hasArcRole, dite_false]
  exact ⟨_, rfl⟩

theorem Coherent.exists_ofJson (h : network.Coherent) :
    ∃ restored, ofJson network.toJson = .ok restored ∧ restored.baseSet = network.baseSet ∧
      restored.Follows network.snapshot.relationships := by
  obtain ⟨empty, opened⟩ := network.exists_new
  obtain ⟨follows, same⟩ := follows_new opened
  obtain ⟨restored, run, same', followsAll⟩ := follows.insertAll fun r member =>
    (h.baseSet_of_mem_snapshot member).trans same.symm
  refine ⟨restored, ?_, same'.trans same, by simpa using followsAll⟩
  rw [ofJson_toJson, Snapshot.restore, show network.snapshot.baseSet = network.baseSet from rfl,
    opened]
  simp only [run]
  rfl

theorem Follows.covered_of_snapshot (h : network.Follows log)
    (same : restored.baseSet = network.baseSet)
    (follows : restored.Follows network.snapshot.relationships) : network.CoveredBy restored := by
  refine ⟨same, fun index member => ?_⟩
  obtain ⟨slot, identity, holds, atEnd⟩ := (h.coherent.cached index).mp member
  have there := h.candidates_eq follows identity
  rw [h.coherent.bucketAt?_eq holds, Option.map_some, Option.map_eq_some_iff] at there
  obtain ⟨bucket, found, _⟩ := there
  obtain ⟨slot', holds', _⟩ := follows.coherent.exists_holds_of_bucketAt? found
  exact (follows.coherent.cached index).mpr ⟨slot', identity, holds', atEnd⟩

end Network

end XbrlNetworks
