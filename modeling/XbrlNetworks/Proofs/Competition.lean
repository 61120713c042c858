import XbrlNetworks.Proofs.Representation

/-! # What a bucket takes and keeps

Relationships are offered to a bucket one after the other.  The first one decides
what belongs in it, and whatever differs from it in key or ends is refused and
changes nothing.  The log of those that are taken says all that the bucket shows:
of each priority it keeps the latest, the greatest of these is active, and it can
tell how many there were and of which arcs, also of those that it keeps no more.
-/

namespace XbrlNetworks.Bucket

open Std

/-- A bucket together with the log of the relationships that it has taken. -/
structure History where
  bucket : Bucket
  log : Log

namespace History

/-- Offers one more relationship.  One that is refused leaves the bucket as it is and does not get
    into the log. -/
def offer (history : History) (r : Relationship) : History :=
  match history.bucket.add r with
  | .ok next => ⟨next, history.log ++ [r]⟩
  | .error _ => history

def ofOffers (offers : List Relationship) : History :=
  offers.foldl offer ⟨empty, []⟩

theorem ofOffers_append (offers : List Relationship) (r : Relationship) :
    ofOffers (offers ++ [r]) = (ofOffers offers).offer r := by
  simp [ofOffers]

end History

/-- What a bucket shows of a log: the latest relationship of each priority, the greatest priority
    first; which of these is active and whether it prohibits; and of all relationships in the log
    their number and their arcs. -/
structure Reflects (bucket : Bucket) (log : Log) : Prop where
  descending : bucket.relationships.Pairwise fun above below =>
    below.arc.priority < above.arc.priority
  latest : ∀ r, r ∈ bucket.relationships ↔
    (log.filter fun other => decide (other.arc.priority = r.arc.priority)).getLast? = some r
  active : bucket.active? = bucket.relationships.head? ∧ bucket.active? = log.winner?
  prohibits : bucket.isProhibited = true ↔
    ∃ r, bucket.relationships.head? = some r ∧ r.isProhibited = true
  counted : bucket.added = log.length
  known : ∀ arc, bucket.containsArc arc = true ↔ ∃ r ∈ log, r.arc.index = arc

variable {bucket : Bucket} {log offers : Log} {r : Relationship} {failure : Failure}

theorem add_eq_error_iff : bucket.add r = .error failure ↔
    ∃ identity, bucket.identity = some identity ∧ r.identity ≠ identity ∧
      failure = .incompatible r.key r.source.index r.target.index
        identity.key identity.source identity.target := by
  unfold add
  cases bucket.identity with
  | none => simp
  | some identity =>
      by_cases same : identity = r.identity
      · simp [same]
      · simp [same, eq_comm]

theorem add_eq_ok_of_identity (fits : ∀ identity, bucket.identity = some identity →
    r.identity = identity) : bucket.add r = .ok (bucket.join r) := by
  unfold add
  cases seeded : bucket.identity with
  | none => rfl
  | some identity => simp [fits identity seeded]

theorem identity_ofLog (log : Log) :
    (ofLog log).identity = log.getLast?.map Relationship.identity := by
  induction log using List.reverseRecOn with
  | nil => rfl
  | append_singleton log r _ => simp [ofLog_append, join]

theorem added_ofLog (log : Log) : (ofLog log).added = log.length := by
  induction log using List.reverseRecOn with
  | nil => rfl
  | append_singleton log r ih => simp [ofLog_append, join, ih]

theorem priority_of_candidates_ofLog {priority : Int32}
    (kept : (ofLog log).candidates[priority]? = some r) : r.arc.priority = priority := by
  rw [candidates_ofLog] at kept
  simpa using (List.mem_filter.mp (List.mem_of_getLast? kept)).2

theorem mem_relationships_ofLog : r ∈ (ofLog log).relationships ↔
    (log.filter fun other => decide (other.arc.priority = r.arc.priority)).getLast? = some r := by
  rw [mem_relationships, ← candidates_ofLog]
  constructor
  · rintro ⟨priority, kept⟩
    rwa [priority_of_candidates_ofLog kept]
  · exact fun kept => ⟨r.arc.priority, kept⟩

theorem descending_relationships_ofLog (log : Log) :
    (ofLog log).relationships.Pairwise fun above below =>
      below.arc.priority < above.arc.priority := by
  have own : ∀ entry ∈ (ofLog log).candidates.toList, entry.2.arc.priority = entry.1 := by
    intro entry member
    exact priority_of_candidates_ofLog (ExtTreeMap.mem_toList_iff_getElem?_eq_some.mp member)
  rw [relationships, List.pairwise_reverse, List.pairwise_map]
  refine List.Pairwise.imp_of_mem ?_ ExtTreeMap.ordered_keys_toList
  intro below above inBelow inAbove less
  rw [own below inBelow, own above inAbove]
  exact Std.compare_eq_lt.mp less

theorem reflects_ofLog (log : Log) : (ofLog log).Reflects log where
  descending := descending_relationships_ofLog log
  latest := fun _ => mem_relationships_ofLog
  active := ⟨rfl, active?_ofLog log⟩
  prohibits := Option.any_eq_true _ _
  counted := added_ofLog log
  known := fun arc => by rw [containsArc, ExtTreeSet.contains_iff_mem, mem_arcs_ofLog]

namespace History

/-- Whether a relationship has the identity of the first offer, if there has been one. -/
def fits (offers : Log) (r : Relationship) : Bool :=
  offers.head?.all fun first => decide (r.identity = first.identity)

theorem fits_iff : fits offers r = true ↔
    ∀ first, offers.head? = some first → r.identity = first.identity := by
  unfold fits
  cases offers.head? with
  | none => simp
  | some first => simp

theorem filter_fits_append (offers : Log) (r : Relationship) :
    (offers ++ [r]).filter (fits (offers ++ [r])) =
      offers.filter (fits offers) ++ if fits offers r then [r] else [] := by
  cases offers with
  | nil => simp [fits]
  | cons first rest =>
      have same : fits (first :: rest ++ [r]) = fits (first :: rest) := rfl
      rw [same, List.filter_append, List.filter_singleton, Bool.cond_eq_ite]

theorem identity_ofLog_fits (offers : Log) :
    (ofLog (offers.filter (fits offers))).identity = offers.head?.map Relationship.identity := by
  rw [identity_ofLog]
  cases offers with
  | nil => rfl
  | cons first rest =>
      have taken : first ∈ (first :: rest).filter (fits (first :: rest)) := by simp [fits]
      obtain ⟨last, found⟩ := Option.isSome_iff_exists.mp
        (List.getLast?_isSome.mpr (List.ne_nil_of_mem taken))
      have fit := fits_iff.mp (List.mem_filter.mp (List.mem_of_getLast? found)).2 first rfl
      rw [found, Option.map_some, fit, List.head?_cons, Option.map_some]

/-- The log holds what fits the first offer, and the bucket is that of the log. -/
theorem ofOffers_eq (offers : Log) :
    ofOffers offers = ⟨ofLog (offers.filter (fits offers)), offers.filter (fits offers)⟩ := by
  -- What has been taken so far decides about the next offer, so they are taken apart at the end.
  induction offers using List.reverseRecOn with
  | nil => rfl
  | append_singleton offers r ih =>
      have seeded := identity_ofLog_fits offers
      rw [ofOffers_append, ih, offer, filter_fits_append]
      cases fit : fits offers r with
      | true =>
          have taken : (ofLog (offers.filter (fits offers))).add r =
              .ok ((ofLog (offers.filter (fits offers))).join r) := by
            apply add_eq_ok_of_identity
            intro identity own
            rw [seeded, Option.map_eq_some_iff] at own
            obtain ⟨first, found, rfl⟩ := own
            exact fits_iff.mp fit first found
          simp only [taken, if_true, ofLog_append]
      | false =>
          have misfit : ¬ ∀ first, offers.head? = some first → r.identity = first.identity := by
            rw [← fits_iff, fit]
            exact Bool.false_ne_true
          push Not at misfit
          obtain ⟨first, found, differs⟩ := misfit
          have refused := add_eq_error_iff.mpr
            ⟨first.identity, by rw [seeded, found, Option.map_some], differs, rfl⟩
          simp only [refused, Bool.false_eq_true, if_false, List.append_nil]

theorem identity_ne_iff {first : Relationship} : r.identity ≠ first.identity ↔
    r.key ≠ first.key ∨ r.source.index ≠ first.source.index ∨
      r.target.index ≠ first.target.index := by
  simp only [Relationship.identity, ne_eq, Bucket.Identity.mk.injEq]
  tauto

/-- However many relationships are offered to a bucket, it shows what its log says, and its log
    holds what agrees with the first offer.  One more is refused just when it differs from the
    first in its key, its source or its target, and then nothing changes. -/
theorem reflects_log (offers : Log) :
    (ofOffers offers).bucket.Reflects (ofOffers offers).log ∧
    (ofOffers offers).log = offers.filter (fits offers) ∧
    (∀ (r : Relationship) (failure : Failure),
      (ofOffers offers).bucket.add r = .error failure ↔ ∃ first, offers.head? = some first ∧
        (r.key ≠ first.key ∨ r.source.index ≠ first.source.index ∨
          r.target.index ≠ first.target.index) ∧
        failure = .incompatible r.key r.source.index r.target.index
          first.key first.source.index first.target.index) ∧
    ∀ (r : Relationship) (failure : Failure), (ofOffers offers).bucket.add r = .error failure →
      ofOffers (offers ++ [r]) = ofOffers offers := by
  refine ⟨?_, ?_, fun r failure => ?_, fun r failure refused => ?_⟩
  · rw [ofOffers_eq]
    exact reflects_ofLog _
  · rw [ofOffers_eq]
  · rw [add_eq_error_iff, ofOffers_eq, identity_ofLog_fits]
    simp only [Option.map_eq_some_iff, ← identity_ne_iff]
    constructor
    · rintro ⟨_, ⟨first, found, rfl⟩, differs, message⟩
      exact ⟨first, found, differs, message⟩
    · rintro ⟨first, found, differs, message⟩
      exact ⟨_, ⟨first, found, rfl⟩, differs, message⟩
  · rw [ofOffers_append, offer, refused]

/-- Two arcs with one priority, the first of them again with a greater one, and between them a
    relationship to another target, which is refused again when it comes back. -/
theorem reflects_log_of_collision : ∃ (offers : Log) (stray : Relationship) (failure : Failure),
    (ofOffers offers).bucket.Reflects (ofOffers offers).log ∧ offers.length = 4 ∧
    (ofOffers offers).bucket.relationships.map (·.arc.index) = ["x", "y"] ∧
    (ofOffers offers).bucket.added = 3 ∧ (ofOffers offers).bucket.isProhibited = true ∧
    (ofOffers offers).bucket.add stray = .error failure ∧
      failure = .incompatible "A|order=1" "s" "u" "A|order=1" "s" "t" ∧
      ofOffers (offers ++ [stray]) = ofOffers offers := by
  let x := Relationship.sample "x" "s" "t" .optional
  let y := Relationship.sample "y" "s" "t" .optional
  let stray := Relationship.sample "z" "s" "u" .optional
  let ban := { Relationship.sample "x" "s" "t" .prohibited with
    arc := { Arc.plain "x" "A" "A|order=1" with use := .prohibited, priority := 1 }
    hasArcRole := by simp [Arc.plain] }
  obtain ⟨reflects, _, refuses, unchanged⟩ := reflects_log [x, y, stray, ban]
  have refused := (refuses stray _).mpr ⟨x, rfl, .inr (.inr (by decide)), rfl⟩
  exact ⟨[x, y, stray, ban], stray, _, reflects, rfl, by decide +kernel, by decide +kernel,
    by decide +kernel, refused, rfl, unchanged stray _ refused⟩

end History

end XbrlNetworks.Bucket
