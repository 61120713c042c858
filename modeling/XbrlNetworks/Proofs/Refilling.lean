import XbrlNetworks.Proofs.Fetched
import XbrlNetworks.Proofs.Representation
import XbrlNetworks.Proofs.Snapshots
import XbrlNetworks.Proofs.Storing
import XbrlNetworks.Proofs.Succeeding

/-! # Filling a restored network again

A network that has been filled knows every arc that it was offered, and filling
it again changes nothing.  A restored network knows only the arcs that have kept
their places, so an arc that had lost its place to a later one of the same
priority is taken for new and gets it back.
-/

namespace XbrlNetworks

/-- A log has the arc of an offer in the bucket that the offer is for. -/
def Log.Knows (log : Log) (offer : Offer) : Prop :=
  ∃ r ∈ log, r.identity = offer.identity ∧ r.arc.index = offer.arc.index

instance (log : Log) (offer : Offer) : Decidable (log.Knows offer) :=
  inferInstanceAs (Decidable (∃ r ∈ log, _))

/-- A network still keeps the arc of an offer, in the bucket that the offer is for. -/
def Network.Retains (network : Network) (offer : Offer) : Prop :=
  Log.Knows network.snapshot.relationships offer

instance (network : Network) (offer : Offer) : Decidable (network.Retains offer) :=
  inferInstanceAs (Decidable (Log.Knows _ offer))

namespace Network

variable {catalogue : Catalogue} {network last : Network} {log : Log} {offers : List Offer}
  {added : Nat}

theorem Takes.knows (lawful : catalogue.Lawful) (h : network.Takes catalogue offers last added)
    (follows : network.Follows log) :
    ∃ rest, last.Follows (log ++ rest) ∧ ∀ offer ∈ offers, (log ++ rest).Knows offer := by
  induction h generalizing log with
  | nil => exact ⟨[], by rwa [List.append_nil], by simp⟩
  | @cons network next last offer offers r isNew added arc link source target inserted _ ih =>
      have identity := Resolves.identity_eq lawful follows.coherent arc source target
      obtain ⟨rest, followsLast, known⟩ := ih (follows.insert_ok inserted).1
      rw [List.append_assoc] at followsLast known
      refine ⟨[r] ++ rest, followsLast, fun other member => ?_⟩
      rcases List.mem_cons.mp member with rfl | later
      · exact ⟨r, by simp, identity, congrArg Arc.index arc⟩
      · exact known other later

/-- Nothing is added just when every offer is known, and then nothing is changed. -/
theorem Takes.added_eq_zero_iff (lawful : catalogue.Lawful)
    (h : network.Takes catalogue offers last added) (follows : network.Follows log) :
    (added = 0 ↔ ∀ offer ∈ offers, log.Knows offer) ∧ (added = 0 → last = network) := by
  induction h with
  | nil => simp
  | @cons network next last offer offers r isNew added arc link source target inserted rest ih =>
      have known : log.repeats r = true ↔ log.Knows offer := by
        have identity := Resolves.identity_eq lawful follows.coherent arc source target
        simp [Log.repeats, Log.Knows, identity, arc]
      obtain ⟨_, _, answer⟩ := follows.insert_ok inserted
      cases isNew with
      | true =>
          have unknown : ¬ log.Knows offer := by
            rw [← known]
            simpa using answer.symm
          simp [unknown]
      | false =>
          have knows : log.Knows offer := by
            rw [← known]
            simpa using answer.symm
          obtain rfl := eq_of_insert_false inserted
          simpa [knows] using ih follows

theorem Follows.exists_fill_eq_zero_iff (h : network.Follows log) (lawful : catalogue.Lawful)
    (serves : catalogue.Serves network network.baseSet) (calls : Nat) :
    ∃ added, (network.fill ⟨catalogue, .never⟩ none calls).result = .ok added ∧
      (added = 0 ↔ ∀ offer ∈ catalogue.offers network.baseSet, log.Knows offer) ∧
      (added = 0 → (network.fill ⟨catalogue, .never⟩ none calls).network = network) := by
  obtain ⟨added, filled⟩ := h.exists_fill serves calls
  exact ⟨added, filled, (fill_eq_ok filled).1.added_eq_zero_iff lawful h⟩

variable {documents : Documents} {outage : Outage} {limit : TimeLimit} {later : Network}
  {calls : Nat}

/-- Filling a network again adds nothing, as it knows every offer, also those that have lost their
    places. -/
theorem fill_again (h : network.Reachable)
    (done : (network.fill ⟨documents.catalogue, outage⟩ limit calls).result = .ok added)
    (grown : (network.fill ⟨documents.catalogue, outage⟩ limit calls).network.Grows later) :
    (later.fill ⟨documents.catalogue, .never⟩ none 0).result = .ok 0 ∧
      (later.fill ⟨documents.catalogue, .never⟩ none 0).network = later := by
  obtain ⟨takes, serves⟩ := fill_eq_ok done
  obtain ⟨log, follows⟩ := h.follows
  obtain ⟨rest, followsFilled, known⟩ := takes.knows documents.lawful_catalogue follows
  obtain ⟨⟨rest', followsLater⟩, base⟩ := followsFilled.grows grown
  have same : later.baseSet = network.baseSet := base.trans takes.grows.baseSet_eq
  have servesLater := serves.mono grown.covered
  rw [← same] at servesLater
  obtain ⟨again, refilled, nothing, unchanged⟩ :=
    followsLater.exists_fill_eq_zero_iff documents.lawful_catalogue servesLater 0
  have zero : again = 0 := nothing.mpr fun offer member => by
    rw [same] at member
    obtain ⟨r, inLog, named⟩ := known offer member
    exact ⟨r, List.mem_append_left rest' inLog, named⟩
  exact ⟨refilled.trans (congrArg Except.ok zero), unchanged zero⟩

/-- Where filling has once succeeded, it succeeds again after a snapshot.  It then adds nothing,
    and leaves every answer as it was, just when every arc that is offered was still kept in its
    bucket. -/
theorem refill_eq_zero_iff (h : network.Reachable)
    (done : (network.fill ⟨documents.catalogue, outage⟩ limit calls).result = .ok added)
    (grown : (network.fill ⟨documents.catalogue, outage⟩ limit calls).network.Grows later) :
    ∃ restored again, ofJson later.toJson = .ok restored ∧
      (restored.fill ⟨documents.catalogue, .never⟩ none 0).result = .ok again ∧
      ((again = 0 ∧ ∀ index,
          (restored.fill ⟨documents.catalogue, .never⟩ none 0).network.outgoing index =
            later.outgoing index ∧
          (restored.fill ⟨documents.catalogue, .never⟩ none 0).network.incoming index =
            later.incoming index) ↔
        ∀ offer ∈ documents.catalogue.offers later.baseSet, later.Retains offer) := by
  obtain ⟨takes, serves⟩ := fill_eq_ok done
  obtain ⟨log, follows⟩ := h.follows
  obtain ⟨⟨rest, followsLater⟩, base⟩ := follows.grows (takes.grows.trans grown)
  obtain ⟨restored, read, same, followsRestored⟩ := followsLater.coherent.exists_ofJson
  have servesRestored := (serves.mono grown.covered).mono
    (followsLater.covered_of_snapshot same followsRestored)
  rw [← base, ← same] at servesRestored
  obtain ⟨again, refilled, nothing, unchanged⟩ :=
    followsRestored.exists_fill_eq_zero_iff documents.lawful_catalogue servesRestored 0
  rw [same] at nothing
  refine ⟨restored, again, read, refilled, ?_⟩
  constructor
  · exact fun ⟨zero, _⟩ => nothing.mp zero
  · intro retained
    have zero := nothing.mpr retained
    -- Nothing was changed, and the restored network answers as the one it was made of.
    have effective := followsLater.effectiveAt_eq_of_snapshot followsRestored
    rw [unchanged zero]
    refine ⟨zero, fun index => ⟨?_, ?_⟩⟩
    · exact followsRestored.coherent.outgoing_congr followsLater.coherent effective index
    · exact followsRestored.coherent.incoming_congr followsLater.coherent effective index

/-- Of two arcs of the same priority the earlier one is taken for new after a snapshot, and takes
    the place of the later one. -/
theorem refill_ne_zero_of_collision : ∃ documents : Documents, ∃ network restored : Network,
    network.Reachable ∧ (network.fill ⟨documents.catalogue, .never⟩ none 0).result = .ok 2 ∧
      ofJson (network.fill ⟨documents.catalogue, .never⟩ none 0).network.toJson = .ok restored ∧
      (restored.fill ⟨documents.catalogue, .never⟩ none 0).result = .ok 1 ∧
      ((network.fill ⟨documents.catalogue, .never⟩ none 0).network.outgoing "s").map
        (fun r => r.arc.index) = ["y"] ∧
      ((restored.fill ⟨documents.catalogue, .never⟩ none 0).network.outgoing "s").map
        (fun r => r.arc.index) = ["x"] := by
  let documents := Documents.empty.load
    (DocumentEntry.sample [.plain "x" "A" "k", .plain "y" "A" "k"])
  let network := openFor (.sample "x" "s" "t" .optional)
  have again : (ofJson (network.fill ⟨documents.catalogue, .never⟩ none 0).network.toJson).map
      (fun restored => ((restored.fill ⟨documents.catalogue, .never⟩ none 0).result,
        ((restored.fill ⟨documents.catalogue, .never⟩ none 0).network.outgoing "s").map
          fun r => r.arc.index)) = .ok (.ok 1, ["x"]) := by
    decide +kernel
  cases read : ofJson (network.fill ⟨documents.catalogue, .never⟩ none 0).network.toJson with
  | error fault =>
      rw [read] at again
      cases again
  | ok restored =>
      rw [read] at again
      obtain ⟨one, earlier⟩ := Prod.mk.inj (Except.ok.inj again)
      exact ⟨documents, network, restored, reachable_openFor _, by decide +kernel, read, one,
        by decide +kernel, earlier⟩

/-- Of two arcs of different priorities both keep their places, and nothing is new after a
    snapshot. -/
theorem refill_eq_zero_of_override : ∃ documents : Documents, ∃ network restored : Network,
    network.Reachable ∧ (network.fill ⟨documents.catalogue, .never⟩ none 0).result = .ok 2 ∧
      ofJson (network.fill ⟨documents.catalogue, .never⟩ none 0).network.toJson = .ok restored ∧
      (restored.fill ⟨documents.catalogue, .never⟩ none 0).result = .ok 0 := by
  let documents := Documents.empty.load
    (DocumentEntry.sample [.plain "x" "A" "k", { Arc.plain "y" "A" "k" with priority := 1 }])
  let network := openFor (.sample "x" "s" "t" .optional)
  have done : (network.fill ⟨documents.catalogue, .never⟩ none 0).result = .ok 2 := by
    decide +kernel
  obtain ⟨restored, again, read, refilled, zero_iff⟩ :=
    refill_eq_zero_iff (reachable_openFor _) done .refl
  have zero : again = 0 := (zero_iff.mpr (by decide +kernel)).1
  exact ⟨documents, network, restored, reachable_openFor _, done, read, zero ▸ refilled⟩

end Network

end XbrlNetworks
