import XbrlNetworks.Proofs.Listing
import XbrlNetworks.Proofs.Reproduction
import XbrlNetworks.Proofs.Resuming

/-! # What filling in a collection retains

A network is taken out of its collection while it is filled, and it comes back
whatever the filling ends with.  So no failure loses anything: the networks before
the one that failed are filled completely, that one has kept what it had, and no other
network has been touched.
-/

namespace XbrlNetworks

open Std

theorem Bucket.containsArc_join {bucket : Bucket} (r : Relationship) {arc : Index}
    (has : bucket.containsArc arc = true) : (bucket.join r).containsArc arc = true := by
  simp only [containsArc, join, ExtTreeSet.contains_iff_mem, ExtTreeSet.mem_insert] at has ⊢
  exact .inr has

namespace Network

variable {network next last : Network} {log : Log} {r : Relationship} {isNew : Bool}
  {catalogue : Catalogue}

/-- Every bucket of a network is still in its slot of a later one, with all arcs that it had. -/
structure KeptIn (network next : Network) : Prop where
  identities : network.identities <+: next.identities
  arcs : ∀ (slot : Nat) (bucket : Bucket), network.buckets[slot]? = some bucket →
    ∃ bucket', next.buckets[slot]? = some bucket' ∧
      ∀ arc, bucket.containsArc arc = true → bucket'.containsArc arc = true

theorem KeptIn.refl (network : Network) : network.KeptIn network :=
  ⟨List.prefix_rfl, fun _ bucket found => ⟨bucket, found, fun _ has => has⟩⟩

theorem KeptIn.trans (h : network.KeptIn next) (h' : next.KeptIn last) : network.KeptIn last := by
  refine ⟨h.identities.trans h'.identities, fun slot bucket found => ?_⟩
  obtain ⟨bucket', found', has'⟩ := h.arcs slot bucket found
  obtain ⟨bucket'', found'', has''⟩ := h'.arcs slot bucket' found'
  exact ⟨bucket'', found'', fun arc has => has'' arc (has' arc has)⟩

theorem KeptIn.isEmpty_eq_false (h : network.KeptIn next) (occupied : network.isEmpty = false) :
    next.isEmpty = false := by
  rw [isEmpty_eq_false_iff] at occupied ⊢
  obtain ⟨_, found, _⟩ := h.arcs 0 _ (Array.getElem?_eq_getElem occupied)
  exact (Array.getElem?_eq_some_iff.mp found).1

theorem Coherent.keptIn_insert (h : network.Coherent)
    (inserted : network.insert r = .ok (next, isNew)) : network.KeptIn next := by
  refine ⟨?_, fun slot bucket found => ?_⟩
  · rw [h.identities_insert inserted]
    split
    · exact List.prefix_rfl
    · exact List.prefix_append _ _
  · have inside : slot < network.buckets.size := (Array.getElem?_eq_some_iff.mp found).1
    rcases insert_cases inserted with ⟨_, rfl⟩ | ⟨_, joined, rfl⟩ | ⟨_, rfl⟩
    · refine ⟨bucket, ?_, fun _ has => has⟩
      rw [Network.opened, Array.getElem?_push, if_neg (Nat.ne_of_lt inside), found]
    · by_cases here : joined = slot
      · subst here
        refine ⟨bucket.join r, ?_, fun _ has => Bucket.containsArc_join r has⟩
        simp [Network.joined, inside, bucket_eq found]
      · refine ⟨bucket, ?_, fun _ has => has⟩
        simp [Network.joined, here, found]
    · exact ⟨bucket, found, fun _ has => has⟩

theorem Follows.keptIn_of_grows (h : network.Follows log) (grown : network.Grows next) :
    network.KeptIn next := by
  induction grown with
  | refl => exact .refl _
  | insert grown inserted ih =>
      obtain ⟨⟨_, follows⟩, _⟩ := h.grows grown
      exact ih.trans (follows.coherent.keptIn_insert inserted)

theorem Follows.fill_complete (h : network.Follows log) (lawful : catalogue.Lawful)
    {outage : Outage} {limit : TimeLimit} {calls added : Nat}
    (done : (network.fill ⟨catalogue, outage⟩ limit calls).result = .ok added) :
    ∃ all, (network.fill ⟨catalogue, .never⟩ none 0).result = .ok all ∧
      (network.fill ⟨catalogue, outage⟩ limit calls).network =
        (network.fill ⟨catalogue, .never⟩ none 0).network := by
  obtain ⟨_, progress, _, underway, atEnd, _⟩ := h.fill_underway lawful outage limit calls
  obtain ⟨_, serves⟩ := fill_eq_ok done
  rw [atEnd, h.serves_iff_of_underway underway] at serves
  obtain ⟨all, whole⟩ := h.exists_fill serves 0
  obtain ⟨relationships, bound, inserted⟩ := h.fill_inserts lawful done
  obtain ⟨relationships', bound', inserted'⟩ := h.fill_inserts lawful whole
  obtain rfl : relationships = relationships' :=
    List.right_unique_forall₂' binds_rightUnique bound bound'
  exact ⟨all, whole, Except.ok.inj (inserted.symm.trans inserted')⟩

/-- A failure names the network, and one before anything was added leaves it as it was. -/
theorem Follows.of_fill_eq_error (h : network.Follows log) (lawful : catalogue.Lawful)
    {outage : Outage} {limit : TimeLimit} {calls : Nat} {failure : Failure}
    (failed : (network.fill ⟨catalogue, outage⟩ limit calls).result = .error failure) :
    ∃ inPart cause, failure = .completion network.baseSet inPart cause ∧
      (inPart = false → (network.fill ⟨catalogue, outage⟩ limit calls).network = network) := by
  obtain ⟨_, progress, _, underway, atEnd, ⟨done, _⟩ | ⟨cause, stopped⟩⟩ :=
    h.fill_underway lawful outage limit calls
  · rw [done] at failed
    cases failed
  · obtain rfl := Except.error.inj (stopped.symm.trans failed)
    refine ⟨_, cause, rfl, fun nothing => ?_⟩
    have counted := underway.counted
    have less := (h.total_lt_iff underway.grows).not
    rw [decide_eq_false_iff_not] at nothing
    rw [atEnd]
    exact not_not.mp (less.mp (by omega))

end Network

namespace Collection

variable {catalogue : Catalogue} {collection next : Collection} {baseSet : BaseSet}
  {later : List BaseSet} {filled filled' : Filled} {failure : Failure}

/-- The network of a base set has been filled completely, and has been dropped if it has no
    relationships. -/
def Completed (catalogue : Catalogue) (collection next : Collection) (baseSet : BaseSet) : Prop :=
  ∃ network all, collection.networkOrNew baseSet = .ok network ∧
    (network.fill ⟨catalogue, .never⟩ none 0).result = .ok all ∧
    next.network? baseSet =
      (some (network.fill ⟨catalogue, .never⟩ none 0).network).filter fun network =>
        !network.isEmpty

/-- How filling the network of a base set fails: there can be no such network, or its filling has
    stopped.  If nothing had been added by then, it is the network that it was, and has been
    dropped if it has no relationships. -/
inductive StoppedAt (collection next : Collection) (baseSet : BaseSet) : Failure → Prop where
  | flaw (flaw : Flaw) : next.network? baseSet = collection.network? baseSet →
    StoppedAt collection next baseSet (.validation flaw)
  | completion (inPart : Bool) (cause : Failure) :
    (inPart = false → next.network? baseSet =
      (collection.network? baseSet).filter fun network => !network.isEmpty) →
    StoppedAt collection next baseSet (.completion baseSet inPart cause)

/-- What filling the networks of some base sets one after the other has led to: no other network
    has been touched and none has lost anything; and the networks are filled completely, or only
    those before one where a failure has stopped the work. -/
structure Course (catalogue : Catalogue) (collection : Collection) (baseSets : List BaseSet)
    (filled : Filled) : Prop where
  elsewhere : ∀ baseSet, baseSet ∉ baseSets →
    filled.collection.network? baseSet = collection.network? baseSet
  kept : ∀ baseSet network, collection.network? baseSet = some network →
    network.isEmpty = false →
      ∃ next, filled.collection.network? baseSet = some next ∧ network.KeptIn next
  completed : ∀ added, filled.result = .ok added →
    ∀ baseSet ∈ baseSets, Completed catalogue collection filled.collection baseSet
  stopped : ∀ failure, filled.result = .error failure → ∃ done stopped later,
    baseSets = done ++ stopped :: later ∧
      (∀ baseSet ∈ done, Completed catalogue collection filled.collection baseSet) ∧
      StoppedAt collection filled.collection stopped failure ∧
      ∀ baseSet ∈ later, filled.collection.network? baseSet = collection.network? baseSet

theorem networkOrNew_congr (same : collection.network? baseSet = next.network? baseSet) :
    collection.networkOrNew baseSet = next.networkOrNew baseSet := by
  rw [networkOrNew, same, networkOrNew]

theorem Completed.of_eq {before last : Collection}
    (h : Completed catalogue collection next baseSet)
    (start : before.network? baseSet = collection.network? baseSet)
    (atEnd : last.network? baseSet = next.network? baseSet) :
    Completed catalogue before last baseSet := by
  rwa [Completed, networkOrNew_congr start, atEnd]

theorem StoppedAt.of_eq {before last : Collection}
    (h : StoppedAt collection next baseSet failure)
    (start : before.network? baseSet = collection.network? baseSet)
    (atEnd : last.network? baseSet = next.network? baseSet) :
    StoppedAt before last baseSet failure := by
  cases h with
  | flaw flaw same => exact .flaw flaw (by rw [atEnd, same, start])
  | completion inPart cause left =>
      exact .completion inPart cause fun nothing => by rw [atEnd, left nothing, start]

theorem Sound.completed_fill (h : collection.Sound) (lawful : catalogue.Lawful) {outage : Outage}
    {limit : TimeLimit} {calls added : Nat}
    (done : (collection.fill ⟨catalogue, outage⟩ limit baseSet calls).result = .ok added) :
    Completed catalogue collection
      (collection.fill ⟨catalogue, outage⟩ limit baseSet calls).collection baseSet := by
  cases opened : collection.networkOrNew baseSet with
  | error flaw =>
      rw [fill_of_flaw opened] at done
      cases done
  | ok network =>
      rw [result_fill opened] at done
      obtain ⟨log, follows⟩ := (h.of_networkOrNew opened).1.follows
      obtain ⟨all, whole, same⟩ := follows.fill_complete lawful done
      exact ⟨network, all, opened, whole, by rw [h.network?_fill opened, if_pos rfl, same]⟩

theorem Sound.stoppedAt_fill (h : collection.Sound) (lawful : catalogue.Lawful) {outage : Outage}
    {limit : TimeLimit} {calls : Nat}
    (failed : (collection.fill ⟨catalogue, outage⟩ limit baseSet calls).result = .error failure) :
    StoppedAt collection (collection.fill ⟨catalogue, outage⟩ limit baseSet calls).collection
      baseSet failure := by
  cases opened : collection.networkOrNew baseSet with
  | error flaw =>
      rw [fill_of_flaw opened] at failed ⊢
      cases failed
      exact .flaw flaw rfl
  | ok network =>
      rw [result_fill opened] at failed
      obtain ⟨reached, own⟩ := h.of_networkOrNew opened
      obtain ⟨log, follows⟩ := reached.follows
      obtain ⟨inPart, cause, rfl, unchanged⟩ := follows.of_fill_eq_error lawful failed
      rw [own]
      refine .completion inPart cause fun nothing => ?_
      rw [h.network?_fill opened, if_pos rfl, unchanged nothing]
      rcases networkOrNew_eq_ok opened with there | ⟨absent, new⟩
      · rw [there]
      · simp [absent, Network.isEmpty, (Network.new_eq_ok new).2.1]

theorem Sound.course_fill (h : collection.Sound) (lawful : catalogue.Lawful) (outage : Outage)
    (limit : TimeLimit) (baseSet : BaseSet) (calls : Nat) :
    Course catalogue collection [baseSet]
      (collection.fill ⟨catalogue, outage⟩ limit baseSet calls) where
  elsewhere other outside := h.network?_fill_of_ne (Ne.symm (List.mem_singleton.not.mp outside))
  kept other network found occupied := by
    obtain ⟨next, found', grown, _⟩ :=
      h.exists_grown_fill ⟨catalogue, outage⟩ limit baseSet calls found occupied
    obtain ⟨log, follows⟩ := (h other network found).1.follows
    exact ⟨next, found', follows.keptIn_of_grows grown⟩
  completed added done other member := by
    obtain rfl := List.mem_singleton.mp member
    exact h.completed_fill lawful done
  stopped failure failed :=
    ⟨[], baseSet, [], rfl, by simp, h.stoppedAt_fill lawful failed, by simp⟩

theorem Course.stop (h : Course catalogue collection [baseSet] filled)
    (failed : filled.result = .error failure) (apart : baseSet ∉ later) :
    Course catalogue collection (baseSet :: later) filled := by
  refine ⟨fun other outside => ?_, h.kept, fun _ done => ?_, fun failure' failed' => ?_⟩
  · exact h.elsewhere other (List.mem_singleton.not.mpr (List.ne_of_not_mem_cons outside))
  · rw [failed] at done
    cases done
  · obtain ⟨done, stopped, rest, split, _, at_, _⟩ := h.stopped failure' failed'
    -- There is only one base set to stop at.
    obtain ⟨rfl, here⟩ : done = [] ∧ stopped = baseSet := by
      cases done with
      | nil => exact ⟨rfl, (List.cons.inj split).1.symm⟩
      | cons _ _ => simp at split
    refine ⟨[], baseSet, later, rfl, by simp, here ▸ at_, fun other inLater => ?_⟩
    exact h.elsewhere other fun same => apart (List.mem_singleton.mp same ▸ inLater)

/-- After the first filling has succeeded, the others start from what it has left. -/
theorem Course.andThen {added : Nat} (h : Course catalogue collection [baseSet] filled)
    (done : filled.result = .ok added) (h' : Course catalogue filled.collection later filled')
    (apart : baseSet ∉ later) : Course catalogue collection (baseSet :: later) filled' := by
  have before : ∀ other ∈ later,
      collection.network? other = filled.collection.network? other := fun other inLater =>
    (h.elsewhere other fun same => apart (List.mem_singleton.mp same ▸ inLater)).symm
  have first : Completed catalogue collection filled'.collection baseSet :=
    (h.completed added done baseSet List.mem_cons_self).of_eq rfl (h'.elsewhere baseSet apart)
  refine ⟨fun other outside => ?_, fun other network found occupied => ?_, fun total all => ?_,
    fun failure failed => ?_⟩
  · have notFirst := List.mem_singleton.not.mpr (List.ne_of_not_mem_cons outside)
    rw [h'.elsewhere other (List.not_mem_of_not_mem_cons outside), h.elsewhere other notFirst]
  · obtain ⟨between, found', kept⟩ := h.kept other network found occupied
    obtain ⟨last, found'', kept'⟩ :=
      h'.kept other between found' (kept.isEmpty_eq_false occupied)
    exact ⟨last, found'', kept.trans kept'⟩
  · intro other member
    rcases List.mem_cons.mp member with rfl | inLater
    · exact first
    · exact (h'.completed total all other inLater).of_eq (before other inLater) rfl
  · obtain ⟨done, stopped, rest, rfl, completed, at_, untouched⟩ := h'.stopped failure failed
    have inLater : ∀ other, other ∈ done ∨ other = stopped ∨ other ∈ rest →
        collection.network? other = filled.collection.network? other := fun other member =>
      before other (by simpa using member)
    refine ⟨baseSet :: done, stopped, rest, rfl, ?_, ?_, ?_⟩
    · intro other member
      rcases List.mem_cons.mp member with rfl | inDone
      · exact first
      · exact (completed other inDone).of_eq (inLater other (.inl inDone)) rfl
    · exact at_.of_eq (inLater stopped (.inr (.inl rfl))) rfl
    · intro other inRest
      rw [untouched other inRest, inLater other (.inr (.inr inRest))]

theorem Sound.course_fillLinkRoles (h : collection.Sound) (lawful : catalogue.Lawful)
    (outage : Outage) (limit : TimeLimit) (arcRole : String) (linkRoles : List String)
    (distinct : linkRoles.Nodup) (added calls : Nat) :
    Course catalogue collection (linkRoles.map (BaseSet.mk arcRole))
      (Collection.fillLinkRoles ⟨catalogue, outage⟩ limit arcRole linkRoles collection added
        calls) := by
  induction linkRoles generalizing collection added calls with
  | nil =>
      refine ⟨fun _ _ => rfl, fun _ network found _ => ⟨network, found, .refl _⟩, fun _ _ => by simp,
        fun _ failed => ?_⟩
      cases failed
  | cons linkRole linkRoles ih =>
      obtain ⟨fresh, distinct⟩ := List.nodup_cons.mp distinct
      have apart : (⟨arcRole, linkRole⟩ : BaseSet) ∉ linkRoles.map (BaseSet.mk arcRole) := by
        simpa using fresh
      have first := h.course_fill lawful outage limit ⟨arcRole, linkRole⟩ calls
      have sound := h.fill ⟨catalogue, outage⟩ limit ⟨arcRole, linkRole⟩ calls
      simp only [Collection.fillLinkRoles, List.map_cons]
      cases ended : (collection.fill ⟨catalogue, outage⟩ limit ⟨arcRole, linkRole⟩ calls).result with
      | error failure => exact first.stop ended apart
      | ok more => exact first.andThen ended (ih sound distinct _ _) apart

/-- Filling in a collection loses nothing, whatever the outage or the limit.  Of an arc role all
    link roles are filled in their order, unless the store does not even tell which there are. -/
theorem Reachable.fill_loses_nothing (h : collection.Reachable) (documents : Documents)
    (outage : Outage) (limit : TimeLimit) (calls : Nat) :
    (∀ baseSet, Course documents.catalogue collection [baseSet]
      (collection.fill ⟨documents.catalogue, outage⟩ limit baseSet calls)) ∧
    ∀ arcRole,
      (∀ fault, outage calls = some fault →
        (collection.fillArcRole ⟨documents.catalogue, outage⟩ limit arcRole calls).result =
            .error (.storeAccess fault) ∧
          (collection.fillArcRole ⟨documents.catalogue, outage⟩ limit arcRole calls).collection =
            collection) ∧
      (outage calls = none →
        Course documents.catalogue collection (documents.linkRoles.map (BaseSet.mk arcRole))
          (collection.fillArcRole ⟨documents.catalogue, outage⟩ limit arcRole calls)) := by
  have sound := h.sound
  have lawful := documents.lawful_catalogue
  refine ⟨fun baseSet => sound.course_fill lawful outage limit baseSet calls,
    fun arcRole => ⟨fun fault fails => ?_, fun answers => ?_⟩⟩
  · simp only [Collection.fillArcRole, Outage.answer, fails, and_self]
  · simp only [Collection.fillArcRole, Outage.answer, answers]
    have distinct : documents.linkRoles.Nodup := (ascending_distinct _).nodup
    exact sound.course_fillLinkRoles lawful outage limit arcRole documents.linkRoles distinct _ _

/-- Two link roles are filled.  The network of the first is new and is completed; the connection is
    lost before anything is added to that of the second, which is left as it was. -/
theorem fill_loses_nothing_at_second_role : ∃ (collection last : Collection)
    (documents : Documents) (network : Network), collection.Reachable ∧
    documents.linkRoles = ["L", "M"] ∧
    last = (collection.fillArcRole ⟨documents.catalogue, .after 6⟩ none "A" 0).collection ∧
    (collection.fillArcRole ⟨documents.catalogue, .after 6⟩ none "A" 0).result =
      .error (.completion ⟨"A", "M"⟩ false (.storeAccess .connectionLost)) ∧
    collection.network? ⟨"A", "L"⟩ = none ∧
    Completed documents.catalogue collection last ⟨"A", "L"⟩ ∧
    (last.network? ⟨"A", "L"⟩).isSome = true ∧
    network.size = 1 ∧ collection.network? ⟨"A", "M"⟩ = some network ∧
    last.network? ⟨"A", "M"⟩ = some network := by
  let documents := Documents.empty.load (DocumentEntry.sample [.plain "x" "A" "k"] ++
    [.link ⟨"other", "M"⟩, .member "other" "p" "s", .member "other" "q" "t",
      .arc "other" "p" "q" (.plain "y" "A" "k")])
  let r : Relationship := { Relationship.sample "z" "s" "t" .optional with
    link := ⟨"other", "M"⟩
    hasLinkRole := by simp }
  let network := (Network.openFor r).opened r
  let collection := Collection.empty.put network
  have reached : collection.Reachable :=
    .put .empty ((Network.reachable_openFor r).opened rfl (by decide +kernel))
  have roles : documents.linkRoles = ["L", "M"] := by decide +kernel
  have failed : (collection.fillArcRole ⟨documents.catalogue, .after 6⟩ none "A" 0).result =
      .error (.completion ⟨"A", "M"⟩ false (.storeAccess .connectionLost)) := by
    decide +kernel
  have own : network.baseSet = ⟨"A", "M"⟩ := rfl
  have absent : collection.network? ⟨"A", "L"⟩ = none := by
    rw [network?_put, own, if_neg (by decide), network?_empty]
  have there : collection.network? ⟨"A", "M"⟩ = some network := by
    rw [network?_put, if_pos own]
  have course := ((reached.fill_loses_nothing documents (.after 6) none 0).2 "A").2 rfl
  obtain ⟨done, stopped, later, split, completed, at_, _⟩ := course.stopped _ failed
  rw [roles] at split
  cases at_ with
  | completion _ _ left =>
      -- The failure names the second base set, so the first is done.
      obtain rfl : done = [⟨"A", "L"⟩] := by
        cases done with
        | nil => simp at split
        | cons first rest =>
            cases rest with
            | nil => simpa using (List.cons.inj split).1.symm
            | cons _ _ => simp at split
      refine ⟨collection, _, documents, network, reached, roles, rfl, failed, absent,
        completed _ List.mem_cons_self, by decide +kernel, rfl, there, ?_⟩
      rw [left rfl, there]
      rfl

end Collection

end XbrlNetworks
