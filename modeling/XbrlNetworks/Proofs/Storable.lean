import XbrlNetworks.Proofs.FirstFailure
import XbrlNetworks.Proofs.Interruption
import XbrlNetworks.Proofs.Listing

/-! # What it takes to store everything

Storing all relationships fills a network for every arc role and every link role
of the documents, whether or not a link of the one has an arc of the other.  So a
single empty role is enough to fail, unless there is nothing to combine it with;
apart from that every end of an arc in a loaded link has to be resolved.  Nothing
is posted before all networks are filled, and what is posted is never refused, so
that a pass leaves half of its work only where a call to the store fails then.
-/

namespace XbrlNetworks

open Std

/-- No role of the documents is empty, and every fragment at an end of an arc in a loaded link can
    be resolved. -/
structure Documents.Storable (documents : Documents) : Prop where
  arcRoles : ∀ (index : Index) (row : ArcRow), documents.arcs[index]? = some row → row.role ≠ ""
  linkRoles : ∀ (index : Index) (role : String), documents.links[index]? = some role → role ≠ ""
  ends : ∀ (index : Index) (row : ArcRow) (side : Side) (fragment : Fragment),
    documents.arcs[index]? = some row → row.link ∈ documents.links →
      documents.Carries row.link (side.labelOf row) fragment → documents.Resolvable fragment

/-- The network of a base set can be opened and filled. -/
structure Catalogue.Admits (catalogue : Catalogue) (baseSet : BaseSet) : Prop where
  arcRole : baseSet.arcRole ≠ ""
  linkRole : baseSet.linkRole ≠ ""
  passes : ∀ step ∈ catalogue.steps baseSet, catalogue.Passes step

namespace Documents

variable {documents : Documents}

theorem eq_empty_or_exists {α : Type} (table : ExtTreeMap Index α) :
    table = ∅ ∨ ∃ (index : Index) (row : α), table[index]? = some row := by
  by_cases vacant : ∃ (index : Index) (row : α), table[index]? = some row
  · exact .inr vacant
  · refine .inl (ExtTreeMap.ext_getElem? fun index => ?_)
    rw [ExtTreeMap.getElem?_empty, Option.eq_none_iff_forall_ne_some]
    exact fun row found => vacant ⟨index, row, found⟩

theorem Storable.admits (h : documents.Storable) (readable : documents.Readable)
    {arcRole linkRole : String} (hasArcRole : arcRole ∈ documents.arcRoles)
    (hasLinkRole : linkRole ∈ documents.linkRoles) :
    documents.catalogue.Admits ⟨arcRole, linkRole⟩ := by
  obtain ⟨arc, row, inArcs, rfl⟩ := mem_arcRoles.mp hasArcRole
  obtain ⟨link, inLinks⟩ := mem_linkRoles.mp hasLinkRole
  refine ⟨h.arcRoles arc row inArcs, h.linkRoles link linkRole inLinks, ?_⟩
  rw [readable.forall_passes_iff]
  intro place fragment stands
  obtain ⟨row', inArcs', here, _, carries⟩ := stands.arc
  rw [← here] at carries
  refine h.ends place.arc row' place.side fragment inArcs' ?_ carries
  rw [here, ExtTreeMap.mem_iff_isSome_getElem?, stands.link]
  rfl

/-- Where there are arcs and links, every pair of roles is admitted only if the documents can be
    stored. -/
theorem Readable.storable (readable : documents.Readable)
    (admits : ∀ arcRole ∈ documents.arcRoles, ∀ linkRole ∈ documents.linkRoles,
      documents.catalogue.Admits ⟨arcRole, linkRole⟩)
    {arc : Index} {row : ArcRow} (inArcs : documents.arcs[arc]? = some row)
    {link : Index} {role : String} (inLinks : documents.links[link]? = some role) :
    documents.Storable where
  arcRoles := fun arc row inArcs =>
    (admits row.role (mem_arcRoles.mpr ⟨arc, row, inArcs, rfl⟩) role
      (mem_linkRoles.mpr ⟨link, inLinks⟩)).arcRole
  linkRoles := fun link role inLinks =>
    (admits row.role (mem_arcRoles.mpr ⟨arc, row, inArcs, rfl⟩) role
      (mem_linkRoles.mpr ⟨link, inLinks⟩)).linkRole
  ends := by
    intro arc row side fragment inArcs loaded carries
    obtain ⟨role, inLinks⟩ := Option.isSome_iff_exists.mp
      (ExtTreeMap.mem_iff_isSome_getElem?.mp loaded)
    have admitted := admits row.role (mem_arcRoles.mpr ⟨arc, row, inArcs, rfl⟩) role
      (mem_linkRoles.mpr ⟨row.link, inLinks⟩)
    exact readable.forall_passes_iff.mp admitted.passes
      ⟨row.link, arc, side, fragment.index⟩ fragment ⟨inLinks, ⟨row, inArcs, rfl, rfl, carries⟩, rfl⟩

theorem Readable.forall_admits_iff (readable : documents.Readable) :
    (∀ arcRole ∈ documents.arcRoles, ∀ linkRole ∈ documents.linkRoles,
      documents.catalogue.Admits ⟨arcRole, linkRole⟩) ↔
      documents.arcs = ∅ ∨ documents.links = ∅ ∨ documents.Storable := by
  constructor
  · intro admits
    rcases eq_empty_or_exists documents.arcs with noArcs | ⟨arc, row, inArcs⟩
    · exact .inl noArcs
    · rcases eq_empty_or_exists documents.links with noLinks | ⟨link, role, inLinks⟩
      · exact .inr (.inl noLinks)
      · exact .inr (.inr (readable.storable admits inArcs inLinks))
  · rintro (noArcs | noLinks | storable) arcRole hasArcRole linkRole hasLinkRole
    · simp [mem_arcRoles, noArcs] at hasArcRole
    · simp [mem_linkRoles, noLinks] at hasLinkRole
    · exact storable.admits readable hasArcRole hasLinkRole

end Documents

namespace Collection

variable {documents : Documents} {collection : Collection}

theorem Sound.exists_fill_iff (h : collection.Sound) (readable : documents.Readable)
    (fetched : collection.Fetched documents.catalogue) (baseSet : BaseSet) (calls : Nat) :
    (∃ added, (collection.fill ⟨documents.catalogue, .never⟩ none baseSet calls).result =
      .ok added) ↔ documents.catalogue.Admits baseSet := by
  unfold Collection.fill
  cases opened : collection.networkOrNew baseSet with
  | error flaw =>
      have emptyRole : ¬ documents.catalogue.Admits baseSet := by
        rintro ⟨arcRole, linkRole, _⟩
        unfold networkOrNew Network.new at opened
        simp [arcRole, linkRole] at opened
        split at opened <;> cases opened
      simp [emptyRole]
  | ok network =>
      obtain ⟨_, rfl⟩ := h.of_networkOrNew opened
      have fills := (fetched.of_networkOrNew opened).exists_fill_iff documents.lawful_catalogue
        (readable.answers network.baseSet) calls
      exact fills.trans ⟨fun passes => ⟨network.hasArcRole, network.hasLinkRole, passes⟩,
        Catalogue.Admits.passes⟩

theorem Sound.exists_fillLinkRoles_iff (h : collection.Sound) (readable : documents.Readable)
    (fetched : collection.Fetched documents.catalogue) (arcRole : String)
    (linkRoles : List String) (added calls : Nat) :
    (∃ total, (Collection.fillLinkRoles ⟨documents.catalogue, .never⟩ none arcRole linkRoles
      collection added calls).result = .ok total) ↔
      ∀ linkRole ∈ linkRoles, documents.catalogue.Admits ⟨arcRole, linkRole⟩ := by
  induction linkRoles generalizing collection added calls with
  | nil => simp [Collection.fillLinkRoles]
  | cons linkRole linkRoles ih =>
      have first := h.exists_fill_iff readable fetched ⟨arcRole, linkRole⟩ calls
      rw [List.forall_mem_cons, ← first]
      simp only [Collection.fillLinkRoles]
      cases filled : (collection.fill ⟨documents.catalogue, .never⟩ none ⟨arcRole, linkRole⟩
          calls).result with
      | error failure => simp [filled]
      | ok more =>
          simpa using ih (h.fill _ none ⟨arcRole, linkRole⟩ calls)
            (fetched.fill documents.lawful_catalogue filled) _ _

theorem Sound.exists_fillArcRole_iff (h : collection.Sound) (readable : documents.Readable)
    (fetched : collection.Fetched documents.catalogue) (arcRole : String) (calls : Nat) :
    (∃ total, (collection.fillArcRole ⟨documents.catalogue, .never⟩ none arcRole calls).result =
      .ok total) ↔
      ∀ linkRole ∈ documents.linkRoles, documents.catalogue.Admits ⟨arcRole, linkRole⟩ :=
  h.exists_fillLinkRoles_iff readable fetched arcRole documents.linkRoles 0 (calls + 1)

end Collection

namespace Store

variable {documents : Documents} {collection : Collection} {store : Store}

theorem exists_fillArcRoles_iff (sound : collection.Sound) (readable : documents.Readable)
    (fetched : collection.Fetched documents.catalogue) (arcRoles : List String) (calls : Nat) :
    (∃ filled, fillArcRoles ⟨documents.catalogue, .never⟩ none arcRoles collection calls =
      .ok filled) ↔
      ∀ arcRole ∈ arcRoles, ∀ linkRole ∈ documents.linkRoles,
        documents.catalogue.Admits ⟨arcRole, linkRole⟩ := by
  induction arcRoles generalizing collection calls with
  | nil => simp [fillArcRoles]
  | cons arcRole arcRoles ih =>
      have first := sound.exists_fillArcRole_iff readable fetched arcRole calls
      rw [List.forall_mem_cons, ← first]
      simp only [fillArcRoles, TimeLimit.rest]
      cases filled : (collection.fillArcRole ⟨documents.catalogue, .never⟩ none arcRole
          calls).result with
      | error failure => simp
      | ok more =>
          simpa using ih (sound.fillArcRole _ none arcRole calls)
            (fetched.fillArcRole documents.lawful_catalogue filled) _

theorem exists_networks_iff (loaded : store.documents.Loaded) :
    (∃ done, store.networks .never none = .ok done) ↔
      store.documents.arcs = ∅ ∨ store.documents.links = ∅ ∨ store.documents.Storable := by
  have fills := exists_fillArcRoles_iff Collection.sound_empty loaded.readable
    (Collection.fetched_empty store.documents.catalogue) store.documents.arcRoles 1
  rw [← loaded.readable.forall_admits_iff]
  refine Iff.trans ?_ fills
  constructor
  · rintro ⟨⟨filled, calls⟩, done⟩
    exact ⟨_, networks_eq_ok done⟩
  · rintro ⟨filled, done⟩
    exact ⟨filled, congrArg (Except.mapError Problem.network) done⟩

theorem exists_storeAll_never_iff (unlimited : store.settings.timeLimit = none) (clock : Clock) :
    (∃ tally, (store.storeAll .never clock none).1 = .ok tally) ↔
      ∃ done, store.networks .never none = .ok done := by
  have never : store.timeLimit clock none = none := by
    rw [timeLimit, unlimited]
    rfl
  constructor
  · rintro ⟨tally, succeeded⟩
    obtain ⟨collection, calls, defined, _⟩ := storeAll_eq_ok (storeAll_eq_mk succeeded)
    exact ⟨_, defined⟩
  · rintro ⟨⟨collection, calls⟩, defined⟩
    have posted := (reachable_networks defined).sound.result_postAll store.ledger
    have ended : (store.storeAll .never clock none).1 =
        (store.ledger.postAll .never collection.requests).result.mapError .network := by
      rw [storeAll, never, defined]
      rfl
    rw [posted] at ended
    exact ⟨_, ended⟩

/-- Once all networks are filled, every call that changes the ledger succeeds. -/
def Writable (store : Store) (outage : Outage) (limit : TimeLimit) : Prop :=
  ∀ collection calls, store.networks outage limit = .ok (collection, calls) →
    ∀ made < collection.places.length, outage (calls + made) = none

/-- A pass has filled all networks, and a call that was to change the ledger has failed.  The
    buckets before it are settled, and nothing else has changed. -/
structure Interrupted (store : Store) (outage : Outage) (limit : TimeLimit) (problem : Problem)
    (next : Store) (collection : Collection) (calls count : Nat) (fault : StoreFault) : Prop where
  filled : store.networks outage limit = .ok (collection, calls)
  fails : (outage.onwards calls).FailsAt count fault
  early : count < collection.places.length
  problem : problem = .network (.storeAccess fault)
  next : next = { store with
    ledger := (collection.places.take count).foldl Ledger.settle store.ledger }

variable {outage : Outage} {clock : Clock} {limit : Option Duration} {problem : Problem}
  {next : Store}

/-- A pass that fails has changed nothing, unless it was interrupted while posting. -/
theorem eq_or_interrupted (failed : store.storeAll outage clock limit = (.error problem, next)) :
    next = store ∨ ∃ collection calls count fault,
      store.Interrupted outage (store.timeLimit clock limit) problem next collection calls count
        fault := by
  rcases storeAll_eq_error failed with same | ⟨collection, calls, failure, filled, posted, rfl, rfl⟩
  · exact .inl same
  · obtain ⟨count, fault, fails, early, rfl, settled⟩ :=
      (reachable_networks filled).sound.postAll_eq_error posted
    exact .inr ⟨collection, calls, count, fault, filled, fails, early, rfl, by rw [settled]⟩

theorem Interrupted.not_writable {timeLimit : TimeLimit} {collection : Collection}
    {calls count : Nat} {fault : StoreFault}
    (h : store.Interrupted outage timeLimit problem next collection calls count fault) :
    ¬ store.Writable outage timeLimit := by
  intro writable
  have answered := writable collection calls h.filled count h.early
  rw [show outage (calls + count) = some fault from h.fails.next] at answered
  cases answered

theorem settles_of_storeAll {tally : Ledger.Tally}
    (passed : store.storeAll outage clock limit = (.ok tally, next)) :
    ∃ collection calls, store.networks .never none = .ok (collection, calls) ∧
      next = { store with ledger := collection.places.foldl Ledger.settle store.ledger } ∧
      tally = ⟨collection.buckets.countP fun bucket => !bucket.isProhibited,
        collection.buckets.countP fun bucket =>
          bucket.isProhibited && bucket.address?.any store.ledger.contains⟩ := by
  obtain ⟨collection, calls, defined, posted, rfl⟩ := storeAll_eq_ok_posted passed
  have sound := (reachable_networks defined).sound
  have undisturbed := (sound.result_postAll store.ledger).symm.trans
    (Ledger.result_post_undisturbed posted)
  refine ⟨collection, calls, defined, ?_, (Except.ok.inj undisturbed).symm⟩
  rw [Collection.ledger_postAll posted, sound.foldl_settle_places]

end Store

end XbrlNetworks
