import XbrlNetworks.Proofs.Convergence
import XbrlNetworks.Proofs.Enlarging
import XbrlNetworks.Proofs.Resuming

/-! # Filling in increments

A network may be filled, however far that gets, before more documents are loaded
and it is filled again.  What it was given early it would have been given anyway,
so where no two arcs contend for one priority it ends with the same buckets as a
network that is filled once from all the documents.
-/

namespace XbrlNetworks

open Std

namespace Documents

variable {documents whole : Documents} {baseSet : BaseSet} {network : Network}
  {offer offer' : Offer} {r r' : Relationship}

/-- Arcs of a base set that lead from one fragment to another with the same key have different
    priorities. -/
def Unshared (documents : Documents) (baseSet : BaseSet) : Prop :=
  ∀ row row' arc arc' source target, documents.Runs baseSet row ⟨arc, source, target⟩ →
    documents.Runs baseSet row' ⟨arc', source, target⟩ → row.key = row'.key →
      row.priority = row'.priority → arc = arc'

theorem Readable.runs_of_mem_offers (h : documents.Readable)
    (offered : offer ∈ documents.catalogue.offers baseSet) :
    ∃ row, row.key = offer.arc.key ∧ row.priority = offer.arc.priority.toInt ∧
      documents.Runs baseSet row ⟨offer.arc.index, offer.source.meant, offer.target.meant⟩ := by
  obtain ⟨found, _, role, sourceLabel, targetLabel, has, source, target⟩ := h.mem_offers.mp offered
  exact ⟨_, rfl, rfl, has, found, role, ⟨offer.source, source, Fragment.meant_eq_iff.mp rfl⟩,
    ⟨offer.target, target, Fragment.meant_eq_iff.mp rfl⟩⟩

theorem Readable.exists_offer (h : documents.Readable) {row : ArcRow} {span : Span}
    (runs : documents.Runs baseSet row span) :
    ∃ offer ∈ documents.catalogue.offers baseSet, offer.arc.index = span.arc ∧
      offer.identity = ⟨row.key, span.source, span.target⟩ ∧
      offer.arc.priority.toInt = row.priority := by
  obtain ⟨arc, link, sourceLabel, targetLabel, keeps⟩ := h.arcs span.arc row runs.arc
  obtain ⟨index, rfl⟩ := Prod.mk.inj keeps
  obtain ⟨source, atSource, meant⟩ := runs.source
  obtain ⟨target, atTarget, meant'⟩ := runs.target
  have has : documents.HasArc link sourceLabel targetLabel arc := by
    rw [HasArc, ← index]
    exact runs.arc
  refine ⟨⟨⟨link, baseSet.linkRole⟩, arc, source, target⟩, h.mem_offers.mpr
    ⟨runs.link, rfl, runs.role, sourceLabel, targetLabel, has, atSource, atTarget⟩, index.symm, ?_,
    rfl⟩
  rw [Offer.identity, Fragment.meant_eq_iff.mpr meant, Fragment.meant_eq_iff.mpr meant']
  rfl

theorem Readable.unshared_iff (h : documents.Readable) : documents.Unshared baseSet ↔
    ∀ offer ∈ documents.catalogue.offers baseSet, ∀ offer' ∈ documents.catalogue.offers baseSet,
      offer.identity = offer'.identity → offer.arc.priority = offer'.arc.priority →
        offer.arc.index = offer'.arc.index := by
  constructor
  · intro unshared offer offered offer' offered' same priority
    obtain ⟨row, key, isPriority, runs⟩ := h.runs_of_mem_offers offered
    obtain ⟨row', key', isPriority', runs'⟩ := h.runs_of_mem_offers offered'
    simp only [Offer.identity, Bucket.Identity.mk.injEq] at same
    obtain ⟨sameKey, source, target⟩ := same
    rw [← source, ← target] at runs'
    refine unshared row row' _ _ _ _ runs runs' ?_ ?_
    · rw [key, key', sameKey]
    · rw [isPriority, isPriority', priority]
  · intro apart row row' arc arc' source target runs runs' key priority
    obtain ⟨offer, offered, rfl, same, isPriority⟩ := h.exists_offer runs
    obtain ⟨offer', offered', rfl, same', isPriority'⟩ := h.exists_offer runs'
    refine apart offer offered offer' offered' ?_ ?_
    · rw [same, same', key]
    · rw [← Int32.toInt_inj, isPriority, isPriority', priority]

theorem Has.eq {fragment fragment' : Fragment} (h : documents.Has fragment)
    (h' : documents.Has fragment') (same : fragment.index = fragment'.index) :
    fragment = fragment' := by
  have found := h.fragment?_eq
  rw [same, h'.fragment?_eq] at found
  cases found
  rfl

theorem HasArc.eq {link link' : Index} {arc arc' : Arc}
    {sourceLabel targetLabel sourceLabel' targetLabel' : String}
    (h : documents.HasArc link sourceLabel targetLabel arc)
    (h' : documents.HasArc link' sourceLabel' targetLabel' arc')
    (same : arc.index = arc'.index) : arc = arc' ∧ link = link' := by
  have rows : ArcRow.ofArc link sourceLabel targetLabel arc =
      .ofArc link' sourceLabel' targetLabel' arc' := by
    rw [HasArc, same] at h
    exact Option.some.inj (h.symm.trans h')
  have keeps : ArcRow.Keeps (arc.index, .ofArc link sourceLabel targetLabel arc) arc' :=
    ⟨_, _, _, by rw [same, rows]⟩
  exact ⟨ArcRow.Keeps.eq ⟨_, _, _, rfl⟩ keeps, congrArg ArcRow.link rows⟩

theorem Readable.has_of_resolved? (h : documents.Readable) {fragment resolved : Fragment}
    (has : documents.Has fragment)
    (found : documents.catalogue.resolved? ∅ fragment = some resolved) :
    documents.Has resolved := by
  rcases Catalogue.resolved?_eq_some_iff.mp found with ⟨_, rfl⟩ | ⟨target, _, stands⟩
  · exact has
  · rcases Catalogue.standing_cases stands with kept | ⟨_, there⟩
    · simp at kept
    · exact (h.has_of_fragment? there).2

end Documents

namespace Network

variable {documents whole : Documents} {baseSet : BaseSet} {network : Network}
  {offer offer' : Offer} {r r' : Relationship}

theorem resolves_of_resolved? {catalogue : Catalogue} {fragment resolved : Fragment}
    (found : catalogue.resolved? network.fragments fragment = some resolved) :
    network.Resolves catalogue fragment resolved := by
  rcases Catalogue.resolved?_eq_some_iff.mp found with ⟨locates, rfl⟩ | ⟨target, locates, stands⟩
  · exact .itself locates
  · rcases Catalogue.standing_cases stands with kept | ⟨_, there⟩
    · exact .kept locates kept
    · exact .fetched locates there

theorem Binds.identity_eq {catalogue : Catalogue} (binds : network.Binds catalogue offer r)
    (lawful : catalogue.Lawful) (coherent : network.Coherent) : r.identity = offer.identity :=
  Resolves.identity_eq lawful coherent binds.arc (resolves_of_resolved? binds.source)
    (resolves_of_resolved? binds.target)

theorem Binds.eq_of_arc (readable : documents.Readable) (vacant : network.fragments = ∅)
    (offered : offer ∈ documents.catalogue.offers baseSet)
    (offered' : offer' ∈ documents.catalogue.offers baseSet)
    (binds : network.Binds documents.catalogue offer r)
    (binds' : network.Binds documents.catalogue offer' r') (same : r.identity = r'.identity)
    (index : r.arc.index = r'.arc.index) : r = r' := by
  obtain ⟨_, role, _, sourceLabel, targetLabel, has, source, target⟩ :=
    readable.mem_offers.mp offered
  obtain ⟨_, role', _, sourceLabel', targetLabel', has', source', target'⟩ :=
    readable.mem_offers.mp offered'
  obtain ⟨arc, link, fromSource, fromTarget⟩ := binds
  obtain ⟨arc', link', fromSource', fromTarget'⟩ := binds'
  rw [vacant] at fromSource fromTarget fromSource' fromTarget'
  rw [← arc, ← link] at has
  rw [← arc', ← link'] at has'
  obtain ⟨sameArc, linkIndex⟩ := has.eq has' index
  have sameLink : r.link = r'.link := by
    have linkRole : r.link.role = r'.link.role := by rw [link, link', role, role']
    change ExtendedLink.mk r.link.index r.link.role = ⟨r'.link.index, r'.link.role⟩
    rw [linkIndex, linkRole]
  simp only [Relationship.identity, Bucket.Identity.mk.injEq] at same
  have sameSource := (readable.has_of_resolved? source.has fromSource).eq
    (readable.has_of_resolved? source'.has fromSource') same.2.1
  have sameTarget := (readable.has_of_resolved? target.has fromTarget).eq
    (readable.has_of_resolved? target'.has fromTarget') same.2.2
  cases r
  cases r'
  simp only [Relationship.mk.injEq]
  exact ⟨sameArc, sameSource, sameTarget, sameLink⟩

/-- What an empty network is given of documents is free of collisions if no priority is shared. -/
theorem collisionFree_of_unshared (readable : documents.Readable) (vacant : network.fragments = ∅)
    (coherent : network.Coherent) (unshared : documents.Unshared baseSet) {relationships : Log}
    (bound : List.Forall₂ (network.Binds documents.catalogue)
      (documents.catalogue.offers baseSet) relationships) : relationships.CollisionFree := by
  intro r member r' member' collides
  obtain ⟨offer, offered, binds⟩ := exists_of_forall₂ bound.flip member
  obtain ⟨offer', offered', binds'⟩ := exists_of_forall₂ bound.flip member'
  obtain ⟨same, priority | index⟩ := collides
  · have lawful := documents.lawful_catalogue
    have identities : offer.identity = offer'.identity := by
      rw [← binds.identity_eq lawful coherent, same, binds'.identity_eq lawful coherent]
    rw [binds.arc, binds'.arc] at priority
    have apart := readable.unshared_iff.mp unshared
    have index := apart offer offered offer' offered' identities priority
    rw [← binds.arc, ← binds'.arc] at index
    exact binds.eq_of_arc readable vacant offered offered' binds' same index
  · exact binds.eq_of_arc readable vacant offered offered' binds' same index

variable {xs ys : List DocumentEntry}

theorem subset_of_within (h : documents.Within whole) (readable : documents.Readable)
    (readable' : whole.Readable) (vacant : network.fragments = ∅) {first : List Offer}
    (isFirst : first <+: documents.catalogue.offers baseSet) {before relationships : Log}
    (bound : List.Forall₂ (network.Binds documents.catalogue) first before)
    (boundAll : List.Forall₂ (network.Binds whole.catalogue)
      (whole.catalogue.offers baseSet) relationships) : before ⊆ relationships := by
  intro r member
  obtain ⟨offer, offered, binds⟩ := exists_of_forall₂ bound.flip member
  have offered' := h.mem_offers readable readable' (isFirst.subset offered)
  obtain ⟨r', member', binds'⟩ := exists_of_forall₂ boundAll offered'
  exact binds_rightUnique (binds.of_within h readable vacant) binds' ▸ member'

/-- A network that was filled early and is filled again from all documents has had nothing more
    than one that is filled once from all of them, and the latter succeeds if the former does. -/
theorem Follows.fill_within (h : network.Follows []) (vacant : network.fragments = ∅)
    (within : documents.Within whole) (readable : documents.Readable) (readable' : whole.Readable)
    {outage outage' : Outage} {limit limit' : TimeLimit} {calls calls' more : Nat}
    (done : ((network.fill ⟨documents.catalogue, outage⟩ limit calls).network.fill
      ⟨whole.catalogue, outage'⟩ limit' calls').result = .ok more) :
    ∃ added before relationships,
      (network.fill ⟨whole.catalogue, .never⟩ none 0).result = .ok added ∧
      List.Forall₂ (network.Binds whole.catalogue) (whole.catalogue.offers network.baseSet)
        relationships ∧
      before ⊆ relationships ∧
      ((network.fill ⟨documents.catalogue, outage⟩ limit calls).network.fill
        ⟨whole.catalogue, outage'⟩ limit' calls').network.Follows (before ++ relationships) ∧
      (network.fill ⟨whole.catalogue, .never⟩ none 0).network.Follows relationships := by
  obtain ⟨first, early, isFirst, underway, atEarly, _⟩ :=
    h.fill_underway documents.lawful_catalogue outage limit calls
  obtain ⟨before, bound, inserted⟩ := underway.inserted
  have followsEarly := h.insertAll_ok inserted
  have base := underway.grows.baseSet_eq
  rw [atEarly] at done ⊢
  have lawful := whole.lawful_catalogue
  -- Filling goes through all offers, and binds them as an empty network would.
  have alike := standsAlike_of_within within readable vacant underway.alike
  obtain ⟨relationships, boundAgain, insertedAgain⟩ := followsEarly.fill_inserts lawful done
  rw [base] at boundAgain
  have boundAll := boundAgain.imp fun _ _ binds => binds.of_standsAlike alike.symm
  have followsLast := followsEarly.insertAll_ok insertedAgain
  -- What can be followed in the end could be followed from the start.
  obtain ⟨_, serves⟩ := fill_eq_ok done
  have alikeLast : whole.catalogue.StandsAlike network
      (early.network.fill ⟨whole.catalogue, outage'⟩ limit' calls').network := by
    obtain ⟨_, last, _, underwayLast, atLast, _⟩ :=
      followsEarly.fill_underway lawful outage' limit' calls'
    exact atLast ▸ alike.trans underwayLast.alike
  have baseLast := (grows_insertAll insertedAgain).baseSet_eq.trans base
  have servesFresh := serves.imp baseLast.symm fun _ can =>
    can.of_standsAlike followsLast.coherent h.coherent alikeLast.symm
  rw [base] at servesFresh
  obtain ⟨added, filled⟩ := h.exists_fill servesFresh 0
  obtain ⟨relationships', boundBatch, insertedBatch⟩ := h.fill_inserts lawful filled
  obtain rfl : relationships = relationships' :=
    List.right_unique_forall₂' binds_rightUnique boundAll boundBatch
  exact ⟨added, before, relationships, filled, boundAll,
    subset_of_within within readable readable' vacant isFirst bound boundAll, followsLast,
    h.insertAll_ok insertedBatch⟩

/-- Filling a network, however far that gets, then loading more documents and filling it again
    leads to the same answers and the same buckets as filling it once from all documents.  The
    entries loaded later replace none of the earlier ones, and no priority is shared. -/
theorem fill_in_increments (opened : Network.new baseSet = .ok network)
    {xs ys : List DocumentEntry} (apart : ∀ entry ∈ xs, ∀ later ∈ ys, ¬ entry.Rivals later)
    (unshared : (Documents.empty.load (xs ++ ys)).Unshared baseSet)
    {outage outage' : Outage} {limit limit' : TimeLimit} {calls calls' more : Nat}
    {early again once : Network.Filled}
    (first : network.fill ⟨(Documents.empty.load xs).catalogue, outage⟩ limit calls = early)
    (second : early.network.fill ⟨((Documents.empty.load xs).load ys).catalogue, outage'⟩ limit'
      calls' = again)
    (done : again.result = .ok more)
    (batch : network.fill ⟨(Documents.empty.load (xs ++ ys)).catalogue, .never⟩ none 0 = once) :
    ∃ added, once.result = .ok added ∧ again.network.Alike once.network ∧
      ∀ identity, again.network.bucketAt? identity = once.network.bucketAt? identity := by
  obtain ⟨follows, rfl⟩ := follows_new opened
  have vacant := (new_eq_ok opened).2.2.1
  have split : Documents.empty.load (xs ++ ys) = (Documents.empty.load xs).load ys :=
    List.foldl_append
  rw [split] at unshared batch
  have readable : (Documents.empty.load xs).Readable := (Documents.Loaded.empty.load xs).readable
  have readable' : ((Documents.empty.load xs).load ys).Readable :=
    ((Documents.Loaded.empty.load xs).load ys).readable
  subst first second batch
  obtain ⟨added, before, relationships, filled, bound, among, followsAgain, followsOnce⟩ :=
    follows.fill_within vacant (Documents.within_load apart) readable readable' done
  have free := collisionFree_of_unshared readable' vacant follows.coherent unshared bound
  have same : ∀ r, r ∈ relationships ↔ r ∈ before ++ relationships := by
    intro r
    rw [List.mem_append, or_iff_right_of_imp (@among r)]
  have free' := free.of_mem_iff same
  have base : ∀ (network : Network) connection limit calls,
      (network.fill connection limit calls).network.baseSet = network.baseSet :=
    fun network connection limit calls => (network.fill_grows connection limit calls).baseSet_eq
  refine ⟨added, filled, followsAgain.alike_of_mem_iff followsOnce ?_ free' fun r => (same r).symm,
    followsAgain.bucketAt?_eq_of_mem_iff followsOnce free' fun r => (same r).symm⟩
  simp only [base]

/-- The first fill adds one arc and fails at a locator whose target is missing; the target is
    loaded later, together with an arc that prohibits the one that was added. -/
theorem fill_in_increments_past_locator : ∃ xs ys : List DocumentEntry, ∃ network : Network,
    ∃ early again once : Network.Filled,
      Network.new ⟨"A", "L"⟩ = .ok network ∧
      network.fill ⟨(Documents.empty.load xs).catalogue, .never⟩ none 0 = early ∧
      early.result = .error (.completion ⟨"A", "L"⟩ true (.danglingLocator "u" "v")) ∧
      early.network.size = 1 ∧
      early.network.fill ⟨((Documents.empty.load xs).load ys).catalogue, .never⟩ none 0 = again ∧
      again.result = .ok 2 ∧
      network.fill ⟨(Documents.empty.load (xs ++ ys)).catalogue, .never⟩ none 0 = once ∧
      again.network.Alike once.network ∧
      again.network.relationships.map (·.arc.index) = ["y"] := by
  let xs := DocumentEntry.sample [.plain "x" "A" "k"] ++
    [.fragment ⟨"u", .locator "v", none⟩, .member "link" "w" "u",
      .arc "link" "p" "w" (.plain "y" "A" "k")]
  let ys : List DocumentEntry := [.fragment ⟨"v", .concept, none⟩,
    .arc "link" "p" "q" { Arc.plain "z" "A" "k" with use := .prohibited, priority := 1 }]
  let network := openFor (.sample "x" "s" "t" .optional)
  let early := network.fill ⟨(Documents.empty.load xs).catalogue, .never⟩ none 0
  let again := early.network.fill ⟨((Documents.empty.load xs).load ys).catalogue, .never⟩ none 0
  have opened : Network.new ⟨"A", "L"⟩ = .ok network := rfl
  have readable := (Documents.Loaded.empty.load (xs ++ ys)).readable
  have apart : ∀ entry ∈ xs, ∀ later ∈ ys, ¬ entry.Rivals later := by
    simp [xs, ys, DocumentEntry.sample, DocumentEntry.Rivals, Arc.plain]
  have unshared : (Documents.empty.load (xs ++ ys)).Unshared ⟨"A", "L"⟩ :=
    readable.unshared_iff.mpr (by decide +kernel)
  have done : again.result = .ok 2 := by decide +kernel
  obtain ⟨_, _, alike, _⟩ := fill_in_increments opened apart unshared rfl rfl done rfl
  exact ⟨xs, ys, network, early, again, _, opened, rfl, by decide +kernel, by decide +kernel, rfl,
    done, rfl, alike, by decide +kernel⟩

end Network

end XbrlNetworks
