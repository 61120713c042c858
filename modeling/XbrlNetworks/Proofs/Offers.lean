import XbrlNetworks.Proofs.Reachable

/-! # What a catalogue offers to a network

To a network of a base set a catalogue offers every arc of the base set with
every pair of fragments at its ends.  A network takes offers one after the
other: locators are followed, for what the network has kept or else to what the
catalogue has, and the bound arc is inserted.
-/

namespace XbrlNetworks

open Std

/-- The index of the fragment that is meant: the target of a locator, else the fragment's own. -/
def Fragment.meant (fragment : Fragment) : Index :=
  fragment.kind.target?.getD fragment.index

/-- An arc of a link between two of the fragments at its ends, locators not followed. -/
structure Offer where
  link : ExtendedLink
  arc : Arc
  source : Fragment
  target : Fragment

def Offer.identity (offer : Offer) : Bucket.Identity :=
  ⟨offer.arc.key, offer.source.meant, offer.target.meant⟩

namespace Catalogue

variable (catalogue : Catalogue)

/-- The answer to a question for many things, nothing in case of a fault. -/
def answered {α : Type} (answer : Except StoreFault (List α)) : List α :=
  answer.toOption.getD []

@[simp] theorem answered_ok {α : Type} (items : List α) : answered (.ok items) = items := rfl

def offersOfArc (link : ExtendedLink) (arc : Arc) : List Offer :=
  (answered (catalogue.arcSources arc)).flatMap fun source =>
    (answered (catalogue.arcTargets arc)).map fun target => ⟨link, arc, source, target⟩

theorem of_mem_offersOfArc {link : ExtendedLink} {arc : Arc} {offer : Offer}
    (h : offer ∈ catalogue.offersOfArc link arc) : offer.link = link ∧ offer.arc = arc := by
  obtain ⟨source, _, inTargets⟩ := List.mem_flatMap.mp h
  obtain ⟨target, _, rfl⟩ := List.mem_map.mp inTargets
  exact ⟨rfl, rfl⟩

def offersOfLink (arcRole : String) (link : ExtendedLink) : List Offer :=
  (answered (catalogue.arcs link arcRole)).flatMap (catalogue.offersOfArc link)

/-- Everything that is offered to the network of a base set, in the order of filling. -/
def offers (baseSet : BaseSet) : List Offer :=
  (answered (catalogue.links baseSet.linkRole)).flatMap (catalogue.offersOfLink baseSet.arcRole)

/-- A catalogue gives a fragment under its own index, at the ends of arcs too. -/
structure Lawful : Prop where
  index : ∀ (index : Index) (fragment : Fragment),
    catalogue.fragment? index = .ok (some fragment) → fragment.index = index
  sources : ∀ (arc : Arc) (fragments : List Fragment), catalogue.arcSources arc = .ok fragments →
    ∀ fragment ∈ fragments, catalogue.fragment? fragment.index = .ok (some fragment)
  targets : ∀ (arc : Arc) (fragments : List Fragment), catalogue.arcTargets arc = .ok fragments →
    ∀ fragment ∈ fragments, catalogue.fragment? fragment.index = .ok (some fragment)

end Catalogue

namespace Network

variable {catalogue : Catalogue} {network next last : Network} {r : Relationship}
  {fragment resolved : Fragment} {index : Index} {isNew : Bool} {added : Nat}

/-- An accepted insertion opens a slot, joins one, or leaves the network as it is. -/
theorem insert_cases (h : network.insert r = .ok (next, isNew)) :
    (isNew = true ∧ next = network.opened r) ∨
      (isNew = true ∧ ∃ slot, next = network.joined slot r) ∨ (isNew = false ∧ next = network) := by
  unfold insert at h
  split at h
  · cases h
  split at h
  · cases h
    exact .inl ⟨rfl, rfl⟩
  · rename_i slot _
    split at h
    · cases h
      exact .inr (.inr ⟨rfl, rfl⟩)
    · unfold joinSlot Bucket.add at h
      split at h
      · cases h
        exact .inr (.inl ⟨rfl, slot, rfl⟩)
      · split at h
        · cases h
          exact .inr (.inl ⟨rfl, slot, rfl⟩)
        · cases h

theorem eq_of_insert_false (h : network.insert r = .ok (next, false)) : next = network := by
  rcases insert_cases h with ⟨isNew, _⟩ | ⟨isNew, _⟩ | ⟨_, same⟩
  · cases isNew
  · cases isNew
  · exact same

theorem Grows.baseSet_eq (h : network.Grows next) : next.baseSet = network.baseSet := by
  induction h with
  | refl => rfl
  | insert _ inserted ih =>
      rcases insert_cases inserted with ⟨_, rfl⟩ | ⟨_, slot, rfl⟩ | ⟨_, rfl⟩
      · exact ih
      · exact ih
      · exact ih

theorem Grows.getElem?_fragments (h : network.Grows next)
    (kept : network.fragments[index]? = some fragment) :
    next.fragments[index]? = some fragment := by
  have stays : ∀ {fragments : ExtTreeMap Index Fragment} (new : Fragment),
      fragments[index]? = some fragment → (keep fragments new)[index]? = some fragment := by
    intro fragments new kept
    have member : index ∈ fragments := (ExtTreeMap.getElem?_eq_some_iff.mp kept).1
    rw [keep, ExtTreeMap.getElem?_insertIfNew, if_neg, kept]
    rintro ⟨here, absent⟩
    rw [LawfulEqOrd.compare_eq_iff_eq] at here
    exact absent (here ▸ member)
  induction h with
  | refl => exact kept
  | insert _ inserted ih =>
      rcases insert_cases inserted with ⟨_, rfl⟩ | ⟨_, slot, rfl⟩ | ⟨_, rfl⟩
      · exact stays _ (stays _ ih)
      · exact ih
      · exact ih

/-- What a fragment is resolved to: itself, or what its target stands for. -/
inductive Resolves (network : Network) (catalogue : Catalogue) : Fragment → Fragment → Prop where
  | itself {fragment : Fragment} :
    fragment.kind.target? = none → Resolves network catalogue fragment fragment
  | kept {fragment resolved : Fragment} {target : Index} :
    fragment.kind.target? = some target → network.fragments[target]? = some resolved →
      Resolves network catalogue fragment resolved
  | fetched {fragment resolved : Fragment} {target : Index} :
    fragment.kind.target? = some target → catalogue.fragment? target = .ok (some resolved) →
      Resolves network catalogue fragment resolved

theorem Resolves.mono (h : Resolves network catalogue fragment resolved)
    (grown : network.Grows next) : Resolves next catalogue fragment resolved := by
  cases h with
  | itself plain => exact .itself plain
  | kept locates kept => exact .kept locates (grown.getElem?_fragments kept)
  | fetched locates there => exact .fetched locates there

theorem Resolves.index_eq (h : Resolves network catalogue fragment resolved)
    (lawful : catalogue.Lawful) (coherent : network.Coherent) :
    resolved.index = fragment.meant := by
  cases h with
  | itself plain => rw [Fragment.meant, plain, Option.getD_none]
  | kept locates kept => rw [Fragment.meant, locates, Option.getD_some, (coherent.kept _ _ kept).1]
  | fetched locates there =>
      rw [Fragment.meant, locates, Option.getD_some, lawful.index _ _ there]

theorem Resolves.identity_eq {offer : Offer} (lawful : catalogue.Lawful)
    (coherent : network.Coherent) (arc : r.arc = offer.arc)
    (source : network.Resolves catalogue offer.source r.source)
    (target : network.Resolves catalogue offer.target r.target) :
    r.identity = offer.identity := by
  rw [Relationship.identity, Relationship.key, Offer.identity, arc,
    source.index_eq lawful coherent, target.index_eq lawful coherent]

/-- A network takes offers one after the other; those that were new are counted. -/
inductive Takes (catalogue : Catalogue) : Network → List Offer → Network → Nat → Prop where
  | nil {network : Network} : Takes catalogue network [] network 0
  | cons {network next last : Network} {offer : Offer} {offers : List Offer} {r : Relationship}
    {isNew : Bool} {added : Nat} :
    r.arc = offer.arc → r.link = offer.link →
      Resolves network catalogue offer.source r.source →
      Resolves network catalogue offer.target r.target →
      network.insert r = .ok (next, isNew) → Takes catalogue next offers last added →
      Takes catalogue network (offer :: offers) last (isNew.toNat + added)

variable {offers : List Offer}

theorem Takes.append {offers' : List Offer} {added' : Nat}
    (h : Takes catalogue network offers next added)
    (h' : Takes catalogue next offers' last added') :
    Takes catalogue network (offers ++ offers') last (added + added') := by
  induction h with
  | nil => rwa [List.nil_append, Nat.zero_add]
  | cons arc link source target inserted _ ih =>
      rw [Nat.add_assoc]
      exact .cons arc link source target inserted (ih h')

theorem Takes.grows (h : Takes catalogue network offers last added) : network.Grows last := by
  induction h with
  | nil => exact .refl
  | cons _ _ _ _ inserted _ ih => exact (Grows.insert .refl inserted).trans ih

theorem Takes.own (h : Takes catalogue network offers last added) :
    ∀ offer ∈ offers, (⟨offer.arc.role, offer.link.role⟩ : BaseSet) = network.baseSet := by
  induction h with
  | nil => simp
  | cons arc link _ _ inserted _ ih =>
      intro offer member
      rcases List.mem_cons.mp member with rfl | later
      · rw [← arc, ← link]
        exact baseSet_eq_of_insert inserted
      · rw [ih offer later, (Grows.insert .refl inserted).baseSet_eq]

/-- One network has the base set of another and keeps whatever fragment that one keeps. -/
structure CoveredBy (network other : Network) : Prop where
  baseSet : other.baseSet = network.baseSet
  fragments : ∀ index ∈ network.fragments, index ∈ other.fragments

theorem Grows.covered (h : network.Grows next) : network.CoveredBy next := by
  refine ⟨h.baseSet_eq, fun index member => ?_⟩
  obtain ⟨fragment, kept⟩ := Option.isSome_iff_exists.mp
    (ExtTreeMap.mem_iff_isSome_getElem?.mp member)
  exact (ExtTreeMap.getElem?_eq_some_iff.mp (h.getElem?_fragments kept)).1

end Network

namespace Catalogue

variable {catalogue : Catalogue} {network other : Network} {fragment : Fragment}

/-- A fragment can be followed: if it is a locator, its target is kept already or the catalogue
    has it, and that is no locator. -/
def CanFollow (catalogue : Catalogue) (network : Network) (fragment : Fragment) : Prop :=
  ∀ target, fragment.kind.target? = some target → target ∈ network.fragments ∨
    ∃ resolved, catalogue.fragment? target = .ok (some resolved) ∧ resolved.isLocator = false

/-- Nothing stands in the way of the offers of an arc: the ends are known and can be followed,
    and the arc belongs to the network. -/
structure ServesArc (catalogue : Catalogue) (network : Network) (link : ExtendedLink)
    (arc : Arc) : Prop where
  sources : ∃ fragments, catalogue.arcSources arc = .ok fragments ∧
    ∀ fragment ∈ fragments, catalogue.CanFollow network fragment
  targets : ∃ fragments, catalogue.arcTargets arc = .ok fragments ∧
    ∀ fragment ∈ fragments, catalogue.CanFollow network fragment
  own : catalogue.offersOfArc link arc ≠ [] → ⟨arc.role, link.role⟩ = network.baseSet

def ServesLink (catalogue : Catalogue) (network : Network) (arcRole : String)
    (link : ExtendedLink) : Prop :=
  ∃ arcs, catalogue.arcs link arcRole = .ok arcs ∧
    ∀ arc ∈ arcs, catalogue.ServesArc network link arc

/-- Nothing stands in the way of what is offered to the network of a base set. -/
def Serves (catalogue : Catalogue) (network : Network) (baseSet : BaseSet) : Prop :=
  ∃ links, catalogue.links baseSet.linkRole = .ok links ∧
    ∀ link ∈ links, catalogue.ServesLink network baseSet.arcRole link

theorem CanFollow.mono (h : catalogue.CanFollow network fragment)
    (covered : network.CoveredBy other) : catalogue.CanFollow other fragment := by
  intro target locates
  rcases h target locates with kept | there
  · exact .inl (covered.fragments target kept)
  · exact .inr there

/-- What serves one network serves another of the same base set for which all fragments can be
    followed that can be followed for the first. -/
theorem ServesArc.imp {link : ExtendedLink} {arc : Arc} (h : catalogue.ServesArc network link arc)
    (same : other.baseSet = network.baseSet)
    (follow : ∀ fragment, catalogue.CanFollow network fragment →
      catalogue.CanFollow other fragment) : catalogue.ServesArc other link arc := by
  obtain ⟨⟨sources, hasSources, fromSources⟩, ⟨targets, hasTargets, fromTargets⟩, own⟩ := h
  refine ⟨⟨sources, hasSources, ?_⟩, ⟨targets, hasTargets, ?_⟩, ?_⟩
  · exact fun fragment member => follow fragment (fromSources fragment member)
  · exact fun fragment member => follow fragment (fromTargets fragment member)
  · rwa [same]

theorem Serves.imp {baseSet : BaseSet} (h : catalogue.Serves network baseSet)
    (same : other.baseSet = network.baseSet)
    (follow : ∀ fragment, catalogue.CanFollow network fragment →
      catalogue.CanFollow other fragment) : catalogue.Serves other baseSet := by
  obtain ⟨links, hasLinks, serves⟩ := h
  refine ⟨links, hasLinks, fun link member => ?_⟩
  obtain ⟨arcs, hasArcs, serves⟩ := serves link member
  exact ⟨arcs, hasArcs, fun arc member => (serves arc member).imp same follow⟩

theorem ServesArc.mono {link : ExtendedLink} {arc : Arc} (h : catalogue.ServesArc network link arc)
    (covered : network.CoveredBy other) : catalogue.ServesArc other link arc :=
  h.imp covered.baseSet fun _ can => can.mono covered

theorem ServesLink.mono {arcRole : String} {link : ExtendedLink}
    (h : catalogue.ServesLink network arcRole link) (covered : network.CoveredBy other) :
    catalogue.ServesLink other arcRole link := by
  obtain ⟨arcs, hasArcs, serves⟩ := h
  exact ⟨arcs, hasArcs, fun arc member => (serves arc member).mono covered⟩

theorem Serves.mono {baseSet : BaseSet} (h : catalogue.Serves network baseSet)
    (covered : network.CoveredBy other) : catalogue.Serves other baseSet :=
  h.imp covered.baseSet fun _ can => can.mono covered

end Catalogue

theorem Network.Resolves.canFollow {catalogue : Catalogue} {network : Network}
    {fragment resolved : Fragment} (h : network.Resolves catalogue fragment resolved)
    (plain : resolved.isLocator = false) : catalogue.CanFollow network fragment := by
  intro target locates
  cases h with
  | itself noTarget =>
      rw [noTarget] at locates
      cases locates
  | kept locates' kept =>
      rw [locates'] at locates
      cases locates
      exact .inl (ExtTreeMap.getElem?_eq_some_iff.mp kept).1
  | fetched locates' there =>
      rw [locates'] at locates
      cases locates
      exact .inr ⟨resolved, there, plain⟩

end XbrlNetworks
