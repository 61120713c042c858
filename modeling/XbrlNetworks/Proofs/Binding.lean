import XbrlNetworks.Proofs.Offers

/-! # What stands for a fragment

A network keeps the first fragment of an index, and whatever is not kept is
looked up in the catalogue.  Taking offers keeps more fragments, but only such as
stood for their indexes before, so an offer is always bound to the same
relationship, however often the work is interrupted and begun anew.
-/

namespace XbrlNetworks

open Std

namespace Catalogue

variable {catalogue : Catalogue} {fragments : ExtTreeMap Index Fragment}
  {fragment added resolved : Fragment} {index : Index} {network other : Network}

/-- The fragment that stands for an index: the one that is kept, or else the catalogue's. -/
def standing (catalogue : Catalogue) (fragments : ExtTreeMap Index Fragment) (index : Index) :
    Option Fragment :=
  fragments[index]?.or (catalogue.fragment? index).toOption.join

/-- What a fragment is resolved to, once and for all: itself, or what stands for its target. -/
def resolved? (catalogue : Catalogue) (fragments : ExtTreeMap Index Fragment)
    (fragment : Fragment) : Option Fragment :=
  match fragment.kind.target? with
  | none => some fragment
  | some target => catalogue.standing fragments target

/-- A fragment may be kept without changing what stands for its index. -/
def Vouches (catalogue : Catalogue) (fragments : ExtTreeMap Index Fragment)
    (fragment : Fragment) : Prop :=
  fragment.index ∈ fragments ∨ catalogue.fragment? fragment.index = .ok (some fragment)

theorem standing_of_kept (kept : fragments[index]? = some fragment) :
    catalogue.standing fragments index = some fragment := by
  rw [standing, kept, Option.some_or]

theorem standing_of_fetched {found : Option Fragment} (absent : fragments[index]? = none)
    (there : catalogue.fragment? index = .ok found) :
    catalogue.standing fragments index = found := by
  rw [standing, absent, Option.none_or, there]
  rfl

theorem standing_cases (h : catalogue.standing fragments index = some fragment) :
    fragments[index]? = some fragment ∨
      fragments[index]? = none ∧ catalogue.fragment? index = .ok (some fragment) := by
  cases kept : fragments[index]? with
  | some first =>
      rw [standing_of_kept kept] at h
      exact .inl h
  | none =>
      cases there : catalogue.fragment? index with
      | error fault => simp [standing, kept, there, Except.toOption] at h
      | ok found =>
          rw [standing_of_fetched kept there] at h
          exact .inr ⟨rfl, by rw [h]⟩

theorem resolved?_eq_some_iff : catalogue.resolved? fragments fragment = some resolved ↔
    fragment.kind.target? = none ∧ fragment = resolved ∨
      ∃ target, fragment.kind.target? = some target ∧
        catalogue.standing fragments target = some resolved := by
  unfold resolved?
  cases fragment.kind.target? with
  | none => simp
  | some target => simp

theorem Vouches.mono (h : catalogue.Vouches network.fragments fragment)
    (covered : network.CoveredBy other) : catalogue.Vouches other.fragments fragment :=
  h.imp_left (covered.fragments fragment.index)

/-- Keeping a fragment that is vouched for leaves every index its fragment. -/
theorem standing_keep (h : catalogue.Vouches fragments added) (index : Index) :
    catalogue.standing (Network.keep fragments added) index =
      catalogue.standing fragments index := by
  simp only [standing, Network.keep, ExtTreeMap.getElem?_insertIfNew,
    LawfulEqOrd.compare_eq_iff_eq]
  split
  · rename_i new
    obtain ⟨rfl, absent⟩ := new
    rw [h.resolve_left absent, ExtTreeMap.getElem?_eq_none absent]
    rfl
  · rfl

theorem vouches_of_resolved? (lawful : catalogue.Lawful) (coherent : network.Coherent)
    (loaded : catalogue.fragment? fragment.index = .ok (some fragment))
    (h : catalogue.resolved? network.fragments fragment = some resolved) :
    catalogue.Vouches network.fragments resolved := by
  rcases resolved?_eq_some_iff.mp h with ⟨_, rfl⟩ | ⟨target, _, stands⟩
  · exact .inr loaded
  · rcases standing_cases stands with kept | ⟨_, there⟩
    · have here := (coherent.kept target resolved kept).1
      exact .inl (here ▸ (ExtTreeMap.getElem?_eq_some_iff.mp kept).1)
    · exact .inr (by rwa [lawful.index target resolved there])

/-- The same fragments stand for all indexes in two networks. -/
def StandsAlike (catalogue : Catalogue) (network other : Network) : Prop :=
  ∀ index, catalogue.standing other.fragments index = catalogue.standing network.fragments index

theorem StandsAlike.trans {third : Network} (h : catalogue.StandsAlike network other)
    (h' : catalogue.StandsAlike other third) : catalogue.StandsAlike network third :=
  fun index => (h' index).trans (h index)

theorem StandsAlike.symm (h : catalogue.StandsAlike network other) :
    catalogue.StandsAlike other network :=
  fun index => (h index).symm

theorem StandsAlike.resolved?_eq (h : catalogue.StandsAlike network other) (fragment : Fragment) :
    catalogue.resolved? other.fragments fragment =
      catalogue.resolved? network.fragments fragment := by
  unfold resolved?
  cases fragment.kind.target? with
  | none => rfl
  | some target => exact h target

theorem standsAlike_insert {r : Relationship} {isNew : Bool}
    (source : catalogue.Vouches network.fragments r.source)
    (target : catalogue.Vouches network.fragments r.target)
    (inserted : network.insert r = .ok (other, isNew)) : catalogue.StandsAlike network other := by
  have target' : catalogue.Vouches (Network.keep network.fragments r.source) r.target :=
    target.imp_left fun kept => Network.mem_keep.mpr (.inr kept)
  rcases Network.insert_cases inserted with ⟨_, rfl⟩ | ⟨_, slot, rfl⟩ | ⟨_, rfl⟩
  · exact fun index => (standing_keep target' index).trans (standing_keep source index)
  · exact fun _ => rfl
  · exact fun _ => rfl

/-- Whether a fragment can be followed is decided by what stands for its target. -/
theorem canFollow_iff (coherent : network.Coherent) :
    catalogue.CanFollow network fragment ↔ ∀ target, fragment.kind.target? = some target →
      ∃ resolved, catalogue.standing network.fragments target = some resolved ∧
        resolved.isLocator = false := by
  refine forall₂_congr fun target _ => ?_
  cases kept : network.fragments[target]? with
  | some first =>
      have member : target ∈ network.fragments := (ExtTreeMap.getElem?_eq_some_iff.mp kept).1
      have plain := (coherent.kept target first kept).2
      simp [member, standing_of_kept kept, plain]
  | none =>
      have absent : target ∉ network.fragments := by
        simp [ExtTreeMap.mem_iff_isSome_getElem?, kept]
      constructor
      · rintro (member | ⟨resolved, there, plain⟩)
        · exact absurd member absent
        · exact ⟨resolved, standing_of_fetched kept there, plain⟩
      · rintro ⟨resolved, stands, plain⟩
        rcases standing_cases stands with first | ⟨_, there⟩
        · rw [kept] at first
          cases first
        · exact .inr ⟨resolved, there, plain⟩

theorem CanFollow.of_standsAlike (h : catalogue.CanFollow network fragment)
    (coherent : network.Coherent) (coherent' : other.Coherent)
    (alike : catalogue.StandsAlike network other) : catalogue.CanFollow other fragment := by
  rw [canFollow_iff coherent']
  rw [canFollow_iff coherent] at h
  simpa only [alike _] using h

end Catalogue

namespace Network

variable {catalogue : Catalogue} {network other : Network} {offer : Offer} {r r' : Relationship}

/-- An offer is bound to a relationship, each end to what it is resolved to. -/
structure Binds (catalogue : Catalogue) (network : Network) (offer : Offer) (r : Relationship) :
    Prop where
  arc : r.arc = offer.arc
  link : r.link = offer.link
  source : catalogue.resolved? network.fragments offer.source = some r.source
  target : catalogue.resolved? network.fragments offer.target = some r.target

theorem binds_rightUnique : Relator.RightUnique (Binds catalogue network) := by
  intro offer r r' binds binds'
  have source := Option.some.inj (binds.source.symm.trans binds'.source)
  have target := Option.some.inj (binds.target.symm.trans binds'.target)
  cases r
  cases r'
  simp only [Relationship.mk.injEq]
  exact ⟨binds.arc.trans binds'.arc.symm, source, target, binds.link.trans binds'.link.symm⟩

theorem Binds.of_standsAlike (h : Binds catalogue network offer r)
    (alike : catalogue.StandsAlike network other) : Binds catalogue other offer r :=
  ⟨h.arc, h.link, by rw [alike.resolved?_eq, h.source], by rw [alike.resolved?_eq, h.target]⟩

end Network

end XbrlNetworks
