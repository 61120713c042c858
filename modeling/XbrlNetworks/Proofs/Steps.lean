import XbrlNetworks.Proofs.Loading
import XbrlNetworks.Proofs.Offers

/-! # The steps of filling

Filling works off the arcs of a base set, link by link and in each link arc by
arc.  In loaded documents these steps stand in ascending order, each at most
once, and every question on the way is answered.
-/

namespace XbrlNetworks

open Std

/-- An arc of a link that filling works off. -/
structure Step where
  link : ExtendedLink
  arc : Arc

protected def Step.compare : Step → Step → Ordering :=
  compareLex (compareOn fun step => step.link.index) (compareOn fun step => step.arc.index)

instance : TransCmp Step.compare :=
  inferInstanceAs (TransCmp (compareLex (compareOn fun step : Step => step.link.index)
    (compareOn fun step => step.arc.index)))

/-- One of the two ends of an arc. -/
inductive Side where
  | source
  | target
deriving DecidableEq, Repr

namespace Side

def rank : Side → Nat
  | source => 0
  | target => 1

def labelOf : Side → ArcRow → String
  | source => ArcRow.sourceLabel
  | target => ArcRow.targetLabel

end Side

namespace Catalogue

variable (catalogue : Catalogue)

/-- The fragments at one side of an arc, locators not resolved. -/
def ends : Side → Arc → Except StoreFault (List Fragment)
  | .source => catalogue.arcSources
  | .target => catalogue.arcTargets

def stepsOfLink (arcRole : String) (link : ExtendedLink) : List Step :=
  (answered (catalogue.arcs link arcRole)).map (Step.mk link)

/-- The steps of filling the network of a base set, in order. -/
def steps (baseSet : BaseSet) : List Step :=
  (answered (catalogue.links baseSet.linkRole)).flatMap (catalogue.stepsOfLink baseSet.arcRole)

def offersOfStep (step : Step) : List Offer :=
  catalogue.offersOfArc step.link step.arc

theorem offersOfLink_eq (arcRole : String) (link : ExtendedLink) :
    catalogue.offersOfLink arcRole link =
      (catalogue.stepsOfLink arcRole link).flatMap catalogue.offersOfStep := by
  rw [stepsOfLink, List.flatMap_map]
  rfl

theorem offers_eq (baseSet : BaseSet) :
    catalogue.offers baseSet = (catalogue.steps baseSet).flatMap catalogue.offersOfStep := by
  rw [offers, steps, List.flatMap_assoc]
  exact List.flatMap_congr fun link _ => catalogue.offersOfLink_eq baseSet.arcRole link

variable {catalogue}

theorem mem_offersOfStep {step : Step} {offer : Offer} :
    offer ∈ catalogue.offersOfStep step ↔ offer.link = step.link ∧ offer.arc = step.arc ∧
      offer.source ∈ answered (catalogue.arcSources step.arc) ∧
      offer.target ∈ answered (catalogue.arcTargets step.arc) := by
  obtain ⟨link, arc, source, target⟩ := offer
  simp only [offersOfStep, offersOfArc, List.mem_flatMap, List.mem_map, Offer.mk.injEq]
  constructor
  · rintro ⟨_, inSources, _, inTargets, rfl, rfl, rfl, rfl⟩
    exact ⟨rfl, rfl, inSources, inTargets⟩
  · rintro ⟨rfl, rfl, inSources, inTargets⟩
    exact ⟨source, inSources, target, inTargets, rfl, rfl, rfl, rfl⟩

/-- All that filling asks is answered, with links and arcs of the roles that were asked for. -/
structure Answers (catalogue : Catalogue) (baseSet : BaseSet) : Prop where
  fragments : ∀ index, ∃ found, catalogue.fragment? index = .ok found
  links : ∃ links, catalogue.links baseSet.linkRole = .ok links ∧
    ∀ link ∈ links, link.role = baseSet.linkRole
  arcs : ∀ link, ∃ arcs, catalogue.arcs link baseSet.arcRole = .ok arcs ∧
    ∀ arc ∈ arcs, arc.role = baseSet.arcRole ∧
      ∀ side, ∃ fragments, catalogue.ends side arc = .ok fragments

end Catalogue

namespace Documents

variable {documents : Documents} {baseSet : BaseSet} {link : Index} {arc : Arc}
  {sourceLabel targetLabel : String}

theorem Readable.exists_ends (h : documents.Readable)
    (has : documents.HasArc link sourceLabel targetLabel arc) (side : Side) :
    ∃ fragments, documents.catalogue.ends side arc = .ok fragments ∧
      Ascending (compareOn Fragment.index) fragments ∧
      ∀ fragment, fragment ∈ fragments ↔ documents.Carries link
        (side.labelOf (.ofArc link sourceLabel targetLabel arc)) fragment := by
  have asks : documents.catalogue.ends side arc = documents.arcEnds side.labelOf arc := by
    cases side with
    | source => rfl
    | target => rfl
  rw [asks, has.arcEnds_eq]
  exact h.exists_labelled link _

theorem Readable.mem_offersOfStep (h : documents.Readable) {step : Step} {offer : Offer}
    (has : documents.HasArc step.link.index sourceLabel targetLabel step.arc) :
    offer ∈ documents.catalogue.offersOfStep step ↔ offer.link = step.link ∧
      offer.arc = step.arc ∧ documents.Carries step.link.index sourceLabel offer.source ∧
      documents.Carries step.link.index targetLabel offer.target := by
  obtain ⟨sources, asked, _, mem_sources⟩ := h.exists_ends has .source
  obtain ⟨targets, asked', _, mem_targets⟩ := h.exists_ends has .target
  simp only [Catalogue.ends] at asked asked'
  rw [Catalogue.mem_offersOfStep, asked, asked', Catalogue.answered_ok, Catalogue.answered_ok,
    mem_sources, mem_targets]
  rfl

theorem Readable.mem_steps (h : documents.Readable) {step : Step} :
    step ∈ documents.catalogue.steps baseSet ↔
      documents.links[step.link.index]? = some baseSet.linkRole ∧
      step.link.role = baseSet.linkRole ∧ step.arc.role = baseSet.arcRole ∧
      ∃ sourceLabel targetLabel,
        documents.HasArc step.link.index sourceLabel targetLabel step.arc := by
  obtain ⟨link, arc⟩ := step
  obtain ⟨arcs, asked, _, mem_arcs⟩ := h.exists_arcsInLink link baseSet.arcRole
  have mem_link : link ∈ documents.linksWithRole baseSet.linkRole ↔ _ := mem_linksWithRole
  simp only [Catalogue.steps, Catalogue.stepsOfLink, catalogue, Catalogue.answered_ok,
    List.mem_flatMap, List.mem_map, Step.mk.injEq]
  constructor
  · rintro ⟨_, inLinks, _, inArcs, rfl, rfl⟩
    rw [asked, Catalogue.answered_ok] at inArcs
    exact ⟨(mem_link.mp inLinks).1, (mem_link.mp inLinks).2, (mem_arcs _).mp inArcs⟩
  · rintro ⟨found, role, has⟩
    refine ⟨link, mem_link.mpr ⟨found, role⟩, arc, ?_, rfl, rfl⟩
    rw [asked, Catalogue.answered_ok]
    exact (mem_arcs _).mpr has

/-- What is offered are the arcs of the base set between all fragments that carry their labels. -/
theorem Readable.mem_offers (h : documents.Readable) {offer : Offer} :
    offer ∈ documents.catalogue.offers baseSet ↔
      documents.links[offer.link.index]? = some baseSet.linkRole ∧
      offer.link.role = baseSet.linkRole ∧ offer.arc.role = baseSet.arcRole ∧
      ∃ sourceLabel targetLabel,
        documents.HasArc offer.link.index sourceLabel targetLabel offer.arc ∧
        documents.Carries offer.link.index sourceLabel offer.source ∧
        documents.Carries offer.link.index targetLabel offer.target := by
  rw [Catalogue.offers_eq, List.mem_flatMap]
  constructor
  · rintro ⟨step, member, offered⟩
    obtain ⟨found, linkRole, arcRole, sourceLabel, targetLabel, has⟩ := h.mem_steps.mp member
    obtain ⟨link, arc, source, target⟩ := (h.mem_offersOfStep has).mp offered
    rw [link, arc]
    exact ⟨found, linkRole, arcRole, sourceLabel, targetLabel, has, source, target⟩
  · rintro ⟨found, linkRole, arcRole, sourceLabel, targetLabel, has, source, target⟩
    exact ⟨⟨offer.link, offer.arc⟩,
      h.mem_steps.mpr ⟨found, linkRole, arcRole, sourceLabel, targetLabel, has⟩,
      (h.mem_offersOfStep has).mpr ⟨rfl, rfl, source, target⟩⟩

theorem Readable.ascending_steps (h : documents.Readable) (baseSet : BaseSet) :
    Ascending Step.compare (documents.catalogue.steps baseSet) := by
  have links : Ascending (compareOn ExtendedLink.index)
      (documents.linksWithRole baseSet.linkRole) := ascending_linksWithRole _
  refine links.flatMap (fun link _ => ?_) (fun link _ step member => ?_)
  · obtain ⟨arcs, asked, ascends, _⟩ := h.exists_arcsInLink link baseSet.arcRole
    change Ascending _ ((Catalogue.answered (documents.arcsInLink link baseSet.arcRole)).map _)
    rw [asked]
    exact List.pairwise_map.mpr ascends
  · obtain ⟨_, _, rfl⟩ := List.mem_map.mp member
    rfl

theorem Readable.answers (h : documents.Readable) (baseSet : BaseSet) :
    documents.catalogue.Answers baseSet where
  fragments := by
    intro index
    rcases h.fragment_cases index with absent | ⟨fragment, rfl, has⟩
    · exact ⟨none, fragment?_eq_none absent⟩
    · exact ⟨some fragment, has.fragment?_eq⟩
  links := ⟨documents.linksWithRole baseSet.linkRole, rfl, fun _ member =>
    (mem_linksWithRole.mp member).2⟩
  arcs := by
    intro link
    obtain ⟨arcs, asked, _, mem_arcs⟩ := h.exists_arcsInLink link baseSet.arcRole
    refine ⟨arcs, asked, fun arc member => ?_⟩
    obtain ⟨role, _, _, has⟩ := (mem_arcs arc).mp member
    refine ⟨role, fun side => ?_⟩
    obtain ⟨fragments, ends, _⟩ := h.exists_ends has side
    exact ⟨fragments, ends⟩

end Documents

end XbrlNetworks
