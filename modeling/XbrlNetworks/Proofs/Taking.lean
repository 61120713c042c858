import XbrlNetworks.Proofs.Offers

/-! # Filling takes what is offered

Filling that succeeds has taken every offer of the catalogue, whatever the
outage and the limit were: every question was answered, every locator could be
followed and every arc belonged to the base set.
-/

namespace XbrlNetworks

theorem Relationship.of_bind_eq_ok {arc : Arc} {source target : Fragment} {link : ExtendedLink}
    {r : Relationship} (h : Relationship.bind arc source target link = .ok r) :
    r.arc = arc ∧ r.source = source ∧ r.target = target ∧ r.link = link := by
  unfold Relationship.bind at h
  split at h
  · cases h
  split at h
  · cases h
  split at h
  · cases h
  split at h
  · cases h
  cases h
  exact ⟨rfl, rfl, rfl, rfl⟩

theorem Outage.of_answer_eq_ok {α : Type} {outage : Outage} {calls : Nat}
    {truth : Except StoreFault α} {answer : α} (h : outage.answer calls truth = .ok answer) :
    truth = .ok answer := by
  unfold Outage.answer at h
  split at h
  · cases h
  · exact h

namespace Filling

variable {α β : Type} {connection : Connection} {limit : TimeLimit} {progress progress' : Progress}

/-- Work that leaves network and count alone. -/
def Unmoved (progress progress' : Progress) : Prop :=
  progress'.network = progress.network ∧ progress'.added = progress.added

theorem Unmoved.trans {first second third : Progress} (h : Unmoved first second)
    (h' : Unmoved second third) : Unmoved first third :=
  ⟨h'.1.trans h.1, h'.2.trans h.2⟩

theorem bind_eq_ok {work : Filling α} {next : α → Filling β} {answer : β}
    (h : (work >>= next) progress = .ok answer progress') :
    ∃ middle between, work progress = .ok middle between ∧
      next middle between = .ok answer progress' := by
  change EStateM.bind work next progress = _ at h
  simp only [EStateM.bind] at h
  cases done : work progress with
  | error failure stopped =>
      rw [done] at h
      cases h
  | ok middle between =>
      rw [done] at h
      exact ⟨middle, between, rfl, h⟩

theorem ask_eq_ok {outage : Outage} {truth : Except StoreFault α} {answer : α}
    (h : ask outage truth progress = .ok answer progress') :
    truth = .ok answer ∧ Unmoved progress progress' := by
  obtain ⟨_, _, got, h⟩ := bind_eq_ok h
  cases got
  obtain ⟨_, _, put, h⟩ := bind_eq_ok h
  cases put
  cases answered : outage.answer progress.calls truth with
  | error fault =>
      simp only [answered] at h
      cases h
  | ok answer =>
      simp only [answered] at h
      cases h
      exact ⟨Outage.of_answer_eq_ok answered, rfl, rfl⟩

theorem checkTime_eq_ok (h : checkTime limit progress = .ok () progress') :
    progress' = progress := by
  obtain ⟨_, _, got, h⟩ := bind_eq_ok h
  cases got
  cases spent : limit.spent? progress.calls with
  | some passed =>
      simp only [spent] at h
      cases h
  | none =>
      simp only [spent] at h
      cases h
      rfl

theorem lookUp_eq_ok {locator target : Index} {resolved : Fragment}
    (h : lookUp connection locator target progress = .ok resolved progress') :
    (progress.network.fragments[target]? = some resolved ∨
      connection.catalogue.fragment? target = .ok (some resolved)) ∧
      Unmoved progress progress' := by
  obtain ⟨_, _, got, h⟩ := bind_eq_ok h
  cases got
  cases kept : progress.network.fragments[target]? with
  | some fragment =>
      simp only [kept] at h
      cases h
      exact ⟨.inl rfl, rfl, rfl⟩
  | none =>
      simp only [kept] at h
      obtain ⟨found, between, asked, h⟩ := bind_eq_ok h
      obtain ⟨there, unmoved⟩ := ask_eq_ok asked
      cases found with
      | none => cases h
      | some fragment =>
          cases h
          exact ⟨.inr there, unmoved⟩

theorem resolve_eq_ok {fragment resolved : Fragment}
    (h : resolve connection fragment progress = .ok resolved progress') :
    (progress.network.Resolves connection.catalogue fragment resolved ∧
      resolved.isLocator = false) ∧ Unmoved progress progress' := by
  unfold resolve at h
  cases locates : fragment.kind.target? with
  | none =>
      simp only [locates] at h
      cases h
      exact ⟨⟨.itself locates, by simp [Fragment.isLocator, locates]⟩, rfl, rfl⟩
  | some target =>
      simp only [locates] at h
      obtain ⟨found, between, looked, h⟩ := bind_eq_ok h
      obtain ⟨there, unmoved⟩ := lookUp_eq_ok looked
      cases chained : found.isLocator with
      | true =>
          simp only [chained, if_true] at h
          cases h
      | false =>
          simp only [chained, Bool.false_eq_true, if_false] at h
          cases h
          rcases there with kept | there
          · exact ⟨⟨.kept locates kept, chained⟩, unmoved⟩
          · exact ⟨⟨.fetched locates there, chained⟩, unmoved⟩

theorem mapM_resolve_eq_ok {fragments resolved : List Fragment}
    (h : fragments.mapM (resolve connection) progress = .ok resolved progress') :
    List.Forall₂ (fun fragment end_ =>
      progress.network.Resolves connection.catalogue fragment end_ ∧ end_.isLocator = false)
      fragments resolved ∧ Unmoved progress progress' := by
  induction fragments generalizing resolved progress with
  | nil =>
      cases h
      exact ⟨.nil, rfl, rfl⟩
  | cons fragment fragments ih =>
      rw [List.mapM_cons] at h
      obtain ⟨first, between, resolves, h⟩ := bind_eq_ok h
      obtain ⟨rest, last, resolvesRest, h⟩ := bind_eq_ok h
      cases h
      obtain ⟨end_, unmoved⟩ := resolve_eq_ok resolves
      obtain ⟨ends, unmoved'⟩ := ih resolvesRest
      rw [unmoved.1] at ends
      exact ⟨.cons end_ ends, unmoved.trans unmoved'⟩

theorem ends_eq_ok {truth : Except StoreFault (List Fragment)}
    {next : List Fragment → Filling β} {answer : β}
    (h : (do
      let fragments ← ask connection.outage truth
      let ends ← fragments.mapM (resolve connection)
      next ends) progress = .ok answer progress') :
    ∃ fragments ends between, truth = .ok fragments ∧
      List.Forall₂ (fun fragment end_ =>
        progress.network.Resolves connection.catalogue fragment end_ ∧ end_.isLocator = false)
        fragments ends ∧
      Unmoved progress between ∧ next ends between = .ok answer progress' := by
  obtain ⟨fragments, asked, answered, h⟩ := bind_eq_ok h
  obtain ⟨there, unmoved⟩ := ask_eq_ok answered
  obtain ⟨ends, between, resolved, h⟩ := bind_eq_ok h
  obtain ⟨atEnds, unmoved'⟩ := mapM_resolve_eq_ok resolved
  rw [unmoved.1] at atEnds
  exact ⟨fragments, ends, between, there, atEnds, unmoved.trans unmoved', h⟩

theorem addPair_eq_ok {link : ExtendedLink} {arc : Arc} {source target : Fragment}
    (h : addPair link arc source target progress = .ok () progress') :
    ∃ r isNew, Relationship.bind arc source target link = .ok r ∧
      progress.network.insert r = .ok (progress'.network, isNew) ∧
      progress'.added = progress.added + isNew.toNat := by
  unfold addPair at h
  cases bound : Relationship.bind arc source target link with
  | error flaw =>
      simp only [bound] at h
      cases h
  | ok r =>
      simp only [bound] at h
      obtain ⟨_, _, got, h⟩ := bind_eq_ok h
      cases got
      cases inserted : progress.network.insert r with
      | error failure =>
          simp only [inserted] at h
          cases h
      | ok answer =>
          simp only [inserted] at h
          cases h
          exact ⟨r, answer.2, rfl, inserted, rfl⟩

/-- Work that takes some offers and counts those that were new. -/
def Taken (catalogue : Catalogue) (progress : Progress) (offers : List Offer)
    (progress' : Progress) : Prop :=
  ∃ added, progress.network.Takes catalogue offers progress'.network added ∧
    progress'.added = progress.added + added

section Taken

variable {catalogue : Catalogue} {first second third : Progress} {offers offers' : List Offer}

theorem Taken.nil : Taken catalogue first [] first :=
  ⟨0, .nil, rfl⟩

theorem Taken.append (h : Taken catalogue first offers second)
    (h' : Taken catalogue second offers' third) :
    Taken catalogue first (offers ++ offers') third := by
  obtain ⟨added, takes, counted⟩ := h
  obtain ⟨added', takes', counted'⟩ := h'
  exact ⟨added + added', takes.append takes', by omega⟩

theorem Unmoved.taken (h : Unmoved first second) (h' : Taken catalogue second offers third) :
    Taken catalogue first offers third := by
  obtain ⟨added, takes, counted⟩ := h'
  rw [h.1] at takes
  exact ⟨added, takes, by rw [counted, h.2]⟩

end Taken

section Runs

variable {link : ExtendedLink} {arc : Arc} {network : Network}

theorem addPairs_eq_ok {source end_ : Fragment} {targets ends : List Fragment}
    (atSource : network.Resolves connection.catalogue source end_)
    (atTargets : List.Forall₂ (network.Resolves connection.catalogue) targets ends)
    (grown : network.Grows progress.network)
    (h : ends.forM (addPair link arc end_) progress = .ok () progress') :
    Taken connection.catalogue progress (targets.map fun target => ⟨link, arc, source, target⟩)
      progress' := by
  induction atTargets generalizing progress with
  | nil =>
      cases h
      exact .nil
  | cons resolves _ ih =>
      obtain ⟨_, between, one, rest⟩ := bind_eq_ok h
      obtain ⟨r, isNew, bound, inserted, counted⟩ := addPair_eq_ok one
      obtain ⟨rfl, rfl, rfl, rfl⟩ := Relationship.of_bind_eq_ok bound
      obtain ⟨added, takes, counted'⟩ := ih (grown.insert inserted) rest
      exact ⟨isNew.toNat + added, .cons rfl rfl (atSource.mono grown) (resolves.mono grown)
        inserted takes, by omega⟩

theorem addAllPairs_eq_ok {sources starts targets ends : List Fragment}
    (atSources : List.Forall₂ (network.Resolves connection.catalogue) sources starts)
    (atTargets : List.Forall₂ (network.Resolves connection.catalogue) targets ends)
    (grown : network.Grows progress.network)
    (h : starts.forM (fun start => ends.forM (addPair link arc start)) progress =
      .ok () progress') :
    Taken connection.catalogue progress (sources.flatMap fun source =>
      targets.map fun target => ⟨link, arc, source, target⟩) progress' := by
  induction atSources generalizing progress with
  | nil =>
      cases h
      exact .nil
  | cons resolves _ ih =>
      obtain ⟨_, between, one, rest⟩ := bind_eq_ok h
      have taken := addPairs_eq_ok resolves atTargets grown one
      have grown' : network.Grows between.network := by
        obtain ⟨_, takes, _⟩ := taken
        exact grown.trans takes.grows
      exact Taken.append taken (ih grown' rest)

end Runs

section Whole

variable {link : ExtendedLink} {arc : Arc}

theorem canFollow_of_forall₂ {catalogue : Catalogue} {network next : Network}
    {fragments ends : List Fragment}
    (atEnds : List.Forall₂ (fun fragment end_ =>
      network.Resolves catalogue fragment end_ ∧ end_.isLocator = false) fragments ends)
    (grown : network.Grows next) : ∀ fragment ∈ fragments, catalogue.CanFollow next fragment := by
  intro fragment member
  obtain ⟨_, _, resolves, plain⟩ := exists_of_forall₂ atEnds member
  exact (resolves.mono grown).canFollow plain

theorem addArc_eq_ok (h : addArc connection limit link arc progress = .ok () progress') :
    Taken connection.catalogue progress (connection.catalogue.offersOfArc link arc) progress' ∧
      connection.catalogue.ServesArc progress'.network link arc := by
  obtain ⟨_, _, timed, inTime⟩ := bind_eq_ok h
  obtain rfl := checkTime_eq_ok timed
  obtain ⟨sources, starts, first, hasSources, atSources, unmoved, h⟩ := ends_eq_ok inTime
  obtain ⟨targets, ends, second, hasTargets, atTargets, unmoved', h⟩ := ends_eq_ok h
  rw [← unmoved.1, ← unmoved'.1] at atSources
  rw [← unmoved'.1] at atTargets
  have taken := addAllPairs_eq_ok (atSources.imp fun _ _ resolves => resolves.1)
    (atTargets.imp fun _ _ resolves => resolves.1) .refl h
  have offers : connection.catalogue.offersOfArc link arc = sources.flatMap fun source =>
      targets.map fun target => ⟨link, arc, source, target⟩ := by
    simp only [Catalogue.offersOfArc, hasSources, hasTargets, Catalogue.answered_ok]
  rw [← offers] at taken
  refine ⟨unmoved.taken (unmoved'.taken taken), ?_⟩
  obtain ⟨_, takes, _⟩ := taken
  refine ⟨⟨sources, hasSources, canFollow_of_forall₂ atSources takes.grows⟩,
    ⟨targets, hasTargets, canFollow_of_forall₂ atTargets takes.grows⟩, fun something => ?_⟩
  obtain ⟨offer, member⟩ := List.exists_mem_of_ne_nil _ something
  obtain ⟨rfl, rfl⟩ := Catalogue.of_mem_offersOfArc _ member
  rw [takes.own offer member, takes.grows.baseSet_eq]

/-- Items that are worked off one after the other take what each of them offers, and what comes
    to hold of one of them stays so. -/
theorem forM_eq_ok {catalogue : Catalogue} {work : α → Filling Unit}
    (offersOf : α → List Offer) (served : α → Network → Prop)
    (stays : ∀ item network next, network.Grows next → served item network → served item next)
    (each : ∀ item progress progress', work item progress = .ok () progress' →
      Taken catalogue progress (offersOf item) progress' ∧ served item progress'.network)
    {items : List α} (h : items.forM work progress = .ok () progress') :
    Taken catalogue progress (items.flatMap offersOf) progress' ∧
      ∀ item ∈ items, served item progress'.network := by
  induction items generalizing progress with
  | nil =>
      cases h
      exact ⟨.nil, by simp⟩
  | cons item items ih =>
      obtain ⟨_, between, one, rest⟩ := bind_eq_ok h
      obtain ⟨taken, serves⟩ := each item progress between one
      obtain ⟨takenRest, servesRest⟩ := ih rest
      refine ⟨taken.append takenRest, ?_⟩
      intro other member
      rcases List.mem_cons.mp member with rfl | later
      · obtain ⟨_, takes, _⟩ := takenRest
        exact stays _ _ _ takes.grows serves
      · exact servesRest other later

theorem addLink_eq_ok {arcRole : String}
    (h : addLink connection limit arcRole link progress = .ok () progress') :
    Taken connection.catalogue progress (connection.catalogue.offersOfLink arcRole link)
      progress' ∧ connection.catalogue.ServesLink progress'.network arcRole link := by
  obtain ⟨_, _, timed, inTime⟩ := bind_eq_ok h
  obtain rfl := checkTime_eq_ok timed
  obtain ⟨arcs, between, asked, h⟩ := bind_eq_ok inTime
  obtain ⟨hasArcs, unmoved⟩ := ask_eq_ok asked
  obtain ⟨taken, serves⟩ := forM_eq_ok (connection.catalogue.offersOfArc link)
    (fun arc network => connection.catalogue.ServesArc network link arc)
    (fun _ _ _ grown serves => serves.mono grown.covered) (fun _ _ _ done => addArc_eq_ok done) h
  have offers : connection.catalogue.offersOfLink arcRole link =
      arcs.flatMap (connection.catalogue.offersOfArc link) := by
    rw [Catalogue.offersOfLink, hasArcs, Catalogue.answered_ok]
  rw [offers]
  exact ⟨unmoved.taken taken, arcs, hasArcs, serves⟩

theorem addAll_eq_ok {baseSet : BaseSet}
    (h : addAll connection limit baseSet progress = .ok () progress') :
    Taken connection.catalogue progress (connection.catalogue.offers baseSet) progress' ∧
      connection.catalogue.Serves progress'.network baseSet := by
  obtain ⟨links, between, asked, h⟩ := bind_eq_ok h
  obtain ⟨hasLinks, unmoved⟩ := ask_eq_ok asked
  obtain ⟨taken, serves⟩ := forM_eq_ok (connection.catalogue.offersOfLink baseSet.arcRole)
    (fun link network => connection.catalogue.ServesLink network baseSet.arcRole link)
    (fun _ _ _ grown serves => serves.mono grown.covered) (fun _ _ _ done => addLink_eq_ok done) h
  have offers : connection.catalogue.offers baseSet =
      links.flatMap (connection.catalogue.offersOfLink baseSet.arcRole) := by
    rw [Catalogue.offers, hasLinks, Catalogue.answered_ok]
  rw [offers]
  exact ⟨unmoved.taken taken, links, hasLinks, serves⟩

end Whole

end Filling

namespace Network

variable {network : Network} {connection : Connection} {limit : TimeLimit} {calls added : Nat}

/-- Filling that succeeds has taken every offer and shows that nothing stands in the way. -/
theorem fill_eq_ok (h : (network.fill connection limit calls).result = .ok added) :
    network.Takes connection.catalogue (connection.catalogue.offers network.baseSet)
        (network.fill connection limit calls).network added ∧
      connection.catalogue.Serves (network.fill connection limit calls).network
        network.baseSet := by
  unfold fill at h ⊢
  cases done : Filling.addAll connection limit network.baseSet ⟨network, calls, 0⟩ with
  | error cause progress =>
      simp only [done] at h
      cases h
  | ok _ progress =>
      simp only [done] at h ⊢
      cases h
      obtain ⟨⟨added, takes, counted⟩, serves⟩ := Filling.addAll_eq_ok done
      rw [Nat.zero_add] at counted
      exact ⟨counted ▸ takes, serves⟩

end Network

end XbrlNetworks
