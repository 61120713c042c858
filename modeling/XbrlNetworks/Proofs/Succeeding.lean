import XbrlNetworks.Proofs.Taking

/-! # Where filling succeeds

Without outage and limit, filling succeeds when every question is answered,
every locator can be followed and every arc belongs to the base set.  So where
it has once succeeded, it will succeed again on every network that has kept as
much.
-/

namespace XbrlNetworks

open Std

namespace Filling

variable {α β : Type} {progress progress' : Progress}

/-- Work that succeeds on whatever a network may grow to. -/
def Succeeds (network : Network) (work : Filling α) : Prop :=
  ∀ progress : Progress, network.Grows progress.network →
    ∃ answer progress', work progress = .ok answer progress'

section Success

variable {network : Network} {log : Log} {catalogue : Catalogue} {link : ExtendedLink} {arc : Arc}

theorem bind_of_eq_ok {work : Filling α} {next : α → Filling β} {answer : α}
    (h : work progress = .ok answer progress') :
    (work >>= next) progress = next answer progress' := by
  change EStateM.bind work next progress = _
  simp only [EStateM.bind, h]

theorem Succeeds.pure (answer : α) : Succeeds network (Pure.pure answer) :=
  fun progress _ => ⟨answer, progress, rfl⟩

theorem Succeeds.bind {work : Filling α} {next : α → Filling β} (h : Succeeds network work)
    (only : OnlyAdds work)
    (h' : ∀ answer progress progress', work progress = .ok answer progress' →
      Succeeds network (next answer)) :
    Succeeds network (work >>= next) := by
  intro progress grown
  obtain ⟨answer, between, done⟩ := h progress grown
  have step := only progress
  rw [done] at step
  rw [bind_of_eq_ok done]
  exact h' answer progress between done between (grown.trans step)

theorem Succeeds.mapM {work : α → Filling β} (only : ∀ item, OnlyAdds (work item))
    {items : List α} (h : ∀ item ∈ items, Succeeds network (work item)) :
    Succeeds network (items.mapM work) := by
  induction items with
  | nil => exact .pure []
  | cons item items ih =>
      rw [List.mapM_cons]
      refine .bind (h item List.mem_cons_self) (only item) fun answer _ _ _ => ?_
      refine .bind (ih fun other member => h other (List.mem_cons_of_mem _ member))
        (.mapM only items) fun answers _ _ _ => ?_
      exact .pure (answer :: answers)

theorem Succeeds.forM {work : α → Filling Unit} (only : ∀ item, OnlyAdds (work item))
    {items : List α} (h : ∀ item ∈ items, Succeeds network (work item)) :
    Succeeds network (items.forM work) := by
  induction items with
  | nil => exact .pure ()
  | cons item items ih =>
      refine .bind (h item List.mem_cons_self) (only item) fun _ _ _ _ => ?_
      exact ih fun other member => h other (List.mem_cons_of_mem _ member)

theorem Succeeds.ask_bind {truth : Except StoreFault α} {next : α → Filling β} {answer : α}
    (h : truth = .ok answer) (h' : Succeeds network (next answer)) :
    Succeeds network (ask .never truth >>= next) := by
  subst h
  have asked : Succeeds network (ask .never (.ok answer)) := fun progress _ =>
    ⟨answer, { progress with calls := progress.calls + 1 }, rfl⟩
  refine .bind asked (onlyAdds_ask _ _) fun other _ _ done => ?_
  obtain ⟨same, _⟩ := ask_eq_ok done
  cases same
  exact h'

theorem get_bind (next : Progress → Filling α) (progress : Progress) :
    (MonadState.get >>= next) progress = next progress progress :=
  rfl

theorem exists_lookUp (h : network.Follows log) (grown : network.Grows progress.network)
    (locator : Index) {target : Index}
    (there : target ∈ network.fragments ∨
      ∃ resolved, catalogue.fragment? target = .ok (some resolved) ∧ resolved.isLocator = false) :
    ∃ resolved progress', lookUp ⟨catalogue, .never⟩ locator target progress =
      .ok resolved progress' ∧ resolved.isLocator = false := by
  cases kept : progress.network.fragments[target]? with
  | some resolved =>
      obtain ⟨_, follows⟩ := (h.grows grown).1
      refine ⟨resolved, progress, (get_bind _ progress).trans ?_,
        (follows.coherent.kept target resolved kept).2⟩
      simp only [kept]
      rfl
  | none =>
      rcases there with member | ⟨resolved, there, plain⟩
      · have stays := grown.covered.fragments target member
        rw [ExtTreeMap.mem_iff_isSome_getElem?, kept] at stays
        cases stays
      · refine ⟨resolved, { progress with calls := progress.calls + 1 },
          (get_bind _ progress).trans ?_, plain⟩
        simp only [kept, there]
        rfl

theorem succeeds_resolve (h : network.Follows log) {fragment : Fragment}
    (can : catalogue.CanFollow network fragment) :
    Succeeds network (resolve ⟨catalogue, .never⟩ fragment) := by
  intro progress grown
  unfold resolve
  cases locates : fragment.kind.target? with
  | none => exact ⟨fragment, progress, rfl⟩
  | some target =>
      obtain ⟨resolved, progress', looked, plain⟩ :=
        exists_lookUp h grown fragment.index (can target locates)
      refine ⟨resolved, progress', (bind_of_eq_ok looked).trans ?_⟩
      simp only [plain]
      rfl

theorem succeeds_addPair (h : network.Follows log) {source target : Fragment}
    (own : (⟨arc.role, link.role⟩ : BaseSet) = network.baseSet)
    (plainSource : source.isLocator = false) (plainTarget : target.isLocator = false) :
    Succeeds network (addPair link arc source target) := by
  intro progress grown
  have hasArcRole : arc.role ≠ "" := by
    rw [show arc.role = network.baseSet.arcRole from congrArg BaseSet.arcRole own]
    exact network.hasArcRole
  have hasLinkRole : link.role ≠ "" := by
    rw [show link.role = network.baseSet.linkRole from congrArg BaseSet.linkRole own]
    exact network.hasLinkRole
  let r : Relationship :=
    ⟨arc, source, target, link, hasArcRole, hasLinkRole, plainSource, plainTarget⟩
  have bound : Relationship.bind arc source target link = .ok r := by
    simp [Relationship.bind, hasArcRole, hasLinkRole, plainSource, plainTarget, r]
  obtain ⟨⟨rest, follows⟩, same⟩ := h.grows grown
  obtain ⟨next, inserted, _⟩ := follows.insert (r := r) (own.trans same.symm)
  refine ⟨(), { progress with
    network := next
    added := progress.added + (!(log ++ rest).repeats r).toNat }, ?_⟩
  unfold addPair
  simp only [bound]
  refine (get_bind _ progress).trans ?_
  simp only [inserted]
  rfl

theorem succeeds_ends (h : network.Follows log) {truth : Except StoreFault (List Fragment)}
    {next : List Fragment → Filling β} {fragments : List Fragment} (there : truth = .ok fragments)
    (can : ∀ fragment ∈ fragments, catalogue.CanFollow network fragment)
    (h' : ∀ ends, (∀ end_ ∈ ends, end_.isLocator = false ∧ fragments ≠ []) →
      Succeeds network (next ends)) :
    Succeeds network (do
      let fragments ← ask .never truth
      let ends ← fragments.mapM (resolve ⟨catalogue, .never⟩)
      next ends) := by
  refine .ask_bind there ?_
  have resolves : Succeeds network (fragments.mapM (resolve ⟨catalogue, .never⟩)) :=
    .mapM (onlyAdds_resolve _) fun fragment member => succeeds_resolve h (can fragment member)
  refine .bind resolves (.mapM (onlyAdds_resolve _) _) fun ends _ _ resolved => ?_
  obtain ⟨atEnds, _⟩ := mapM_resolve_eq_ok resolved
  refine h' ends fun end_ isEnd => ?_
  obtain ⟨fragment, member, _, plain⟩ := exists_of_forall₂ atEnds.flip isEnd
  exact ⟨plain, List.ne_nil_of_mem member⟩

theorem succeeds_addPairs (h : network.Follows log) {starts ends : List Fragment}
    (pairs : ∀ start ∈ starts, ∀ end_ ∈ ends,
      (⟨arc.role, link.role⟩ : BaseSet) = network.baseSet ∧
        start.isLocator = false ∧ end_.isLocator = false) :
    Succeeds network (starts.forM fun start => ends.forM (addPair link arc start)) := by
  refine .forM (fun start => .forM (onlyAdds_addPair link arc start) ends) fun start isStart => ?_
  refine .forM (onlyAdds_addPair link arc start) fun end_ isEnd => ?_
  obtain ⟨own, plainStart, plainEnd⟩ := pairs start isStart end_ isEnd
  exact succeeds_addPair h own plainStart plainEnd

theorem succeeds_addArc (h : network.Follows log) (serves : catalogue.ServesArc network link arc) :
    Succeeds network (addArc ⟨catalogue, .never⟩ none link arc) := by
  obtain ⟨⟨sources, hasSources, fromSources⟩, ⟨targets, hasTargets, fromTargets⟩, own⟩ := serves
  refine .bind (.pure ()) (.pure ()) fun _ _ _ _ => ?_
  refine succeeds_ends h hasSources fromSources fun starts atSources => ?_
  refine succeeds_ends h hasTargets fromTargets fun ends atTargets => ?_
  refine succeeds_addPairs h fun start isStart end_ isEnd => ?_
  obtain ⟨plainStart, sources_ne⟩ := atSources start isStart
  obtain ⟨plainEnd, targets_ne⟩ := atTargets end_ isEnd
  refine ⟨own ?_, plainStart, plainEnd⟩
  simpa [Catalogue.offersOfArc, hasSources, hasTargets] using
    ⟨List.exists_mem_of_ne_nil sources sources_ne, targets_ne⟩

theorem succeeds_addLink (h : network.Follows log) {arcRole : String}
    (serves : catalogue.ServesLink network arcRole link) :
    Succeeds network (addLink ⟨catalogue, .never⟩ none arcRole link) := by
  obtain ⟨arcs, hasArcs, serves⟩ := serves
  refine .bind (.pure ()) (.pure ()) fun _ _ _ _ => ?_
  refine .ask_bind hasArcs ?_
  exact .forM (onlyAdds_addArc _ _ _) fun arc member => succeeds_addArc h (serves arc member)

theorem succeeds_addAll (h : network.Follows log) {baseSet : BaseSet}
    (serves : catalogue.Serves network baseSet) :
    Succeeds network (addAll ⟨catalogue, .never⟩ none baseSet) := by
  obtain ⟨links, hasLinks, serves⟩ := serves
  refine .ask_bind hasLinks ?_
  exact .forM (onlyAdds_addLink _ _ _) fun link member => succeeds_addLink h (serves link member)

end Success

end Filling

theorem Network.Follows.exists_fill {network : Network} {log : Log} {catalogue : Catalogue}
    (h : network.Follows log)
    (serves : catalogue.Serves network network.baseSet) (calls : Nat) :
    ∃ added, (network.fill ⟨catalogue, .never⟩ none calls).result = .ok added := by
  obtain ⟨_, progress, done⟩ := Filling.succeeds_addAll h serves ⟨network, calls, 0⟩ .refl
  refine ⟨progress.added, ?_⟩
  unfold Network.fill
  rw [done]

end XbrlNetworks
