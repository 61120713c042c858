import XbrlNetworks.Proofs.Steps
import XbrlNetworks.Proofs.Succeeding

/-! # Where filling stops

Without outage and limit, and with a catalogue that answers every question, the
only thing that stops filling is a locator that cannot be resolved.  It stops at
the first one, before anything of its arc is added, and what it has added by
then is what the steps before it offer.
-/

namespace XbrlNetworks

open Std

namespace Catalogue

/-- A fragment can be resolved: if it is a locator, the catalogue has its target, and that is no
    locator. -/
def Resolvable (catalogue : Catalogue) (fragment : Fragment) : Prop :=
  ∀ target, fragment.kind.target? = some target →
    ∃ resolved, catalogue.fragment? target = .ok (some resolved) ∧ resolved.isLocator = false

/-- Why a fragment cannot be resolved. -/
inductive Offends (catalogue : Catalogue) (fragment : Fragment) : Failure → Prop where
  | dangling {target : Index} :
    fragment.kind.target? = some target → catalogue.fragment? target = .ok none →
      Offends catalogue fragment (.danglingLocator fragment.index target)
  | chained {target : Index} {resolved : Fragment} :
    fragment.kind.target? = some target → catalogue.fragment? target = .ok (some resolved) →
      resolved.isLocator = true →
      Offends catalogue fragment (.locatorChain fragment.index resolved.index)

/-- Every fragment at the ends of the arc of a step can be resolved. -/
def Passes (catalogue : Catalogue) (step : Step) : Prop :=
  ∀ side, ∀ fragment ∈ answered (catalogue.ends side step.arc), catalogue.Resolvable fragment

/-- In a list of fragments one is the first that cannot be resolved. -/
def StuckAt (catalogue : Catalogue) (fragments : List Fragment) (fragment : Fragment)
    (failure : Failure) : Prop :=
  ∃ before after, fragments = before ++ fragment :: after ∧
    (∀ other ∈ before, catalogue.Resolvable other) ∧ catalogue.Offends fragment failure

/-- A step is given up at the first fragment that cannot be resolved, the sources of its arc being
    resolved before the targets. -/
structure GivesUp (catalogue : Catalogue) (step : Step) (side : Side) (fragment : Fragment)
    (failure : Failure) : Prop where
  stuck : catalogue.StuckAt (answered (catalogue.ends side step.arc)) fragment failure
  sources : side = .target →
    ∀ other ∈ answered (catalogue.arcSources step.arc), catalogue.Resolvable other

variable {catalogue : Catalogue}

theorem Resolvable.canFollow {fragment : Fragment} (h : catalogue.Resolvable fragment)
    (network : Network) : catalogue.CanFollow network fragment :=
  fun target locates => .inr (h target locates)

end Catalogue

namespace Network

variable {catalogue : Catalogue} {network : Network} {fragment : Fragment}

/-- What a network has kept is what the catalogue has, so it neither hides nor helps. -/
theorem Fetched.resolvable (h : network.Fetched catalogue)
    (can : catalogue.CanFollow network fragment) : catalogue.Resolvable fragment := by
  intro target locates
  rcases can target locates with kept | there
  · obtain ⟨resolved, found⟩ := Option.isSome_iff_exists.mp
      (ExtTreeMap.mem_iff_isSome_getElem?.mp kept)
    obtain ⟨log, follows, _⟩ := h.log
    exact ⟨resolved, h.kept target resolved found, (follows.coherent.kept target resolved found).2⟩
  · exact there

theorem Fetched.passes (h : network.Fetched catalogue) {step : Step}
    (serves : catalogue.ServesArc network step.link step.arc) : catalogue.Passes step := by
  obtain ⟨⟨sources, hasSources, fromSources⟩, ⟨targets, hasTargets, fromTargets⟩, _⟩ := serves
  intro side fragment member
  cases side with
  | source =>
      simp only [Catalogue.ends, hasSources, Catalogue.answered_ok] at member
      exact h.resolvable (fromSources fragment member)
  | target =>
      simp only [Catalogue.ends, hasTargets, Catalogue.answered_ok] at member
      exact h.resolvable (fromTargets fragment member)

end Network

namespace Filling

variable {α β : Type} {catalogue : Catalogue} {progress progress' : Progress} {failure : Failure}

theorem bind_eq_error {work : Filling α} {next : α → Filling β}
    (h : (work >>= next) progress = .error failure progress') :
    work progress = .error failure progress' ∨ ∃ middle between,
      work progress = .ok middle between ∧ next middle between = .error failure progress' := by
  change EStateM.bind work next progress = _ at h
  simp only [EStateM.bind] at h
  cases done : work progress with
  | error failure stopped =>
      rw [done] at h
      cases h
      exact .inl rfl
  | ok middle between =>
      rw [done] at h
      exact .inr ⟨middle, between, rfl, h⟩

theorem ask_never_bind {truth : Except StoreFault α} {answer : α} (h : truth = .ok answer)
    (next : α → Filling β) (progress : Progress) :
    (ask .never truth >>= next) progress =
      next answer { progress with calls := progress.calls + 1 } := by
  subst h
  rfl

theorem lookUp_eq_error {locator target : Index} {found : Option Fragment}
    (answers : catalogue.fragment? target = .ok found)
    (h : lookUp ⟨catalogue, .never⟩ locator target progress = .error failure progress') :
    found = none ∧ failure = .danglingLocator locator target ∧ Unmoved progress progress' := by
  unfold lookUp at h
  rw [get_bind] at h
  cases kept : progress.network.fragments[target]? with
  | some fragment =>
      simp only [kept] at h
      cases h
  | none =>
      simp only [kept] at h
      rw [ask_never_bind answers] at h
      cases found with
      | some fragment => cases h
      | none =>
          cases h
          exact ⟨rfl, rfl, rfl, rfl⟩

theorem resolve_eq_error {fragment : Fragment}
    (answers : ∀ index, ∃ found, catalogue.fragment? index = .ok found)
    (fetched : progress.network.Fetched catalogue)
    (h : resolve ⟨catalogue, .never⟩ fragment progress = .error failure progress') :
    catalogue.Offends fragment failure ∧ Unmoved progress progress' := by
  unfold resolve at h
  cases locates : fragment.kind.target? with
  | none =>
      simp only [locates] at h
      cases h
  | some target =>
      simp only [locates] at h
      rcases bind_eq_error h with h | ⟨resolved, between, looked, h⟩
      · obtain ⟨found, answer⟩ := answers target
        obtain ⟨rfl, rfl, unmoved⟩ := lookUp_eq_error answer h
        exact ⟨.dangling locates answer, unmoved⟩
      · obtain ⟨there, unmoved⟩ := lookUp_eq_ok looked
        have has : catalogue.fragment? target = .ok (some resolved) := by
          rcases there with kept | has
          · exact fetched.kept target resolved kept
          · exact has
        cases chained : resolved.isLocator with
        | false =>
            simp only [chained, Bool.false_eq_true, if_false] at h
            cases h
        | true =>
            simp only [chained, if_true] at h
            cases h
            exact ⟨.chained locates has chained, unmoved⟩

theorem mapM_resolve_eq_error {fragments : List Fragment}
    (answers : ∀ index, ∃ found, catalogue.fragment? index = .ok found)
    (fetched : progress.network.Fetched catalogue)
    (h : fragments.mapM (resolve ⟨catalogue, .never⟩) progress = .error failure progress') :
    (∃ fragment, catalogue.StuckAt fragments fragment failure) ∧ Unmoved progress progress' := by
  induction fragments generalizing progress with
  | nil => cases h
  | cons first rest ih =>
      rw [List.mapM_cons] at h
      rcases bind_eq_error h with h | ⟨resolved, between, resolves, h⟩
      · obtain ⟨offends, unmoved⟩ := resolve_eq_error answers fetched h
        exact ⟨⟨first, [], rest, rfl, by simp, offends⟩, unmoved⟩
      · obtain ⟨⟨resolves, plain⟩, unmoved⟩ := resolve_eq_ok resolves
        have resolvable := fetched.resolvable (resolves.canFollow plain)
        rcases bind_eq_error h with h | ⟨_, _, _, h⟩
        · rw [← unmoved.1] at fetched
          obtain ⟨⟨fragment, before, after, rfl, resolvables, offends⟩, unmoved'⟩ := ih fetched h
          refine ⟨⟨fragment, first :: before, after, rfl, ?_, offends⟩, unmoved.trans unmoved'⟩
          exact List.forall_mem_cons.mpr ⟨resolvable, resolvables⟩
        · cases h

theorem ends_eq_error {truth : Except StoreFault (List Fragment)} {fragments : List Fragment}
    {next : List Fragment → Filling β}
    (answers : ∀ index, ∃ found, catalogue.fragment? index = .ok found)
    (fetched : progress.network.Fetched catalogue) (there : truth = .ok fragments)
    (h : (do
      let fragments ← ask .never truth
      let ends ← fragments.mapM (resolve ⟨catalogue, .never⟩)
      next ends) progress = .error failure progress') :
    ((∃ fragment, catalogue.StuckAt fragments fragment failure) ∧ Unmoved progress progress') ∨
      ∃ ends between,
        List.Forall₂ (fun fragment end_ => progress.network.Resolves catalogue fragment end_ ∧
          end_.isLocator = false) fragments ends ∧
        Unmoved progress between ∧ next ends between = .error failure progress' := by
  rw [ask_never_bind there] at h
  rcases bind_eq_error h with h | ⟨ends, between, resolved, h⟩
  · -- A call has been counted, which nothing that is said here can tell.
    have stops := mapM_resolve_eq_error answers (by exact fetched) h
    exact .inl stops
  · obtain ⟨atEnds, unmoved⟩ := mapM_resolve_eq_ok resolved
    exact .inr ⟨ends, between, atEnds, unmoved, h⟩

/-- The steps of a list have been done: what they offer is taken, and all of them pass. -/
def Done (catalogue : Catalogue) (steps : List Step) (progress progress' : Progress) : Prop :=
  Taken catalogue progress (steps.flatMap catalogue.offersOfStep) progress' ∧
    ∀ step ∈ steps, catalogue.Passes step

/-- The work on a list of steps has stopped: those before some step are done, and that step is
    given up. -/
def Halted (catalogue : Catalogue) (steps : List Step) (progress : Progress) (failure : Failure)
    (progress' : Progress) : Prop :=
  ∃ done step rest, steps = done ++ step :: rest ∧ Done catalogue done progress progress' ∧
    ∃ side fragment, catalogue.GivesUp step side fragment failure

/-- A network of a base set that holds only what the catalogue has. -/
structure Fits (catalogue : Catalogue) (baseSet : BaseSet) (network : Network) : Prop where
  fetched : network.Fetched catalogue
  baseSet : network.baseSet = baseSet

variable {baseSet : BaseSet} {steps later : List Step} {link : ExtendedLink} {arc : Arc}
  {first second third : Progress}

theorem Fits.taken (h : Fits catalogue baseSet first.network) (lawful : catalogue.Lawful)
    (taken : Taken catalogue first (steps.flatMap catalogue.offersOfStep) second) :
    Fits catalogue baseSet second.network := by
  obtain ⟨_, takes, _⟩ := taken
  refine ⟨h.fetched.takes lawful (fun offer member => ?_) takes,
    takes.grows.baseSet_eq.trans h.baseSet⟩
  obtain ⟨step, _, offered⟩ := List.mem_flatMap.mp member
  exact lawful.ends_of_mem_offersOfArc offered

theorem Done.append (h : Done catalogue steps first second)
    (h' : Done catalogue later second third) : Done catalogue (steps ++ later) first third := by
  refine ⟨?_, List.forall_mem_append.mpr ⟨h.2, h'.2⟩⟩
  rw [List.flatMap_append]
  exact h.1.append h'.1

theorem Done.halted (h : Done catalogue steps first second)
    (h' : Halted catalogue later second failure third) :
    Halted catalogue (steps ++ later) first failure third := by
  obtain ⟨done, step, rest, rfl, finished, givesUp⟩ := h'
  exact ⟨steps ++ done, step, rest, (List.append_assoc ..).symm, h.append finished, givesUp⟩

theorem Halted.append (h : Halted catalogue steps first failure second) (later : List Step) :
    Halted catalogue (steps ++ later) first failure second := by
  obtain ⟨done, step, rest, rfl, finished, givesUp⟩ := h
  exact ⟨done, step, rest ++ later, by simp, finished, givesUp⟩

theorem forM_halted {work : α → Filling Unit} {stepsOf : α → List Step} {items : List α}
    (h : items.forM work progress = .error failure progress') (lawful : catalogue.Lawful)
    (fits : Fits catalogue baseSet progress.network)
    (done : ∀ item progress progress', Fits catalogue baseSet progress.network →
      work item progress = .ok () progress' → Done catalogue (stepsOf item) progress progress')
    (halts : ∀ item ∈ items, ∀ progress, Fits catalogue baseSet progress.network →
      work item progress = .error failure progress' →
        Halted catalogue (stepsOf item) progress failure progress') :
    Halted catalogue (items.flatMap stepsOf) progress failure progress' := by
  induction items generalizing progress with
  | nil => cases h
  | cons item items ih =>
      rcases bind_eq_error h with h | ⟨_, between, one, h⟩
      · exact (halts item List.mem_cons_self progress fits h).append _
      · have finished := done item progress between fits one
        have fits' := fits.taken lawful finished.1
        exact finished.halted (ih h fits' fun other member =>
          halts other (List.mem_cons_of_mem _ member))

theorem addArc_done {limit : TimeLimit} (lawful : catalogue.Lawful)
    (fits : Fits catalogue baseSet progress.network)
    (h : addArc ⟨catalogue, .never⟩ limit link arc progress = .ok () progress') :
    Done catalogue [⟨link, arc⟩] progress progress' := by
  obtain ⟨taken, serves⟩ := addArc_eq_ok h
  have taken : Taken catalogue progress
      ([⟨link, arc⟩].flatMap catalogue.offersOfStep) progress' := by
    simpa [Catalogue.offersOfStep] using taken
  refine ⟨taken, fun step member => ?_⟩
  cases List.mem_singleton.mp member
  exact (fits.taken lawful taken).fetched.passes serves

/-- An arc is given up before anything of it is added, and only because of one of its ends. -/
theorem addArc_halted (answers : catalogue.Answers baseSet) (own : link.role = baseSet.linkRole)
    (role : arc.role = baseSet.arcRole) (ends : ∀ side, ∃ fragments,
      catalogue.ends side arc = .ok fragments)
    (fits : Fits catalogue baseSet progress.network)
    (h : addArc ⟨catalogue, .never⟩ none link arc progress = .error failure progress') :
    Halted catalogue [⟨link, arc⟩] progress failure progress' := by
  obtain ⟨sources, hasSources⟩ := ends .source
  obtain ⟨targets, hasTargets⟩ := ends .target
  have nothing : Unmoved progress progress' → Done catalogue [] progress progress' :=
    fun unmoved => ⟨unmoved.taken .nil, by simp⟩
  obtain ⟨log, follows, _⟩ := fits.fetched.log
  rcases ends_eq_error answers.fragments fits.fetched hasSources h with
    ⟨⟨fragment, stuck⟩, unmoved⟩ | ⟨starts, first, atSources, unmoved, h⟩
  · refine ⟨[], _, [], rfl, nothing unmoved, .source, fragment, ?_, nofun⟩
    rwa [hasSources]
  have fetched : first.network.Fetched catalogue := unmoved.1 ▸ fits.fetched
  rcases ends_eq_error answers.fragments fetched hasTargets h with
    ⟨⟨fragment, stuck⟩, unmoved'⟩ | ⟨ends, second, atTargets, unmoved', h⟩
  · refine ⟨[], _, [], rfl, nothing (unmoved.trans unmoved'), .target, fragment, ?_, fun _ => ?_⟩
    · rwa [hasTargets]
    · change ∀ other ∈ Catalogue.answered (catalogue.ends .source arc), _
      rw [hasSources]
      exact fun other member => fits.fetched.resolvable
        (canFollow_of_forall₂ atSources .refl other member)
  · exfalso
    have succeeds : Succeeds progress.network
        (starts.forM fun start => ends.forM (addPair link arc start)) := by
      refine succeeds_addPairs follows fun start isStart end_ isEnd => ?_
      obtain ⟨_, _, _, plainStart⟩ := exists_of_forall₂ atSources.flip isStart
      obtain ⟨_, _, _, plainEnd⟩ := exists_of_forall₂ atTargets.flip isEnd
      exact ⟨by rw [fits.baseSet, own, role], plainStart, plainEnd⟩
    obtain ⟨_, _, done⟩ := succeeds second ((unmoved.trans unmoved').1 ▸ .refl)
    rw [h] at done
    cases done

theorem addLink_done {limit : TimeLimit} (lawful : catalogue.Lawful) {arcRole : String}
    (fits : Fits catalogue baseSet progress.network)
    (h : addLink ⟨catalogue, .never⟩ limit arcRole link progress = .ok () progress') :
    Done catalogue (catalogue.stepsOfLink arcRole link) progress progress' := by
  obtain ⟨taken, arcs, hasArcs, serves⟩ := addLink_eq_ok h
  rw [Catalogue.offersOfLink_eq] at taken
  refine ⟨taken, fun step member => ?_⟩
  obtain ⟨arc, inArcs, rfl⟩ := List.mem_map.mp member
  rw [hasArcs] at inArcs
  exact (fits.taken lawful taken).fetched.passes (serves arc inArcs)

theorem addLink_halted (lawful : catalogue.Lawful) (answers : catalogue.Answers baseSet)
    (own : link.role = baseSet.linkRole) (fits : Fits catalogue baseSet progress.network)
    (h : addLink ⟨catalogue, .never⟩ none baseSet.arcRole link progress =
      .error failure progress') :
    Halted catalogue (catalogue.stepsOfLink baseSet.arcRole link) progress failure progress' := by
  obtain ⟨arcs, hasArcs, ofArcs⟩ := answers.arcs link
  change (ask .never (catalogue.arcs link baseSet.arcRole) >>= _) progress = _ at h
  rw [ask_never_bind hasArcs] at h
  rw [Catalogue.stepsOfLink, hasArcs, Catalogue.answered_ok, List.map_eq_flatMap]
  -- The call that has been counted makes no difference to what is said of the steps.
  have halted := forM_halted h lawful (by exact fits)
    (fun _ _ _ fits done => addArc_done lawful fits done) fun arc member _ fits h =>
      addArc_halted answers own (ofArcs arc member).1 (ofArcs arc member).2 fits h
  exact halted

theorem addAll_halted (lawful : catalogue.Lawful) (answers : catalogue.Answers baseSet)
    (fits : Fits catalogue baseSet progress.network)
    (h : addAll ⟨catalogue, .never⟩ none baseSet progress = .error failure progress') :
    Halted catalogue (catalogue.steps baseSet) progress failure progress' := by
  obtain ⟨links, hasLinks, roles⟩ := answers.links
  change (ask .never (catalogue.links baseSet.linkRole) >>= _) progress = _ at h
  rw [ask_never_bind hasLinks] at h
  rw [Catalogue.steps, hasLinks, Catalogue.answered_ok]
  have halted := forM_halted h lawful (by exact fits)
    (fun _ _ _ fits done => addLink_done lawful fits done) fun link member _ fits h =>
      addLink_halted lawful answers (roles link member) fits h
  exact halted

end Filling

namespace Network

variable {catalogue : Catalogue} {network : Network}

/-- Filling that fails has done the steps before the one that it gives up, and no more. -/
theorem Fetched.fill_eq_error (h : network.Fetched catalogue) (lawful : catalogue.Lawful)
    (answers : catalogue.Answers network.baseSet) {calls : Nat} {failure : Failure}
    (failed : (network.fill ⟨catalogue, .never⟩ none calls).result = .error failure) :
    ∃ done step rest side fragment cause added,
      catalogue.steps network.baseSet = done ++ step :: rest ∧
      (∀ earlier ∈ done, catalogue.Passes earlier) ∧
      catalogue.GivesUp step side fragment cause ∧
      network.Takes catalogue (done.flatMap catalogue.offersOfStep)
        (network.fill ⟨catalogue, .never⟩ none calls).network added ∧
      failure = .completion network.baseSet (decide (0 < added)) cause := by
  unfold Network.fill at failed ⊢
  cases stopped : Filling.addAll ⟨catalogue, .never⟩ none network.baseSet ⟨network, calls, 0⟩ with
  | ok _ progress =>
      simp only [stopped] at failed
      cases failed
  | error cause progress =>
      simp only [stopped] at failed ⊢
      cases failed
      obtain ⟨done, step, rest, steps, ⟨taken, passes⟩, side, fragment, givesUp⟩ :=
        Filling.addAll_halted lawful answers ⟨h, rfl⟩ stopped
      obtain ⟨added, takes, counted⟩ := taken
      rw [Nat.zero_add] at counted
      exact ⟨done, step, rest, side, fragment, cause, added, steps, passes, givesUp, takes,
        by rw [counted]⟩

theorem Fetched.exists_fill_iff (h : network.Fetched catalogue) (lawful : catalogue.Lawful)
    (answers : catalogue.Answers network.baseSet) (calls : Nat) :
    (∃ added, (network.fill ⟨catalogue, .never⟩ none calls).result = .ok added) ↔
      ∀ step ∈ catalogue.steps network.baseSet, catalogue.Passes step := by
  obtain ⟨links, hasLinks, linkRoles⟩ := answers.links
  constructor
  · rintro ⟨added, done⟩ step member
    obtain ⟨_, links', hasLinks', serves⟩ := fill_eq_ok done
    obtain ⟨link, inLinks, inLink⟩ := List.mem_flatMap.mp member
    obtain ⟨arc, inArcs, rfl⟩ := List.mem_map.mp inLink
    rw [hasLinks'] at inLinks
    obtain ⟨arcs, hasArcs, serves⟩ := serves link inLinks
    rw [hasArcs] at inArcs
    exact (h.fill lawful done).passes (serves arc inArcs)
  · intro passes
    obtain ⟨log, follows, _⟩ := h.log
    refine follows.exists_fill ⟨links, hasLinks, fun link inLinks => ?_⟩ calls
    obtain ⟨arcs, hasArcs, ofArcs⟩ := answers.arcs link
    refine ⟨arcs, hasArcs, fun arc inArcs => ?_⟩
    obtain ⟨arcRole, ends⟩ := ofArcs arc inArcs
    have member : ⟨link, arc⟩ ∈ catalogue.steps network.baseSet := by
      rw [Catalogue.steps, hasLinks]
      refine List.mem_flatMap.mpr ⟨link, inLinks, List.mem_map.mpr ⟨arc, ?_, rfl⟩⟩
      rwa [hasArcs]
    obtain ⟨sources, hasSources⟩ := ends .source
    obtain ⟨targets, hasTargets⟩ := ends .target
    refine ⟨⟨sources, hasSources, fun fragment isSource => ?_⟩,
      ⟨targets, hasTargets, fun fragment isTarget => ?_⟩, fun _ => ?_⟩
    · refine (passes _ member .source fragment ?_).canFollow network
      rwa [hasSources]
    · refine (passes _ member .target fragment ?_).canFollow network
      rwa [hasTargets]
    · rw [arcRole, linkRoles link inLinks]

end Network

end XbrlNetworks
