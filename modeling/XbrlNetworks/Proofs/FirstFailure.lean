import XbrlNetworks.Proofs.Population
import XbrlNetworks.Proofs.Stopping

/-! # The first failure of filling

In loaded documents the fragments at the ends of arcs have their places: link by
link, arc by arc, sources before targets, fragment by fragment.  Filling fails
just when one of them cannot be resolved, tells of the first of these, and has
added the relationships of the arcs before.
-/

namespace XbrlNetworks

open Std

def arcCompare : Index × Index → Index × Index → Ordering :=
  compareLex (compareOn Prod.fst) (compareOn Prod.snd)

/-- A place where a fragment stands at an end of an arc. -/
structure Place where
  link : Index
  arc : Index
  side : Side
  fragment : Index
deriving DecidableEq, Repr

def Place.position (place : Place) : Index × Index :=
  (place.link, place.arc)

protected def Place.compare : Place → Place → Ordering :=
  compareLex (fun first second => arcCompare first.position second.position)
    (compareLex (compareOn fun place => place.side.rank) (compareOn Place.fragment))

theorem arcCompare_eq_eq {first second : Index × Index} :
    arcCompare first second = .eq ↔ first = second := by
  simp [arcCompare, compareLex, compareOn, Ordering.then_eq_eq, Prod.ext_iff]

theorem Side.eq_of_rank_eq {side side' : Side} (h : side.rank = side'.rank) : side = side' := by
  cases side <;> cases side' <;> simp_all [rank]

theorem Side.eq_of_rank_lt {side side' : Side} (h : side.rank < side'.rank) :
    side = .source ∧ side' = .target := by
  cases side <;> cases side' <;> simp_all [rank]

theorem Place.lt_cases {first second : Place} (h : Place.compare first second = .lt) :
    arcCompare first.position second.position = .lt ∨
      first.position = second.position ∧
        ((first.side = .source ∧ second.side = .target) ∨
          first.side = second.side ∧ compare first.fragment second.fragment = .lt) := by
  simp only [Place.compare, compareLex, compareOn, Ordering.then_eq_lt, arcCompare_eq_eq,
    Nat.compare_eq_lt, Nat.compare_eq_eq] at h
  rcases h with before | ⟨same, sooner | ⟨sameSide, less⟩⟩
  · exact .inl before
  · exact .inr ⟨same, .inl (Side.eq_of_rank_lt sooner)⟩
  · exact .inr ⟨same, .inr ⟨Side.eq_of_rank_eq sameSide, less⟩⟩

namespace Documents

/-- A fragment stands at a place in the scope of a base set. -/
structure StandsAt (documents : Documents) (baseSet : BaseSet) (place : Place)
    (fragment : Fragment) : Prop where
  link : documents.links[place.link]? = some baseSet.linkRole
  arc : ∃ row, documents.arcs[place.arc]? = some row ∧ row.link = place.link ∧
    row.role = baseSet.arcRole ∧
    documents.Carries place.link (place.side.labelOf row) fragment
  index : fragment.index = place.fragment

/-- A fragment can be resolved: it is no locator, or one whose target is loaded and no locator. -/
def Resolvable (documents : Documents) (fragment : Fragment) : Prop :=
  fragment.isLocator = false ∨ ∃ resolved : Fragment,
    fragment.kind = .locator resolved.index ∧ documents.Has resolved ∧ resolved.isLocator = false

/-- Why a fragment cannot be resolved: its target is not loaded, or is a locator. -/
inductive Offends (documents : Documents) (fragment : Fragment) : Failure → Prop where
  | dangling {target : Index} :
    fragment.kind = .locator target → documents.fragments[target]? = none →
      Offends documents fragment (.danglingLocator fragment.index target)
  | chained {resolved : Fragment} :
    fragment.kind = .locator resolved.index → documents.Has resolved →
      resolved.isLocator = true →
      Offends documents fragment (.locatorChain fragment.index resolved.index)

/-- At a place stands a fragment that cannot be resolved, and all that stand before can. -/
structure FirstOffence (documents : Documents) (baseSet : BaseSet) (place : Place)
    (cause : Failure) : Prop where
  offends : ∃ fragment, documents.StandsAt baseSet place fragment ∧ documents.Offends fragment cause
  first : ∀ earlier fragment, documents.StandsAt baseSet earlier fragment →
    Place.compare earlier place = .lt → documents.Resolvable fragment

end Documents

theorem Fragment.Kind.target?_eq_some_iff {kind : Kind} {target : Index} :
    kind.target? = some target ↔ kind = .locator target := by
  cases kind <;> simp [target?]

namespace Documents

variable {documents : Documents} {baseSet : BaseSet} {fragment : Fragment} {place : Place}
  {step : Step} {side : Side} {cause : Failure}

theorem Readable.resolvable_iff (h : documents.Readable) :
    documents.catalogue.Resolvable fragment ↔ documents.Resolvable fragment := by
  constructor
  · intro resolvable
    cases locates : fragment.kind.target? with
    | none => exact .inl (by simp [Fragment.isLocator, locates])
    | some target =>
        obtain ⟨resolved, found, plain⟩ := resolvable target locates
        obtain ⟨rfl, has⟩ := h.has_of_fragment? found
        exact .inr ⟨resolved, Fragment.Kind.target?_eq_some_iff.mp locates, has, plain⟩
  · intro resolvable target locates
    rcases resolvable with plain | ⟨resolved, kind, has, plain⟩
    · simp [Fragment.isLocator, locates] at plain
    · rw [Fragment.Kind.target?_eq_some_iff, kind] at locates
      cases locates
      exact ⟨resolved, has.fragment?_eq, plain⟩

theorem Readable.offends (h : documents.Readable)
    (offends : documents.catalogue.Offends fragment cause) : documents.Offends fragment cause := by
  cases offends with
  | @dangling target locates absent =>
      refine .dangling (Fragment.Kind.target?_eq_some_iff.mp locates) ?_
      rcases h.fragment_cases target with absent' | ⟨_, rfl, has⟩
      · exact absent'
      · cases has.fragment?_eq.symm.trans absent
  | chained locates found chained =>
      obtain ⟨rfl, has⟩ := h.has_of_fragment? found
      exact .chained (Fragment.Kind.target?_eq_some_iff.mp locates) has chained

theorem Readable.standsAt_iff (h : documents.Readable)
    (member : step ∈ documents.catalogue.steps baseSet) :
    documents.StandsAt baseSet ⟨step.link.index, step.arc.index, side, fragment.index⟩ fragment ↔
      fragment ∈ Catalogue.answered (documents.catalogue.ends side step.arc) := by
  obtain ⟨link, _, role, sourceLabel, targetLabel, has⟩ := h.mem_steps.mp member
  obtain ⟨fragments, asked, _, mem_fragments⟩ := h.exists_ends has side
  rw [asked, Catalogue.answered_ok, mem_fragments]
  constructor
  · rintro ⟨_, ⟨row, found, _, _, carries⟩, _⟩
    cases has.symm.trans found
    exact carries
  · exact fun carries => ⟨link, ⟨_, has, rfl, role, carries⟩, rfl⟩

theorem Readable.exists_step_of_standsAt (h : documents.Readable)
    (stands : documents.StandsAt baseSet place fragment) :
    ∃ step ∈ documents.catalogue.steps baseSet,
      place = ⟨step.link.index, step.arc.index, place.side, fragment.index⟩ := by
  obtain ⟨row, found, inLink, role, _⟩ := stands.arc
  obtain ⟨arc, link, sourceLabel, targetLabel, keeps⟩ := h.arcs place.arc row found
  obtain ⟨same, rfl⟩ := Prod.mk.inj keeps
  refine ⟨⟨⟨place.link, baseSet.linkRole⟩, arc⟩, h.mem_steps.mpr ⟨stands.link, rfl, role,
    sourceLabel, targetLabel, ?_⟩, ?_⟩
  · rw [HasArc, ← same, found, ← inLink]
    rfl
  · rw [← same, stands.index]

theorem Readable.forall_passes_iff (h : documents.Readable) :
    (∀ step ∈ documents.catalogue.steps baseSet, documents.catalogue.Passes step) ↔
      ∀ place fragment, documents.StandsAt baseSet place fragment →
        documents.Resolvable fragment := by
  constructor
  · intro passes place fragment stands
    obtain ⟨step, member, here⟩ := h.exists_step_of_standsAt stands
    rw [here, h.standsAt_iff member] at stands
    exact h.resolvable_iff.mp (passes step member place.side fragment stands)
  · intro resolvable step member side fragment isEnd
    exact h.resolvable_iff.mpr (resolvable _ fragment ((h.standsAt_iff member).mpr isEnd))

/-- The first step that is given up is given up at the first offence. -/
theorem Readable.firstOffence (h : documents.Readable) {done rest : List Step}
    (steps : documents.catalogue.steps baseSet = done ++ step :: rest)
    (passes : ∀ earlier ∈ done, documents.catalogue.Passes earlier)
    (givesUp : documents.catalogue.GivesUp step side fragment cause) :
    documents.FirstOffence baseSet ⟨step.link.index, step.arc.index, side, fragment.index⟩
      cause := by
  have ascends := steps ▸ h.ascending_steps baseSet
  have member : step ∈ documents.catalogue.steps baseSet := by
    rw [steps]
    exact List.mem_append_right _ List.mem_cons_self
  obtain ⟨_, _, _, sourceLabel, targetLabel, has⟩ := h.mem_steps.mp member
  obtain ⟨fragments, asked, ascendsHere, _⟩ := h.exists_ends has side
  obtain ⟨before, after, here, resolvable, offends⟩ := givesUp.stuck
  have isEnd : fragment ∈ Catalogue.answered (documents.catalogue.ends side step.arc) := by
    rw [here]
    exact List.mem_append_right _ List.mem_cons_self
  refine ⟨⟨fragment, (h.standsAt_iff member).mpr isEnd, h.offends offends⟩, ?_⟩
  intro earlier other stands less
  obtain ⟨step', member', place⟩ := h.exists_step_of_standsAt stands
  obtain ⟨link, arc, side', index⟩ := earlier
  cases place
  rcases Place.lt_cases less with before | ⟨same, sooner⟩
  · have inDone : step' ∈ done := ascends.mem_before_iff.mpr ⟨steps ▸ member', before⟩
    exact h.resolvable_iff.mp (passes step' inDone side' other ((h.standsAt_iff member').mp stands))
  · have sameLink : step'.link.index = step.link.index := congrArg Prod.fst same
    have sameArc : step'.arc.index = step.arc.index := congrArg Prod.snd same
    rw [sameLink, sameArc, h.standsAt_iff member] at stands
    apply h.resolvable_iff.mp
    rcases sooner with ⟨rfl, rfl⟩ | ⟨rfl, less⟩
    · exact givesUp.sources rfl other stands
    · rw [asked, Catalogue.answered_ok] at here stands
      rw [here] at ascendsHere stands
      exact resolvable other (ascendsHere.mem_before_iff.mpr ⟨stands, less⟩)

theorem Readable.mem_marks_done (h : documents.Readable) {done rest : List Step}
    (steps : documents.catalogue.steps baseSet = done ++ step :: rest)
    {identity : Bucket.Identity} {arc : Index} :
    (identity, arc) ∈ ((done.flatMap documents.catalogue.offersOfStep).map Offer.mark).toFinset ↔
      ∃ row, row.key = identity.key ∧
        documents.Runs baseSet row ⟨arc, identity.source, identity.target⟩ ∧
        arcCompare (row.link, arc) (step.link.index, step.arc.index) = .lt := by
  have ascends := steps ▸ h.ascending_steps baseSet
  rw [h.mem_marks_iff fun earlier member => steps ▸ List.mem_append_left _ member]
  constructor
  · rintro ⟨earlier, member, row, rfl, link, key, runs⟩
    exact ⟨row, key, runs, link ▸ (ascends.mem_before_iff.mp member).2⟩
  · rintro ⟨row, key, runs, before⟩
    obtain ⟨earlier, member, rfl, link⟩ := h.exists_step runs
    rw [← link] at before
    exact ⟨earlier, ascends.mem_before_iff.mpr ⟨steps ▸ member, before⟩, row, rfl, link, key, runs⟩

variable {network : Network}

/-- Without outage and limit, filling a new network succeeds just when every fragment at the ends
    of the arcs of the base set can be resolved.  Otherwise the failure tells why the first of
    those that cannot is not resolved, the network holds what the arcs before run between, and the
    failure tells whether that is anything. -/
theorem Loaded.fill_fails_at_first (h : documents.Loaded)
    (opened : Network.new baseSet = .ok network) (calls : Nat) :
    ((∃ added, (network.fill ⟨documents.catalogue, .never⟩ none calls).result = .ok added) ↔
      ∀ place fragment, documents.StandsAt baseSet place fragment →
        documents.Resolvable fragment) ∧
    ∀ failure, (network.fill ⟨documents.catalogue, .never⟩ none calls).result = .error failure →
      ∃ place inPart cause, failure = .completion baseSet inPart cause ∧
        documents.FirstOffence baseSet place cause ∧
        (∀ identity arc,
          (network.fill ⟨documents.catalogue, .never⟩ none calls).network.Records identity arc ↔
            ∃ row, row.key = identity.key ∧
              documents.Runs baseSet row ⟨arc, identity.source, identity.target⟩ ∧
              arcCompare (row.link, arc) place.position = .lt) ∧
        (inPart = true ↔ ∃ identity arc, (network.fill ⟨documents.catalogue, .never⟩ none
          calls).network.Records identity arc) := by
  obtain rfl := (Network.follows_new opened).2
  have fetched : network.Fetched documents.catalogue := Network.fetched_new opened
  have answers := h.readable.answers network.baseSet
  refine ⟨?_, fun failure failed => ?_⟩
  · rw [fetched.exists_fill_iff documents.lawful_catalogue answers, h.readable.forall_passes_iff]
  · obtain ⟨done, step, rest, side, fragment, cause, added, steps, passes, givesUp, takes, rfl⟩ :=
      fetched.fill_eq_error documents.lawful_catalogue answers failed
    obtain ⟨records, card, _⟩ := takes.of_new documents.lawful_catalogue opened
    refine ⟨⟨step.link.index, step.arc.index, side, fragment.index⟩, _, cause, rfl,
      h.readable.firstOffence steps passes givesUp, fun identity arc => ?_, ?_⟩
    · rw [records, h.readable.mem_marks_done steps]
      rfl
    · rw [decide_eq_true_eq, card, Finset.card_pos, Finset.Nonempty, Prod.exists]
      simp only [records]

/-- A locator whose target is not loaded stops the work after the arc before. -/
theorem fill_fails_at_dangling_locator : ∃ (documents : Documents) (network : Network),
    documents.Loaded ∧ Network.new ⟨"A", "L"⟩ = .ok network ∧
      (network.fill ⟨documents.catalogue, .never⟩ none 0).result =
        .error (.completion ⟨"A", "L"⟩ true (.danglingLocator "u" "v")) ∧
      ∃ place, documents.FirstOffence ⟨"A", "L"⟩ place (.danglingLocator "u" "v") := by
  let documents := (Documents.empty.load (DocumentEntry.sample [.plain "x" "A" "k"])).load
    [.fragment ⟨"u", .locator "v", none⟩, .member "link" "r" "u",
      .arc "link" "p" "r" (.plain "y" "A" "k")]
  let network : Network := ⟨⟨"A", "L"⟩, ∅, #[], ∅, ∅, by decide, by decide⟩
  have loaded : documents.Loaded := .load _ (.load _ .empty)
  have opened : Network.new ⟨"A", "L"⟩ = .ok network := rfl
  have failed : (network.fill ⟨documents.catalogue, .never⟩ none 0).result =
      .error (.completion ⟨"A", "L"⟩ true (.danglingLocator "u" "v")) := by
    decide +kernel
  obtain ⟨place, _, _, same, first, _⟩ := (loaded.fill_fails_at_first opened 0).2 _ failed
  cases same
  exact ⟨documents, network, loaded, opened, failed, place, first⟩

end Documents

end XbrlNetworks
