import XbrlNetworks.Proofs.Posting
import XbrlNetworks.Proofs.Taking
import XbrlNetworks.Store

/-! # What storing all relationships does

A pass over the documents fills one network after the other and then posts the
whole collection.  An outage and a time limit decide whether a pass succeeds, but
not what it leads to: work that succeeds does what it would have done undisturbed.
So a pass that succeeds posts the networks that the documents define.
-/

namespace XbrlNetworks

/-- A link of role `L` in which the label `p` stands for the fragment `s` and the label `q` for
    the fragment `t`, and arcs from the one label to the other. -/
def DocumentEntry.sample (arcs : List Arc) : List DocumentEntry :=
  [.fragment ⟨"s", .concept, none⟩, .fragment ⟨"t", .concept, none⟩, .link ⟨"link", "L"⟩,
    .member "link" "p" "s", .member "link" "q" "t"] ++ arcs.map (.arc "link" "p" "q")

namespace Filling

variable {α β : Type} {catalogue : Catalogue} {outage : Outage} {limit : TimeLimit}

/-- Where the one succeeds, the other does the same. -/
def SucceedsAs (work other : Filling α) : Prop :=
  ∀ progress answer progress', work progress = .ok answer progress' →
    other progress = .ok answer progress'

theorem SucceedsAs.refl (work : Filling α) : SucceedsAs work work := fun _ _ _ done => done

theorem SucceedsAs.bind {work other : Filling α} {next next' : α → Filling β}
    (h : SucceedsAs work other) (h' : ∀ answer, SucceedsAs (next answer) (next' answer)) :
    SucceedsAs (work >>= next) (other >>= next') := by
  intro progress answer progress' done
  obtain ⟨middle, between, first, rest⟩ := bind_eq_ok done
  change EStateM.bind other next' progress = _
  simp only [EStateM.bind, h _ _ _ first]
  exact h' middle _ _ _ rest

theorem SucceedsAs.mapM {work other : α → Filling β}
    (h : ∀ item, SucceedsAs (work item) (other item)) (items : List α) :
    SucceedsAs (items.mapM work) (items.mapM other) := by
  induction items with
  | nil => exact .refl _
  | cons item items ih =>
      rw [List.mapM_cons, List.mapM_cons]
      exact .bind (h item) fun _ => .bind ih fun _ => .refl _

theorem SucceedsAs.forM {work other : α → Filling Unit}
    (h : ∀ item, SucceedsAs (work item) (other item)) (items : List α) :
    SucceedsAs (items.forM work) (items.forM other) := by
  induction items with
  | nil => exact .refl _
  | cons item items ih => exact .bind (h item) fun _ => ih

theorem succeedsAs_ask (truth : Except StoreFault α) :
    SucceedsAs (ask outage truth) (ask .never truth) := by
  refine .bind (.refl _) fun progress => .bind (.refl _) fun _ => ?_
  cases answered : outage.answer progress.calls truth with
  | error fault =>
      intro _ _ _ done
      cases done
  | ok answer =>
      obtain rfl := Outage.of_answer_eq_ok answered
      exact .refl _

theorem succeedsAs_checkTime : SucceedsAs (checkTime limit) (checkTime none) := by
  refine .bind (.refl _) fun progress => ?_
  cases limit.spent? progress.calls with
  | some spent =>
      intro _ _ _ done
      cases done
  | none => exact .refl _

theorem succeedsAs_resolve (fragment : Fragment) :
    SucceedsAs (resolve ⟨catalogue, outage⟩ fragment) (resolve ⟨catalogue, .never⟩ fragment) := by
  unfold resolve
  cases fragment.kind.target? with
  | none => exact .refl _
  | some target =>
      refine .bind (.bind (.refl _) fun progress => ?_) fun _ => .refl _
      cases progress.network.fragments[target]? with
      | some kept => exact .refl _
      | none => exact .bind (succeedsAs_ask _) fun _ => .refl _

theorem succeedsAs_addArc (link : ExtendedLink) (arc : Arc) :
    SucceedsAs (addArc ⟨catalogue, outage⟩ limit link arc)
      (addArc ⟨catalogue, .never⟩ none link arc) :=
  .bind succeedsAs_checkTime fun _ =>
    .bind (succeedsAs_ask _) fun sources => .bind (.mapM succeedsAs_resolve sources) fun _ =>
      .bind (succeedsAs_ask _) fun targets => .bind (.mapM succeedsAs_resolve targets) fun _ =>
        .refl _

theorem succeedsAs_addAll (baseSet : BaseSet) :
    SucceedsAs (addAll ⟨catalogue, outage⟩ limit baseSet)
      (addAll ⟨catalogue, .never⟩ none baseSet) := by
  refine .bind (succeedsAs_ask _) fun links => .forM (fun link => ?_) links
  exact .bind succeedsAs_checkTime fun _ =>
    .bind (succeedsAs_ask _) fun arcs => .forM (succeedsAs_addArc link) arcs

end Filling

section Undisturbed

variable {catalogue : Catalogue} {outage : Outage} {limit : TimeLimit} {added calls : Nat}

theorem Network.fill_undisturbed {network : Network}
    (done : (network.fill ⟨catalogue, outage⟩ limit calls).result = .ok added) :
    network.fill ⟨catalogue, outage⟩ limit calls = network.fill ⟨catalogue, .never⟩ none calls := by
  unfold fill at done ⊢
  cases ended : Filling.addAll ⟨catalogue, outage⟩ limit network.baseSet ⟨network, calls, 0⟩ with
  | error cause stopped =>
      rw [ended] at done
      cases done
  | ok _ progress => rw [Filling.succeedsAs_addAll _ _ _ _ ended]

namespace Collection

variable {collection : Collection}

theorem fill_undisturbed {baseSet : BaseSet}
    (done : (collection.fill ⟨catalogue, outage⟩ limit baseSet calls).result = .ok added) :
    collection.fill ⟨catalogue, outage⟩ limit baseSet calls =
      collection.fill ⟨catalogue, .never⟩ none baseSet calls := by
  unfold fill at done ⊢
  cases opened : collection.networkOrNew baseSet with
  | error flaw => rfl
  | ok network =>
      simp only [opened] at done ⊢
      rw [Network.fill_undisturbed done]

theorem fillLinkRoles_undisturbed {arcRole : String} {linkRoles : List String} {before : Nat}
    (done : (fillLinkRoles ⟨catalogue, outage⟩ limit arcRole linkRoles collection before
      calls).result = .ok added) :
    fillLinkRoles ⟨catalogue, outage⟩ limit arcRole linkRoles collection before calls =
      fillLinkRoles ⟨catalogue, .never⟩ none arcRole linkRoles collection before calls := by
  induction linkRoles generalizing collection before calls with
  | nil => rfl
  | cons linkRole linkRoles ih =>
      simp only [fillLinkRoles] at done ⊢
      cases filled : (collection.fill ⟨catalogue, outage⟩ limit ⟨arcRole, linkRole⟩ calls).result with
      | error failure =>
          simp only [filled] at done
          cases done
      | ok more =>
          simp only [filled] at done
          rw [← fill_undisturbed filled]
          simp only [filled]
          exact ih done

theorem fillArcRole_undisturbed {arcRole : String}
    (done : (collection.fillArcRole ⟨catalogue, outage⟩ limit arcRole calls).result = .ok added) :
    collection.fillArcRole ⟨catalogue, outage⟩ limit arcRole calls =
      collection.fillArcRole ⟨catalogue, .never⟩ none arcRole calls := by
  unfold fillArcRole at done ⊢
  cases answered : outage.answer calls catalogue.linkRoles with
  | error fault =>
      simp only [answered] at done
      cases done
  | ok linkRoles =>
      simp only [answered] at done ⊢
      rw [Outage.of_answer_eq_ok answered]
      exact fillLinkRoles_undisturbed done

end Collection

end Undisturbed

namespace Store

variable {connection : Connection} {outage : Outage} {limit : TimeLimit} {store next : Store}
  {collection filled : Collection} {calls total : Nat}

theorem fillArcRoles_cons_eq_ok {arcRole : String} {arcRoles : List String}
    (h : fillArcRoles connection limit (arcRole :: arcRoles) collection calls =
      .ok (filled, total)) :
    ∃ rest added, limit.rest calls = .ok rest ∧
      (collection.fillArcRole connection rest arcRole calls).result = .ok added ∧
      fillArcRoles connection limit arcRoles
        (collection.fillArcRole connection rest arcRole calls).collection
        (collection.fillArcRole connection rest arcRole calls).calls = .ok (filled, total) := by
  simp only [fillArcRoles] at h
  cases left : limit.rest calls with
  | error passed =>
      simp only [left] at h
      cases h
  | ok rest =>
      simp only [left] at h
      cases done : (collection.fillArcRole connection rest arcRole calls).result with
      | error failure =>
          simp only [done] at h
          cases h
      | ok added =>
          simp only [done] at h
          exact ⟨rest, added, rfl, done, h⟩

theorem fillArcRoles_undisturbed {catalogue : Catalogue} {arcRoles : List String}
    (h : fillArcRoles ⟨catalogue, outage⟩ limit arcRoles collection calls = .ok (filled, total)) :
    fillArcRoles ⟨catalogue, .never⟩ none arcRoles collection calls = .ok (filled, total) := by
  induction arcRoles generalizing collection calls with
  | nil => exact h
  | cons arcRole arcRoles ih =>
      obtain ⟨rest, added, _, done, h⟩ := fillArcRoles_cons_eq_ok h
      have same := Collection.fillArcRole_undisturbed done
      rw [same] at done h
      simp only [fillArcRoles, TimeLimit.rest, done]
      exact ih h

theorem reachable_fillArcRoles {arcRoles : List String} (reached : collection.Reachable)
    (h : fillArcRoles connection limit arcRoles collection calls = .ok (filled, total)) :
    filled.Reachable := by
  induction arcRoles generalizing collection calls with
  | nil =>
      cases h
      exact reached
  | cons arcRole arcRoles ih =>
      obtain ⟨rest, _, _, _, h⟩ := fillArcRoles_cons_eq_ok h
      exact ih (reached.fillArcRole connection rest arcRole calls) h

theorem networks_eq_ok (h : store.networks outage limit = .ok (collection, calls)) :
    fillArcRoles ⟨store.documents.catalogue, outage⟩ limit store.documents.arcRoles .empty 1 =
      .ok (collection, calls) := by
  unfold networks at h
  cases answered : outage.answer 0 store.documents.catalogue.arcRoles with
  | error fault =>
      simp only [answered] at h
      cases h
  | ok arcRoles =>
      obtain rfl : store.documents.arcRoles = arcRoles :=
        Except.ok.inj (Outage.of_answer_eq_ok answered)
      simp only [answered] at h
      cases filled : fillArcRoles ⟨store.documents.catalogue, outage⟩ limit
          store.documents.arcRoles .empty 1 with
      | error failure =>
          rw [filled] at h
          cases h
      | ok done =>
          rw [filled] at h
          exact congrArg _ (Except.ok.inj h)

theorem networks_undisturbed (h : store.networks outage limit = .ok (collection, calls)) :
    store.networks .never none = .ok (collection, calls) :=
  congrArg (Except.mapError Problem.network) (fillArcRoles_undisturbed (networks_eq_ok h))

theorem reachable_networks (h : store.networks outage limit = .ok (collection, calls)) :
    collection.Reachable :=
  reachable_fillArcRoles .empty (networks_eq_ok h)

theorem networks_ledger (store : Store) (ledger : Ledger) :
    ({ store with ledger } : Store).networks outage limit = store.networks outage limit :=
  rfl

variable {clock : Clock} {span : Option Duration} {tally : Ledger.Tally}

theorem storeAll_eq_mk {result : Except Problem Ledger.Tally}
    (h : (store.storeAll outage clock span).1 = result) :
    store.storeAll outage clock span = (result, (store.storeAll outage clock span).2) :=
  Prod.ext h rfl

/-- A pass fails to fill the networks and changes nothing, or it fills all of them and posts
    them. -/
theorem storeAll_cases {result : Except Problem Ledger.Tally}
    (h : store.storeAll outage clock span = (result, next)) :
    (∃ problem, result = .error problem ∧ next = store) ∨ ∃ collection calls,
      store.networks outage (store.timeLimit clock span) = .ok (collection, calls) ∧
      result = (store.ledger.postAll (outage.onwards calls) collection.requests).result.mapError
        .network ∧
      next = { store with
        ledger := (store.ledger.postAll (outage.onwards calls) collection.requests).ledger } := by
  unfold storeAll at h
  cases defined : store.networks outage (store.timeLimit clock span) with
  | error problem =>
      simp only [defined, Prod.mk.injEq] at h
      exact .inl ⟨problem, h.1.symm, h.2.symm⟩
  | ok done =>
      simp only [defined, Prod.mk.injEq] at h
      exact .inr ⟨done.1, done.2, rfl, h.1.symm, h.2.symm⟩

theorem storeAll_eq_error {problem : Problem}
    (h : store.storeAll outage clock span = (.error problem, next)) :
    next = store ∨ ∃ collection calls failure,
      store.networks outage (store.timeLimit clock span) = .ok (collection, calls) ∧
      (store.ledger.postAll (outage.onwards calls) collection.requests).result = .error failure ∧
      problem = .network failure ∧
      next = { store with
        ledger := (store.ledger.postAll (outage.onwards calls) collection.requests).ledger } := by
  rcases storeAll_cases h with ⟨_, _, same⟩ | ⟨collection, calls, defined, posted, left⟩
  · exact .inl same
  · cases ended : (store.ledger.postAll (outage.onwards calls) collection.requests).result with
    | error failure =>
        rw [ended] at posted
        exact .inr ⟨collection, calls, failure, defined, ended, Except.error.inj posted, left⟩
    | ok total =>
        rw [ended] at posted
        cases posted

theorem storeAll_eq_ok_posted (h : store.storeAll outage clock span = (.ok tally, next)) :
    ∃ collection calls, store.networks .never none = .ok (collection, calls) ∧
      (store.ledger.postAll (outage.onwards calls) collection.requests).result = .ok tally ∧
      next = { store with
        ledger := (store.ledger.postAll (outage.onwards calls) collection.requests).ledger } := by
  rcases storeAll_cases h with ⟨_, failed, _⟩ | ⟨collection, calls, defined, posted, left⟩
  · cases failed
  · cases ended : (store.ledger.postAll (outage.onwards calls) collection.requests).result with
    | error failure =>
        rw [ended] at posted
        cases posted
    | ok total =>
        rw [ended] at posted
        obtain rfl := Except.ok.inj posted
        exact ⟨collection, calls, networks_undisturbed defined, ended, left⟩

theorem storeAll_eq_ok (h : store.storeAll outage clock span = (.ok tally, next)) :
    ∃ collection calls, store.networks .never none = .ok (collection, calls) ∧
      next = { store with ledger := collection.changes.foldl Ledger.apply store.ledger } := by
  obtain ⟨collection, calls, defined, posted, rfl⟩ := storeAll_eq_ok_posted h
  rw [Collection.ledger_postAll posted]
  exact ⟨collection, calls, defined, rfl⟩

end Store

end XbrlNetworks
