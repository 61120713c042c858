import XbrlNetworks.Proofs.Binding
import XbrlNetworks.Proofs.Population
import XbrlNetworks.Proofs.Refilling

/-! # Resuming an interrupted filling

Wherever filling stops, it has inserted the relationships that some first offers
of the catalogue are bound to, each of them once.  Begun anew it goes through the
same offers: it finds the first ones known and inserts the rest, so that it ends
where it would have ended without the interruption.
-/

namespace XbrlNetworks

namespace Network

variable {network next : Network} {log relationships : Log} {r : Relationship} {isNew : Bool}

theorem Follows.insertAll_known (h : network.Follows log)
    (known : ∀ r ∈ relationships, r ∈ log) : network.insertAll relationships = .ok network := by
  induction relationships with
  | nil => rfl
  | cons r rest ih =>
      obtain ⟨next, inserted, _⟩ := h.insert (h.own r (known r List.mem_cons_self))
      have repeated : log.repeats r = true :=
        Log.repeats_iff_mem_marks.mpr (Log.mem_marks.mpr ⟨r, known r List.mem_cons_self, rfl, rfl⟩)
      -- What is repeated is not new, so the network stays as it is.
      rw [repeated] at inserted
      obtain rfl := eq_of_insert_false inserted
      rw [Network.insertAll, List.foldlM_cons, inserted]
      exact ih fun other member => known other (List.mem_cons_of_mem r member)

theorem Follows.total_lt_iff (h : network.Follows log) (grown : network.Grows next) :
    network.total < next.total ↔ next ≠ network := by
  have either : next = network ∨ network.total < next.total := by
    induction grown with
    | refl => exact .inl rfl
    | @insert between last r isNew grown inserted ih =>
        obtain ⟨⟨rest, follows⟩, _⟩ := h.grows grown
        have counted := follows.coherent.total_insert inserted
        cases isNew with
        | false => rwa [eq_of_insert_false inserted]
        | true =>
            rw [Bool.toNat_true] at counted
            rcases ih with rfl | less
            · exact .inr (by omega)
            · exact .inr (by omega)
  rcases either with rfl | less
  · simp
  · refine ⟨fun _ same => ?_, fun _ => less⟩
    rw [same] at less
    exact Nat.lt_irrefl _ less

end Network

namespace Filling

variable {α β : Type} {origin next : Network} {log : Log} {catalogue : Catalogue}
  {done offers later : List Offer} {progress : Progress} {r : Relationship} {isNew : Bool}

/-- From an original network the work has come as far as some offers: they have been bound and
    inserted, each new one has been counted, and every index still has its fragment. -/
structure Underway (origin : Network) (catalogue : Catalogue) (done : List Offer)
    (progress : Progress) : Prop where
  inserted : ∃ relationships, List.Forall₂ (origin.Binds catalogue) done relationships ∧
    origin.insertAll relationships = .ok progress.network
  alike : catalogue.StandsAlike origin progress.network
  counted : progress.added + origin.total = progress.network.total

theorem Underway.start (origin : Network) (catalogue : Catalogue) (calls : Nat) :
    Underway origin catalogue [] ⟨origin, calls, 0⟩ :=
  ⟨⟨[], .nil, rfl⟩, fun _ => rfl, Nat.zero_add _⟩

theorem Underway.grows (h : Underway origin catalogue done progress) :
    origin.Grows progress.network := by
  obtain ⟨relationships, _, inserted⟩ := h.inserted
  exact Network.grows_insertAll inserted

theorem Underway.called (h : Underway origin catalogue done progress) :
    Underway origin catalogue done { progress with calls := progress.calls + 1 } :=
  ⟨h.inserted, h.alike, h.counted⟩

theorem Underway.insert {offer : Offer} (h : Underway origin catalogue done progress)
    (follows : origin.Follows log) (binds : origin.Binds catalogue offer r)
    (source : catalogue.Vouches origin.fragments r.source)
    (target : catalogue.Vouches origin.fragments r.target)
    (inserted : progress.network.insert r = .ok (next, isNew)) :
    Underway origin catalogue (done ++ [offer])
      { progress with network := next, added := progress.added + isNew.toNat } := by
  have covered := h.grows.covered
  obtain ⟨⟨_, followsNow⟩, _⟩ := follows.grows h.grows
  refine ⟨?_, ?_, ?_⟩
  · obtain ⟨relationships, bound, before⟩ := h.inserted
    refine ⟨relationships ++ [r], List.rel_append bound (.cons binds .nil), ?_⟩
    rw [Network.insertAll_append, before]
    simp only [Network.insertAll, Except.bind, List.foldlM_cons, inserted]
    rfl
  · exact h.alike.trans
      (Catalogue.standsAlike_insert (source.mono covered) (target.mono covered) inserted)
  · have before := h.counted
    have more := followsNow.coherent.total_insert inserted
    simp only
    omega

/-- How work on some offers ends: with all of them done and a good answer, or after a failure with
    the first of them done. -/
def Reaches (origin : Network) (catalogue : Catalogue) (done offers : List Offer)
    (good : α → Prop) : EStateM.Result Failure Progress α → Prop
  | .ok answer progress => Underway origin catalogue (done ++ offers) progress ∧ good answer
  | .error _ progress =>
    ∃ first, first <+: offers ∧ Underway origin catalogue (done ++ first) progress

/-- Work that takes up some offers wherever the work before it has come to. -/
def TakesUp (origin : Network) (catalogue : Catalogue) (offers : List Offer) (good : α → Prop)
    (work : Filling α) : Prop :=
  ∀ done progress, Underway origin catalogue done progress →
    Reaches origin catalogue done offers good (work progress)

section Rules

variable {good : α → Prop} {good' : β → Prop} {work : Filling α} {next : α → Filling β}

theorem TakesUp.pure {answer : α} (h : good answer) :
    TakesUp origin catalogue [] good (Pure.pure answer) :=
  fun done progress underway => ⟨by rwa [List.append_nil], h⟩

theorem TakesUp.throw (failure : Failure) :
    TakesUp origin catalogue offers good (throw failure) :=
  fun done progress underway => ⟨[], List.nil_prefix, by rwa [List.append_nil]⟩

theorem Reaches.of_append {result : EStateM.Result Failure Progress α}
    (h : Reaches origin catalogue (done ++ offers) later good result) :
    Reaches origin catalogue done (offers ++ later) good result := by
  cases result with
  | ok answer progress => exact ⟨List.append_assoc done offers later ▸ h.1, h.2⟩
  | error failure progress =>
      obtain ⟨first, isFirst, underway⟩ := h
      refine ⟨offers ++ first, (List.prefix_append_right_inj offers).mpr isFirst, ?_⟩
      rwa [← List.append_assoc]

theorem TakesUp.append (h : TakesUp origin catalogue offers good work)
    (h' : ∀ answer, good answer → TakesUp origin catalogue later good' (next answer)) :
    TakesUp origin catalogue (offers ++ later) good' (work >>= next) := by
  intro done progress underway
  have reached := h done progress underway
  change Reaches origin catalogue done (offers ++ later) good' (EStateM.bind work next progress)
  simp only [EStateM.bind]
  cases ended : work progress with
  | error failure stopped =>
      rw [ended] at reached
      obtain ⟨first, isFirst, underway⟩ := reached
      exact ⟨first, isFirst.trans (offers.prefix_append later), underway⟩
  | ok answer between =>
      rw [ended] at reached
      exact (h' answer reached.2 (done ++ offers) between reached.1).of_append

theorem TakesUp.bind (h : TakesUp origin catalogue [] good work)
    (h' : ∀ answer, good answer → TakesUp origin catalogue offers good' (next answer)) :
    TakesUp origin catalogue offers good' (work >>= next) :=
  h.append h'

theorem TakesUp.get {next : Progress → Filling α}
    (h : ∀ done progress, Underway origin catalogue done progress →
      Reaches origin catalogue done offers good (next progress progress)) :
    TakesUp origin catalogue offers good (MonadState.get >>= next) :=
  h

theorem TakesUp.mapM {good : α → β → Prop} {work : α → Filling β} {items : List α}
    (h : ∀ item ∈ items, TakesUp origin catalogue [] (good item) (work item)) :
    TakesUp origin catalogue [] (List.Forall₂ good items) (items.mapM work) := by
  induction items with
  | nil => exact .pure .nil
  | cons item items ih =>
      rw [List.mapM_cons]
      refine .bind (h item List.mem_cons_self) fun answer isGood => ?_
      refine .bind (ih fun other member => h other (List.mem_cons_of_mem item member))
        fun answers areGood => ?_
      exact .pure (.cons isGood areGood)

/-- Items that stand for others are worked off one after the other, each taking up the offers of
    the one that it stands for. -/
theorem TakesUp.forM {R : β → α → Prop} {offersOf : β → List Offer} {work : α → Filling Unit}
    {others : List β} {items : List α} (h : List.Forall₂ R others items)
    (each : ∀ other ∈ others, ∀ item, R other item →
      TakesUp origin catalogue (offersOf other) (fun _ => True) (work item)) :
    TakesUp origin catalogue (others.flatMap offersOf) (fun _ => True) (items.forM work) := by
  induction h with
  | nil => exact .pure trivial
  | @cons other item others items stands _ ih =>
      refine .append (each other List.mem_cons_self item stands) fun _ _ => ?_
      exact ih fun other' member => each other' (List.mem_cons_of_mem other member)

theorem takesUp_ask (outage : Outage) (truth : Except StoreFault α) :
    TakesUp origin catalogue [] (fun answer => truth = .ok answer) (ask outage truth) := by
  refine .get fun done progress underway => ?_
  cases answered : outage.answer progress.calls truth with
  | error fault => exact ⟨[], List.nil_prefix, by simpa using underway.called⟩
  | ok answer => exact ⟨by simpa using underway.called, Outage.of_answer_eq_ok answered⟩

theorem takesUp_checkTime (limit : TimeLimit) :
    TakesUp origin catalogue [] (fun _ => True) (checkTime limit) := by
  refine .get fun done progress underway => ?_
  cases limit.spent? progress.calls with
  | some spent => exact TakesUp.throw _ done progress underway
  | none => exact TakesUp.pure trivial done progress underway

theorem takesUp_lookUp (outage : Outage) (locator target : Index) :
    TakesUp origin catalogue [] (fun found => catalogue.standing origin.fragments target = some found)
      (lookUp ⟨catalogue, outage⟩ locator target) := by
  refine .get fun done progress underway => ?_
  have alike := underway.alike target
  cases kept : progress.network.fragments[target]? with
  | some found =>
      refine TakesUp.pure ?_ done progress underway
      rw [← alike, Catalogue.standing_of_kept kept]
  | none =>
      refine TakesUp.bind (takesUp_ask outage _) (fun found there => ?_) done progress underway
      cases found with
      | none => exact .throw _
      | some found =>
          refine .pure ?_
          rw [← alike, Catalogue.standing_of_fetched kept there]

theorem takesUp_resolve (outage : Outage) (fragment : Fragment) :
    TakesUp origin catalogue []
      (fun found => catalogue.resolved? origin.fragments fragment = some found)
      (resolve ⟨catalogue, outage⟩ fragment) := by
  unfold resolve Catalogue.resolved?
  cases fragment.kind.target? with
  | none => exact .pure rfl
  | some target =>
      dsimp only
      refine .bind (takesUp_lookUp outage _ target) fun found stands => ?_
      split
      · exact .throw _
      · exact .pure stands

end Rules

section Work

variable {link : ExtendedLink} {arc : Arc} {outage : Outage} {limit : TimeLimit}

theorem takesUp_addPair (follows : origin.Follows log) (lawful : catalogue.Lawful)
    {source target start end_ : Fragment}
    (loadedSource : catalogue.fragment? source.index = .ok (some source))
    (loadedTarget : catalogue.fragment? target.index = .ok (some target))
    (fromSource : catalogue.resolved? origin.fragments source = some start)
    (fromTarget : catalogue.resolved? origin.fragments target = some end_) :
    TakesUp origin catalogue [⟨link, arc, source, target⟩] (fun _ => True)
      (addPair link arc start end_) := by
  have vouchedSource :=
    Catalogue.vouches_of_resolved? lawful follows.coherent loadedSource fromSource
  have vouchedTarget :=
    Catalogue.vouches_of_resolved? lawful follows.coherent loadedTarget fromTarget
  unfold addPair
  cases bound : Relationship.bind arc start end_ link with
  | error flaw => exact .throw _
  | ok r =>
      obtain ⟨rfl, rfl, rfl, rfl⟩ := Relationship.of_bind_eq_ok bound
      refine .get fun done progress underway => ?_
      cases inserted : progress.network.insert r with
      | error failure => exact TakesUp.throw failure done progress underway
      | ok next =>
          exact ⟨underway.insert follows ⟨rfl, rfl, fromSource, fromTarget⟩ vouchedSource
            vouchedTarget inserted, trivial⟩

theorem takesUp_addArc (follows : origin.Follows log) (lawful : catalogue.Lawful) :
    TakesUp origin catalogue (catalogue.offersOfArc link arc) (fun _ => True)
      (addArc ⟨catalogue, outage⟩ limit link arc) := by
  refine .bind (takesUp_checkTime limit) fun _ _ => ?_
  refine .bind (takesUp_ask outage _) fun sources hasSources => ?_
  refine .bind (.mapM fun source _ => takesUp_resolve outage source) fun starts atSources => ?_
  refine .bind (takesUp_ask outage _) fun targets hasTargets => ?_
  refine .bind (.mapM fun target _ => takesUp_resolve outage target) fun ends atTargets => ?_
  rw [Catalogue.offersOfArc, hasSources, hasTargets, Catalogue.answered_ok, Catalogue.answered_ok]
  refine .forM atSources fun source isSource start fromSource => ?_
  rw [List.map_eq_flatMap]
  refine .forM atTargets fun target isTarget end_ fromTarget => ?_
  exact takesUp_addPair follows lawful (lawful.sources arc sources hasSources source isSource)
    (lawful.targets arc targets hasTargets target isTarget) fromSource fromTarget

theorem takesUp_addLink (follows : origin.Follows log) (lawful : catalogue.Lawful)
    {arcRole : String} :
    TakesUp origin catalogue (catalogue.offersOfLink arcRole link) (fun _ => True)
      (addLink ⟨catalogue, outage⟩ limit arcRole link) := by
  refine .bind (takesUp_checkTime limit) fun _ _ => ?_
  refine .bind (takesUp_ask outage _) fun arcs hasArcs => ?_
  rw [Catalogue.offersOfLink, hasArcs, Catalogue.answered_ok]
  have each : List.Forall₂ Eq arcs arcs := List.forall₂_refl arcs
  refine .forM each fun arc _ _ same => ?_
  exact same ▸ takesUp_addArc follows lawful

theorem takesUp_addAll (follows : origin.Follows log) (lawful : catalogue.Lawful)
    (outage : Outage) (limit : TimeLimit) (baseSet : BaseSet) :
    TakesUp origin catalogue (catalogue.offers baseSet) (fun _ => True)
      (addAll ⟨catalogue, outage⟩ limit baseSet) := by
  refine .bind (takesUp_ask outage _) fun links hasLinks => ?_
  rw [Catalogue.offers, hasLinks, Catalogue.answered_ok]
  have each : List.Forall₂ Eq links links := List.forall₂_refl links
  refine .forM each fun link _ _ same => ?_
  exact same ▸ takesUp_addLink follows lawful

end Work

end Filling

namespace Network

variable {network : Network} {log : Log} {catalogue : Catalogue} {documents : Documents}

/-- Wherever filling ends, it has come as far as some first offers, and as far as all of them if it
    has succeeded. -/
theorem Follows.fill_underway (h : network.Follows log) (lawful : catalogue.Lawful)
    (outage : Outage) (limit : TimeLimit) (calls : Nat) :
    ∃ first progress, first <+: catalogue.offers network.baseSet ∧
      Filling.Underway network catalogue first progress ∧
      (network.fill ⟨catalogue, outage⟩ limit calls).network = progress.network ∧
      ((network.fill ⟨catalogue, outage⟩ limit calls).result = .ok progress.added ∧
          first = catalogue.offers network.baseSet ∨
        ∃ cause, (network.fill ⟨catalogue, outage⟩ limit calls).result =
          .error (.completion network.baseSet (0 < progress.added) cause)) := by
  have reached := Filling.takesUp_addAll h lawful outage limit network.baseSet []
    ⟨network, calls, 0⟩ (.start network catalogue calls)
  unfold fill
  cases ended : Filling.addAll ⟨catalogue, outage⟩ limit network.baseSet ⟨network, calls, 0⟩ with
  | ok _ progress =>
      rw [ended] at reached
      exact ⟨_, progress, List.prefix_rfl, reached.1, rfl, .inl ⟨rfl, rfl⟩⟩
  | error cause progress =>
      rw [ended] at reached
      obtain ⟨first, isFirst, underway⟩ := reached
      exact ⟨first, progress, isFirst, underway, rfl, .inr ⟨cause, rfl⟩⟩

theorem Follows.fill_inserts (h : network.Follows log) (lawful : catalogue.Lawful)
    {outage : Outage} {limit : TimeLimit} {calls added : Nat}
    (done : (network.fill ⟨catalogue, outage⟩ limit calls).result = .ok added) :
    ∃ relationships,
      List.Forall₂ (network.Binds catalogue) (catalogue.offers network.baseSet) relationships ∧
      network.insertAll relationships =
        .ok (network.fill ⟨catalogue, outage⟩ limit calls).network := by
  obtain ⟨first, progress, _, underway, atEnd, ⟨_, rfl⟩ | ⟨cause, failed⟩⟩ :=
    h.fill_underway lawful outage limit calls
  · rw [atEnd]
    exact underway.inserted
  · rw [done] at failed
    cases failed

/-- What stands in the way of filling does not depend on how far it has come. -/
theorem Follows.serves_iff_of_underway (h : network.Follows log) {first : List Offer}
    {progress : Progress} (underway : Filling.Underway network catalogue first progress) :
    catalogue.Serves progress.network network.baseSet ↔
      catalogue.Serves network network.baseSet := by
  obtain ⟨⟨_, follows⟩, same⟩ := h.grows underway.grows
  constructor
  · exact fun serves => serves.imp same.symm fun _ can =>
      can.of_standsAlike follows.coherent h.coherent underway.alike.symm
  · exact fun serves => serves.imp same fun _ can =>
      can.of_standsAlike h.coherent follows.coherent underway.alike

/-- From wherever filling has come to, it succeeds if it does from the start: nothing but fragments
    that stand for their indexes has been kept. -/
theorem Follows.exists_refill (h : network.Follows log) (lawful : catalogue.Lawful)
    {first : List Offer} {progress : Progress}
    (underway : Filling.Underway network catalogue first progress) {added : Nat}
    (whole : (network.fill ⟨catalogue, .never⟩ none 0).result = .ok added) :
    ∃ more, (progress.network.fill ⟨catalogue, .never⟩ none 0).result = .ok more := by
  obtain ⟨_, last, _, underwayLast, atEnd, _⟩ := h.fill_underway lawful .never none 0
  obtain ⟨_, serves⟩ := fill_eq_ok whole
  obtain ⟨⟨_, follows⟩, same⟩ := h.grows underway.grows
  rw [atEnd, h.serves_iff_of_underway underwayLast, ← h.serves_iff_of_underway underway,
    ← same] at serves
  exact follows.exists_fill serves 0

theorem Follows.network_fill_eq (h : network.Follows log) (lawful : catalogue.Lawful)
    {first : List Offer} {progress : Progress} (isFirst : first <+: catalogue.offers network.baseSet)
    (underway : Filling.Underway network catalogue first progress) {added more : Nat}
    (whole : (network.fill ⟨catalogue, .never⟩ none 0).result = .ok added)
    (resumed : (progress.network.fill ⟨catalogue, .never⟩ none 0).result = .ok more) :
    (progress.network.fill ⟨catalogue, .never⟩ none 0).network =
      (network.fill ⟨catalogue, .never⟩ none 0).network := by
  obtain ⟨before, bound, inserted⟩ := underway.inserted
  have follows := h.insertAll_ok inserted
  obtain ⟨relationships, boundAll, atEnd⟩ := h.fill_inserts lawful whole
  obtain ⟨relationships', boundAgain, atEnd'⟩ := follows.fill_inserts lawful resumed
  -- Every index still has its fragment, so the offers are bound to the same relationships again,
  rw [underway.grows.baseSet_eq] at boundAgain
  obtain rfl : relationships = relationships' :=
    List.right_unique_forall₂' binds_rightUnique boundAll
      (boundAgain.imp fun _ _ binds => binds.of_standsAlike underway.alike.symm)
  -- and the first of them are those that have been inserted before.
  obtain ⟨rest, split⟩ := isFirst
  rw [← split] at boundAll
  have boundFirst := (List.forall₂_take_append relationships first rest boundAll.flip).flip
  have same := List.right_unique_forall₂' binds_rightUnique bound boundFirst
  rw [← List.take_append_drop first.length relationships, ← same, insertAll_append] at atEnd atEnd'
  rw [inserted] at atEnd
  rw [follows.insertAll_known fun r member => List.mem_append_right log member] at atEnd'
  exact Except.ok.inj (atEnd'.symm.trans atEnd)

/-- Filling can be resumed.  Wherever an outage or a limit has stopped it, filling what is left
    succeeds if filling from the start does, and leads to the same network; if nothing has stopped
    it, nothing is added again.  The failure says that the network was filled in part just when it
    is another one than before. -/
theorem Reachable.resume_fill (h : network.Reachable) (documents : Documents) (outage : Outage)
    (limit : TimeLimit) (calls : Nat) :
    (∀ added, (network.fill ⟨documents.catalogue, .never⟩ none 0).result = .ok added →
      ∃ more, ((network.fill ⟨documents.catalogue, outage⟩ limit calls).network.fill
          ⟨documents.catalogue, .never⟩ none 0).result = .ok more ∧
        ((network.fill ⟨documents.catalogue, outage⟩ limit calls).network.fill
          ⟨documents.catalogue, .never⟩ none 0).network =
            (network.fill ⟨documents.catalogue, .never⟩ none 0).network) ∧
    (∀ added, (network.fill ⟨documents.catalogue, outage⟩ limit calls).result = .ok added →
      ((network.fill ⟨documents.catalogue, outage⟩ limit calls).network.fill
        ⟨documents.catalogue, .never⟩ none 0).result = .ok 0) ∧
    ∀ failure, (network.fill ⟨documents.catalogue, outage⟩ limit calls).result = .error failure →
      ∃ inPart cause, failure = .completion network.baseSet inPart cause ∧
        (inPart = true ↔ (network.fill ⟨documents.catalogue, outage⟩ limit calls).network ≠
          network) := by
  obtain ⟨log, follows⟩ := h.follows
  have lawful := documents.lawful_catalogue
  obtain ⟨first, progress, isFirst, underway, atEnd, ends⟩ :=
    follows.fill_underway lawful outage limit calls
  refine ⟨fun added whole => ?_, fun _ done => (fill_again h done .refl).1,
    fun failure failed => ?_⟩
  · rw [atEnd]
    obtain ⟨more, resumed⟩ := follows.exists_refill lawful underway whole
    exact ⟨more, resumed, follows.network_fill_eq lawful isFirst underway whole resumed⟩
  · rw [atEnd]
    obtain ⟨done, _⟩ | ⟨cause, stopped⟩ := ends
    · rw [done] at failed
      cases failed
    · obtain rfl := Except.error.inj (stopped.symm.trans failed)
      refine ⟨_, cause, rfl, ?_⟩
      have counted := underway.counted
      rw [decide_eq_true_eq, ← follows.total_lt_iff underway.grows]
      omega

/-- Of two arcs the first is added before the connection is lost, the second after it is back. -/
theorem resume_fill_after_first_arc : ∃ documents : Documents, ∃ network : Network,
    network.Reachable ∧
      (network.fill ⟨documents.catalogue, .after 4⟩ none 0).result =
        .error (.completion network.baseSet true (.storeAccess .connectionLost)) ∧
      (network.fill ⟨documents.catalogue, .never⟩ none 0).result = .ok 2 ∧
      ((network.fill ⟨documents.catalogue, .after 4⟩ none 0).network.fill
        ⟨documents.catalogue, .never⟩ none 0).result = .ok 1 ∧
      ((network.fill ⟨documents.catalogue, .after 4⟩ none 0).network.fill
        ⟨documents.catalogue, .never⟩ none 0).network =
          (network.fill ⟨documents.catalogue, .never⟩ none 0).network := by
  let documents := Documents.empty.load
    (DocumentEntry.sample [.plain "x" "A" "k", .plain "y" "A" "k"])
  let network := openFor (.sample "x" "s" "t" .optional)
  have whole : (network.fill ⟨documents.catalogue, .never⟩ none 0).result = .ok 2 := by
    decide +kernel
  obtain ⟨resumes, _, _⟩ :=
    (reachable_openFor (.sample "x" "s" "t" .optional)).resume_fill documents (.after 4) none 0
  obtain ⟨_, _, same⟩ := resumes 2 whole
  exact ⟨documents, network, reachable_openFor _, by decide +kernel, whole, by decide +kernel,
    same⟩

end Network

end XbrlNetworks
