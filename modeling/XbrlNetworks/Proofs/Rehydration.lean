import XbrlNetworks.Proofs.Loading
import XbrlNetworks.Proofs.Rereading

/-! # Which records can be made relationships again

Records are not checked when they are put into a ledger, but when they are read.
A record is usable if its ends are loaded, its order is a number and the whole keeps
the rules of construction; if not, the first of these that is amiss is why reading
fails.  The fragments that are remembered from earlier records are those of the
documents, so each record is judged on its own, and the first one that is not usable
decides for all.
-/

namespace XbrlNetworks

def Documents.HasAt (documents : Documents) (index : Index) (fragment : Fragment) : Prop :=
  fragment.index = index ∧ documents.Has fragment

theorem Documents.HasAt.fragment?_eq {documents : Documents} {index : Index} {fragment : Fragment}
    (h : documents.HasAt index fragment) :
    documents.catalogue.fragment? index = .ok (some fragment) := by
  obtain ⟨rfl, has⟩ := h
  exact has.fragment?_eq

namespace Record

def arcWith (record : Record) (order : Arc.Order) : Arc :=
  ⟨record.arc, record.arcRole, order, record.priority, record.use, record.key⟩

/-- A record that can be made a relationship again. -/
structure Usable (documents : Documents) (record : Record) : Prop where
  source : ∃ fragment, documents.HasAt record.source fragment ∧ fragment.isLocator = false
  target : ∃ fragment, documents.HasAt record.target fragment ∧ fragment.isLocator = false
  order : ∃ order, Arc.Order.ofText? record.order = some order
  hasArcRole : record.arcRole ≠ ""
  hasLinkRole : record.linkRole ≠ ""

/-- What is amiss with a record first: that its source is not loaded, that its target is not, that
    its order is no number, or the first rule of construction that is broken. -/
inductive Unusable (documents : Documents) (record : Record) : Failure → Prop where
  | source : documents.fragments[record.source]? = none →
    Unusable documents record (.missingFragment record.source)
  | target {source : Fragment} : documents.HasAt record.source source →
    documents.fragments[record.target]? = none →
      Unusable documents record (.missingFragment record.target)
  | order {source target : Fragment} : documents.HasAt record.source source →
    documents.HasAt record.target target → Arc.Order.ofText? record.order = none →
      Unusable documents record (.invalidOrder record.arc record.order)
  | flaw {source target : Fragment} {order : Arc.Order} {flaw : Flaw} :
    documents.HasAt record.source source → documents.HasAt record.target target →
      Arc.Order.ofText? record.order = some order →
        Relationship.Unfit (record.arcWith order) source target record.toLink flaw →
          Unusable documents record (.validation flaw)

/-- Some record is not usable, for a reason that is given, and all records before it are. -/
def FirstUnusable (documents : Documents) (records : List Record) (failure : Failure) : Prop :=
  ∃ before record after, records = before ++ record :: after ∧
    (∀ earlier ∈ before, earlier.Usable documents) ∧ record.Unusable documents failure

variable {documents : Documents} {record : Record} {order : Arc.Order}

theorem toArc_of_some (h : Arc.Order.ofText? record.order = some order) :
    record.toArc = .ok (record.arcWith order) := by
  simp only [toArc, h]
  rfl

theorem toArc_of_none (h : Arc.Order.ofText? record.order = none) :
    record.toArc = .error (.invalidOrder record.arc record.order) := by
  simp only [toArc, h]

theorem Usable.exists_restores (h : record.Usable documents) :
    ∃ r, record.Restores documents.catalogue r := by
  obtain ⟨source, atSource, sourceResolved⟩ := h.source
  obtain ⟨target, atTarget, targetResolved⟩ := h.target
  obtain ⟨order, read⟩ := h.order
  exact ⟨⟨record.arcWith order, source, target, record.toLink, h.hasArcRole, h.hasLinkRole,
    sourceResolved, targetResolved⟩, atSource.fragment?_eq, atTarget.fragment?_eq,
    toArc_of_some read, rfl⟩

theorem usable_or_unusable (readable : documents.Readable) (record : Record) :
    record.Usable documents ∨ ∃ failure, record.Unusable documents failure := by
  rcases readable.fragment_cases record.source with noSource | ⟨source, atSource⟩
  · exact .inr ⟨_, .source noSource⟩
  rcases readable.fragment_cases record.target with noTarget | ⟨target, atTarget⟩
  · exact .inr ⟨_, .target atSource noTarget⟩
  cases read : Arc.Order.ofText? record.order with
  | none => exact .inr ⟨_, .order atSource atTarget read⟩
  | some order =>
      rcases Relationship.fit_or_unfit (record.arcWith order) source target record.toLink with
        fit | ⟨flaw, unfit⟩
      · exact .inl ⟨⟨source, atSource, fit.sourceResolved⟩, ⟨target, atTarget, fit.targetResolved⟩,
          ⟨order, read⟩, fit.hasArcRole, fit.hasLinkRole⟩
      · exact .inr ⟨_, .flaw atSource atTarget read unfit⟩

theorem usable_or_firstUnusable (readable : documents.Readable) (records : List Record) :
    (∀ record ∈ records, record.Usable documents) ∨
      ∃ failure, FirstUnusable documents records failure := by
  induction records with
  | nil => exact .inl (by simp)
  | cons record records ih =>
      rcases usable_or_unusable readable record with usable | ⟨failure, unusable⟩
      · rcases ih with all | ⟨failure, before, first, after, rfl, earlier, unusable⟩
        · exact .inl (List.forall_mem_cons.mpr ⟨usable, all⟩)
        · exact .inr ⟨failure, record :: before, first, after, rfl,
            List.forall_mem_cons.mpr ⟨usable, earlier⟩, unusable⟩
      · exact .inr ⟨failure, [], record, records, rfl, by simp, unusable⟩

end Record

/-- The records that a query wants and a mode does not leave out. -/
def Ledger.selected (ledger : Ledger) (mode : Analysis.Mode) (query : Query) : List Record :=
  (ledger.select query).filter fun record => mode != .nonProhibited || !record.prohibited

theorem Ledger.select_narrow (ledger : Ledger) (connection : Connection) (mode : Analysis.Mode)
    (query : Query) : ledger.select ((Analysis.mk connection ledger mode).narrow query) =
      ledger.selected mode query := by
  cases mode with
  | all => exact (List.filter_true _).symm
  | activeOnly => exact (List.filter_true _).symm
  | nonProhibited => exact ledger.select_withoutProhibited query

namespace Analysis

variable {catalogue : Catalogue} {documents : Documents} {memory : Memory} {failure : Failure}
  {record : Record} {records : List Record} {ledger : Ledger} {mode : Mode} {query : Query}

theorem bind_of_eq_error {α β : Type} {work : Recalling α} {next : α → Recalling β}
    (h : work memory = .error failure) : (work >>= next) memory = .error failure := by
  change (work memory >>= fun done => next done.1 done.2) = _
  rw [h]
  rfl

theorem fetch_eq_error (h : Faithful catalogue memory) {index : Index}
    (absent : catalogue.fragment? index = .ok none) :
    fetch ⟨catalogue, .never⟩ index memory = .error (.missingFragment index) := by
  unfold fetch
  cases known : memory.known[index]? with
  | some fragment =>
      have there := h index fragment known
      rw [absent] at there
      cases there
  | none => simp only [Outage.answer, Outage.never, absent]

theorem restore_eq_error (h : Faithful documents.catalogue memory)
    (unusable : record.Unusable documents failure) :
    restore ⟨documents.catalogue, .never⟩ record memory = .error failure := by
  -- Fetching leaves the memory faithful, so the target is looked up as if nothing were known.
  cases unusable with
  | source noSource =>
      exact bind_of_eq_error (fetch_eq_error h (Documents.fragment?_eq_none noSource))
  | target atSource noTarget =>
      obtain ⟨between, fetched, faithful⟩ := fetch_eq_ok h atSource.fragment?_eq
      calc
        restore ⟨documents.catalogue, .never⟩ record memory = _ := bind_of_eq_ok fetched
        _ = _ := bind_of_eq_error
          (fetch_eq_error faithful (Documents.fragment?_eq_none noTarget))
  | order atSource atTarget unread =>
      obtain ⟨between, fetched, faithful⟩ := fetch_eq_ok h atSource.fragment?_eq
      obtain ⟨last, fetched', _⟩ := fetch_eq_ok faithful atTarget.fragment?_eq
      have made : (liftM record.toArc : Recalling Arc) last =
          .error (.invalidOrder record.arc record.order) := by
        rw [Record.toArc_of_none unread]
        rfl
      calc
        restore ⟨documents.catalogue, .never⟩ record memory = _ := bind_of_eq_ok fetched
        _ = _ := bind_of_eq_ok fetched'
        _ = _ := bind_of_eq_error made
  | @flaw _ _ order _ atSource atTarget read unfit =>
      obtain ⟨between, fetched, faithful⟩ := fetch_eq_ok h atSource.fragment?_eq
      obtain ⟨last, fetched', _⟩ := fetch_eq_ok faithful atTarget.fragment?_eq
      have made : (liftM record.toArc : Recalling Arc) last = .ok (record.arcWith order, last) := by
        rw [Record.toArc_of_some read]
        rfl
      calc
        restore ⟨documents.catalogue, .never⟩ record memory = _ := bind_of_eq_ok fetched
        _ = _ := bind_of_eq_ok fetched'
        _ = _ := bind_of_eq_ok made
        _ = _ := by
          simp only [unfit.bind_eq_error]
          rfl

theorem mapM_restore_eq_error (h : Faithful documents.catalogue memory)
    (first : Record.FirstUnusable documents records failure) :
    records.mapM (restore ⟨documents.catalogue, .never⟩) memory = .error failure := by
  obtain ⟨before, record, after, rfl, usable, unusable⟩ := first
  induction before generalizing memory with
  | nil =>
      rw [List.nil_append, List.mapM_cons]
      exact bind_of_eq_error (restore_eq_error h unusable)
  | cons earlier before ih =>
      obtain ⟨⟨r, restores⟩, usable⟩ :=
        (List.forall_mem_cons.mp usable).imp_left Record.Usable.exists_restores
      obtain ⟨between, restored, faithful⟩ := exists_restore h restores
      rw [List.cons_append, List.mapM_cons, bind_of_eq_ok restored]
      exact bind_of_eq_error (ih faithful usable)

theorem exists_recorded (ledger : Ledger) (mode : Mode)
    (usable : ∀ record ∈ ledger.select query, record.Usable documents) :
    ∃ relationships, (Analysis.mk ⟨documents.catalogue, .never⟩ ledger mode).recorded query =
      .ok relationships := by
  obtain ⟨relationships, restored⟩ :=
    exists_forall₂ fun record member => (usable record member).exists_restores
  exact ⟨relationships, recorded_of_restores mode restored⟩

theorem recorded_eq_error (ledger : Ledger) (mode : Mode)
    (first : Record.FirstUnusable documents (ledger.select query) failure) :
    (Analysis.mk ⟨documents.catalogue, .never⟩ ledger mode).recorded query = .error failure := by
  change ((ledger.select query).mapM (restore ⟨documents.catalogue, .never⟩) ⟨1, ∅⟩ >>=
    fun done => pure done.1) = _
  rw [mapM_restore_eq_error (faithful_empty 1) first]
  rfl

theorem exists_relationships_of_recorded {analysis : Analysis}
    {relationships : List Relationship}
    (read : analysis.recorded (analysis.narrow query) = .ok relationships) :
    ∃ reported, analysis.relationships query = .ok reported := by
  by_cases unresolved : analysis.mode = .all
  · obtain ⟨connection, ledger, mode⟩ := analysis
    subst unresolved
    exact ⟨relationships, read⟩
  · obtain ⟨rebuilt, built, _⟩ := exists_networks read
    exact ⟨_, relationships_of_networks unresolved built⟩

theorem exists_relationships_of_usable
    (usable : ∀ record ∈ ledger.selected mode query, record.Usable documents) :
    ∃ reported, (Analysis.mk ⟨documents.catalogue, .never⟩ ledger mode).relationships query =
      .ok reported := by
  rw [← ledger.select_narrow ⟨documents.catalogue, .never⟩] at usable
  obtain ⟨relationships, read⟩ := exists_recorded ledger mode usable
  exact exists_relationships_of_recorded read

theorem relationships_eq_error_of_first
    (first : Record.FirstUnusable documents (ledger.selected mode query) failure) :
    (Analysis.mk ⟨documents.catalogue, .never⟩ ledger mode).relationships query =
      .error failure := by
  rw [← ledger.select_narrow ⟨documents.catalogue, .never⟩] at first
  exact relationships_eq_error (recorded_eq_error ledger mode first)

theorem restores_of_recorded_narrow {relationships : List Relationship}
    (read : (Analysis.mk ⟨catalogue, .never⟩ ledger mode).recorded
      ((Analysis.mk ⟨catalogue, .never⟩ ledger mode).narrow query) = .ok relationships) :
    List.Forall₂ (Record.Restores catalogue) (ledger.selected mode query) relationships := by
  rw [← ledger.select_narrow ⟨catalogue, .never⟩]
  exact recorded_eq_ok_iff.mp read

end Analysis

/-- Relationships are reported just when every record that is selected is usable, and otherwise
    what is amiss with the first that is not is the failure.  No record gets lost: where all are
    reported as they are, there is one relationship for each in the order of the records, and
    networks take all that are read. -/
theorem Store.relationships_of_usable {store : Store} (loaded : store.documents.Loaded)
    (mode : Analysis.Mode) (query : Query) :
    ((∃ reported, (store.analysis .never mode).relationships query = .ok reported) ↔
      ∀ record ∈ store.ledger.selected mode query, record.Usable store.documents) ∧
    (∀ failure, (store.analysis .never mode).relationships query = .error failure ↔
      Record.FirstUnusable store.documents (store.ledger.selected mode query) failure) ∧
    (∀ reported, (store.analysis .never .all).relationships query = .ok reported →
      List.Forall₂ (Record.Restores store.documents.catalogue) (store.ledger.selected .all query)
        reported) ∧
    ∀ relationships, (store.analysis .never mode).recorded
        ((store.analysis .never mode).narrow query) = .ok relationships →
      List.Forall₂ (Record.Restores store.documents.catalogue) (store.ledger.selected mode query)
        relationships ∧
      ∃ rebuilt added, Collection.empty.insertAll relationships = .ok (rebuilt, added) := by
  -- One of the two premises holds, so the outcome tells which.
  have either := Record.usable_or_firstUnusable loaded.readable (store.ledger.selected mode query)
  refine ⟨⟨?_, Analysis.exists_relationships_of_usable⟩,
    fun failure => ⟨?_, Analysis.relationships_eq_error_of_first⟩,
    fun _ read => Analysis.restores_of_recorded_narrow read, fun relationships read => ?_⟩
  · rintro ⟨reported, done⟩
    rcases either with usable | ⟨failure, first⟩
    · exact usable
    · cases done.symm.trans (Analysis.relationships_eq_error_of_first first)
  · intro failed
    rcases either with usable | ⟨other, first⟩
    · obtain ⟨reported, done⟩ := Analysis.exists_relationships_of_usable usable
      cases failed.symm.trans done
    · cases failed.symm.trans (Analysis.relationships_eq_error_of_first first)
      exact first
  · obtain ⟨rebuilt, added, inserted, _⟩ := Collection.follows_empty.insertAll relationships
    exact ⟨Analysis.restores_of_recorded_narrow read, rebuilt, added, inserted⟩

/-- Of two records that prohibit, one has no order that is a number and the other ends where nothing
    is loaded.  The former comes first and is why not all can be reported, and the third record is
    reported where they are left out. -/
theorem Store.relationships_of_usable_of_two_unusable : ∃ store : Store, ∃ reported,
    store.documents.Loaded ∧ (store.ledger.selected .all Query.all).length = 3 ∧
      (store.analysis .never .all).relationships Query.all = .error (.invalidOrder "y" "second") ∧
      Record.FirstUnusable store.documents (store.ledger.selected .all Query.all)
        (.invalidOrder "y" "second") ∧
      (store.analysis .never .nonProhibited).relationships Query.all = .ok reported ∧
      reported.length = 1 ∧
      ∀ record ∈ store.ledger.selected .nonProhibited Query.all,
        record.Usable store.documents := by
  let p := Relationship.sample "x" "s" "t" .optional
  let q : Record := { Record.ofRelationship (.sample "y" "s" "u" .prohibited) true with
    order := "second" }
  let z : Record := .ofRelationship (.sample "z" "t" "v" .prohibited) false
  let changes : List Ledger.Change := [.put z, .put q, .put (.ofRelationship p true)]
  let store : Store := ⟨Documents.empty.load [.fragment p.source, .fragment p.target,
    .fragment ⟨"u", .concept, none⟩], changes.foldl Ledger.apply ∅, .inMemory⟩
  have loaded : store.documents.Loaded := .load _ .empty
  have failed : (store.analysis .never .all).relationships Query.all =
      .error (.invalidOrder "y" "second") := by
    decide +kernel
  have done : (store.analysis .never .nonProhibited).relationships Query.all = .ok [p] := by
    decide +kernel
  obtain ⟨_, fails_iff, _⟩ := Store.relationships_of_usable loaded .all Query.all
  obtain ⟨reads_iff, _⟩ := Store.relationships_of_usable loaded .nonProhibited Query.all
  exact ⟨store, [p], loaded, by decide +kernel, failed, (fails_iff _).mp failed, done, rfl,
    reads_iff.mp ⟨_, done⟩⟩

end XbrlNetworks
