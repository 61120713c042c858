import XbrlNetworks.Proofs.Loading
import XbrlNetworks.Store

/-! # What was loaded last is read back

All entries that have been loaded, however many loads there were, make up one log.
A fragment, link or arc hides the earlier ones of its index, while labels only
accumulate.  Every question to the catalogue is answered from the log alone: in
ascending order, with all that the last entry held, and without failure unless the
ends of an arc are asked for that was never loaded.
-/

namespace XbrlNetworks

open Std

/-- An arc together with the link and the labels that it was loaded with. -/
structure PlacedArc where
  link : Index
  sourceLabel : String
  targetLabel : String
  arc : Arc

def PlacedArc.row (placed : PlacedArc) : ArcRow :=
  .ofArc placed.link placed.sourceLabel placed.targetLabel placed.arc

namespace DocumentEntry

def fragmentAt? (index : Index) : DocumentEntry → Option Fragment
  | .fragment loaded => if loaded.index = index then some loaded else none
  | _ => none

def linkAt? (index : Index) : DocumentEntry → Option ExtendedLink
  | .link loaded => if loaded.index = index then some loaded else none
  | _ => none

def arcAt? (index : Index) : DocumentEntry → Option PlacedArc
  | .arc container sourceLabel targetLabel loaded =>
    if loaded.index = index then some ⟨container, sourceLabel, targetLabel, loaded⟩ else none
  | _ => none

/-- What the last entry of a log holds that holds anything. -/
def latest? {α : Type} (held : DocumentEntry → Option α) (log : List DocumentEntry) : Option α :=
  log.reverse.findSome? held

variable {α : Type} {held : DocumentEntry → Option α} {log : List DocumentEntry}
  {entry : DocumentEntry} {index : Index} {item : α}

theorem latest?_append_singleton :
    latest? held (log ++ [entry]) = (held entry).or (latest? held log) := by
  rw [latest?, latest?, List.reverse_append, List.reverse_singleton, List.singleton_append,
    List.findSome?_cons]
  cases held entry with
  | none => rfl
  | some item => rfl

theorem exists_of_latest? (h : latest? held log = some item) :
    ∃ entry ∈ log, held entry = some item := by
  obtain ⟨_, entry, _, split, holds, _⟩ := List.findSome?_eq_some_iff.mp h
  exact ⟨entry, List.mem_reverse.mp (by simp [split]), holds⟩

theorem index_of_latest_fragment {fragment : Fragment}
    (h : latest? (fragmentAt? index) log = some fragment) : fragment.index = index := by
  obtain ⟨entry, _, holds⟩ := exists_of_latest? h
  unfold fragmentAt? at holds
  grind

theorem index_of_latest_link {link : ExtendedLink}
    (h : latest? (linkAt? index) log = some link) : link.index = index := by
  obtain ⟨entry, _, holds⟩ := exists_of_latest? h
  unfold linkAt? at holds
  grind

theorem index_of_latest_arc {placed : PlacedArc}
    (h : latest? (arcAt? index) log = some placed) : placed.arc.index = index := by
  obtain ⟨entry, _, holds⟩ := exists_of_latest? h
  unfold arcAt? at holds
  grind

end DocumentEntry

open DocumentEntry (latest? fragmentAt? linkAt? arcAt?)

namespace Documents

variable {documents : Documents} {log : List DocumentEntry}

/-- The tables hold what a log of entries held last. -/
structure Records (documents : Documents) (log : List DocumentEntry) : Prop where
  fragments : ∀ index : Index,
    documents.fragments[index]? = (latest? (fragmentAt? index) log).map .ofFragment
  links : ∀ index : Index,
    documents.links[index]? = (latest? (linkAt? index) log).map ExtendedLink.role
  arcs : ∀ index : Index, documents.arcs[index]? = (latest? (arcAt? index) log).map PlacedArc.row
  members : ∀ link label fragment,
    ⟨link, label, fragment⟩ ∈ documents.members ↔ .member link label fragment ∈ log

theorem getElem?_insert_of_latest {α β : Type} {rows : ExtTreeMap Index β} {index : Index}
    {last : Option α} {rowOf : α → β} (h : rows[index]? = last.map rowOf) (own : Index)
    (item : α) : (rows.insert own (rowOf item))[index]? =
      ((if own = index then some item else none).or last).map rowOf := by
  simp only [ExtTreeMap.getElem?_insert, LawfulEqOrd.compare_eq_iff_eq]
  split
  · rfl
  · exact h

theorem records_empty : empty.Records [] := by
  constructor <;> simp [empty, latest?]

theorem Records.put (h : documents.Records log) (entry : DocumentEntry) :
    (documents.put entry).Records (log ++ [entry]) := by
  constructor
  case fragments =>
    intro index
    rw [DocumentEntry.latest?_append_singleton]
    cases entry with
    | fragment fragment =>
        exact getElem?_insert_of_latest (h.fragments index) fragment.index fragment
    | link | member | arc => exact h.fragments index
  case links =>
    intro index
    rw [DocumentEntry.latest?_append_singleton]
    cases entry with
    | link link => exact getElem?_insert_of_latest (h.links index) link.index link
    | fragment | member | arc => exact h.links index
  case arcs =>
    intro index
    rw [DocumentEntry.latest?_append_singleton]
    cases entry with
    | arc link sourceLabel targetLabel arc =>
        exact getElem?_insert_of_latest (h.arcs index) arc.index
          ⟨link, sourceLabel, targetLabel, arc⟩
    | fragment | link | member => exact h.arcs index
  case members =>
    intro link label fragment
    rw [List.mem_append, List.mem_singleton, ← h.members]
    cases entry with
    | member link' label' fragment' =>
        simp only [Documents.put, ExtTreeSet.mem_insert, LawfulEqCmp.compare_eq_iff_eq,
          Member.mk.injEq, DocumentEntry.member.injEq]
        grind
    | fragment | link | arc => simp [Documents.put, putFragment, putArc]

theorem records_load (log : List DocumentEntry) : (empty.load log).Records log := by
  induction log using List.reverseRecOn with
  | nil => exact records_empty
  | append_singleton log entry ih =>
      rw [load, List.foldl_append]
      exact ih.put entry

theorem Records.has_iff (h : documents.Records log) {fragment : Fragment} :
    documents.Has fragment ↔ latest? (fragmentAt? fragment.index) log = some fragment := by
  rw [Has, h.fragments, Option.map_eq_some_iff]
  constructor
  · rintro ⟨other, last, same⟩
    have index : other.index = fragment.index := DocumentEntry.index_of_latest_fragment last
    -- Both are read from the same row under the same index.
    have read := FragmentRow.read_ofFragment other
    rw [same, index, FragmentRow.read_ofFragment] at read
    rw [last, Except.ok.inj read]
  · exact fun last => ⟨fragment, last, rfl⟩

theorem Records.link_iff (h : documents.Records log) {link : ExtendedLink} {role : String} :
    documents.links[link.index]? = some role ∧ link.role = role ↔
      latest? (linkAt? link.index) log = some link ∧ link.role = role := by
  rw [h.links, Option.map_eq_some_iff]
  constructor
  · rintro ⟨⟨other, last, rfl⟩, same⟩
    have index : other.index = link.index := DocumentEntry.index_of_latest_link last
    obtain rfl : other = link := by
      cases other
      cases link
      simp_all
    exact ⟨last, rfl⟩
  · exact fun ⟨last, same⟩ => ⟨⟨link, last, same⟩, same⟩

theorem Records.hasArc_iff (h : documents.Records log) {link : Index}
    {sourceLabel targetLabel : String} {arc : Arc} :
    documents.HasArc link sourceLabel targetLabel arc ↔
      latest? (arcAt? arc.index) log = some ⟨link, sourceLabel, targetLabel, arc⟩ := by
  rw [HasArc, h.arcs, Option.map_eq_some_iff]
  constructor
  · rintro ⟨⟨link', sourceLabel', targetLabel', arc'⟩, last, same⟩
    have index : arc'.index = arc.index := DocumentEntry.index_of_latest_arc last
    have keeps : ArcRow.Keeps (arc.index, .ofArc link sourceLabel targetLabel arc) arc' :=
      ⟨link', sourceLabel', targetLabel', by rw [index, ← same]; rfl⟩
    obtain rfl := keeps.eq ⟨link, sourceLabel, targetLabel, rfl⟩
    obtain ⟨rfl, rfl, rfl⟩ :
        link' = link ∧ sourceLabel' = sourceLabel ∧ targetLabel' = targetLabel :=
      ⟨congrArg ArcRow.link same, congrArg ArcRow.sourceLabel same,
        congrArg ArcRow.targetLabel same⟩
    exact last
  · exact fun last => ⟨_, last, rfl⟩

theorem Records.carries_iff (h : documents.Records log) {link : Index} {label : String}
    {fragment : Fragment} : documents.Carries link label fragment ↔
      latest? (fragmentAt? fragment.index) log = some fragment ∧
        .member link label fragment.index ∈ log := by
  rw [← h.has_iff, ← h.members]
  exact ⟨fun carries => ⟨carries.has, carries.member⟩, fun ⟨has, member⟩ => ⟨has, member⟩⟩

end Documents

/-- A list of fragments that are those of a log with a label inside a link, ascending. -/
def DocumentEntry.ListsLabelled (log : List DocumentEntry) (link : Index) (label : String)
    (fragments : List Fragment) : Prop :=
  Ascending (compareOn Fragment.index) fragments ∧
    ∀ fragment, fragment ∈ fragments ↔
      latest? (fragmentAt? fragment.index) log = some fragment ∧
        .member link label fragment.index ∈ log

/-- A catalogue answers what a log of entries held last. -/
structure Catalogue.Recalls (catalogue : Catalogue) (log : List DocumentEntry) : Prop where
  fragment : ∀ index, catalogue.fragment? index = .ok (latest? (fragmentAt? index) log)
  links : ∀ role, ∃ links, catalogue.links role = .ok links ∧
    Ascending (compareOn ExtendedLink.index) links ∧
    ∀ link, link ∈ links ↔ latest? (linkAt? link.index) log = some link ∧ link.role = role
  linkRoles : ∃ roles, catalogue.linkRoles = .ok roles ∧ Ascending compare roles ∧
    ∀ role, role ∈ roles ↔ catalogue.links role ≠ .ok []
  arcRoles : ∃ roles, catalogue.arcRoles = .ok roles ∧ Ascending compare roles ∧
    ∀ role, role ∈ roles ↔ ∃ index placed,
      latest? (arcAt? index) log = some placed ∧ placed.arc.role = role
  arcs : ∀ link role, ∃ arcs, catalogue.arcs link role = .ok arcs ∧
    Ascending (compareOn Arc.index) arcs ∧
    ∀ arc, arc ∈ arcs ↔ arc.role = role ∧ ∃ sourceLabel targetLabel,
      latest? (arcAt? arc.index) log = some ⟨link.index, sourceLabel, targetLabel, arc⟩
  ends : ∀ arc placed, latest? (arcAt? arc.index) log = some placed → ∃ sources targets,
    catalogue.arcSources arc = .ok sources ∧ catalogue.arcTargets arc = .ok targets ∧
    DocumentEntry.ListsLabelled log placed.link placed.sourceLabel sources ∧
    DocumentEntry.ListsLabelled log placed.link placed.targetLabel targets
  unknown : ∀ arc, latest? (arcAt? arc.index) log = none →
    catalogue.arcSources arc = .error (.unknownArc arc.index) ∧
    catalogue.arcTargets arc = .error (.unknownArc arc.index)

namespace Documents

variable {documents : Documents} {log : List DocumentEntry}

theorem Records.exists_labelled (h : documents.Records log) (readable : documents.Readable)
    (link : Index) (label : String) : ∃ fragments, documents.labelled link label = .ok fragments ∧
      DocumentEntry.ListsLabelled log link label fragments := by
  obtain ⟨fragments, read, ascends, members⟩ := readable.exists_labelled link label
  exact ⟨fragments, read, ascends, fun fragment => (members fragment).trans h.carries_iff⟩

theorem Records.recalls (h : documents.Records log) (readable : documents.Readable) :
    documents.catalogue.Recalls log := by
  constructor
  case fragment =>
    intro index
    change documents.fragment? index = _
    cases last : latest? (fragmentAt? index) log with
    | none => exact fragment?_eq_none (by rw [h.fragments, last]; rfl)
    | some fragment =>
        obtain rfl : fragment.index = index := DocumentEntry.index_of_latest_fragment last
        exact (h.has_iff.mpr last).fragment?_eq
  case links =>
    intro role
    refine ⟨_, rfl, ascending_linksWithRole role, fun link => ?_⟩
    rw [mem_linksWithRole, h.link_iff]
  case linkRoles =>
    refine ⟨_, rfl, ascending_distinct _, fun role => ?_⟩
    change _ ↔ Except.ok (documents.linksWithRole role) ≠ .ok []
    rw [mem_linkRoles, ne_eq, Except.ok.injEq]
    constructor
    · intro ⟨index, found⟩
      exact List.ne_nil_of_mem (mem_linksWithRole.mpr ⟨found, rfl⟩ : ⟨index, role⟩ ∈ _)
    · intro some
      obtain ⟨link, member⟩ := List.exists_mem_of_ne_nil _ some
      exact ⟨link.index, (mem_linksWithRole.mp member).1⟩
  case arcRoles =>
    refine ⟨_, rfl, ascending_distinct _, fun role => ?_⟩
    rw [mem_arcRoles]
    refine exists_congr fun index => ?_
    rw [h.arcs]
    simp only [Option.map_eq_some_iff]
    constructor
    · rintro ⟨_, ⟨placed, last, rfl⟩, same⟩
      exact ⟨placed, last, same⟩
    · exact fun ⟨placed, last, same⟩ => ⟨_, ⟨placed, last, rfl⟩, same⟩
  case arcs =>
    intro link role
    obtain ⟨arcs, read, ascends, members⟩ := readable.exists_arcsInLink link role
    refine ⟨arcs, read, ascends, fun arc => ?_⟩
    simp only [members, h.hasArc_iff]
  case ends =>
    intro arc placed last
    have found : documents.arcs[arc.index]? = some placed.row := by rw [h.arcs, last]; rfl
    obtain ⟨sources, readSources, listsSources⟩ :=
      h.exists_labelled readable placed.link placed.sourceLabel
    obtain ⟨targets, readTargets, listsTargets⟩ :=
      h.exists_labelled readable placed.link placed.targetLabel
    refine ⟨sources, targets, ?_, ?_, listsSources, listsTargets⟩
    · change documents.arcEnds ArcRow.sourceLabel arc = _
      rw [arcEnds, found]
      exact readSources
    · change documents.arcEnds ArcRow.targetLabel arc = _
      rw [arcEnds, found]
      exact readTargets
  case unknown =>
    intro arc absent
    have nothing : documents.arcs[arc.index]? = none := by rw [h.arcs, absent]; rfl
    constructor
    · change documents.arcEnds ArcRow.sourceLabel arc = _
      rw [arcEnds, nothing]
    · change documents.arcEnds ArcRow.targetLabel arc = _
      rw [arcEnds, nothing]

end Documents

namespace Store

theorem foldl_load (store : Store) (batches : List (List DocumentEntry)) :
    batches.foldl load store = store.load batches.flatten := by
  induction batches generalizing store with
  | nil => rfl
  | cons batch batches ih =>
      rw [List.foldl_cons, ih, List.flatten_cons]
      simp only [load, Documents.load, List.foldl_append]

/-- Loaded documents are read back as they were loaded last, in however many loads. -/
theorem recalls_foldl_load (settings : Settings) (batches : List (List DocumentEntry)) :
    (batches.foldl load (empty settings)).documents.catalogue.Recalls batches.flatten := by
  rw [foldl_load]
  exact (Documents.records_load batches.flatten).recalls
    (Documents.Loaded.load batches.flatten .empty).readable

end Store

end XbrlNetworks
