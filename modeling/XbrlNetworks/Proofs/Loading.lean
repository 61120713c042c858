import XbrlNetworks.Proofs.Ascending
import XbrlNetworks.Proofs.Fetched

/-! # What loaded documents answer

Loading writes rows only of fragments and arcs that there are, each under its
own index, so every row that is asked for can be read.  The catalogue of loaded
documents answers all that filling asks, and each answer lists in ascending
order what the tables say.
-/

namespace XbrlNetworks

open Std

theorem mapM_eq_ok_of_forall₂ {α β ε : Type} {work : α → Except ε β} {items : List α}
    {answers : List β}
    (h : List.Forall₂ (fun item answer => work item = .ok answer) items answers) :
    items.mapM work = .ok answers := by
  induction h with
  | nil => rfl
  | cons first _ ih =>
      rw [List.mapM_cons, first, ih]
      rfl

theorem ArcRow.readPriority_ofArc (link : Index) (sourceLabel targetLabel : String) (arc : Arc) :
    (ofArc link sourceLabel targetLabel arc).readPriority = .ok arc.priority := by
  simp only [readPriority, ofArc, Arc.priorityOfInt?_toInt]

theorem ArcRow.read_ofArc (link : Index) (sourceLabel targetLabel : String) (arc : Arc) :
    (ofArc link sourceLabel targetLabel arc).read arc.index arc.priority = .ok arc := by
  simp only [read, ofArc, Arc.Use.ofText?_text, Arc.Order.ofText?_text]

def ArcRow.Keeps (entry : Index × ArcRow) (arc : Arc) : Prop :=
  ∃ link sourceLabel targetLabel, entry = (arc.index, ofArc link sourceLabel targetLabel arc)

theorem ArcRow.Keeps.eq {entry : Index × ArcRow} {arc arc' : Arc} (h : Keeps entry arc)
    (h' : Keeps entry arc') : arc = arc' := by
  obtain ⟨link, sourceLabel, targetLabel, rfl⟩ := h
  obtain ⟨link', sourceLabel', targetLabel', same⟩ := h'
  obtain ⟨index, row⟩ := Prod.mk.inj same
  have priority : (Except.ok arc.priority : Except StoreFault Int32) = .ok arc'.priority := by
    rw [← readPriority_ofArc link sourceLabel targetLabel arc, row, readPriority_ofArc]
  have read : (Except.ok arc : Except StoreFault Arc) = .ok arc' := by
    rw [← read_ofArc link sourceLabel targetLabel arc, row, index, Except.ok.inj priority,
      read_ofArc]
  exact Except.ok.inj read

namespace Documents

/-- Documents that have come about by loading. -/
inductive Loaded : Documents → Prop where
  | empty : Loaded empty
  | load {documents : Documents} (entries : List DocumentEntry) :
    Loaded documents → Loaded (documents.load entries)

/-- Every row of a fragment or an arc keeps one of its own index. -/
structure Readable (documents : Documents) : Prop where
  fragments : ∀ (index : Index) (row : FragmentRow), documents.fragments[index]? = some row →
    ∃ fragment : Fragment, fragment.index = index ∧ row = .ofFragment fragment
  arcs : ∀ (index : Index) (row : ArcRow), documents.arcs[index]? = some row →
    ∃ arc : Arc, ArcRow.Keeps (index, row) arc

variable {documents : Documents}

theorem Readable.put (h : documents.Readable) (entry : DocumentEntry) :
    (documents.put entry).Readable := by
  cases entry with
  | fragment fragment =>
      refine ⟨fun index row found => ?_, h.arcs⟩
      simp only [Documents.put, putFragment, ExtTreeMap.getElem?_insert,
        LawfulEqOrd.compare_eq_iff_eq] at found
      split at found
      · rename_i here
        exact ⟨fragment, here, (Option.some.inj found).symm⟩
      · exact h.fragments index row found
  | link link => exact ⟨h.fragments, h.arcs⟩
  | member link label fragment => exact ⟨h.fragments, h.arcs⟩
  | arc link sourceLabel targetLabel arc =>
      refine ⟨h.fragments, fun index row found => ?_⟩
      simp only [Documents.put, putArc, ExtTreeMap.getElem?_insert,
        LawfulEqOrd.compare_eq_iff_eq] at found
      split at found
      · rename_i here
        cases found
        exact ⟨arc, link, sourceLabel, targetLabel, by rw [← here]⟩
      · exact h.arcs index row found

theorem Loaded.readable (h : documents.Loaded) : documents.Readable := by
  induction h with
  | empty =>
      constructor
      · intro index row found
        simp [Documents.empty] at found
      · intro index row found
        simp [Documents.empty] at found
  | load entries _ ih =>
      exact List.foldlRecOn entries put ih fun _ readable entry _ => readable.put entry

def Has (documents : Documents) (fragment : Fragment) : Prop :=
  documents.fragments[fragment.index]? = some (.ofFragment fragment)

/-- A fragment of the documents carries a label inside a link. -/
structure Carries (documents : Documents) (link : Index) (label : String)
    (fragment : Fragment) : Prop where
  has : documents.Has fragment
  member : ⟨link, label, fragment.index⟩ ∈ documents.members

def HasArc (documents : Documents) (link : Index) (sourceLabel targetLabel : String)
    (arc : Arc) : Prop :=
  documents.arcs[arc.index]? = some (.ofArc link sourceLabel targetLabel arc)

variable {fragment : Fragment} {index : Index}

theorem Has.fragment?_eq (h : documents.Has fragment) :
    documents.fragment? fragment.index = .ok (some fragment) := by
  rw [fragment?, show documents.fragments[fragment.index]? = _ from h]
  simp only [FragmentRow.read_ofFragment]
  rfl

theorem fragment?_eq_none (h : documents.fragments[index]? = none) :
    documents.fragment? index = .ok none := by
  simp only [fragment?, h]

theorem Readable.fragment_cases (h : documents.Readable) (index : Index) :
    documents.fragments[index]? = none ∨
      ∃ fragment : Fragment, fragment.index = index ∧ documents.Has fragment := by
  cases found : documents.fragments[index]? with
  | none => exact .inl rfl
  | some row =>
      obtain ⟨fragment, rfl, rfl⟩ := h.fragments index row found
      exact .inr ⟨fragment, rfl, found⟩

theorem Readable.has_of_fragment? (h : documents.Readable)
    (found : documents.fragment? index = .ok (some fragment)) :
    fragment.index = index ∧ documents.Has fragment := by
  rcases h.fragment_cases index with absent | ⟨there, rfl, has⟩
  · rw [fragment?_eq_none absent] at found
    cases found
  · rw [has.fragment?_eq] at found
    cases found
    exact ⟨rfl, has⟩

def labelledRows (documents : Documents) (link : Index) (label : String) :
    List (Index × FragmentRow) :=
  (documents.members.toList.filter fun member =>
    member.link == link && member.label == label).filterMap fun member =>
      documents.fragments[member.fragment]?.map fun row => (member.fragment, row)

theorem labelled_eq (link : Index) (label : String) : documents.labelled link label =
    (documents.labelledRows link label).mapM fun entry => entry.2.read entry.1 :=
  rfl

theorem mem_labelledRows {link : Index} {label : String} {row : FragmentRow} :
    (index, row) ∈ documents.labelledRows link label ↔
      ⟨link, label, index⟩ ∈ documents.members ∧ documents.fragments[index]? = some row := by
  simp only [labelledRows, List.mem_filterMap, List.mem_filter, ExtTreeSet.mem_toList,
    Bool.and_eq_true, beq_iff_eq, Option.map_eq_some_iff, Prod.mk.injEq]
  constructor
  · rintro ⟨⟨_, _, _⟩, ⟨member, rfl, rfl⟩, _, found, rfl, rfl⟩
    exact ⟨member, found⟩
  · rintro ⟨member, found⟩
    exact ⟨⟨link, label, index⟩, ⟨member, rfl, rfl⟩, row, found, rfl, rfl⟩

theorem ascending_labelledRows (link : Index) (label : String) :
    Ascending (compareOn Prod.fst) (documents.labelledRows link label) := by
  have ascends : Ascending Member.compare (documents.members.toList.filter fun member =>
      member.link == link && member.label == label) :=
    Ascending.filter ExtTreeSet.ordered_toList _
  refine List.pairwise_filterMap.mpr (List.Pairwise.imp_of_mem ?_ ascends)
  rintro ⟨_, _, index⟩ ⟨_, _, index'⟩ member member' less entry found entry' found'
  -- Members of one link with one label differ by their fragments alone.
  simp only [List.mem_filter, Bool.and_eq_true, beq_iff_eq] at member member'
  obtain ⟨_, rfl, rfl⟩ := member
  obtain ⟨_, rfl, rfl⟩ := member'
  obtain ⟨_, _, rfl⟩ := Option.map_eq_some_iff.mp found
  obtain ⟨_, _, rfl⟩ := Option.map_eq_some_iff.mp found'
  simpa [Member.compare, compareLex, compareOn, ReflCmp.compare_self] using less

theorem Readable.exists_labelled (h : documents.Readable) (link : Index) (label : String) :
    ∃ fragments, documents.labelled link label = .ok fragments ∧
      Ascending (compareOn Fragment.index) fragments ∧
      ∀ fragment, fragment ∈ fragments ↔ documents.Carries link label fragment := by
  have reads : ∀ entry ∈ documents.labelledRows link label, ∃ fragment : Fragment,
      entry.2.read entry.1 = .ok fragment := by
    rintro ⟨index, row⟩ member
    obtain ⟨fragment, rfl, rfl⟩ := h.fragments index row (mem_labelledRows.mp member).2
    exact ⟨fragment, FragmentRow.read_ofFragment fragment⟩
  obtain ⟨fragments, each⟩ := exists_forall₂ reads
  refine ⟨fragments, ?_, ?_, fun fragment => ⟨fun member => ?_, ?_⟩⟩
  · rw [labelled_eq, mapM_eq_ok_of_forall₂ each]
  · exact (ascending_labelledRows link label).of_forall₂ (each.imp fun _ _ => index_eq_of_read)
  · obtain ⟨⟨index, row⟩, inRows, read⟩ := exists_of_forall₂ each.flip member
    obtain ⟨inMembers, found⟩ := mem_labelledRows.mp inRows
    obtain ⟨there, rfl, rfl⟩ := h.fragments index row found
    rw [FragmentRow.read_ofFragment] at read
    cases read
    exact ⟨found, inMembers⟩
  · rintro ⟨has, member⟩
    obtain ⟨other, inFragments, read⟩ := exists_of_forall₂ each (mem_labelledRows.mpr ⟨member, has⟩)
    rw [FragmentRow.read_ofFragment] at read
    cases read
    exact inFragments

theorem HasArc.arcEnds_eq {link : Index} {sourceLabel targetLabel : String} {arc : Arc}
    (h : documents.HasArc link sourceLabel targetLabel arc) (labelOf : ArcRow → String) :
    documents.arcEnds labelOf arc =
      documents.labelled link (labelOf (.ofArc link sourceLabel targetLabel arc)) := by
  rw [arcEnds, show documents.arcs[arc.index]? = _ from h]
  rfl

theorem mem_linksWithRole {role : String} {link : ExtendedLink} :
    link ∈ documents.linksWithRole role ↔
      documents.links[link.index]? = some role ∧ link.role = role := by
  obtain ⟨index, linkRole⟩ := link
  simp only [linksWithRole, List.mem_map, List.mem_filter, beq_iff_eq, Prod.exists,
    ExtTreeMap.mem_toList_iff_getElem?_eq_some, ExtendedLink.mk.injEq]
  constructor
  · rintro ⟨_, _, ⟨found, rfl⟩, rfl, rfl⟩
    exact ⟨found, rfl⟩
  · rintro ⟨found, rfl⟩
    exact ⟨index, linkRole, ⟨found, rfl⟩, rfl, rfl⟩

theorem ascending_linksWithRole (role : String) :
    Ascending (compareOn ExtendedLink.index) (documents.linksWithRole role) :=
  List.pairwise_map.mpr (List.Pairwise.filter _ ExtTreeMap.ordered_keys_toList)

theorem mem_arcRoles {arcRole : String} : arcRole ∈ documents.arcRoles ↔
    ∃ (index : Index) (row : ArcRow), documents.arcs[index]? = some row ∧ row.role = arcRole := by
  simp only [arcRoles, mem_distinct, List.mem_map, Prod.exists,
    ExtTreeMap.mem_toList_iff_getElem?_eq_some]

theorem mem_linkRoles {linkRole : String} : linkRole ∈ documents.linkRoles ↔
    ∃ index : Index, documents.links[index]? = some linkRole := by
  simp only [linkRoles, mem_distinct, List.mem_map, Prod.exists,
    ExtTreeMap.mem_toList_iff_getElem?_eq_some, exists_eq_right]

theorem mem_arcRows {link : Index} {role : String} {row : ArcRow} :
    (index, row) ∈ documents.arcRows link role ↔
      documents.arcs[index]? = some row ∧ row.link = link ∧ row.role = role := by
  simp [arcRows, ExtTreeMap.mem_toList_iff_getElem?_eq_some]

theorem ascending_arcRows (link : Index) (role : String) :
    Ascending (compareOn Prod.fst) (documents.arcRows link role) :=
  List.Pairwise.filter _ ExtTreeMap.ordered_keys_toList

theorem mapM_read_eq_ok {rows : List (Index × ArcRow)} {arcs : List Arc}
    (h : List.Forall₂ ArcRow.Keeps rows arcs) :
    rows.mapM (fun entry => entry.2.readPriority) = .ok (arcs.map Arc.priority) ∧
      (rows.zip (arcs.map Arc.priority)).mapM (fun entry => entry.1.2.read entry.1.1 entry.2) =
        .ok arcs := by
  induction h with
  | nil => exact ⟨rfl, rfl⟩
  | cons keeps _ ih =>
      obtain ⟨link, sourceLabel, targetLabel, rfl⟩ := keeps
      obtain ⟨priorities, read⟩ := ih
      constructor
      · rw [List.mapM_cons, ArcRow.readPriority_ofArc, priorities]
        rfl
      · rw [List.map_cons, List.zip_cons_cons, List.mapM_cons, ArcRow.read_ofArc, read]
        rfl

theorem Readable.exists_arcsInLink (h : documents.Readable) (link : ExtendedLink) (role : String) :
    ∃ arcs, documents.arcsInLink link role = .ok arcs ∧ Ascending (compareOn Arc.index) arcs ∧
      ∀ arc, arc ∈ arcs ↔ arc.role = role ∧
        ∃ sourceLabel targetLabel, documents.HasArc link.index sourceLabel targetLabel arc := by
  have keeps : ∀ entry ∈ documents.arcRows link.index role, ∃ arc, ArcRow.Keeps entry arc :=
    fun entry member => h.arcs entry.1 entry.2 (mem_arcRows.mp member).1
  obtain ⟨arcs, each⟩ := exists_forall₂ keeps
  obtain ⟨priorities, read⟩ := mapM_read_eq_ok each
  refine ⟨arcs, ?_, ?_, fun arc => ⟨fun member => ?_, ?_⟩⟩
  · change ((documents.arcRows link.index role).mapM (fun entry => entry.2.readPriority) >>= _) = _
    rw [priorities]
    exact read
  · refine (ascending_arcRows link.index role).of_forall₂ (each.imp ?_)
    rintro _ arc ⟨_, _, _, rfl⟩
    rfl
  · obtain ⟨_, inRows, _, sourceLabel, targetLabel, rfl⟩ := exists_of_forall₂ each.flip member
    obtain ⟨found, rfl, rfl⟩ := mem_arcRows.mp inRows
    exact ⟨rfl, sourceLabel, targetLabel, found⟩
  · rintro ⟨rfl, sourceLabel, targetLabel, has⟩
    obtain ⟨other, inArcs, keeps⟩ := exists_of_forall₂ each (mem_arcRows.mpr ⟨has, rfl, rfl⟩)
    exact keeps.eq ⟨link.index, sourceLabel, targetLabel, rfl⟩ ▸ inArcs

end Documents

end XbrlNetworks
