import Std.Data.ExtTreeMap
import Std.Data.ExtTreeSet
import XbrlNetworks.Document.Catalogue

/-! # Tables of loaded documents

A loader hands over fragments, extended links, labelled members of links and
arcs between labels.  They are kept in four tables, one row for each index,
as the text they were loaded with; a row is understood only when it is read.
An arc names its ends by labels, and all members of its link with that label
are meant.
-/

namespace XbrlNetworks

/-- One piece of a loaded document. -/
inductive DocumentEntry where
  | fragment (fragment : Fragment)
  | link (link : ExtendedLink)
  /-- A fragment that carries a label inside a link. -/
  | member (link : Index) (label : String) (fragment : Index)
  /-- An arc inside a link, from one label to another. -/
  | arc (link : Index) (sourceLabel targetLabel : String) (arc : Arc)

/-- A fragment as it is kept. -/
structure FragmentRow where
  /-- The name of the kind -/
  kind : String
  target : Option Index
  name : Option String
deriving DecidableEq, Repr

/-- An arc as it is kept. -/
structure ArcRow where
  link : Index
  role : String
  /-- The label of the fragments that the arc leads out of -/
  sourceLabel : String
  /-- The label of the fragments that the arc leads into -/
  targetLabel : String
  order : String
  /-- The priority, of any size -/
  priority : Int
  use : String
  key : String
deriving DecidableEq, Repr

/-- A label that a fragment carries inside a link. -/
structure Member where
  link : Index
  label : String
  fragment : Index
deriving DecidableEq, Repr

protected def Member.compare : Member → Member → Ordering :=
  compareLex (compareOn Member.link)
    (compareLex (compareOn Member.label) (compareOn Member.fragment))

instance : Std.TransCmp Member.compare :=
  inferInstanceAs (Std.TransCmp (compareLex (compareOn Member.link)
    (compareLex (compareOn Member.label) (compareOn Member.fragment))))

instance : Std.LawfulEqCmp Member.compare where
  eq_of_compare {first second} same := by
    obtain ⟨link, label, fragment⟩ := first
    obtain ⟨otherLink, otherLabel, otherFragment⟩ := second
    simpa [Member.compare, compareLex, compareOn, Ordering.then_eq_eq] using same

namespace FragmentRow

def ofFragment (fragment : Fragment) : FragmentRow :=
  ⟨fragment.kind.name, fragment.kind.target?, fragment.name⟩

/-- Understands a row. -/
def read (row : FragmentRow) (index : Index) : Except StoreFault Fragment :=
  match Fragment.Kind.ofParts row.kind row.target with
  | .ok kind => .ok ⟨index, kind, row.name⟩
  | .error flaw => .error (.flawedFragment flaw)

theorem read_ofFragment (fragment : Fragment) :
    (ofFragment fragment).read fragment.index = .ok fragment := by
  simp [read, ofFragment, Fragment.Kind.ofParts_name_target?]

end FragmentRow

namespace ArcRow

def ofArc (link : Index) (sourceLabel targetLabel : String) (arc : Arc) : ArcRow :=
  ⟨link, arc.role, sourceLabel, targetLabel, arc.order.text, arc.priority.toInt, arc.use.text,
    arc.key⟩

/-- The priority of a row, which has to fit in 32 bits. -/
def readPriority (row : ArcRow) : Except StoreFault Int32 :=
  match Arc.priorityOfInt? row.priority with
  | some priority => .ok priority
  | none => .error (.priorityOutOfRange row.priority)

/-- Understands the use and the order of a row, in this order. -/
def read (row : ArcRow) (index : Index) (priority : Int32) : Except StoreFault Arc :=
  match Arc.Use.ofText? row.use with
  | none => .error (.unknownUse row.use)
  | some use =>
    match Arc.Order.ofText? row.order with
    | none => .error (.invalidOrder index row.order)
    | some order => .ok ⟨index, row.role, order, priority, use, row.key⟩

end ArcRow

/-- The tables of loaded documents. -/
structure Documents where
  fragments : Std.ExtTreeMap Index FragmentRow
  /-- The roles of extended links by index -/
  links : Std.ExtTreeMap Index String
  /-- The labels inside links -/
  members : Std.ExtTreeSet Member Member.compare
  arcs : Std.ExtTreeMap Index ArcRow

namespace Documents

def empty : Documents := ⟨∅, ∅, ∅, ∅⟩

def putFragment (documents : Documents) (index : Index) (row : FragmentRow) : Documents :=
  { documents with fragments := documents.fragments.insert index row }

def putArc (documents : Documents) (index : Index) (row : ArcRow) : Documents :=
  { documents with arcs := documents.arcs.insert index row }

/-- Puts one piece of a document.  A fragment, link or arc replaces the one of
    the same index; a label that is there already stays. -/
def put (documents : Documents) : DocumentEntry → Documents
  | .fragment fragment => documents.putFragment fragment.index (.ofFragment fragment)
  | .link link => { documents with links := documents.links.insert link.index link.role }
  | .member link label fragment =>
    { documents with members := documents.members.insert ⟨link, label, fragment⟩ }
  | .arc link sourceLabel targetLabel arc =>
    documents.putArc arc.index (.ofArc link sourceLabel targetLabel arc)

def load (documents : Documents) (entries : List DocumentEntry) : Documents :=
  entries.foldl put documents

def fragment? (documents : Documents) (index : Index) : Except StoreFault (Option Fragment) :=
  match documents.fragments[index]? with
  | none => .ok none
  | some row => (row.read index).map some

def linkRoles (documents : Documents) : List String :=
  distinct (documents.links.toList.map (·.2))

def arcRoles (documents : Documents) : List String :=
  distinct (documents.arcs.toList.map fun (_, row) => row.role)

def linksWithRole (documents : Documents) (role : String) : List ExtendedLink :=
  (documents.links.toList.filter fun (_, linkRole) => linkRole == role).map
    fun (index, linkRole) => ⟨index, linkRole⟩

def arcRows (documents : Documents) (link : Index) (role : String) : List (Index × ArcRow) :=
  documents.arcs.toList.filter fun (_, row) => row.link == link && row.role == role

/-- The arcs in a link that have an arc role, ascending.  The priorities of all
    of them are read before anything else is. -/
def arcsInLink (documents : Documents) (link : ExtendedLink) (role : String) :
    Except StoreFault (List Arc) := do
  let rows := documents.arcRows link.index role
  let priorities ← rows.mapM fun (_, row) => row.readPriority
  (rows.zip priorities).mapM fun ((index, row), priority) => row.read index priority

/-- The fragments that carry a label inside a link, ascending; those that are
    not loaded are left out. -/
def labelled (documents : Documents) (link : Index) (label : String) :
    Except StoreFault (List Fragment) :=
  let carriers := documents.members.toList.filter fun member =>
    member.link == link && member.label == label
  let rows := carriers.filterMap fun member =>
    documents.fragments[member.fragment]?.map fun row => (member.fragment, row)
  rows.mapM fun (index, row) => row.read index

/-- The fragments at one end of an arc, told by which of its labels is meant.
    The arc is looked up by its index alone. -/
def arcEnds (documents : Documents) (labelOf : ArcRow → String) (arc : Arc) :
    Except StoreFault (List Fragment) :=
  match documents.arcs[arc.index]? with
  | none => .error (.unknownArc arc.index)
  | some row => documents.labelled row.link (labelOf row)

def catalogue (documents : Documents) : Catalogue where
  fragment? := documents.fragment?
  linkRoles := .ok documents.linkRoles
  arcRoles := .ok documents.arcRoles
  links role := .ok (documents.linksWithRole role)
  arcs := documents.arcsInLink
  arcSources := documents.arcEnds ArcRow.sourceLabel
  arcTargets := documents.arcEnds ArcRow.targetLabel

end Documents

end XbrlNetworks
