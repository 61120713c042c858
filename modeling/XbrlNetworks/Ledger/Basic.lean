import XbrlNetworks.Ledger.Record

/-! # The ledger of relationships

A ledger is a table with one row for each address.  A record that is put takes its
place among the rows, or overwrites the columns of the row that is there already.
A query is turned into conditions, one for each criterion that it gives, and the
rows that meet all of them are answered in the order in which records are read,
which is not the one in which the rows are kept.
-/

namespace XbrlNetworks

/-- Which records are wanted: those that have what is given here. -/
structure Query where
  arcRole : Option String
  linkRole : Option String
  source : Option Index
  target : Option Index
  rootsOnly : Bool
  withoutProhibited : Bool
deriving DecidableEq, Repr

/-- What a query may ask of a row. -/
inductive Query.Condition where
  | arcRole (role : String)
  | linkRole (role : String)
  | source (index : Index)
  | target (index : Index)
  | root
  | asserts
deriving DecidableEq, Repr

namespace Query

def all : Query := ⟨none, none, none, none, false, false⟩

def ofBaseSet (baseSet : BaseSet) : Query :=
  { all with arcRole := some baseSet.arcRole, linkRole := some baseSet.linkRole }

/-- Whether a record is wanted, told without a table. -/
def selects (query : Query) (record : Record) : Bool :=
  query.arcRole.all (· == record.arcRole) && query.linkRole.all (· == record.linkRole) &&
    query.source.all (· == record.source) && query.target.all (· == record.target) &&
    (!query.rootsOnly || record.root) && (!query.withoutProhibited || !record.prohibited)

namespace Condition

def holds (row : Record) : Condition → Bool
  | arcRole role => row.arcRole == role
  | linkRole role => row.linkRole == role
  | source index => row.source == index
  | target index => row.target == index
  | root => row.root
  | asserts => !row.prohibited

end Condition

/-- The conditions that a query comes to.  One that gives nothing has none. -/
def conditions (query : Query) : List Condition :=
  (query.arcRole.map .arcRole).toList ++ (query.linkRole.map .linkRole).toList ++
    (query.source.map .source).toList ++ (query.target.map .target).toList ++
    (if query.rootsOnly then [.root] else []) ++
    (if query.withoutProhibited then [.asserts] else [])

end Query

/-- Sets every column of a row that is not part of its address. -/
def Record.overwrite (row record : Record) : Record :=
  { row with arc := record.arc, link := record.link, order := record.order,
             priority := record.priority, prohibited := record.prohibited, root := record.root }

/-- The stored records, one row for each address, in the order of the addresses. -/
structure Ledger where
  rows : List Record
  ascending : rows.Pairwise fun row later => row.address.compare later.address = .lt

namespace Ledger

instance : EmptyCollection Ledger := ⟨⟨[], .nil⟩⟩

/-- Puts a record in its place among rows, or overwrites the row that has its address. -/
def upsert (record : Record) : List Record → List Record
  | [] => [record]
  | row :: rows =>
    match record.address.compare row.address with
    | .lt => record :: row :: rows
    | .eq => row.overwrite record :: rows
    | .gt => row :: upsert record rows

theorem address_of_mem_upsert {record row : Record} {rows : List Record}
    (member : row ∈ upsert record rows) :
    row.address = record.address ∨ ∃ old ∈ rows, row.address = old.address := by
  induction rows with
  | nil => exact .inl (congrArg Record.address (List.mem_singleton.mp member))
  | cons first rows ih =>
      rw [upsert] at member
      split at member
      · rcases List.mem_cons.mp member with rfl | old
        · exact .inl rfl
        · exact .inr ⟨row, old, rfl⟩
      · rcases List.mem_cons.mp member with rfl | old
        · exact .inr ⟨first, List.mem_cons_self, rfl⟩
        · exact .inr ⟨row, List.mem_cons_of_mem _ old, rfl⟩
      · rcases List.mem_cons.mp member with rfl | later
        · exact .inr ⟨row, List.mem_cons_self, rfl⟩
        · exact (ih later).imp_right fun ⟨old, inside, same⟩ =>
            ⟨old, List.mem_cons_of_mem _ inside, same⟩

theorem ascending_upsert (record : Record) {rows : List Record}
    (ascending : rows.Pairwise fun row later => row.address.compare later.address = .lt) :
    (upsert record rows).Pairwise fun row later => row.address.compare later.address = .lt := by
  induction ascending with
  | nil => exact List.pairwise_singleton _ _
  | @cons first rows before ascending ih =>
      rw [upsert]
      split
      case h_1 less =>
        refine List.pairwise_cons.mpr ⟨fun row member => ?_, .cons before ascending⟩
        rcases List.mem_cons.mp member with rfl | later
        · exact less
        · exact Std.TransCmp.lt_trans less (before row later)
      case h_2 => exact .cons before ascending
      case h_3 greater =>
        refine .cons (fun row member => ?_) ih
        rcases address_of_mem_upsert member with same | ⟨old, inside, same⟩
        · rw [same]
          exact Std.OrientedCmp.lt_of_gt greater
        · rw [same]
          exact before old inside

def put (ledger : Ledger) (record : Record) : Ledger :=
  ⟨upsert record ledger.rows, ascending_upsert record ledger.ascending⟩

def erase (ledger : Ledger) (address : Record.Address) : Ledger :=
  ⟨ledger.rows.filter fun row => row.address != address, ledger.ascending.filter _⟩

/-- Removes what stands at an address and tells whether that has removed something. -/
def delete (ledger : Ledger) (address : Record.Address) : Bool × Ledger :=
  let left := ledger.erase address
  (left.rows.length < ledger.rows.length, left)

/-- A record stands at its address. -/
instance : GetElem? Ledger Record.Address Record fun ledger address =>
    (ledger.rows.find? fun row => row.address == address).isSome where
  getElem ledger address there := (ledger.rows.find? fun row => row.address == address).get there
  getElem? ledger address := ledger.rows.find? fun row => row.address == address

def contains (ledger : Ledger) (address : Record.Address) : Bool :=
  ledger[address]?.isSome

/-- The records that meet every condition of a query, in reading order. -/
def select (ledger : Ledger) (query : Query) : List Record :=
  sortBy (fun row later => (row.address.readingOrder later.address).isLE)
    (ledger.rows.filter fun row => query.conditions.all (·.holds row))

def records (ledger : Ledger) : List Record :=
  ledger.select .all

def arcRoles (ledger : Ledger) : List String :=
  distinct (ledger.rows.map (·.arcRole))

def linkRoles (ledger : Ledger) (arcRole : String) : List String :=
  let wanted := ledger.rows.filter fun row => row.arcRole == arcRole
  distinct (wanted.map (·.linkRole))

end Ledger

end XbrlNetworks
